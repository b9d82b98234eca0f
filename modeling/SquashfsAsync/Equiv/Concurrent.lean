import SquashfsAsync.Equiv.Image
import SquashfsAsync.Equiv.Trace

/-!
# Concurrent reads

The read system is `System` with the read tasks of the filesystem adaptor
(`SquashFs.readTask`), started from the state `SquashFs::from_reader` leaves.  When the image's
block references agree (`SquashFs.BlocksAgree`: two nonsparse references with one start carry
one size word), each read task keeps to the cache oracle and ends with its uncached outcome
(`transparent_readFile`) and has the shape of a read task (`guarded_readFile`), so
`System.Inv` holds in every reachable state (`inv_of_reachable`).  From it:

* `blocks_of_reachable`: every entry of the decoded-block cache is `block_size` bytes long and
  the decoding of every nonsparse block referenced at its key;
* `finished_of_reachable`: every read that ended, under any interleaving, returned the requested
  bytes of the file, or `InvalidOffset`;
* `readFile_spawn_idle`: a read started when no other is in flight ends, alone, with them.

Without the agreement a fragment block and a data block may share a start, and the entry one
leaves in the cache is served for the other (`readFile_fragment_aliases_block`).

The concrete runs use `envCopy`, whose decoder returns its input, so that the blocks of the
images below are stored as they are.
-/

namespace SquashfsAsync

open System

/-- A decoder that returns its input, and caches that accept any parameters. -/
def envCopy : Env := ⟨fun _ bs => some bs, fun bs => bs.length, fun _ _ _ => true, fun _ _ _ => true⟩

namespace SquashFs

variable (env : Env) (fs : SquashFs)

/-! ### A filesystem of one block -/

/-- A filesystem of one file: four bytes in one block stored as they are, the block cache on. -/
def oneBlock : SquashFs where
  superblock := ⟨0x73717368, 1, 4, 0, .gzip, 0, 4, 0, ⟨0⟩, 4, 0, 0, 0, none⟩
  inodeTable := ⟨.empty, BTreeMap.empty.insert 1 ⟨0, 4, ⟨0xFFFFFFFF, 0⟩, [⟨2 ^ 24 + 4⟩]⟩⟩
  fragmentsTable := ⟨[]⟩
  directoryTables := .empty
  rootInode := 0
  nReaders := 1
  inodeExtra := 2
  directLimit := 0
  cache := true
  smallFilesCache := false
  image := [1, 2, 3, 4]

/-- The one block of `oneBlock` is its only block reference. -/
theorem blocksAgree_oneBlock : oneBlock.BlocksAgree := by
  have hone : ∀ s b, oneBlock.BlockRef ⟨s, b⟩ → b = ⟨2 ^ 24 + 4⟩ := by
    rintro s b (⟨ino, file, hget, hmem⟩ | ⟨e, he, -⟩)
    · simp only [oneBlock, BTreeMap.get?_insert, BTreeMap.get?_empty] at hget
      split_ifs at hget
      cases hget
      simp only [FileInode.dataLocations, FileInode.dataLocations.go, List.mem_singleton,
        DataLocation.mk.injEq] at hmem
      exact hmem.2
    · cases he
  exact fun s b b' h h' _ _ => (hone s b h).trans (hone s b' h').symm

/-! ### The invariant of the read system -/

/-- Every state a run of reads reaches keeps to the cache oracle, and each read, running or
ended, ends with its uncached outcome. -/
theorem inv_of_reachable (hagree : fs.BlocksAgree) {st : System ReadArgs Bytes}
    (hst : Reachable (fs.readTask env) (System.init fs) st) :
    Inv (fs.cacheOracle env) fs.cache (fun a r => r = (fs.readTask env a).uncached) st :=
  Inv.reachable (fun (a : ReadArgs) =>
    ⟨(fs.transparent_readFile env hagree a.inode a.offset a.size a.flags).sat rfl,
      true, true, fs.guarded_readFile env a.inode a.offset a.size a.flags _⟩) hst

/-- **The decoded-block cache.**  In every state reached by any interleaving of reads, an entry
under the key `s` is `block_size` bytes long; some nonsparse block starts at `s`, and the entry is
the decoding of each of them, so a sparse block never leaves an entry. -/
theorem blocks_of_reachable (hagree : fs.BlocksAgree) {st : System ReadArgs Bytes}
    (hst : Reachable (fs.readTask env) (System.init fs) st) {s : Nat} {d : Bytes}
    (hd : st.blocks s = some d) :
    d.length = fs.superblock.blockSize ∧ (∃ b, fs.BlockRef ⟨s, b⟩ ∧ b.compressedSize ≠ 0) ∧
      ∀ b, fs.BlockRef ⟨s, b⟩ → b.compressedSize ≠ 0 → fs.decodeBlock env s b = some d := by
  obtain ⟨b, href, h0, hdec⟩ := (fs.inv_of_reachable env hagree hst).blocks s d hd
  exact ⟨fs.length_decodeBlock env hdec, ⟨b, href, h0⟩,
    fun b' href' h0' => hagree s b b' href href' h0 h0' ▸ hdec⟩

theorem blocks_of_reachable_oneBlock :
    ((runActions (oneBlock.readTask envCopy) (System.init oneBlock)
        [.spawn ⟨1, 0, 4, 0⟩, .run 0, .run 0, .run 0, .run 0, .run 0]).getD
        (System.init oneBlock)).blocks 0 = some [1, 2, 3, 4] ∧
    ([1, 2, 3, 4] : Bytes).length = oneBlock.superblock.blockSize ∧
      (∃ b, oneBlock.BlockRef ⟨0, b⟩ ∧ b.compressedSize ≠ 0) ∧
      ∀ b, oneBlock.BlockRef ⟨0, b⟩ → b.compressedSize ≠ 0 →
        oneBlock.decodeBlock envCopy 0 b = some [1, 2, 3, 4] :=
  ⟨by decide, blocks_of_reachable envCopy oneBlock blocksAgree_oneBlock
    (@reachable_getD _ _ _ _ [.spawn ⟨1, 0, 4, 0⟩, .run 0, .run 0, .run 0, .run 0, .run 0]
      (by decide)) (by decide)⟩

/-- **Reads that ended.**  Under any interleaving, a read of a readable file that ended
returned `InvalidOffset` past the end, and otherwise the requested bytes of the file's content. -/
theorem finished_of_reachable (hagree : fs.BlocksAgree) {st : System ReadArgs Bytes}
    (hst : Reachable (fs.readTask env) (System.init fs) st) {x : Nat × ReadArgs × Except (Fault Error) Bytes}
    (hx : x ∈ st.finished) {file : FileInode} (hfile : fs.inodeTable.files.get? x.2.1.inode = some file)
    (hf : fs.ReadableFile env file) {w : Bytes} (hw : fs.content env file = some w) :
    x.2.2 = if file.fileSize < x.2.1.offset then .error (.error .invalidOffset)
      else .ok ((w.drop x.2.1.offset).take (min x.2.1.size (file.fileSize - x.2.1.offset))) := by
  rw [(fs.inv_of_reachable env hagree hst).finished x hx, readTask,
    fs.readFile_uncached env hfile hf hw]

/-- **A read on an idle system.**  After any run of earlier reads, a read started when none is in
flight runs to its end alone and returns `InvalidOffset` past the end of the file, and otherwise
the requested bytes of its content, whichever path serves it. -/
theorem readFile_spawn_idle (hagree : fs.BlocksAgree) (hn : 0 < fs.nReaders)
    {st : System ReadArgs Bytes} (hst : Reachable (fs.readTask env) (System.init fs) st)
    (hidle : st.tasks = []) (a : ReadArgs) {file : FileInode}
    (hfile : fs.inodeTable.files.get? a.inode = some file) (hf : fs.ReadableFile env file)
    {w : Bytes} (hw : fs.content env file = some w) :
    ∃ n st', runActions (fs.readTask env) st (.spawn a :: List.replicate n (.run st.nextId)) =
        some st' ∧ st'.tasks = [] ∧
      st'.finished = st.finished ++ [(st.nextId, a,
        if file.fileSize < a.offset then .error (.error .invalidOffset)
        else .ok ((w.drop a.offset).take (min a.size (file.fileSize - a.offset))))] := by
  have hload : ∀ ino, st.files ino ≠ .loading := fun ino h => by
    obtain ⟨t, ht, -⟩ := (fs.inv_of_reachable env hagree hst).loading ino h
    simp [hidle] at ht
  obtain ⟨n, r, st', hrun, htasks, hfin⟩ :=
    @ends_spawn _ _ (fs.readTask env) fs.cache a
      (fs.guarded_readFile env a.inode a.offset a.size a.flags _) st hidle hload
      (by rw [nReaders_reachable hst]; exact hn)
  have hr := fs.finished_of_reachable env hagree (reachable_of_runActions hst hrun)
    (x := (st.nextId, a, r)) (by simp [hfin]) hfile hf hw
  exact ⟨n, st', hrun, htasks, by rw [hfin, ← hr]⟩

theorem readFile_spawn_idle_oneBlock :
    ∃ n st', runActions (oneBlock.readTask envCopy) (System.init oneBlock)
        (.spawn ⟨1, 1, 8, 0⟩ :: List.replicate n (.run 0)) = some st' ∧ st'.tasks = [] ∧
      st'.finished = [(0, ⟨1, 1, 8, 0⟩, .ok [2, 3, 4])] :=
  readFile_spawn_idle envCopy oneBlock blocksAgree_oneBlock (by decide) .init rfl ⟨1, 1, 8, 0⟩ rfl
    ⟨by decide, by decide, rfl, by decide, by decide, ⟨_, rfl⟩, nofun, nofun⟩
    (w := [1, 2, 3, 4]) rfl

/-! ### Block references that disagree -/

/-- A 164-byte image with block size 4 and one file of six bytes, its data block the four bytes
at 160, its tail in a fragment block of two bytes that also starts at 160, at fragment offset 2. -/
def aliasImage : Bytes :=
  SuperBlock.encode ⟨0x73717368, 1, 4, 1, .gzip, 0, 4, 0, ⟨0⟩, 164, 96, 134, 152, none⟩ ++
    MetadataBlock.encodeUncompressed
      (InodeTable.InodeRecord.basicFile ⟨0, 0, 0, 0⟩ 1 ⟨160, 6, ⟨0, 2⟩, [⟨2 ^ 24 + 4⟩]⟩).encode ++
    MetadataBlock.encodeUncompressed (leBytes 8 160 ++ leBytes 4 (2 ^ 24 + 2) ++ leBytes 4 0) ++
    leBytes 8 134 ++ [1, 2, 3, 4]

set_option maxRecDepth 100000 in
/-- The loader accepts `aliasImage` with the block cache on.  The file's content is its block and
the zero-padded fragment block past the offset; the read decodes the data block, caches it under
160, finds it there for the fragment block, and returns its last two bytes as the tail. -/
theorem readFile_fragment_aliases_block :
    (fromReader envCopy ⟨1, 1, 0, by decide, by decide, by decide⟩ aliasImage).map
        (fun fs => (fs.inodeTable.files.get? 1, fs.fragmentsTable.entries)) =
      .ok (some ⟨160, 6, ⟨0, 2⟩, [⟨2 ^ 24 + 4⟩]⟩, [⟨160, ⟨2 ^ 24 + 2⟩⟩]) ∧
    (fromReader envCopy ⟨1, 1, 0, by decide, by decide, by decide⟩ aliasImage).map
        (fun fs => (fs.inodeTable.files.get? 1).bind (fs.content envCopy)) =
      .ok (some [1, 2, 3, 4, 0, 0]) ∧
    (fromReader envCopy ⟨1, 1, 0, by decide, by decide, by decide⟩ aliasImage).map (fun fs =>
        (runActions (fs.readTask envCopy) (System.init fs)
          (.spawn ⟨1, 0, 6, 0⟩ :: List.replicate 7 (.run 0))).map (·.finished.map (·.2.2))) =
      .ok (some [.ok [1, 2, 3, 4, 3, 4]]) :=
  ⟨by decide, by decide, by decide⟩

/-! ### Images the loader accepts -/

set_option maxRecDepth 100000 in
/-- A 160-byte image with block size 16 and one file of four bytes, stored in the fragment block
at 156 at fragment offset 100, past the end of the decoded block.  The loader accepts it; the
read splits the decoded fragment block at the offset, and panics. -/
theorem readFile_fragment_offset_panics :
    (fromReader envCopy ⟨0, 1, 0, by decide, by decide, by decide⟩
      (SuperBlock.encode ⟨0x73717368, 1, 16, 1, .gzip, 0, 4, 0, ⟨0⟩, 160, 96, 130, 148, none⟩ ++
        MetadataBlock.encodeUncompressed
          (InodeTable.InodeRecord.basicFile ⟨0, 0, 0, 0⟩ 1 ⟨156, 4, ⟨0, 100⟩, []⟩).encode ++
        MetadataBlock.encodeUncompressed (leBytes 8 156 ++ leBytes 4 (2 ^ 24 + 4) ++ leBytes 4 0) ++
        leBytes 8 130 ++ [1, 2, 3, 4])).map (fun fs =>
      (runActions (fs.readTask envCopy) (System.init fs)
        (.spawn ⟨1, 0, 4, 0⟩ :: List.replicate 5 (.run 0))).map (·.finished.map (·.2.2))) =
      .ok (some [.error (.panic .outOfBounds)]) := by
  decide

/-! ### Decompressions -/

/-- **Decompressions follow misses.**  With the block cache on, in every state reached by any
interleaving of reads, each decompression of a block by a read comes right after that read's
own lookup of the block missed. -/
theorem decompress_after_miss (hcache : fs.cache = true) {st : System ReadArgs Bytes}
    (hst : Reachable (fs.readTask env) (System.init fs) st) (id s : Nat) (pre post : List Event)
    (h : st.trace.filter (·.task = id) = pre ++ .decompress id s :: post) :
    pre.getLast? = some (.lookup id s false) :=
  (TraceInv.reachable (fun (a : ReadArgs) =>
    ⟨true, true, hcache ▸ fs.guarded_readFile env a.inode a.offset a.size a.flags _⟩) hst).missBefore
    id pre s post h

theorem decompress_after_miss_oneBlock :
    ((runActions (oneBlock.readTask envCopy) (System.init oneBlock)
        [.spawn ⟨1, 0, 4, 0⟩, .run 0, .run 0, .run 0, .run 0]).getD (System.init oneBlock)).trace =
      [.lookup 0 0 false, .decompress 0 0] ∧
    [Event.lookup 0 0 false].getLast? = some (.lookup 0 0 false) :=
  ⟨by decide, decompress_after_miss envCopy oneBlock rfl
    (@reachable_getD _ _ _ _ [.spawn ⟨1, 0, 4, 0⟩, .run 0, .run 0, .run 0, .run 0] (by decide))
    0 0 [.lookup 0 0 false] [] (by decide)⟩

/-- A 138-byte image with block size 16 and one file of sixteen bytes in one block, four bytes
at 134 stored as they are; the loader makes no pool for `O_DIRECT`. -/
def blockImage : Bytes :=
  SuperBlock.encode ⟨0x73717368, 1, 16, 0, .gzip, 0, 4, 0, ⟨0⟩, 138, 96, 134, 134, none⟩ ++
    MetadataBlock.encodeUncompressed (InodeTable.InodeRecord.basicFile ⟨0, 0, 0, 0⟩ 1
      ⟨134, 16, ⟨0xFFFFFFFF, 0⟩, [⟨2 ^ 24 + 4⟩]⟩).encode ++ [1, 2, 3, 4]

set_option maxRecDepth 100000 in
/-- Two reads of the file of `blockImage` with the same arguments, the block cache on: each looks
the block up and misses before either decompresses it, and both decompress it. -/
theorem readFile_same_args_decompress_twice :
    (fromReader envCopy ⟨1, 2, 0, by decide, by decide, by decide⟩ blockImage).map (fun fs =>
      (runActions (fs.readTask envCopy) (System.init fs)
        [.spawn ⟨1, 0, 16, 0⟩, .spawn ⟨1, 0, 16, 0⟩, .run 0, .run 0, .run 0, .run 1, .run 1, .run 1,
          .run 0, .run 1]).map (·.trace)) =
      .ok (some [.lookup 0 134 false, .lookup 1 134 false, .decompress 0 134, .decompress 1 134]) := by
  decide

/-! ### Pools of readers -/

set_option maxRecDepth 100000 in
/-- Two reads with `O_DIRECT` of the file of `blockImage`, one reader a pool: both find no pool
for the flags under the read lock, then each creates one under the write lock, the second
replacing the first in the map.  Each read checks out the reader of its own pool, so two readers
for one flag set are out at once. -/
theorem getReader_race_two_pools :
    (fromReader envCopy ⟨0, 1, 0, by decide, by decide, by decide⟩ blockImage).map (fun fs =>
      (runActions (fs.readTask envCopy) (System.init fs)
        [.spawn ⟨1, 0, 16, oDirect⟩, .spawn ⟨1, 0, 16, oDirect⟩, .run 0, .run 1, .run 0, .run 0,
          .run 1, .run 1]).map fun st => (st.pools, st.readers oDirect, st.tasks.map (·.held))) =
      .ok (some ([0, oNonblock, oDirect, oDirect], some 3, [[2], [3]])) := by
  decide

end SquashFs

end SquashfsAsync
