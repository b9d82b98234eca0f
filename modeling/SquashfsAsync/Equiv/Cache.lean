import SquashfsAsync.Equiv.Read

/-!
# Hits of the caches change nothing

A read task sees the caches through their answers: a hit of the decoded-block cache, the result
of another task's producer of a whole-file entry.  When every answer is what the oracle
`SquashFs.cacheOracle` allows, and every insertion and publication the task makes is too, the
task returns what it returns when the caches never hit (`Prog.Transparent`):

* an entry of the decoded-block cache under `s` is the decoding of a block that starts at `s`,
  of nonzero size, named by a data location of a file or by an entry of the fragments table
  (`SquashFs.BlockRef`);
* a whole-file entry of an inode is the result its producer computes without hits
  (`SquashFs.wholeFileRun`).

The first needs the image to name every start with one size word (`SquashFs.BlocksAgree`): a
hit then hands back the bytes a miss would decode.

* `transparent_readFile`: every `read_file` of the filesystem adaptor is transparent.
* `guarded_readFile`: its shape (`Prog.Guarded`).

The proofs follow the functions of `data.rs` one lemma each, composed with `Transparent.bind`.
-/

namespace SquashfsAsync

variable (env : Env)

namespace FileInode

theorem dataLocationsPrefix_ok {E : Type} {start : Nat} {bs : List BlockSize} {k : Nat}
    {ls : List DataLocation} (h : (dataLocationsPrefix start bs k : Run E _) = .ok ls) :
    ls = (dataLocations.go start bs).take k := by
  induction bs generalizing start k ls with
  | nil => cases k <;> cases h <;> rfl
  | cons b bs ih =>
    cases k with
    | zero => cases h; rfl
    | succ k =>
      obtain ⟨n, hn, h⟩ := Run.bind_eq_ok.mp h
      obtain ⟨rest, hr, h⟩ := Run.bind_eq_ok.mp h
      cases h
      rw [ih hr, eq_of_addChecked hn]
      rfl

end FileInode

theorem eq_sum_of_sumChecked {E : Type} {s : Nat} :
    ∀ {xs : List Nat}, (sumChecked xs : Run E Nat) = .ok s → s = xs.sum
  | [], h => by cases h; rfl
  | x :: xs, h => by
    obtain ⟨t, ht, h⟩ := Run.bind_eq_ok.mp h
    rw [eq_of_addChecked h, eq_sum_of_sumChecked ht, List.sum_cons]

namespace SquashFs

variable (fs : SquashFs)

/-! ### Block references and the oracle -/

/-- A block the image names: a data location of a file, or the block of a fragments-table
entry. -/
def BlockRef (l : DataLocation) : Prop :=
  (∃ ino file, fs.inodeTable.files.get? ino = some file ∧ l ∈ file.dataLocations) ∨
    ∃ e ∈ fs.fragmentsTable.entries, l = ⟨e.start, e.size⟩

/-- Any two block references with one start and a nonzero size carry the same size word. -/
def BlocksAgree : Prop :=
  ∀ s b b', fs.BlockRef ⟨s, b⟩ → fs.BlockRef ⟨s, b'⟩ → b.compressedSize ≠ 0 →
    b'.compressedSize ≠ 0 → b = b'

/-- The block references, listed: the data locations of every file, then the blocks of the
fragments table. -/
def blockRefs : List DataLocation :=
  fs.inodeTable.files.entries.flatMap (fun p => p.2.dataLocations) ++
    fs.fragmentsTable.entries.map fun e => ⟨e.start, e.size⟩

theorem blockRef_iff {l : DataLocation} : fs.BlockRef l ↔ l ∈ fs.blockRefs := by
  simp only [BlockRef, blockRefs, BTreeMap.get?_eq_some_iff, List.mem_append, List.mem_flatMap,
    List.mem_map, Prod.exists, eq_comm (a := l)]

/-- Whether the block references agree is checked over the list of them. -/
instance : Decidable fs.BlocksAgree :=
  decidable_of_iff (∀ l ∈ fs.blockRefs, ∀ l' ∈ fs.blockRefs, l.blockStart = l'.blockStart →
      l.blockSize.compressedSize ≠ 0 → l'.blockSize.compressedSize ≠ 0 → l.blockSize = l'.blockSize)
    ⟨fun h s b b' hb hb' => h _ ((blockRef_iff fs).mp hb) _ ((blockRef_iff fs).mp hb') rfl,
      fun h ⟨s, b⟩ hl ⟨s', b'⟩ hl' hs => by
        cases hs
        exact h s b b' ((blockRef_iff fs).mpr hl) ((blockRef_iff fs).mpr hl')⟩

/-- What the producer of a file's whole-file entry computes, from the file alone: the prelude of
the whole-file path, then the producer. -/
def wholeFileRun (file : FileInode) : Prog (Except Error Bytes) := do
  let firsts ← Prog.lift (FileInode.dataLocationsPrefix file.blocksStart file.blockSizes 1)
  let first ← Prog.lift (unwrap firsts.head?)
  let all ← Prog.lift (FileInode.dataLocationsPrefix file.blocksStart file.blockSizes
    file.blockSizes.length)
  let totSize ← Prog.lift (sumChecked (all.map fun l => l.blockSize.compressedSize))
  wholeFileProducer env fs file first totSize oDirect fs.superblock.compression

/-- The entries the caches of a filesystem may hold: a decoded-block entry is the decoding of a
referenced block of nonzero size that starts there, a whole-file entry is what the inode's
producer computes without hits. -/
def cacheOracle : Oracle where
  block s d := ∃ b, fs.BlockRef ⟨s, b⟩ ∧ b.compressedSize ≠ 0 ∧ fs.decodeBlock env s b = some d
  file ino r := ∃ file, fs.inodeTable.files.get? ino = some file ∧
    (fs.wholeFileRun env file).uncached = .ok r

theorem blockRef_of_mem {ino : Nat} {file : FileInode} (hfile : fs.inodeTable.files.get? ino = some file)
    {l : DataLocation} (hl : l ∈ file.dataLocations) : fs.BlockRef l :=
  .inl ⟨ino, file, hfile, hl⟩

theorem blockRef_of_entry {loc : FragmentLocation} {e : Fragments.Entry}
    (he : fs.fragmentsTable.entry loc = .ok e) : fs.BlockRef ⟨e.start, e.size⟩ := by
  unfold FragmentsTable.entry at he
  split_ifs at he
  split at he
  · cases he
    exact .inr ⟨e, List.get?_mem ‹_›, rfl⟩
  · cases he

/-! ### One block -/

/-- The miss path is transparent when the buffer it would insert is allowed. -/
theorem transparent_decompressBlock {O : Oracle} {src : Bytes} {pos start : Nat} {b : BlockSize}
    {buf : Bytes} {cache : Bool} {c : Compression}
    (hins : cache = true → ∀ out, decompress env (readerAt src pos) b.compressedSize
      (some buf.length) (b.algo c) = .ok out → O.block start (out ++ buf.drop out.length)) :
    (decompressBlock env src pos start b buf cache c).Transparent O := by
  simp only [decompressBlock, Prog.cmd_bind]
  refine .exec_unit trivial (fun _ => rfl) (.bind (.lift _) fun out hout => ?_)
  rw [Prog.uncached_lift, Run.ofExcept_eq_ok] at hout
  cases cache
  · exact .bind (.done _) fun _ _ => .done _
  · have hc : (Cmd.blockInsert start (out ++ buf.drop out.length)).Obliged O := hins rfl out hout
    exact .bind (.exec_unit hc (fun _ => rfl) (.done _)) fun _ _ => .done _

variable {fs}

/-- **A block read.**  A referenced block, read into a zeroed part through a reader that gives
the image's bytes, is transparent: an entry found under its start is its decoding. -/
theorem transparent_readDataBlock (hagree : fs.BlocksAgree) {src : Bytes} {ro start : Nat}
    {b : BlockSize} (href : fs.BlockRef ⟨start, b⟩) (hr : fs.Reads src ro ⟨start, b⟩)
    (cache : Bool) :
    (readDataBlock env src ro start b (List.replicate fs.superblock.blockSize 0) cache
      fs.superblock.compression).Transparent (fs.cacheOracle env) := by
  by_cases h0 : b.compressedSize = 0
  · simp only [readDataBlock, subChecked_of_le hr.1, h0, Prog.lift_ok, Prog.bind_done, if_true]
    exact .done _
  have hmiss : (decompressBlock env src (start - ro) start b
      (List.replicate fs.superblock.blockSize 0) cache fs.superblock.compression).Transparent
      (fs.cacheOracle env) := by
    refine transparent_decompressBlock env fun _ out hout => ⟨b, href, h0, ?_⟩
    rw [List.length_replicate, fs.decompress_of_reads env hr] at hout
    simp [decodeBlock, h0, hout]
  cases cache
  · simpa [readDataBlock, subChecked_of_le hr.1, h0] using hmiss
  · simp only [readDataBlock, subChecked_of_le hr.1, h0, Prog.lift_ok, Prog.bind_done, if_false,
      if_true]
    refine .exec trivial fun r hhit => ?_
    cases r with
    | none => exact ⟨rfl, hmiss⟩
    | some d =>
      obtain ⟨b', href', h0', hd⟩ := hhit
      obtain rfl := hagree start b' b href' href h0' h0
      have hlen : d.length = (List.replicate fs.superblock.blockSize (0 : UInt8)).length := by
        rw [fs.length_decodeBlock env hd, List.length_replicate]
      simp only [hlen, ne_eq, not_true_eq_false, if_false]
      exact ⟨(fs.decompressBlock_uncached_of_decodeBlock env hr h0 hd true).symm, .done _⟩

/-! ### The block loop, the fragment and `read_file_impl` -/

variable (fs)

/-- Without hits the block loop leaves the parts past the locations as they were. -/
theorem readBlocks_uncached_ok {src : Bytes} {ro : Nat} {c : Compression} :
    ∀ {locs : List DataLocation} {ps qs : List Bytes},
      (readBlocks env fs src ro c locs ps).uncached = .ok qs →
      ∃ ds, ds.length = min locs.length ps.length ∧ qs = ds ++ ps.drop locs.length
  | [], ps, qs, h => by cases h; exact ⟨[], by simp, by simp⟩
  | l :: ls, [], qs, h => by cases h; exact ⟨[], by simp, by simp⟩
  | l :: ls, p :: ps, qs, h => by
    obtain ⟨d, -, h⟩ := Prog.uncached_bind_eq_ok.mp h
    obtain ⟨qs', hqs', h⟩ := Prog.uncached_bind_eq_ok.mp h
    obtain ⟨ds, hlen, rfl⟩ := readBlocks_uncached_ok hqs'
    cases h
    exact ⟨d :: ds, by simp only [List.length_cons, hlen]; omega, rfl⟩

variable {fs}

theorem transparent_readBlocks (hagree : fs.BlocksAgree) {src : Bytes} {ro : Nat} :
    ∀ (locs : List DataLocation) (n : Nat), (∀ l ∈ locs, fs.BlockRef l ∧ fs.Reads src ro l) →
      (readBlocks env fs src ro fs.superblock.compression locs
        (List.replicate n (List.replicate fs.superblock.blockSize 0))).Transparent
        (fs.cacheOracle env)
  | [], _, _ => .done _
  | _ :: _, 0, _ => .done _
  | l :: ls, n + 1, h => by
    rw [List.forall_mem_cons] at h
    rw [List.replicate_succ, readBlocks]
    exact .bind (transparent_readDataBlock env hagree h.1.1 h.1.2 fs.cache) fun _ _ =>
      .bind (transparent_readBlocks hagree ls n h.2) fun _ _ => .done _

theorem transparent_readFragment (hagree : fs.BlocksAgree) {file : FileInode} {src : Bytes}
    {ro : Nat} (hfr : ∀ e, fs.fragmentsTable.entry file.fragment = .ok e →
      fs.Reads src ro ⟨e.start, e.size⟩)
    {parts : List Bytes} (hlast : parts.getLast? = some (List.replicate fs.superblock.blockSize 0)) :
    (readFragment env fs file src ro fs.superblock.compression parts).Transparent
      (fs.cacheOracle env) := by
  simp only [readFragment, hlast, unwrap, Prog.lift_ok, Prog.bind_done]
  refine .bind (.lift _) fun e he => ?_
  rw [Prog.uncached_lift, Run.ofExcept_eq_ok] at he
  exact .bind (transparent_readDataBlock env hagree (fs.blockRef_of_entry he) (hfr e he) fs.cache)
    fun _ _ => .bind (.lift _) fun _ _ => .done _

theorem transparent_completeParts (hagree : fs.BlocksAgree) {file : FileInode} {src : Bytes}
    {ro : Nat} (hfr : ∀ e, fs.fragmentsTable.entry file.fragment = .ok e →
      fs.Reads src ro ⟨e.start, e.size⟩)
    {n m : Nat} (ds : List Bytes) :
    (completeParts env fs file src ro fs.superblock.compression n m
      (ds ++ (List.replicate n (List.replicate fs.superblock.blockSize 0)).drop m)).Transparent
      (fs.cacheOracle env) := by
  unfold completeParts
  split_ifs with h₁ h₂
  · exact .bind (.fail _) nofun
  · refine .bind (.done _) fun _ _ => transparent_readFragment env hagree hfr ?_
    obtain rfl : n = m + 1 := by omega
    simp [List.drop_replicate]
  · exact .done _

/-- **`read_file_impl`** of a file of the table, through a reader that gives the image's bytes
of the file's blocks and fragment, is transparent. -/
theorem transparent_readFileImpl (hagree : fs.BlocksAgree) {ino : Nat} {file : FileInode}
    (hfile : fs.inodeTable.files.get? ino = some file) {src : Bytes} {ro : Nat}
    (hr : ∀ l ∈ file.dataLocations, fs.Reads src ro l)
    (hfr : ∀ e, fs.fragmentsTable.entry file.fragment = .ok e → fs.Reads src ro ⟨e.start, e.size⟩)
    (offset size : Nat) :
    (readFileImpl env fs file src ro offset size fs.superblock.compression).Transparent
      (fs.cacheOracle env) := by
  unfold readFileImpl
  refine .bind (.lift _) fun _ _ => .bind (.lift _) fun _ _ => .bind (.lift _) fun _ _ =>
    .bind (.lift _) fun locs hlocs => ?_
  rw [Prog.uncached_lift] at hlocs
  have hmem : ∀ l ∈ locs, fs.BlockRef l ∧ fs.Reads src ro l := fun l hl => by
    rw [FileInode.dataLocationsPrefix_ok hlocs] at hl
    exact ⟨fs.blockRef_of_mem hfile (List.mem_of_mem_take hl), hr l (List.mem_of_mem_take hl)⟩
  refine .bind (transparent_readBlocks env hagree _ _ fun l hl =>
    hmem l (List.mem_of_mem_drop (List.mem_of_mem_take hl))) fun parts hparts => ?_
  obtain ⟨ds, -, rfl⟩ := readBlocks_uncached_ok env fs hparts
  refine .bind (transparent_completeParts env hagree hfr ds) fun _ _ =>
    .bind (.lift _) fun _ _ => .bind (.lift _) fun _ _ => ?_
  dsimp only
  split_ifs
  · exact .bind (.fail _) nofun
  · exact .bind (.done _) fun _ _ => .done _

/-! ### The paths of `read_file` -/

/-- The pool a checkout returns is the only answer a run without hits does not give; a
continuation that does not look at it is transparent after the checkout. -/
theorem transparent_getReader_bind {O : Oracle} {β : Type} (flags : ReadFlags) {g : Nat → Prog β}
    (hg : ∀ p, (g p).Transparent O) (hu : ∀ p, (g p).uncached = (g 0).uncached) :
    (getReader flags >>= g).Transparent O := by
  simp only [getReader, Prog.cmd_bind, Prog.bind_exec]
  refine Prog.Sat.exec trivial fun present _ => ?_
  cases present
  · exact .exec trivial fun _ _ => .exec trivial fun p _ => (hg p).sat (hu p)
  · exact .exec trivial fun p _ => (hg p).sat (hu p)

/-- The producer, on the span of a file without a fragment that starts at its first block and
covers all its blocks. -/
theorem transparent_wholeFileProducer (hagree : fs.BlocksAgree) {ino : Nat} {file : FileInode}
    (hfile : fs.inodeTable.files.get? ino = some file) (hv : file.fragment.valid = false)
    {first : DataLocation} (hfirst : first.blockStart = file.blocksStart) {totSize : Nat}
    (htot : totSize = (file.blockSizes.map BlockSize.compressedSize).sum) (flags : ReadFlags) :
    (wholeFileProducer env fs file first totSize flags fs.superblock.compression).Transparent
      (fs.cacheOracle env) := by
  unfold wholeFileProducer
  refine transparent_getReader_bind flags (fun p => .bind (.catchErr ?_) fun _ _ =>
    .exec_unit trivial (fun _ => rfl) (.done _)) fun p => by
      rw [Prog.uncached_bind, Prog.uncached_bind]; rfl
  refine .bind (.lift _) fun ⟨span, rest⟩ hspan => ?_
  rw [Prog.uncached_lift, Run.ofExcept_eq_ok] at hspan
  have hspan := Stream.readExact_ok hspan
  simp only [Stream.ofBytes, hfirst, htot] at hspan
  subst hspan
  rw [hfirst]
  exact transparent_readFileImpl env hagree hfile (fun l hl => fs.reads_span hl)
    (fun e he => by simp [FragmentsTable.entry, hv] at he) _ _

/-- The facts the prelude of the whole-file path establishes: the first location starts at the
file's first block, and the span covers all the blocks. -/
theorem wholeFile_prelude {file : FileInode} {firsts all : List DataLocation}
    {first : DataLocation} {totSize : Nat}
    (h₁ : (FileInode.dataLocationsPrefix file.blocksStart file.blockSizes 1 : Run Error _) =
      .ok firsts) (h₂ : (unwrap firsts.head? : Run Error _) = .ok first)
    (h₃ : (FileInode.dataLocationsPrefix file.blocksStart file.blockSizes file.blockSizes.length :
      Run Error _) = .ok all)
    (h₄ : (sumChecked (all.map fun l => l.blockSize.compressedSize) : Run Error _) = .ok totSize) :
    first.blockStart = file.blocksStart ∧
      totSize = (file.blockSizes.map BlockSize.compressedSize).sum := by
  rw [FileInode.dataLocationsPrefix_ok h₁] at h₂
  rw [FileInode.dataLocationsPrefix_ok h₃, List.take_of_length_le
    (Nat.le_of_eq (FileInode.length_dataLocationsGo _ _))] at h₄
  refine ⟨?_, ?_⟩
  · cases h : file.blockSizes with
    | nil => simp [h, FileInode.dataLocations.go, unwrap, panic] at h₂
    | cons b bs =>
      simp only [h, FileInode.dataLocations.go, List.take_succ_cons, List.head?_cons, unwrap] at h₂
      cases h₂
      rfl
  · rw [eq_sum_of_sumChecked h₄, FileInode.map_compressedSize_dataLocationsGo]

/-- **The whole-file path** of a file without a fragment is transparent: a ready or published
entry is what this task's producer would compute. -/
theorem transparent_readWholeFile (hagree : fs.BlocksAgree) {ino : Nat} {file : FileInode}
    (hfile : fs.inodeTable.files.get? ino = some file) (hv : file.fragment.valid = false)
    (offset size : Nat) (flags : ReadFlags) :
    (readWholeFile env fs ino file offset size flags fs.superblock.compression).Transparent
      (fs.cacheOracle env) := by
  unfold readWholeFile
  refine .bind (.lift _) fun firsts h₁ => .bind (.lift _) fun first h₂ => .bind (.lift _)
    fun all h₃ => .bind (.lift _) fun totSize h₄ => ?_
  rw [Prog.uncached_lift] at h₁ h₂ h₃ h₄
  obtain ⟨hfirst, htot⟩ := wholeFile_prelude h₁ h₂ h₃ h₄
  have hrun : (fs.wholeFileRun env file).uncached = (wholeFileProducer env fs file first totSize
      (flags ||| oDirect) fs.superblock.compression).uncached := by
    simp only [wholeFileRun, h₁, h₂, h₃, h₄, Prog.lift_ok, Prog.bind_done]
    rfl
  have hprod := transparent_wholeFileProducer env hagree hfile hv hfirst htot (flags ||| oDirect)
  have hrest : ∀ r : Except Error Bytes, (match r with
      | .error e => Prog.fail (.error (.cacheProducerError e))
      | .ok data =>
        if offset + size ≤ data.length then pure ((data.drop offset).take size)
        else Prog.fail (.panic .outOfBounds)).Transparent (fs.cacheOracle env) := by
    rintro (e | data)
    · exact .fail _
    · dsimp only
      split_ifs
      · exact .done _
      · exact .fail _
  simp only [Prog.cmd_bind, Prog.bind_exec]
  refine .exec trivial fun ans hans => ?_
  cases ans with
  | produce =>
    refine ⟨rfl, .bind hprod fun r hr => ?_⟩
    have hc : (Cmd.filePublish ino r).Obliged (fs.cacheOracle env) := ⟨file, hfile, hrun.trans hr⟩
    exact .exec_unit hc (fun _ => rfl) (hrest r)
  | result r =>
    obtain ⟨file', hfile', hr⟩ := hans
    rw [hfile] at hfile'
    cases hfile'
    refine ⟨?_, hrest r⟩
    simp only [Cmd.uncachedAnswer, Prog.pure_eq, Prog.bind_done]
    rw [Prog.uncached_bind, ← hrun, hr]
    rfl

/-- **Transparency of `read_file`.**  On an image whose block references agree, a `read_file` of
the filesystem adaptor keeps to `cacheOracle` in what it inserts and publishes, and returns what
it returns without hits whenever the caches keep to it too. -/
theorem transparent_readFile (hagree : fs.BlocksAgree) (ino offset size : Nat)
    (flags : ReadFlags) :
    (fs.readFile env ino offset size flags fs.superblock.compression).Transparent
      (fs.cacheOracle env) := by
  unfold readFile
  split
  · exact .fail _
  · rename_i file hfile
    have himpl : ∀ flags' size', (getReader flags' >>= fun _ =>
        readFileImpl env fs file fs.image 0 offset size' fs.superblock.compression).Transparent
        (fs.cacheOracle env) := fun flags' size' =>
      transparent_getReader_bind flags' (fun _ => transparent_readFileImpl env hagree hfile
        (fun l _ => fs.reads_image l) (fun _ _ => fs.reads_image _) _ _) fun _ => rfl
    dsimp only
    split_ifs with h₁ h₂ h₃ h₄
    · exact .fail _
    · exact .done _
    · exact himpl _ _
    · exact transparent_readWholeFile env hagree hfile (by simpa using h₄.2.2.1) _ _ _
    · exact himpl _ _

/-! ### The shape of `read_file` -/

variable (fs)

/-- The miss path starts with the decompression and goes on without a lookup. -/
theorem guarded_decompressBlock (src : Bytes) (pos start : Nat) (b : BlockSize) (buf : Bytes)
    (cache : Bool) (c : Compression) : ∃ k, decompressBlock env src pos start b buf cache c =
      .exec (.decompressing start) k ∧ (k ()).Guarded cache false false := by
  refine ⟨_, rfl, ?_⟩
  dsimp only [Prog.bind]
  split
  · exact .bind (.lift _) fun _ => .blockInsert (.done _)
  · exact .bind (.lift _) fun _ => .done _

theorem guarded_readDataBlock (src : Bytes) (ro start : Nat) (b : BlockSize) (buf : Bytes)
    (cache : Bool) (c : Compression) :
    (readDataBlock env src ro start b buf cache c).Guarded cache false false := by
  unfold readDataBlock
  refine .bind (.lift _) fun pos => ?_
  obtain ⟨k, hk, hg⟩ := guarded_decompressBlock env src pos start b buf cache c
  split_ifs with h0 hc
  · exact .done _
  · refine .blockGetDecompress (fun d => ?_) hk hg
    dsimp only
    split_ifs
    · exact .fail _
    · exact .done _
  · rw [hk]
    exact .decompressing (by simpa using hc) hg

theorem guarded_readBlocks (src : Bytes) (ro : Nat) (c : Compression) :
    ∀ (locs : List DataLocation) (ps : List Bytes),
      (readBlocks env fs src ro c locs ps).Guarded fs.cache false false
  | [], _ => .done _
  | _ :: _, [] => .done _
  | _ :: ls, _ :: ps => .bind (guarded_readDataBlock env _ _ _ _ _ _ _) fun _ =>
      .bind (guarded_readBlocks src ro c ls ps) fun _ => .done _

theorem guarded_completeParts (file : FileInode) (src : Bytes) (ro : Nat) (c : Compression)
    (n m : Nat) (parts : List Bytes) :
    (completeParts env fs file src ro c n m parts).Guarded fs.cache false false := by
  have hfrag : (readFragment env fs file src ro c parts).Guarded fs.cache false false :=
    .bind (.lift _) fun _ => .bind (.lift _) fun _ =>
      .bind (guarded_readDataBlock env _ _ _ _ _ _ _) fun _ => .bind (.lift _) fun _ => .done _
  unfold completeParts
  split_ifs
  · exact .bind (.fail _) fun _ => hfrag
  · exact .bind (.done _) fun _ => hfrag
  · exact .done _

theorem guarded_readFileImpl (file : FileInode) (src : Bytes) (ro offset size : Nat)
    (c : Compression) :
    (readFileImpl env fs file src ro offset size c).Guarded fs.cache false false := by
  unfold readFileImpl
  refine .bind (.lift _) fun _ => .bind (.lift _) fun _ => .bind (.lift _) fun _ =>
    .bind (.lift _) fun _ => .bind (guarded_readBlocks env fs _ _ _ _ _) fun _ =>
    .bind (guarded_completeParts env fs _ _ _ _ _ _ _) fun _ =>
    .bind (.lift _) fun _ => .bind (.lift _) fun _ => ?_
  dsimp only
  split_ifs
  · exact .bind (.fail _) fun _ => .done _
  · exact .bind (.done _) fun _ => .done _

theorem guarded_getReader_bind {β : Type} {cached l : Bool} (flags : ReadFlags)
    {g : Nat → Prog β} (hg : ∀ p, (g p).Guarded cached false l) :
    (getReader flags >>= g).Guarded cached true l := by
  simp only [getReader, Prog.cmd_bind, Prog.bind_exec]
  exact .readersCheck rfl hg (.readersInsert hg)

/-- The whole-file path asks for its entry first; its producer then checks out its reader. -/
theorem readerLast_readWholeFile (ino : Nat) (file : FileInode) (offset size : Nat)
    (flags : ReadFlags) (c : Compression) :
    (readWholeFile env fs ino file offset size flags c).ReaderLast fs.cache := by
  have hrest : ∀ (r : Except Error Bytes) {g l : Bool}, (match r with
      | .error e => Prog.fail (.error (.cacheProducerError e))
      | .ok data =>
        if offset + size ≤ data.length then pure ((data.drop offset).take size)
        else Prog.fail (.panic .outOfBounds)).Guarded fs.cache g l := by
    rintro (e | data) g l
    · exact .fail _
    · dsimp only
      split_ifs
      · exact .done _
      · exact .fail _
  unfold readWholeFile wholeFileProducer
  refine .lift_bind fun _ => .lift_bind fun _ => .lift_bind fun _ => .lift_bind fun _ => ?_
  simp only [Prog.cmd_bind, Prog.bind_exec]
  refine .fileLock fun r => ?_
  cases r with
  | result r => exact hrest r
  | produce =>
    exact .bind (guarded_getReader_bind _ fun _ => .bind (Prog.Guarded.catchErr
      (.bind (.lift _) fun ⟨_, _⟩ => guarded_readFileImpl env fs _ _ _ _ _ _))
      fun _ => .poolPut (.done _)) fun _ => .filePublish (hrest _)

/-- `read_file` checks out its reader last: it asks for a whole-file entry only first. -/
theorem readerLast_readFile (ino offset size : Nat) (flags : ReadFlags) (c : Compression) :
    (fs.readFile env ino offset size flags c).ReaderLast fs.cache := by
  unfold readFile
  split
  · exact .guarded (.fail _)
  · dsimp only
    split_ifs
    · exact .guarded (.fail _)
    · exact .guarded (.done _)
    · exact .guarded (guarded_getReader_bind _ fun _ => guarded_readFileImpl env fs _ _ _ _ _ _)
    · exact readerLast_readWholeFile env fs _ _ _ _ _ _
    · exact .guarded (guarded_getReader_bind _ fun _ => guarded_readFileImpl env fs _ _ _ _ _ _)

/-- **The shape of `read_file`**: with the decoded-block cache on, each decompression follows a
miss of the same block; the one checkout follows a look at the map of pools; the whole-file
entry is asked for at most once. -/
theorem guarded_readFile (ino offset size : Nat) (flags : ReadFlags) (c : Compression) :
    (fs.readFile env ino offset size flags c).Guarded fs.cache true true :=
  (readerLast_readFile env fs ino offset size flags c).guarded_true

end SquashFs

end SquashfsAsync
