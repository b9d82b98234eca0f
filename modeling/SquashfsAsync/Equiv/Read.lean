import SquashfsAsync.Read

/-!
# Correctness of a read in isolation

What `read_file` returns when nothing else runs and the caches never hit (`Prog.uncached`):
the bytes `[offset, offset + min(size, file_size - offset))` of the file's content, whichever
path serves the request.

`SquashFs.content` is the content the specification gives a file: its data blocks in
`data_locations` order, each decoded and zero-padded to `block_size` bytes (a sparse block is
`block_size` zero bytes), then the fragment block's decoding from `fragment_offset` on, cut to
`file_size` bytes.  `SquashFs.ReadableFile` collects what a file needs for that, the
well-formedness conditions of the specification and the bounds the code's fixed-width arithmetic
needs:

* `readFileImpl_uncached`: the block loop and the fragment branch return the requested bytes,
  when the reader gives the image's bytes of every block it reads (`SquashFs.Reads`);
* `readFile_uncached`: so does `read_file`, on each of its three paths.

The proof follows `read_file_impl`: the `f64` quotients are the integer ones
(`F64.toUInt_floor_div`), the checked prefix of `data_locations` is the exact one
(`dataLocationsPrefix_eq`), each block read is its decoding (`readDataBlock_uncached`), and the
request lies in the parts read (`splitToRest`, `splitOffFront` stay within the buffer).
-/

namespace SquashfsAsync

variable (env : Env)

/-! ### Lists of blocks -/

theorem mapM_eq_some_iff {α β : Type} {f : α → Option β} (l : List α) :
    ∀ {ds : List β}, l.mapM f = some ds ↔ List.Forall₂ (fun a b => f a = some b) l ds := by
  induction l with
  | nil => intro ds; cases ds <;> simp only [List.mapM_nil, List.forall₂_nil_left_iff] <;> simp [pure]
  | cons a l ih =>
    intro ds
    cases ds with
    | nil =>
      simp only [List.mapM_cons, bind, Option.bind_eq_some, pure, Option.some.injEq,
        List.forall₂_nil_right_iff]
      simp
    | cons d ds =>
      simp only [List.mapM_cons, List.forall₂_cons, ← ih, bind, Option.bind_eq_some, pure,
        Option.some.injEq, List.cons.injEq]
      constructor
      · rintro ⟨b, hb, bs, hbs, rfl, rfl⟩; exact ⟨hb, hbs⟩
      · rintro ⟨hb, hbs⟩; exact ⟨d, hb, ds, hbs, rfl, rfl⟩

section Blocks

variable {B : Nat}

theorem drop_flatten_of_length :
    ∀ (xs : List Bytes) (j : Nat), (∀ x ∈ xs, x.length = B) →
      xs.flatten.drop (j * B) = (xs.drop j).flatten
  | [], j, _ => by simp
  | x :: xs, 0, _ => by simp
  | x :: xs, j + 1, h => by
    rw [List.forall_mem_cons] at h
    rw [List.flatten_cons, List.drop_append_eq_append_drop, h.1, Nat.succ_mul,
      List.drop_eq_nil_of_le (by omega), Nat.add_sub_cancel, drop_flatten_of_length xs j h.2]
    rfl

theorem take_flatten_of_length :
    ∀ (xs : List Bytes) (j : Nat), (∀ x ∈ xs, x.length = B) →
      xs.flatten.take (j * B) = (xs.take j).flatten
  | [], j, _ => by simp
  | x :: xs, 0, _ => by simp
  | x :: xs, j + 1, h => by
    rw [List.forall_mem_cons] at h
    rw [List.flatten_cons, List.take_append_eq_append_take, h.1, Nat.succ_mul,
      List.take_of_length_le (by omega), Nat.add_sub_cancel, take_flatten_of_length xs j h.2]
    rfl

end Blocks

/-- The bytes cut out of a stretch of `w` read from `a` on: from `bo`, `size` of them. -/
theorem take_drop_of_stretch {w p : Bytes} {a bo size : Nat} (hp : p = (w.drop a).take p.length)
    (hlen : bo + size ≤ p.length) : (p.drop bo).take size = (w.drop (a + bo)).take size := by
  rw [hp, List.drop_take, List.take_take, Nat.min_eq_left (by omega), List.drop_drop,
    Nat.add_comm]

/-! ### The arithmetic of a request -/

section Request

variable {B size : Nat}

/-- The blocks a request touches end with the block of its last byte. -/
theorem div_add_ceil (offset : Nat) (hB : 0 < B) (hsize : 0 < size) :
    offset / B + (offset % B + size + B - 1) / B = (offset + size - 1) / B + 1 := by
  have h₁ : offset % B + size + B - 1 = offset % B + size - 1 + B := by omega
  have h₂ : offset + size - 1 = offset % B + size - 1 + offset / B * B := by
    have := Nat.mod_add_div' offset B; omega
  rw [h₁, Nat.add_div_right _ hB, h₂, Nat.add_mul_div_right _ _ hB]
  omega

/-- The parts of a request cover it. -/
theorem le_ceil_mul (hB : 0 < B) (x : Nat) : x ≤ (x + B - 1) / B * B := by
  rcases Nat.eq_zero_or_pos x with rfl | hx
  · exact Nat.zero_le _
  · have h : x + B - 1 = x - 1 + B := by omega
    rw [h, Nat.add_div_right _ hB, Nat.succ_mul]
    have := Nat.lt_div_mul_add (a := x - 1) hB
    omega

end Request

/-! ### Decoded blocks and the content of a file -/

/-- `decompress` reads no further than the compressed size. -/
theorem decompress_take (input : Bytes) (cs : Nat) (cap : Option Nat) (c : Option Compression) :
    decompress env (input.take cs) cs cap c = decompress env input cs cap c := by
  simp [decompress, List.take_take]

namespace SquashFs

variable (fs : SquashFs)

/-- The bytes a miss of `read_data_block` leaves in a zeroed part of `block_size` bytes: the
decoding of the block at `start`, zero-padded; the zeroed part itself for a sparse block; `none`
when the block does not decode to at most `block_size` bytes. -/
def decodeBlock (start : Nat) (b : BlockSize) : Option Bytes :=
  if b.compressedSize = 0 then some (List.replicate fs.superblock.blockSize 0)
  else match decompress env (readerAt fs.image start) b.compressedSize
      (some fs.superblock.blockSize) (b.algo fs.superblock.compression) with
    | .ok out => some (out ++ List.replicate (fs.superblock.blockSize - out.length) 0)
    | .error _ => none

/-- A decompression into a sink of room `n` gives at most `n` bytes. -/
theorem length_le_of_decompress {input : Bytes} {cs n : Nat} {c : Option Compression} {out : Bytes}
    (h : decompress env input cs (some n) c = .ok out) : out.length ≤ n := by
  unfold decompress at h
  simp only [bind, Except.bind, pure, Except.pure, throw, throwThe, MonadExceptOf.throw] at h
  rcases c with _ | c <;> simp only at h
  · split_ifs at h with hlt
    cases h; omega
  · split_ifs at h
    split at h
    · split_ifs at h with hlt
      cases h; omega
    · cases h

theorem length_decodeBlock {start : Nat} {b : BlockSize} {d : Bytes}
    (h : fs.decodeBlock env start b = some d) : d.length = fs.superblock.blockSize := by
  unfold decodeBlock at h
  split_ifs at h with h0
  · cases h; simp
  · split at h
    · rename_i out hout
      cases h
      have := length_le_of_decompress env hout
      simp; omega
    · cases h

/-- The file's content: its blocks decoded and padded, then the fragment's bytes, cut to its
size. -/
def content (file : FileInode) : Option Bytes := do
  let blocks ← file.dataLocations.mapM fun l => fs.decodeBlock env l.blockStart l.blockSize
  let tail ← if file.fragment.valid then do
      let e ← (fs.fragmentsTable.entry file.fragment).toOption
      let d ← fs.decodeBlock env e.start e.size
      pure (d.drop file.fragment.offset)
    else pure []
  pure ((blocks.flatten ++ tail).take file.fileSize)

/-- Reading `src` from `readerOffset` on gives the image's bytes of the block at `l`. -/
def Reads (src : Bytes) (readerOffset : Nat) (l : DataLocation) : Prop :=
  readerOffset ≤ l.blockStart ∧
    (readerAt src (l.blockStart - readerOffset)).take l.blockSize.compressedSize =
      (readerAt fs.image l.blockStart).take l.blockSize.compressedSize

/-- The content of a file whose blocks decode to `ds`: their bytes, then the fragment's. -/
theorem content_eq {file : FileInode} {ds : List Bytes}
    (hds : file.dataLocations.mapM (fun l => fs.decodeBlock env l.blockStart l.blockSize) = some ds)
    {w : Bytes} (hw : fs.content env file = some w) :
    ∃ tail, w = (ds.flatten ++ tail).take file.fileSize ∧ (file.fragment.valid = false → tail = []) ∧
      ∀ e d, fs.fragmentsTable.entry file.fragment = .ok e →
        fs.decodeBlock env e.start e.size = some d → tail = d.drop file.fragment.offset := by
  unfold content at hw
  rw [hds] at hw
  cases hv : file.fragment.valid
  · simp only [hv] at hw
    simp only [bind, Option.bind_eq_some, pure, Option.some.injEq] at hw
    obtain ⟨_, rfl, _, rfl, rfl⟩ := hw
    refine ⟨[], rfl, fun _ => rfl, fun e d he _ => ?_⟩
    simp [FragmentsTable.entry, hv] at he
  · simp only [hv] at hw
    simp only [bind, Option.bind_eq_some, pure, Option.some.injEq, if_true] at hw
    obtain ⟨_, rfl, e₀, he₀, d₀, hd₀, _, rfl, rfl⟩ := hw
    refine ⟨d₀.drop file.fragment.offset, rfl, nofun, fun e d he hd => ?_⟩
    rw [he] at he₀
    cases he₀
    rw [hd] at hd₀
    cases hd₀
    rfl

theorem reads_image (l : DataLocation) : fs.Reads fs.image 0 l := ⟨Nat.zero_le _, rfl⟩

theorem decompress_of_reads {src : Bytes} {ro : Nat} {l : DataLocation} (hr : fs.Reads src ro l)
    (cap : Option Nat) (c : Option Compression) :
    decompress env (readerAt src (l.blockStart - ro)) l.blockSize.compressedSize cap c =
      decompress env (readerAt fs.image l.blockStart) l.blockSize.compressedSize cap c := by
  rw [← decompress_take, hr.2, decompress_take]

end SquashFs

/-! ### The blocks a read decodes -/

namespace FileInode

/-- Without overflow the checked prefix of `data_locations` is the exact one. -/
theorem dataLocationsPrefix_eq {E : Type} (start : Nat) (bs : List BlockSize) (k : Nat)
    (h : start + (bs.map BlockSize.compressedSize).sum < 2 ^ 64) :
    (dataLocationsPrefix start bs k : Run E _) = .ok ((dataLocations.go start bs).take k) := by
  induction bs generalizing start k with
  | nil => cases k <;> rfl
  | cons b bs ih =>
    cases k with
    | zero => rfl
    | succ k =>
      simp only [List.map_cons, List.sum_cons] at h
      simp only [dataLocationsPrefix, addChecked_of_lt (by omega : start + b.compressedSize < 2 ^ 64),
        ih (start + b.compressedSize) k (by omega), dataLocations.go, List.take_succ_cons, bind,
        Except.bind, pure, Except.pure]

theorem map_blockSize_dataLocationsGo (start : Nat) (bs : List BlockSize) :
    (dataLocations.go start bs).map DataLocation.blockSize = bs := by
  induction bs generalizing start with
  | nil => rfl
  | cons b bs ih => simp [dataLocations.go, ih]

theorem map_compressedSize_dataLocationsGo (start : Nat) (bs : List BlockSize) :
    (dataLocations.go start bs).map (fun l => l.blockSize.compressedSize) =
      bs.map BlockSize.compressedSize :=
  (List.map_map BlockSize.compressedSize _ _).symm.trans
    (congrArg _ (map_blockSize_dataLocationsGo start bs))

/-- Each location lies between the first block's start and the end of the last block. -/
theorem mem_dataLocationsGo {start : Nat} {bs : List BlockSize} {l : DataLocation}
    (h : l ∈ dataLocations.go start bs) :
    start ≤ l.blockStart ∧
      l.blockStart + l.blockSize.compressedSize ≤ start + (bs.map BlockSize.compressedSize).sum := by
  induction bs generalizing start with
  | nil => cases h
  | cons b bs ih =>
    rcases List.mem_cons.mp h with rfl | h
    · simp
    · have := ih h
      simp only [List.map_cons, List.sum_cons]
      omega

end FileInode

theorem sumChecked_eq {E : Type} : ∀ (xs : List Nat), xs.sum < 2 ^ 64 →
    (sumChecked xs : Run E Nat) = .ok xs.sum
  | [], _ => rfl
  | x :: xs, h => by
    rw [List.sum_cons] at h
    simp only [sumChecked, sumChecked_eq xs (by omega), addChecked_of_lt h, List.sum_cons, bind,
      Except.bind]

namespace SquashFs

variable (fs : SquashFs)

/-- Without contention a reader comes from the first pool asked. -/
theorem getReader_bind_uncached {β : Type} (flags : ReadFlags) (g : Nat → Prog β) :
    (getReader flags >>= g).uncached = (g 0).uncached := rfl

theorem decompressBlock_uncached (src : Bytes) (pos start : Nat) (b : BlockSize) (buf : Bytes)
    (cache : Bool) (c : Compression) :
    (decompressBlock env src pos start b buf cache c).uncached =
      match decompress env (readerAt src pos) b.compressedSize (some buf.length) (b.algo c) with
      | .ok out => .ok (out ++ buf.drop out.length)
      | .error e => .error (.error (.decompress e)) := by
  unfold decompressBlock
  cases decompress env (readerAt src pos) b.compressedSize (some buf.length) (b.algo c) <;>
    cases cache <;> rfl

/-- The miss path on a zeroed part, through a reader that gives the image's bytes, leaves the
block's decoding. -/
theorem decompressBlock_uncached_of_decodeBlock {src : Bytes} {ro start : Nat} {b : BlockSize}
    {d : Bytes} (hr : fs.Reads src ro ⟨start, b⟩) (h0 : b.compressedSize ≠ 0)
    (hd : fs.decodeBlock env start b = some d) (cache : Bool) :
    (decompressBlock env src (start - ro) start b (List.replicate fs.superblock.blockSize 0) cache
      fs.superblock.compression).uncached = .ok d := by
  have hdec := fs.decompress_of_reads env hr
  dsimp only at hdec
  rw [decompressBlock_uncached, List.length_replicate, hdec]
  simp only [decodeBlock, h0, if_false] at hd
  split at hd
  · cases hd; simp
  · cases hd

/-- A block read through a reader that gives the image's bytes, into a zeroed part, is its
decoding. -/
theorem readDataBlock_uncached {src : Bytes} {ro start : Nat} {b : BlockSize} {d : Bytes}
    (hr : fs.Reads src ro ⟨start, b⟩) (hd : fs.decodeBlock env start b = some d) (cache : Bool) :
    (readDataBlock env src ro start b (List.replicate fs.superblock.blockSize 0) cache
      fs.superblock.compression).uncached = .ok d := by
  by_cases h0 : b.compressedSize = 0
  · simp only [decodeBlock, h0, if_true, Option.some.injEq] at hd
    subst hd
    simp [readDataBlock, subChecked_of_le hr.1, h0]
  · have hmiss := fs.decompressBlock_uncached_of_decodeBlock env hr h0 hd cache
    cases cache <;> simpa [readDataBlock, subChecked_of_le hr.1, h0] using hmiss

/-- The block loop: each location read into its zeroed part, the parts past the locations left
zeroed. -/
theorem readBlocks_uncached {src : Bytes} {ro : Nat} :
    ∀ (locs : List DataLocation) (ds : List Bytes) (n : Nat), locs.length ≤ n →
      (∀ l ∈ locs, fs.Reads src ro l) →
      locs.mapM (fun l => fs.decodeBlock env l.blockStart l.blockSize) = some ds →
      (readBlocks env fs src ro fs.superblock.compression locs
        (List.replicate n (List.replicate fs.superblock.blockSize 0))).uncached =
        .ok (ds ++ List.replicate (n - locs.length) (List.replicate fs.superblock.blockSize 0))
  | [], ds, n, _, _, h => by
    cases h
    cases n <;> rfl
  | l :: locs, ds, n + 1, hn, hr, h => by
    simp only [List.mapM_cons, bind, Option.bind_eq_some, pure, Option.some.injEq] at h
    obtain ⟨d, hd, ds', hds', rfl⟩ := h
    rw [List.forall_mem_cons] at hr
    rw [List.replicate_succ, readBlocks, Prog.uncached_bind,
      fs.readDataBlock_uncached env (b := l.blockSize) hr.1 hd]
    simp only [Prog.uncached_bind, readBlocks_uncached locs ds' n (by simpa using hn) hr.2 hds']
    simp

theorem length_of_decodeBlocks {ls : List DataLocation} {ds : List Bytes}
    (h : List.Forall₂ (fun l d => fs.decodeBlock env l.blockStart l.blockSize = some d) ls ds) :
    ∀ d ∈ ds, d.length = fs.superblock.blockSize := by
  induction h with
  | nil => simp
  | cons hd _ ih =>
    simp only [List.mem_cons, forall_eq_or_imp]
    exact ⟨fs.length_decodeBlock env hd, ih⟩

/-- The fragment branch on parts whose last one is zeroed: that part becomes the fragment's
bytes from `fragment_offset` on. -/
theorem readFragment_uncached {file : FileInode} {src : Bytes} {ro : Nat} (ps : List Bytes)
    {e : Fragments.Entry} {d : Bytes} (he : fs.fragmentsTable.entry file.fragment = .ok e)
    (hr : fs.Reads src ro ⟨e.start, e.size⟩) (hd : fs.decodeBlock env e.start e.size = some d)
    (ho : file.fragment.offset ≤ fs.superblock.blockSize) :
    (readFragment env fs file src ro fs.superblock.compression
      (ps ++ [List.replicate fs.superblock.blockSize 0])).uncached =
      .ok (ps ++ [d.drop file.fragment.offset]) := by
  have hsplit : (splitToRest d file.fragment.offset : Run Error Bytes) =
      .ok (d.drop file.fragment.offset) := by
    rw [splitToRest_of_le]; rw [fs.length_decodeBlock env hd]; exact ho
  simp only [readFragment, List.getLast?_append, List.getLast?_singleton, Option.or_some, unwrap,
    he, Run.ofExcept_ok, Prog.lift_ok, Prog.bind_done]
  rw [Prog.uncached_bind, fs.readDataBlock_uncached env hr hd]
  simp only [hsplit, Prog.lift_ok, Prog.bind_done, List.dropLast_concat]
  rfl

theorem completeParts_eq (file : FileInode) (src : Bytes) (ro : Nat) (c : Compression) (n : Nat)
    (parts : List Bytes) : completeParts env fs file src ro c n n parts = pure parts := by
  simp [completeParts]

theorem completeParts_succ (file : FileInode) (src : Bytes) (ro : Nat) (c : Compression) (m : Nat)
    (parts : List Bytes) :
    completeParts env fs file src ro c (m + 1) m parts = readFragment env fs file src ro c parts := by
  simp [completeParts]

/-! ### The block loop and the fragment -/

/-- What a read of `file` needs to return the file's content: the well-formedness conditions of
the specification (a positive block size, every block and the fragment decoding to at most
`block_size` bytes, the fragment's bytes within its block) and the bounds under which the code's
fixed-width arithmetic is exact. -/
structure ReadableFile (file : FileInode) : Prop where
  blockSize_pos : 0 < fs.superblock.blockSize
  /-- The sizes are exact in `f64`. -/
  fileSize_add_lt : file.fileSize + fs.superblock.blockSize < 2 ^ 53
  /-- The block count of the inode table: `n_blocks` does not saturate. -/
  length_blockSizes : file.blockSizes.length =
    if file.fragment.valid then file.fileSize / fs.superblock.blockSize
    else (file.fileSize + fs.superblock.blockSize - 1) / fs.superblock.blockSize
  /-- `block_start += compressed_size` does not overflow. -/
  blocks_lt : file.blocksStart + (file.blockSizes.map BlockSize.compressedSize).sum < 2 ^ 64
  /-- The blocks lie in the image. -/
  blocks_le : file.blocksStart + (file.blockSizes.map BlockSize.compressedSize).sum ≤
    fs.image.length
  blocks_decode : ∃ ds, file.dataLocations.mapM
    (fun l => fs.decodeBlock env l.blockStart l.blockSize) = some ds
  fragment_decodes : file.fragment.valid → ∃ e d, fs.fragmentsTable.entry file.fragment = .ok e ∧
    fs.decodeBlock env e.start e.size = some d
  fragment_offset : file.fragment.valid →
    file.fragment.offset + file.fileSize % fs.superblock.blockSize ≤ fs.superblock.blockSize

theorem fragmentDecodes_iff (file : FileInode) :
    (∃ e d, fs.fragmentsTable.entry file.fragment = .ok e ∧ fs.decodeBlock env e.start e.size = some d) ↔
      ((fs.fragmentsTable.entry file.fragment).toOption.bind fun e =>
        fs.decodeBlock env e.start e.size).isSome := by
  cases fs.fragmentsTable.entry file.fragment <;> simp [Except.toOption, Option.isSome_iff_exists]

/-- Whether a file is readable is computed, the decodings run. -/
instance (file : FileInode) : Decidable (fs.ReadableFile env file) :=
  decidable_of_iff (0 < fs.superblock.blockSize ∧ file.fileSize + fs.superblock.blockSize < 2 ^ 53 ∧
      file.blockSizes.length = (if file.fragment.valid then file.fileSize / fs.superblock.blockSize
        else (file.fileSize + fs.superblock.blockSize - 1) / fs.superblock.blockSize) ∧
      file.blocksStart + (file.blockSizes.map BlockSize.compressedSize).sum < 2 ^ 64 ∧
      file.blocksStart + (file.blockSizes.map BlockSize.compressedSize).sum ≤ fs.image.length ∧
      (file.dataLocations.mapM fun l => fs.decodeBlock env l.blockStart l.blockSize).isSome ∧
      (file.fragment.valid → ((fs.fragmentsTable.entry file.fragment).toOption.bind fun e =>
        fs.decodeBlock env e.start e.size).isSome) ∧
      (file.fragment.valid →
        file.fragment.offset + file.fileSize % fs.superblock.blockSize ≤ fs.superblock.blockSize))
    ⟨fun ⟨h₁, h₂, h₃, h₄, h₅, h₆, h₇, h₈⟩ => ⟨h₁, h₂, h₃, h₄, h₅, Option.isSome_iff_exists.mp h₆,
        fun hv => (fs.fragmentDecodes_iff env file).mpr (h₇ hv), h₈⟩,
      fun ⟨h₁, h₂, h₃, h₄, h₅, h₆, h₇, h₈⟩ => ⟨h₁, h₂, h₃, h₄, h₅, Option.isSome_iff_exists.mpr h₆,
        fun hv => (fs.fragmentDecodes_iff env file).mp (h₇ hv), h₈⟩⟩

theorem readFileImpl_uncached {file : FileInode} (hf : fs.ReadableFile env file) {src : Bytes}
    {ro : Nat} (hr : ∀ l ∈ file.dataLocations, fs.Reads src ro l)
    (hfr : ∀ e, fs.fragmentsTable.entry file.fragment = .ok e → fs.Reads src ro ⟨e.start, e.size⟩)
    {offset size : Nat} (hsize : 0 < size) (hend : offset + size ≤ file.fileSize) {w : Bytes}
    (hw : fs.content env file = some w) :
    (readFileImpl env fs file src ro offset size fs.superblock.compression).uncached =
      .ok ((w.drop offset).take size) := by
  have hB := hf.blockSize_pos
  have h53 := hf.fileSize_add_lt
  have hmod := Nat.mod_lt offset hB
  -- the decoded blocks, the untruncated content `W`, and the block count `L`
  obtain ⟨ds, hds⟩ := hf.blocks_decode
  obtain ⟨tail, rfl, htail₀, htail⟩ := fs.content_eq env hds hw
  have hfa := (mapM_eq_some_iff _).mp hds
  have hdsB := fs.length_of_decodeBlocks env hfa
  have hL : ds.length = file.blockSizes.length := by
    rw [← hfa.length_eq]; exact FileInode.length_dataLocationsGo _ _
  have hDlen := length_flatten_of_length ds hdsB
  -- the `f64` quotients are the integer ones
  have hfirst : (ratio offset fs.superblock.blockSize).floor.toUInt 64 =
      offset / fs.superblock.blockSize := by
    rw [ratio, F64.toUInt_floor_div (by omega) hB (by omega)]
    exact Nat.min_eq_left (Nat.le_trans (Nat.div_le_self _ _) (by omega))
  have hn : (ratio (offset % fs.superblock.blockSize + size) fs.superblock.blockSize).ceil.toUInt 64 =
      (offset % fs.superblock.blockSize + size + fs.superblock.blockSize - 1) /
        fs.superblock.blockSize := by
    rw [ratio, F64.toUInt_ceil_div (by omega) hB (by omega)]
    exact Nat.min_eq_left (Nat.le_trans (Nat.div_le_self _ _) (by omega))
  -- the blocks the request touches lie in the file, the last one possibly its fragment
  have hcover := le_ceil_mul hB (offset % fs.superblock.blockSize + size)
  have hnle := Nat.div_mul_le_self
    (offset % fs.superblock.blockSize + size + fs.superblock.blockSize - 1) fs.superblock.blockSize
  have hlast := div_add_ceil offset hB hsize
  have hq : (offset + size - 1) / fs.superblock.blockSize ≤
      (file.fileSize - 1) / fs.superblock.blockSize := Nat.div_le_div_right (by omega)
  have hq' : (file.fileSize - 1) / fs.superblock.blockSize ≤
      file.fileSize / fs.superblock.blockSize := Nat.div_le_div_right (by omega)
  have hceil : (file.fileSize + fs.superblock.blockSize - 1) / fs.superblock.blockSize =
      (file.fileSize - 1) / fs.superblock.blockSize + 1 := by
    rw [show file.fileSize + fs.superblock.blockSize - 1 =
      file.fileSize - 1 + fs.superblock.blockSize by omega, Nat.add_div_right _ hB]
  have hf0 : offset / fs.superblock.blockSize ≤ (offset + size - 1) / fs.superblock.blockSize :=
    Nat.div_le_div_right (by omega)
  have hdivmod := Nat.div_add_mod' offset fs.superblock.blockSize
  have hfsmod := Nat.div_add_mod' file.fileSize fs.superblock.blockSize
  have hLv := hf.length_blockSizes
  simp only [readFileImpl, hfirst, remChecked_of_pos hB, Prog.lift_ok, Prog.bind_done,
    addChecked_of_lt (show offset % fs.superblock.blockSize + size < 2 ^ 64 by omega), hn]
  generalize (offset % fs.superblock.blockSize + size + fs.superblock.blockSize - 1) /
    fs.superblock.blockSize = n at hcover hnle hlast ⊢
  generalize offset / fs.superblock.blockSize = f0 at hlast hf0 hdivmod ⊢
  have hn0 : n ≠ 0 := by rintro rfl; simp at hcover; omega
  have hmul : fs.superblock.blockSize * n < 2 ^ 64 := by rw [Nat.mul_comm]; omega
  have hlocs : (((FileInode.dataLocations.go file.blocksStart file.blockSizes).take (f0 + n)).drop
      f0).take n = (file.dataLocations.drop f0).take n := by
    simp only [List.drop_take, Nat.add_sub_cancel_left, List.take_take, min_self]; rfl
  simp only [mulChecked_of_lt hmul, Prog.lift_ok, Prog.bind_done, if_neg hn0,
    FileInode.dataLocationsPrefix_eq _ _ _ hf.blocks_lt, hlocs]
  -- the block loop
  have hm : ((file.dataLocations.drop f0).take n).length = min n (file.blockSizes.length - f0) := by
    simp [FileInode.dataLocations, FileInode.length_dataLocationsGo]
  rw [Prog.uncached_bind, fs.readBlocks_uncached env _ ((ds.drop f0).take n) n (List.length_take_le _ _)
    (fun l hl => hr l (List.mem_of_mem_drop (List.mem_of_mem_take hl)))
    ((mapM_eq_some_iff _).mpr (List.forall₂_take _ (List.forall₂_drop _ hfa)))]
  simp only [hm]
  rw [Prog.uncached_bind]
  have hdropB : ∀ x ∈ ds.drop f0, x.length = fs.superblock.blockSize :=
    fun x hx => hdsB x (List.mem_of_mem_drop hx)
  have hDdrop := drop_flatten_of_length ds f0 hdsB
  have hf0L : f0 * fs.superblock.blockSize ≤ ds.flatten.length := by
    rw [hDlen, hL]; exact Nat.mul_le_mul_right _ (by split at hLv <;> omega)
  -- the parts after the fragment step: a stretch of the content from block `f0` on, covering the
  -- request
  obtain ⟨P, hP, hPlen, hPpre⟩ : ∃ P, (completeParts env fs file src ro fs.superblock.compression n
      (min n (file.blockSizes.length - f0))
      ((ds.drop f0).take n ++ List.replicate (n - min n (file.blockSizes.length - f0))
        (List.replicate fs.superblock.blockSize 0))).uncached = .ok P ∧
      offset % fs.superblock.blockSize + size ≤ P.flatten.length ∧
      P.flatten = ((ds.flatten ++ tail).drop (f0 * fs.superblock.blockSize)).take P.flatten.length := by
    by_cases hmn : min n (file.blockSizes.length - f0) = n
    · -- every block the request touches is a data block
      have hfn : (f0 + n) * fs.superblock.blockSize ≤ ds.flatten.length := by
        rw [hDlen, hL]; exact Nat.mul_le_mul_right _ (by omega)
      rw [Nat.add_mul] at hfn
      have hP : ((ds.drop f0).take n).flatten =
          (ds.flatten.drop (f0 * fs.superblock.blockSize)).take (n * fs.superblock.blockSize) := by
        rw [← take_flatten_of_length _ n hdropB, hDdrop]
      have hPl : ((ds.drop f0).take n).flatten.length = n * fs.superblock.blockSize := by
        rw [hP, List.length_take, List.length_drop]; omega
      rw [hmn, completeParts_eq, Nat.sub_self, List.replicate_zero, List.append_nil]
      refine ⟨(ds.drop f0).take n, rfl, by rw [hPl]; exact hcover, ?_⟩
      rw [hPl, List.drop_append_of_le_length hf0L,
        List.take_append_of_le_length (by rw [List.length_drop]; omega), hP]
    · -- the last one is the fragment
      have hv : file.fragment.valid = true := by
        by_contra hv
        rw [if_neg hv] at hLv
        omega
      rw [if_pos hv] at hLv
      obtain ⟨e, d, he, hd⟩ := hf.fragment_decodes hv
      have ho := hf.fragment_offset hv
      have hdB := fs.length_decodeBlock env hd
      rw [htail e d he hd]
      have hn' : n = file.blockSizes.length - f0 + 1 := by omega
      rw [Nat.min_eq_right (by omega), hn', completeParts_succ, Nat.add_sub_cancel_left,
        List.take_of_length_le (by rw [List.length_drop, hL]; omega), List.replicate_one,
        fs.readFragment_uncached env _ he (hfr e he) hd (by omega)]
      have hPeq : (ds.drop f0 ++ [d.drop file.fragment.offset]).flatten =
          (ds.flatten ++ d.drop file.fragment.offset).drop (f0 * fs.superblock.blockSize) := by
        rw [List.flatten_append, ← hDdrop, List.drop_append_of_le_length hf0L]; simp
      refine ⟨_, rfl, ?_, by rw [hPeq, List.take_length]⟩
      rw [hPeq, List.length_drop, List.length_append, List.length_drop, hdB, hDlen, hL]
      rw [← hLv] at hfsmod
      omega
  rw [hP]
  have h₁ : offset % fs.superblock.blockSize ≤ P.flatten.length := by omega
  have h₂ : size ≤ (P.flatten.drop (offset % fs.superblock.blockSize)).length := by
    rw [List.length_drop]; omega
  have h₃ : ((P.flatten.drop (offset % fs.superblock.blockSize)).take size).length = size := by
    rw [List.length_take]; omega
  simp only [splitToRest_of_le h₁, splitOffFront_of_le h₂, Prog.lift_ok, Prog.bind_done, h₃,
    ne_eq, not_true_eq_false, if_false]
  rw [take_drop_of_stretch hPpre hPlen, hdivmod, List.drop_take, List.take_take,
    Nat.min_eq_left (by omega)]
  rfl

/-- A readable file's content is `file_size` bytes long. -/
theorem length_content {file : FileInode} (hf : fs.ReadableFile env file) {w : Bytes}
    (hw : fs.content env file = some w) : w.length = file.fileSize := by
  obtain ⟨ds, hds⟩ := hf.blocks_decode
  obtain ⟨tail, rfl, -, htail⟩ := fs.content_eq env hds hw
  have hfa := (mapM_eq_some_iff _).mp hds
  have hL : ds.length = file.blockSizes.length := by
    rw [← hfa.length_eq]; exact FileInode.length_dataLocationsGo _ _
  have hLv := hf.length_blockSizes
  have hB := hf.blockSize_pos
  rw [List.length_take, List.length_append,
    length_flatten_of_length ds (fs.length_of_decodeBlocks env hfa), hL]
  apply Nat.min_eq_left
  by_cases hv : file.fragment.valid = true
  · rw [if_pos hv] at hLv
    obtain ⟨e, d, he, hd⟩ := hf.fragment_decodes hv
    rw [htail e d he hd, List.length_drop, fs.length_decodeBlock env hd, hLv]
    have := hf.fragment_offset hv
    have := Nat.div_add_mod' file.fileSize fs.superblock.blockSize
    omega
  · rw [if_neg hv] at hLv
    rw [hLv]
    have := le_ceil_mul hB file.fileSize
    omega

/-! ### The three paths of `read_file` -/

/-- The producer's cursor over the file's compressed span gives the image's bytes of each of the
file's blocks. -/
theorem reads_span {file : FileInode} {l : DataLocation} (hl : l ∈ file.dataLocations) :
    fs.Reads ((readerAt fs.image file.blocksStart).take
      (file.blockSizes.map BlockSize.compressedSize).sum) file.blocksStart l := by
  obtain ⟨h₁, h₂⟩ := FileInode.mem_dataLocationsGo hl
  refine ⟨h₁, ?_⟩
  simp only [readerAt, List.drop_take, List.drop_drop, List.take_take]
  rw [Nat.add_sub_of_le h₁, Nat.min_eq_left (by omega)]

/-- The whole-file path: the producer decodes the whole file, and the request is cut out of it. -/
theorem readWholeFile_uncached {ino : Nat} {file : FileInode} (hf : fs.ReadableFile env file)
    (hv : file.fragment.valid = false) (hsz : fs.superblock.blockSize ≤ file.fileSize) {w : Bytes}
    (hw : fs.content env file = some w) {offset size : Nat} (hend : offset + size ≤ file.fileSize)
    (flags : ReadFlags) :
    (readWholeFile env fs ino file offset size flags fs.superblock.compression).uncached =
      .ok ((w.drop offset).take size) := by
  have hB := hf.blockSize_pos
  have hLv := hf.length_blockSizes
  rw [hv, if_neg (by decide)] at hLv
  obtain ⟨b, bs, hbs⟩ : ∃ b bs, file.blockSizes = b :: bs := by
    cases h : file.blockSizes with
    | nil =>
      rw [h, List.length_nil] at hLv
      have := le_ceil_mul hB file.fileSize
      rw [← hLv] at this
      omega
    | cons b bs => exact ⟨b, bs, rfl⟩
  have hlt := hf.blocks_lt
  have hle := hf.blocks_le
  have hcs : (file.dataLocations.map fun l => l.blockSize.compressedSize) =
      file.blockSizes.map BlockSize.compressedSize :=
    FileInode.map_compressedSize_dataLocationsGo _ _
  have hread : (Stream.ofBytes (readerAt fs.image file.blocksStart)).readExact
      (file.blockSizes.map BlockSize.compressedSize).sum =
      .ok ((readerAt fs.image file.blocksStart).take (file.blockSizes.map BlockSize.compressedSize).sum,
        ⟨(readerAt fs.image file.blocksStart).drop (file.blockSizes.map BlockSize.compressedSize).sum,
          none⟩) := by
    rw [Stream.readExact, if_pos (by simp [Stream.ofBytes, readerAt]; omega)]; rfl
  have himpl := fs.readFileImpl_uncached env hf (fun l hl => fs.reads_span hl)
    (fun e he => by simp [FragmentsTable.entry, hv] at he) (by omega) (Nat.le_of_eq (Nat.zero_add _)) hw
  rw [List.drop_zero, List.take_of_length_le (Nat.le_of_eq (fs.length_content env hf hw))] at himpl
  have hfirst : ((FileInode.dataLocations.go file.blocksStart file.blockSizes).take 1).head? =
      some ⟨file.blocksStart, b⟩ := by rw [hbs]; rfl
  have hall : (FileInode.dataLocations.go file.blocksStart file.blockSizes).take
      file.blockSizes.length = file.dataLocations :=
    List.take_of_length_le (Nat.le_of_eq (FileInode.length_dataLocationsGo _ _))
  have hprod : (wholeFileProducer env fs file ⟨file.blocksStart, b⟩
      (file.blockSizes.map BlockSize.compressedSize).sum (flags ||| oDirect)
      fs.superblock.compression).uncached = .ok (.ok w) := by
    rw [wholeFileProducer, getReader_bind_uncached, Prog.uncached_bind, Prog.uncached_catchErr]
    simp only [hread, Run.ofExcept_ok, Prog.lift_ok, Prog.bind_done, himpl]
    rfl
  simp only [readWholeFile, FileInode.dataLocationsPrefix_eq _ _ _ hlt, Prog.lift_ok,
    Prog.bind_done, hfirst, unwrap, hall, hcs, sumChecked_eq _ (Nat.lt_of_le_of_lt (Nat.le_add_left _ _) hlt),
    Prog.cmd, Prog.bind_exec, Prog.uncached_exec, Cmd.uncachedAnswer]
  rw [Prog.uncached_bind, hprod]
  simp only [Prog.bind_exec, Prog.uncached_exec, Cmd.uncachedAnswer, Prog.bind_done, Prog.pure_eq,
    fs.length_content env hf hw, if_pos hend, Prog.uncached_done]

/-- **Correctness in isolation.**  `read_file` of a readable file returns `InvalidOffset` past
its end, and otherwise the bytes `[offset, offset + min(size, file_size - offset))` of its
content, on each of its three paths. -/
theorem readFile_uncached {ino : Nat} {file : FileInode}
    (hfile : fs.inodeTable.files.get? ino = some file) (hf : fs.ReadableFile env file) {w : Bytes}
    (hw : fs.content env file = some w) (offset size : Nat) (flags : ReadFlags) :
    (fs.readFile env ino offset size flags fs.superblock.compression).uncached =
      if file.fileSize < offset then .error (.error .invalidOffset)
      else .ok ((w.drop offset).take (min size (file.fileSize - offset))) := by
  have himpl : 0 < min size (file.fileSize - offset) →
      (readFileImpl env fs file fs.image 0 offset (min size (file.fileSize - offset))
        fs.superblock.compression).uncached =
        .ok ((w.drop offset).take (min size (file.fileSize - offset))) := fun h₀ =>
    fs.readFileImpl_uncached env hf (fun l _ => fs.reads_image l) (fun e _ => fs.reads_image _) h₀
      (by omega) hw
  simp only [readFile, hfile]
  split_ifs with h₁ h₂ h₃ h₄
  · rfl
  · rw [h₂]; rfl
  · rw [getReader_bind_uncached, himpl (by omega)]
  · exact fs.readWholeFile_uncached env hf (by simpa using h₄.2.2.1) (by omega) hw (by omega) flags
  · rw [getReader_bind_uncached, himpl (by omega)]

end SquashFs

end SquashfsAsync
