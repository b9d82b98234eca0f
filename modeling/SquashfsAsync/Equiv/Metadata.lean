import SquashfsAsync.DirectoryTable

/-!
# Correctness of the metadata stream

A metadata block is stored as `Stored.encode`: its 16-bit header, then a body of the size the
header's low 15 bits give.  `Stored.Payload` says what the block yields: its body when the
header's high bit is set, and otherwise what the decoder of the algorithm makes of the body.

* `fromReader_encode`: one block, read at its start, gives its payload and the position after
  it, or `InvalidDataLength` for a payload over 8192 bytes.
* `fromReaderFlatten_blocks`: on consecutive blocks from `p`, the flattened stream to `end` gives
  the payloads of the blocks that start before `end`, up to the first payload over 8192 bytes,
  which ends it with an error; and the stream of blocks is finite on every input, since each
  block read moves past its two header bytes (`fromReaderStream_fuel`).
* `tableRecord_read`: the bytes at offset `o` of the payload of the block at `b` from a table's
  start are what `read_root_inode` with `InodeRef((b << 16) | o)` and `from_reader_directory` at
  `(b, o, file_size)` read, also when they continue into later blocks.
-/

namespace SquashfsAsync

variable (env : Env)

/-- `InodeRef((b << 16) | o)` for `o < 2 ^ 16` has block start `b` and offset `o`. -/
theorem InodeRef.split {b o : Nat} (ho : o < 2 ^ 16) :
    (InodeRef.mk (b <<< 16 ||| o)).blockStart = b ∧ (InodeRef.mk (b <<< 16 ||| o)).blockOffset = o := by
  have h : b <<< 16 ||| o = 2 ^ 16 * b + o := by
    rw [Nat.shiftLeft_eq, Nat.mul_comm, Nat.mul_add_lt_is_or ho]
  have hmask : (0xFFFF : Nat) = 2 ^ 16 - 1 := rfl
  simp only [InodeRef.blockStart, InodeRef.blockOffset, h, Nat.shiftRight_eq_div_pow, hmask,
    Nat.and_pow_two_sub_one_eq_mod]
  omega

/-- The reader at `pos + n` is the reader at `pos` past `n` bytes. -/
theorem readerAt_add (image : Bytes) (pos n : Nat) :
    readerAt image (pos + n) = (readerAt image pos).drop n := by
  rw [readerAt, readerAt, List.drop_drop, Nat.add_comm]

namespace MetadataBlock

/-- A metadata block as stored: a `u16` header and a body of the size in its low 15 bits. -/
structure Stored where
  header : Nat
  body : Bytes
  header_lt : header < 2 ^ 16
  length_body : body.length = header &&& 0x7FFF

namespace Stored

/-- The bytes of a stored block. -/
def encode (m : Stored) : Bytes := leBytes 2 m.header ++ m.body

/-- The block yields `d`: its body when the header's high bit is set, and otherwise what the
decoder of `c` makes of its body. -/
def Payload (c : Compression) (m : Stored) (d : Bytes) : Prop :=
  if m.header &&& 0x8000 = 0 then c.supported ∧ env.decode c m.body = some d else d = m.body

instance (c : Compression) (m : Stored) (d : Bytes) : Decidable (m.Payload env c d) :=
  inferInstanceAs (Decidable (if _ then _ else _))

/-- The bytes consecutive blocks take. -/
def span (ms : List Stored) : Nat := (ms.map fun m => m.encode.length).sum

theorem length_encode (m : Stored) : m.encode.length = 2 + m.body.length := by
  simp [encode]

@[simp] theorem span_nil : span [] = 0 := rfl

@[simp] theorem span_cons (m : Stored) (ms : List Stored) :
    span (m :: ms) = m.encode.length + span ms := rfl

theorem span_append (ms ms' : List Stored) : span (ms ++ ms') = span ms + span ms' := by
  simp [span]

theorem length_flatten_encode (ms : List Stored) : (ms.map encode).flatten.length = span ms := by
  induction ms with
  | nil => rfl
  | cons m ms ih => simp [ih]

theorem two_mul_length_le_span (ms : List Stored) : 2 * ms.length ≤ span ms := by
  induction ms with
  | nil => rfl
  | cons m ms ih => simp only [span_cons, length_encode, List.length_cons]; omega

/-- Blocks read from `pos` lie within the image. -/
theorem span_add_length_rest {image rest : Bytes} {pos : Nat} {ms : List Stored}
    (h : readerAt image pos = (ms.map encode).flatten ++ rest) :
    span ms + rest.length = image.length - pos := by
  simpa [readerAt, length_flatten_encode] using (congrArg List.length h).symm

/-- The blocks `ms` from `pos` are those that start before `endPos`: each starts before it, and
the position after the last is at or past it. -/
def Spans (pos endPos : Nat) (ms : List Stored) : Prop :=
  (∀ i < ms.length, pos + span (ms.take i) < endPos) ∧ endPos ≤ pos + span ms

instance (pos endPos : Nat) (ms : List Stored) : Decidable (Spans pos endPos ms) :=
  inferInstanceAs (Decidable (_ ∧ _))

theorem Spans.lt {pos endPos : Nat} {m : Stored} {ms : List Stored}
    (h : Spans pos endPos (m :: ms)) : pos < endPos := by
  simpa using h.1 0 (by simp)

theorem Spans.tail {pos endPos : Nat} {m : Stored} {ms : List Stored}
    (h : Spans pos endPos (m :: ms)) : Spans (pos + m.encode.length) endPos ms :=
  ⟨fun i hi => by simpa [Nat.add_assoc] using h.1 (i + 1) (by simpa using hi),
    by simpa [Nat.add_assoc] using h.2⟩

/-- The blocks from the `j`-th on start where the first `j` end. -/
theorem Spans.drop {pos endPos : Nat} {ms : List Stored} (h : Spans pos endPos ms) (j : Nat) :
    Spans (pos + span (ms.take j)) endPos (ms.drop j) := by
  refine ⟨fun i hi => ?_, ?_⟩
  · have := h.1 (j + i) (by simp at hi; omega)
    rwa [List.take_add, span_append, ← Nat.add_assoc] at this
  · rw [Nat.add_assoc, ← span_append, List.take_append_drop]
    exact h.2

end Stored

open Stored

variable {env}

theorem decompress_stored {m : Stored} {c : Compression} {d : Bytes} (hd : m.Payload env c d)
    (rest : Bytes) :
    decompress env (m.body ++ rest) (m.header &&& 0x7FFF) none
      (if (m.header &&& 0x8000 == 0) = true then some c else none) = .ok d := by
  unfold Payload at hd
  unfold decompress
  rw [← m.length_body, List.take_left' rfl]
  split_ifs at hd with hc
  · simp [hc, hd.1, hd.2]; rfl
  · simp [hc, hd]; rfl

/-- **One block.**  Read at its start, a stored block gives its payload and the position after
it, unless the payload exceeds 8192 bytes. -/
theorem fromReader_encode {image rest : Bytes} {pos : Nat} {c : Compression} {m : Stored}
    {d : Bytes} (h : readerAt image pos = m.encode ++ rest) (hd : m.Payload env c d) :
    fromReader env image pos c =
      if 8192 < d.length then .error .invalidDataLength
      else .ok (⟨m.header &&& 0x7FFF, d⟩, pos + m.encode.length) := by
  have hhdr : (Stream.ofBytes (readerAt image pos)).readExact 2 =
      .ok (leBytes 2 m.header, ⟨m.body ++ rest, none⟩) := by
    rw [h, encode, List.append_assoc]
    simpa using Stream.readExact_append (leBytes 2 m.header) (m.body ++ rest) none
  have hbody : readerAt image (pos + 2) = m.body ++ rest := by
    rw [readerAt_add, h, encode, List.append_assoc, List.drop_left' (length_leBytes 2 _)]
  have hval : leValue (leBytes 2 m.header) = m.header := by
    rw [leValue_leBytes]; exact Nat.mod_eq_of_lt m.header_lt
  have htake : (m.body ++ rest).take (m.header &&& 0x7FFF) = m.body :=
    List.take_left' m.length_body
  simp only [fromReader, hhdr, Except.mapError, hval,
    hbody, decompress_stored hd, htake, bind, Except.bind, length_encode, Nat.add_assoc]
  split_ifs <;> rfl

/-- A block read moves past its two header bytes, which the image holds. -/
theorem fromReader_advance {image : Bytes} {pos pos' : Nat} {c : Compression} {b : MetadataBlock}
    (h : fromReader env image pos c = .ok (b, pos')) : pos + 2 ≤ pos' ∧ pos + 2 ≤ image.length := by
  unfold fromReader at h
  by_cases hlen : 2 ≤ (readerAt image pos).length
  · simp only [Stream.ofBytes, Stream.readExact, hlen, if_true, Except.mapError, bind,
      Except.bind] at h
    refine ⟨?_, by simp only [readerAt, List.length_drop] at hlen; omega⟩
    split at h
    · cases h
    · split_ifs at h
      cases h
      omega
  · simp [Stream.ofBytes, Stream.readExact, hlen, Except.mapError, bind, Except.bind] at h

/-- **The stream ends.**  Past `n + 1` passes from `pos`, where `2 n + 2` bytes from `pos` cover
the image, more fuel changes nothing: each block read moves two bytes on. -/
theorem fromReaderStream_fuel (image : Bytes) (endPos : Nat) (c : Compression) (m : Nat) :
    ∀ n pos, image.length < pos + 2 * n + 2 →
      fromReaderStream env image endPos c (n + m + 1) pos =
        fromReaderStream env image endPos c (n + 1) pos := by
  intro n
  induction n with
  | zero =>
    intro pos hlen
    simp only [fromReaderStream, Nat.zero_add]
    split_ifs
    · rfl
    · cases hr : fromReader env image pos c with
      | error e => simp only [hr]
      | ok r => have := (fromReader_advance hr).2; omega
  | succ k ih =>
    intro pos hlen
    rw [show k + 1 + m + 1 = (k + m + 1) + 1 by omega, fromReaderStream, fromReaderStream]
    split_ifs
    · rfl
    · cases hr : fromReader env image pos c with
      | error e => simp only [hr]
      | ok r =>
        have := (fromReader_advance hr).1
        simp only [hr, ih r.2 (by omega)]

/-- The stream of blocks on consecutive stored blocks: the payloads before the first over 8192
bytes, then that block's error, or the end. -/
theorem fromReaderStream_blocks {image rest : Bytes} {endPos : Nat} {c : Compression}
    {ms : List Stored} {ds : List Bytes} (hd : List.Forall₂ (Payload env c) ms ds) :
    ∀ {pos fuel : Nat}, readerAt image pos = (ms.map encode).flatten ++ rest →
      Spans pos endPos ms → ms.length ≤ fuel →
      (fromReaderStream env image endPos c fuel pos).1.map (fun b => b.2.data) =
          ds.take (ds.findIdx fun d => 8192 < d.length) ∧
        (fromReaderStream env image endPos c fuel pos).2 =
          if ds.findIdx (fun d => 8192 < d.length) < ds.length then some .invalidDataLength
          else none := by
  induction hd with
  | nil =>
    intro pos fuel _ hspan _
    have hend : endPos ≤ pos := by simpa using hspan.2
    cases fuel <;> simp [fromReaderStream, hend]
  | @cons m d ms ds hmd _ ih =>
    intro pos fuel himage hspan hfuel
    obtain ⟨f, rfl⟩ : ∃ f, fuel = f + 1 := ⟨fuel - 1, by simp at hfuel; omega⟩
    have hread := fromReader_encode (by simpa using himage) hmd
    simp only [fromReaderStream, if_neg (Nat.not_le.mpr hspan.lt), hread, List.findIdx_cons]
    by_cases hbig : 8192 < d.length
    · -- the first payload is too long: the stream stops with its error
      simp [hbig]
    · -- the first payload is read, and the rest of the stream starts after its block
      have hrest : readerAt image (pos + m.encode.length) = (ms.map encode).flatten ++ rest := by
        rw [readerAt_add, himage, List.map_cons, List.flatten_cons, List.append_assoc,
          List.drop_left]
      obtain ⟨h₁, h₂⟩ := ih hrest hspan.tail (by simpa using hfuel)
      simp [hbig, h₁, h₂]

/-- **The flattened stream.**  On stored blocks from `p` whose starts before `endPos` are those
of `ms`, `from_reader_flatten` gives the payloads up to the first over 8192 bytes, then an error
if there is such a payload and the end otherwise.  And whatever the input, the stream of blocks
ends within the passes `from_reader_flatten` is given: more give the same stream. -/
theorem fromReaderFlatten_blocks {image rest : Bytes} {p endPos : Nat} {c : Compression}
    {ms : List Stored} {ds : List Bytes} (himage : readerAt image p = (ms.map encode).flatten ++ rest)
    (hd : List.Forall₂ (Payload env c) ms ds) (hspan : Spans p endPos ms) :
    fromReaderFlatten env image p endPos c =
        ⟨(ds.take (ds.findIdx fun d => 8192 < d.length)).flatten,
          if ds.findIdx (fun d => 8192 < d.length) < ds.length then some .other else none⟩ ∧
      ∀ (bytes : Bytes) (c' : Compression) (q e m : Nat),
        fromReaderStream env bytes e c' (bytes.length + 1 + m) q =
          fromReaderStream env bytes e c' (bytes.length + 1) q := by
  refine ⟨?_, fun bytes c' q e m => ?_⟩
  · have hlen : ms.length ≤ image.length + 1 := by
      have := span_add_length_rest himage
      have := two_mul_length_le_span ms
      omega
    obtain ⟨h₁, h₂⟩ := fromReaderStream_blocks hd himage hspan hlen
    rw [fromReaderFlatten, h₁, h₂]
    split_ifs <;> rfl
  · rw [Nat.add_right_comm]
    exact fromReaderStream_fuel bytes e c' m bytes.length q (by omega)

/-- A decoder that writes each body twice, which tells decoded payloads from stored ones. -/
def envTwice : Env :=
  ⟨fun _ bs => some (bs ++ bs), fun bs => bs.length, fun _ _ _ => true, fun _ _ _ => true⟩

/-- A block stored as is. -/
def blockAsIs : Stored := ⟨0x8003, [1, 2, 3], by decide, by decide⟩

/-- A block stored compressed. -/
def blockPacked : Stored := ⟨2, [4, 5], by decide, by decide⟩

theorem fromReaderFlatten_blocks_mixed :
    readerAt ([9] ++ blockAsIs.encode ++ blockPacked.encode ++ [7, 7]) 1 =
        ([blockAsIs, blockPacked].map encode).flatten ++ [7, 7] ∧
      List.Forall₂ (Payload envTwice .zstd) [blockAsIs, blockPacked] [[1, 2, 3], [4, 5, 4, 5]] ∧
      Spans 1 7 [blockAsIs, blockPacked] ∧
      fromReaderFlatten envTwice ([9] ++ blockAsIs.encode ++ blockPacked.encode ++ [7, 7]) 1 7
        .zstd = ⟨[1, 2, 3, 4, 5, 4, 5], none⟩ :=
  ⟨by decide, by decide, by decide,
    (@fromReaderFlatten_blocks envTwice _ [7, 7] _ _ _ [blockAsIs, blockPacked]
      [[1, 2, 3], [4, 5, 4, 5]] (by decide) (by decide) (by decide)).1⟩

/-! ### Records of a table -/

section Table

variable {image rest : Bytes} {start endPos : Nat} {c : Compression} {ms : List Stored}
  {ds : List Bytes}

/-- From the start of its `j`-th block on, a table whose payloads are within 8192 bytes reads
as the payloads from the `j`-th on, then the end. -/
theorem fromReaderFlatten_drop (himage : readerAt image start = (ms.map encode).flatten ++ rest)
    (hd : List.Forall₂ (Payload env c) ms ds) (hsmall : ∀ d ∈ ds, d.length ≤ 8192)
    (hspan : Spans start endPos ms) (j : Nat) :
    fromReaderFlatten env image (start + span (ms.take j)) endPos c =
      .ofBytes (ds.drop j).flatten := by
  have hsplit : (ms.map encode).flatten =
      ((ms.take j).map encode).flatten ++ ((ms.drop j).map encode).flatten := by
    rw [← List.flatten_append, ← List.map_append, List.take_append_drop]
  have himage' : readerAt image (start + span (ms.take j)) =
      ((ms.drop j).map encode).flatten ++ rest := by
    rw [readerAt_add, himage, hsplit, List.append_assoc,
      List.drop_left' (length_flatten_encode _)]
  have hidx : (ds.drop j).findIdx (fun d => 8192 < d.length) = (ds.drop j).length :=
    List.findIdx_eq_length.mpr fun d hd' => by
      simpa using hsmall d (List.mem_of_mem_drop hd')
  rw [(fromReaderFlatten_blocks himage' (List.forall₂_drop j hd) (hspan.drop j)).1, hidx,
    List.take_length, if_neg (Nat.lt_irrefl _)]
  rfl

/-- **Records of a table.**  Take a table of stored blocks from `start`, those that start before
`endPos`, with payloads `ds` of at most 8192 bytes, in an image whose positions are `u64`s.  Let
`b` be the start of its `j`-th block, from `start`, and `o < 8192` an offset in the payloads from
that block on.  Then, when it is the inode table, `read_root_inode` with `InodeRef((b << 16) | o)`
returns the inode number of the header at `o`; and when it is the directory table,
`from_reader_directory` for a directory at `(b, o, file_size)` parses the `file_size` bytes at
`o`. -/
theorem tableRecord_read (himage : readerAt image start = (ms.map encode).flatten ++ rest)
    (hd : List.Forall₂ (Payload env c) ms ds) (hsmall : ∀ d ∈ ds, d.length ≤ 8192)
    (hspan : Spans start endPos ms) (hlen : image.length < 2 ^ 64) {j o : Nat}
    (hj : j < ms.length) (ho : o < 8192) :
    (∀ (sb : SuperBlock) (h : InodeHeader), sb.inodeTableStart = start →
        sb.directoryTableStart = endPos → sb.compression = c →
        o + 16 ≤ (ds.drop j).flatten.length →
        InodeHeader.decode (((ds.drop j).flatten.drop o).take 16) = some h →
        InodeTable.readRootInode env ⟨span (ms.take j) <<< 16 ||| o⟩ sb image =
          .ok h.inodeNumber) ∧
      ∀ (sb : SuperBlock) (dir : DirectoryInode) (n : Nat), sb.directoryTableStart = start →
        sb.fragmentTableStart = endPos → sb.compression = c →
        dir.tableLocation = ⟨span (ms.take j), o, n⟩ → o + n ≤ (ds.drop j).flatten.length →
        DirectoryTable.fromReaderDirectory env dir sb image =
          DirectoryTable.fromReader env (.ofBytes (((ds.drop j).flatten.drop o).take n)) := by
  have hpos : start + span (ms.take j) < 2 ^ 64 := by
    have := span_add_length_rest himage
    have := two_mul_length_le_span (ms.drop j)
    have := span_append (ms.take j) (ms.drop j)
    rw [List.take_append_drop, List.length_drop] at *
    omega
  have hs := fromReaderFlatten_drop himage hd hsmall hspan j
  refine ⟨fun sb h hstart hend hc hroom hdec => ?_, fun sb dir n hstart hend hc hloc hroom => ?_⟩
  · -- the inode table, past the reference's offset, starts with the header
    obtain ⟨hb, ho'⟩ := InodeRef.split (b := span (ms.take j)) (by omega : o < 2 ^ 16)
    have hdisc := Stream.discard_of_le (s := ⟨(ds.drop j).flatten, none⟩) (n := o) (by
      simp only; omega)
    have hhdr : (⟨((ds.drop j).flatten).drop o, none⟩ : Stream).readExact 16 =
        .ok ((((ds.drop j).flatten).drop o).take 16, ⟨((ds.drop j).flatten).drop (o + 16), none⟩) := by
      rw [Stream.readExact, if_pos (by simp only [List.length_drop]; omega), List.drop_drop,
        Nat.add_comm]
    simp only [InodeTable.readRootInode, InodeTable.inodeTableBytes, Option.map_some',
      Option.getD_some, hb, ho', hstart, hend, hc, addChecked_of_lt hpos, hs, hdisc,
      Stream.ofBytes, bind, Except.bind, Run.ofExcept, Stream.bincodeDeserFrom, hhdr, hdec]
    rfl
  · -- the directory table, past the offset, holds the listing
    have hdisc := Stream.discard_of_le (s := ⟨(ds.drop j).flatten, none⟩) (n := o) (by
      simp only; omega)
    have htake := Stream.take_of_le (s := ⟨((ds.drop j).flatten).drop o, none⟩) (n := n) (by
      simp only [List.length_drop]; omega)
    simp only [DirectoryTable.fromReaderDirectory, hloc, hstart, hend, hc, addChecked_of_lt hpos,
      hs, hdisc, Stream.ofBytes, bind, Except.bind, Run.ofExcept, htake]

/-- Three blocks stored as is; the second holds, at offset 4, the first six bytes of the header
of a regular file numbered 7, and the third the other ten. -/
def straddleTable : List Stored :=
  [⟨0x8002, [0, 0], by decide, by decide⟩,
    ⟨0x800A, [0, 0, 0, 0, 2, 0, 0, 0, 0, 0], by decide, by decide⟩,
    ⟨0x800C, [0, 0, 0, 0, 0, 0, 7, 0, 0, 0, 0, 0], by decide, by decide⟩]

theorem tableRecord_read_straddle :
    readerAt (straddleTable.map encode).flatten 0 = (straddleTable.map encode).flatten ++ [] ∧
      List.Forall₂ (Payload envTwice .zstd) straddleTable (straddleTable.map Stored.body) ∧
      (∀ d ∈ straddleTable.map Stored.body, d.length ≤ 8192) ∧ Spans 0 30 straddleTable ∧
      (straddleTable.map encode).flatten.length < 2 ^ 64 ∧ 1 < straddleTable.length ∧ 4 < 8192 ∧
      InodeTable.readRootInode envTwice ⟨4 <<< 16 ||| 4⟩
        ⟨0x73717368, 1, 4096, 0, .zstd, 0, 4, 0, ⟨4 <<< 16 ||| 4⟩, 30, 0, 30, 30, none⟩
        (straddleTable.map encode).flatten = .ok 7 :=
  ⟨by decide, by decide, by decide, by decide, by decide, by decide, by decide,
    (@tableRecord_read envTwice _ [] 0 30 .zstd straddleTable (straddleTable.map Stored.body)
      (by decide) (by decide) (by decide) (by decide) (by decide) 1 4 (by decide) (by decide)).1
      _ ⟨.basicFile, 7⟩ rfl rfl rfl (by decide) (by decide)⟩

end Table

end MetadataBlock

end SquashfsAsync
