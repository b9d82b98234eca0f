import SquashfsAsync.Equiv.Metadata

/-!
# Correctness of the fragments table

A fragment table of `n` entries is laid out as SquashFS lays it out: at `fragment_table_start`
stand `⌈n / 512⌉` little-endian `u64` locations, the `j`-th pointing at a metadata block whose
payload is the 16-byte encodings of the entries `512 j` to `512 (j + 1)` (`blockPayload`).

* `fromReader_entries`: on such an image `FragmentsTable::from_reader` returns the entries in
  order, and `entry` gives the entry at a location's index when the index is in range and not
  `0xFFFFFFFF`, and `InvalidLocation` otherwise.

The count of locations is computed in `f64` (`F64.toUInt_ceil_div`), exactly for a count below
`2 ^ 53`, which a `u32` is.  Each block is read by `MetadataBlock.fromReader_encode`, cut into
its 16-byte chunks (`chunks_flatten`) and decoded chunk by chunk (`mapM_decode_encode`); the
blocks are then read in order (`readEntries_blocks`).
-/

namespace SquashfsAsync

open MetadataBlock Stored

namespace Fragments

/-- A fragment entry as stored: `start: u64`, `size: u32`, `_unused: u32`. -/
structure StoredEntry where
  start : Nat
  size : BlockSize
  unused : Nat
  start_lt : start < 2 ^ 64
  size_lt : size.bits < 2 ^ 32
  unused_lt : unused < 2 ^ 32

namespace StoredEntry

/-- The 16 bytes of an entry. -/
def encode (e : StoredEntry) : Bytes :=
  leBytes 8 e.start ++ leBytes 4 e.size.bits ++ leBytes 4 e.unused

/-- The entry the table keeps. -/
def toEntry (e : StoredEntry) : Entry := ⟨e.start, e.size⟩

@[simp] theorem length_encode (e : StoredEntry) : e.encode.length = 16 := by
  simp [encode]

theorem decode_encode (e : StoredEntry) : Entry.decode e.encode = some e.toEntry := by
  have hs : field e.encode 0 8 = e.start := by
    rw [encode, List.append_assoc, field_leBytes_append,
      Nat.mod_eq_of_lt (by simpa using e.start_lt)]
  have hb : field e.encode 8 4 = e.size.bits := by
    rw [encode, List.append_assoc, field_append _ _ _ (by simp), length_leBytes, Nat.sub_self,
      field_leBytes_append, Nat.mod_eq_of_lt (by simpa using e.size_lt)]
  simp [Entry.decode, hs, hb, toEntry]

theorem mapM_decode_encode (es : List StoredEntry) :
    (es.map encode).mapM Entry.decode = some (es.map toEntry) := by
  induction es with
  | nil => rfl
  | cons e es ih => simp only [List.map_cons, List.mapM_cons, decode_encode, ih]; rfl

end StoredEntry

end Fragments

open Fragments

/-- Cutting pieces of `n` bytes, joined, back into pieces of `n` gives them back. -/
theorem chunksAux_flatten {n : Nat} (hn : 0 < n) :
    ∀ (xs : List Bytes) {fuel : Nat}, (∀ x ∈ xs, x.length = n) → xs.length ≤ fuel →
      chunksAux n fuel xs.flatten = xs
  | [], fuel, _, _ => by cases fuel <;> rfl
  | x :: xs, fuel + 1, hlen, hfuel => by
    have hx : x.length = n := hlen x (List.mem_cons_self x xs)
    have hne : x ++ xs.flatten ≠ [] := List.ne_nil_of_length_pos (by simp; omega)
    rw [List.flatten_cons, chunksAux, if_neg hne, List.take_left' hx, List.drop_left' hx,
      chunksAux_flatten hn xs (fun y hy => hlen y (List.mem_cons_of_mem x hy)) (by simpa using hfuel)]

theorem chunks_flatten {n : Nat} (hn : 0 < n) {xs : List Bytes} (hlen : ∀ x ∈ xs, x.length = n) :
    chunks n xs.flatten = xs :=
  chunksAux_flatten hn xs hlen (by
    rw [length_flatten_of_length xs hlen]; exact Nat.le_mul_of_pos_right _ hn)

/-- A stored block at `pos` of the image yields `d`. -/
def MetadataBlock.StoredAt (env : Env) (image : Bytes) (c : Compression) (pos : Nat) (d : Bytes) :
    Prop :=
  ∃ (m : Stored) (rest : Bytes), readerAt image pos = m.encode ++ rest ∧ m.Payload env c d

namespace FragmentsTable

/-- The payload of the `j`-th block of a fragment table: the entries `512 j` to `512 (j + 1)`. -/
def blockPayload (es : List StoredEntry) (j : Nat) : Bytes :=
  (((es.drop (512 * j)).take 512).map StoredEntry.encode).flatten

theorem length_of_mem_map_encode {es : List StoredEntry} :
    ∀ x ∈ es.map StoredEntry.encode, x.length = 16 := by
  simp

theorem length_blockPayload (es : List StoredEntry) (j : Nat) :
    (blockPayload es j).length = 16 * ((es.drop (512 * j)).take 512).length := by
  rw [blockPayload, length_flatten_of_length _ length_of_mem_map_encode, List.length_map,
    Nat.mul_comm]

variable {env : Env} {image : Bytes} {c : Compression}

/-- The blocks at `locs`, holding the entries 512 by 512, read as the entries in order. -/
theorem readEntries_blocks :
    ∀ (locs : List Nat) (es : List StoredEntry), es.length ≤ 512 * locs.length →
      (∀ j (hj : j < locs.length), StoredAt env image c (locs.get ⟨j, hj⟩) (blockPayload es j)) →
      readEntries env image c locs = .ok (es.map StoredEntry.toEntry)
  | [], es, hlen, _ => by
    obtain rfl : es = [] := List.eq_nil_of_length_eq_zero (by simpa using hlen)
    rfl
  | l :: ls, es, hlen, hblocks => by
    obtain ⟨m, rest, himage, hd⟩ : StoredAt env image c l (blockPayload es 0) :=
      hblocks 0 (by simp)
    have hsmall : ¬ 8192 < (blockPayload es 0).length := by
      rw [length_blockPayload, List.length_take]; omega
    have hread := fromReader_encode himage hd
    rw [if_neg hsmall] at hread
    have hchunks : chunks 16 (blockPayload es 0) = (es.take 512).map StoredEntry.encode :=
      chunks_flatten (by decide) length_of_mem_map_encode
    have hrest := readEntries_blocks ls (es.drop 512) (by simp at hlen ⊢; omega)
      fun j hj => by
        simpa [blockPayload, List.drop_drop, Nat.mul_succ, Nat.add_comm] using
          hblocks (j + 1) (by simpa using hj)
    simp only [readEntries, hread, Except.mapError, hchunks, StoredEntry.mapM_decode_encode,
      Option.elim, hrest, bind, Except.bind, pure, Except.pure]
    rw [← List.map_append, List.take_append_drop]

/-- `entry` on a table: the entry at the index, for an index in range and not `0xFFFFFFFF`. -/
theorem entry_eq (es : List Entry) (loc : FragmentLocation) :
    entry ⟨es⟩ loc =
      if h : loc.index ≠ 0xFFFFFFFF ∧ loc.index < es.length then .ok (es.get ⟨loc.index, h.2⟩)
      else .error .invalidLocation := by
  unfold entry FragmentLocation.valid
  by_cases hv : loc.index = 0xFFFFFFFF
  · simp [hv]
  · by_cases hi : loc.index < es.length
    · simp [hv, hi]
    · simp [hv, hi, List.getElem?_eq_none (Nat.not_lt.mp hi)]

/-- The locations, read as words, then the blocks they point to, read as the entries. -/
theorem fromReader_stored {sb : SuperBlock} {rest : Bytes} {es : List StoredEntry}
    {locs : List Nat} (hcount : sb.fragmentEntryCount = es.length) (hn : es.length < 2 ^ 32)
    (hlocs : locs.length = (es.length + 511) / 512) (hlt : ∀ l ∈ locs, l < 2 ^ 64)
    (htable : readerAt image sb.fragmentTableStart = (locs.map (leBytes 8)).flatten ++ rest)
    (hblocks : ∀ j (hj : j < locs.length),
      StoredAt env image sb.compression (locs.get ⟨j, hj⟩) (blockPayload es j)) :
    fromReader env sb image = .ok ⟨es.map StoredEntry.toEntry⟩ := by
  have hcountLocs : nLocations sb = locs.length := by
    rw [nLocations, F64.toUInt_ceil_div (by omega) (by decide) (by decide), hcount, hlocs]
    omega
  have hwords := Stream.readWords_append 8 locs rest none
  rw [List.map_congr_left fun l hl => Nat.mod_eq_of_lt (show l < 256 ^ 8 by simpa using hlt l hl),
    List.map_id'] at hwords
  simp only [fromReader, hcountLocs, Stream.ofBytes, htable, hwords, Except.mapError,
    readEntries_blocks locs es (by omega) hblocks, bind, Except.bind, pure, Except.pure]

/-- **The fragments table.**  Take `n < 2 ^ 32` entries (`fragment_entry_count` is a `u32`),
`⌈n / 512⌉` locations stored at `fragment_table_start`, and at the `j`-th location a stored block
whose payload is the entries `512 j` to `512 (j + 1)`.  Then `from_reader` returns the entries in
order, and `entry` finds an entry by its index, or fails with `InvalidLocation` for the index
`0xFFFFFFFF` and for an index past the last entry. -/
theorem fromReader_entries {sb : SuperBlock} {rest : Bytes} {es : List StoredEntry}
    {locs : List Nat} (hcount : sb.fragmentEntryCount = es.length) (hn : es.length < 2 ^ 32)
    (hlocs : locs.length = (es.length + 511) / 512) (hlt : ∀ l ∈ locs, l < 2 ^ 64)
    (htable : readerAt image sb.fragmentTableStart = (locs.map (leBytes 8)).flatten ++ rest)
    (hblocks : ∀ j (hj : j < locs.length),
      StoredAt env image sb.compression (locs.get ⟨j, hj⟩) (blockPayload es j)) :
    fromReader env sb image = .ok ⟨es.map StoredEntry.toEntry⟩ ∧
      ∀ loc : FragmentLocation, entry ⟨es.map StoredEntry.toEntry⟩ loc =
        if h : loc.index ≠ 0xFFFFFFFF ∧ loc.index < es.length then
          .ok (es.get ⟨loc.index, h.2⟩).toEntry
        else .error .invalidLocation :=
  ⟨fromReader_stored hcount hn hlocs hlt htable hblocks, fun loc => by
    simp only [entry_eq, List.length_map, List.get_eq_getElem, List.getElem_map]⟩

/-- Two entries, the first of a block stored uncompressed. -/
def twoEntries : List StoredEntry :=
  [⟨5, ⟨0x1000010⟩, 0, by decide, by decide, by decide⟩, ⟨9, ⟨3⟩, 0, by decide, by decide, by decide⟩]

/-- A superblock whose fragment table, of two entries, starts the image. -/
def twoEntrySuperBlock : SuperBlock :=
  ⟨0x73717368, 1, 4096, 2, .zstd, 0, 4, 0, ⟨0⟩, 42, 42, 42, 0, none⟩

/-- The one location, 8, then the block of the two entries, stored as is. -/
def twoEntryImage : Bytes := leBytes 8 8 ++ leBytes 2 0x8020 ++ blockPayload twoEntries 0

theorem fromReader_entries_two :
    twoEntrySuperBlock.fragmentEntryCount = twoEntries.length ∧ twoEntries.length < 2 ^ 32 ∧
      [8].length = (twoEntries.length + 511) / 512 ∧ (∀ l ∈ [8], l < 2 ^ 64) ∧
      readerAt twoEntryImage twoEntrySuperBlock.fragmentTableStart =
        ([8].map (leBytes 8)).flatten ++ (leBytes 2 0x8020 ++ blockPayload twoEntries 0) ∧
      (∀ j (hj : j < [8].length), StoredAt envTwice twoEntryImage twoEntrySuperBlock.compression
        ([8].get ⟨j, hj⟩) (blockPayload twoEntries j)) ∧
      fromReader envTwice twoEntrySuperBlock twoEntryImage = .ok ⟨[⟨5, ⟨0x1000010⟩⟩, ⟨9, ⟨3⟩⟩]⟩ := by
  have hblocks : ∀ j (hj : j < [8].length), StoredAt envTwice twoEntryImage
      twoEntrySuperBlock.compression ([8].get ⟨j, hj⟩) (blockPayload twoEntries j) := by
    intro j hj
    obtain rfl : j = 0 := by simpa using hj
    show StoredAt envTwice twoEntryImage .zstd 8 (blockPayload twoEntries 0)
    exact ⟨⟨0x8020, blockPayload twoEntries 0, by decide, by decide⟩, [], by decide, by decide⟩
  exact ⟨rfl, by decide, rfl, by decide, by decide, hblocks,
    (@fromReader_entries envTwice twoEntryImage twoEntrySuperBlock
      (leBytes 2 0x8020 ++ blockPayload twoEntries 0) twoEntries [8] rfl (by decide) rfl
      (by decide) (by decide) hblocks).1⟩

end FragmentsTable

end SquashfsAsync
