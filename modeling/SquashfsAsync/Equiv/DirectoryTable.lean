import SquashfsAsync.Equiv.InodeTable
import SquashfsAsync.Equiv.Metadata

/-!
# Correctness of directory listings and lookups

* `find_ofEntries`: `DirectoryTable::find` through the hash multi-index returns the first entry
  of the listing with the name asked for, whatever the hash and whatever names repeat.  The
  positions of a hash are in ascending order, and every entry with the name asked for has its
  hash; so the lookup walks the listing's matching entries in order.
* `fromReader_inode_overflow`: `Entry::from` adds the base and the offset in `i32`, which
  overflows for a base just below `2 ^ 31` and a positive offset, although the inode number
  they make fits in a `u32`.
* `fromReader_runs`: a listing of well-formed runs (`RunRecord`: a header and its entries, laid
  out by `RunRecord.encode`), then fewer than 12 bytes, reads back as the entries of the runs, each
  with its inode number the header's base plus its offset modulo `2 ^ 32`.  A directory's
  `file_size` counts three bytes past its listing, which the loop reads as a clean end.
* `fromReader_truncated_run`: a run cut anywhere past its header fails with `InvalidEntry`.

The listing proofs follow the loop as `Equiv/InodeTable` does: `fromReaderLoop_cons` is one run,
`fromReaderLoop_encode` the induction over the runs, and `FailsShort` the runs cut short.
-/

namespace SquashfsAsync

namespace DirectoryTable

open InodeTable (readExact_append_of_length bincodeDeserFrom_append_of_length FailsShort)

variable (env : Env)

/-! ### `find` -/

theorem findIn_groupMap (es : List Entry) (name : Bytes) :
    ∀ (pre suf : List Entry), pre ++ suf = es →
      findIn es name (groupMap ((suf.enumFrom pre.length).map
          fun (i, e) => (env.indexHash e.name, i)) (env.indexHash name)) =
        .ok (suf.find? fun e => e.name = name)
  | _, [], _ => rfl
  | pre, e :: suf, h => by
    have hget : es[pre.length]? = some e := by
      rw [← h, List.getElem?_append_right (Nat.le_refl _), Nat.sub_self]; simp
    have ih := findIn_groupMap es name (pre ++ [e]) suf (by simp [← h])
    rw [List.length_append, List.length_singleton] at ih
    simp only [List.enumFrom_cons, List.map_cons, groupMap]
    by_cases hn : e.name = name
    · simp [hn, findIn, hget]
    · split_ifs <;> simp [findIn, hget, hn, ih]

/-- **Lookup.**  The table `from_reader` builds answers `find` as a linear scan of its entries
would. -/
theorem find_ofEntries (es : List Entry) (name : Bytes) :
    (ofEntries env es).find env name = .ok (es.find? fun e => e.name = name) :=
  findIn_groupMap env es name [] es rfl

/-! ### The inode number of an entry -/

/-- One run of one entry named `a`, with base `2 ^ 31 - 1` and offset `1`: the inode number is
`2 ^ 31`, and `i32` addition overflows on the way. -/
theorem fromReader_inode_overflow :
    (fromReader env ⟨leBytes 4 0 ++ leBytes 4 0 ++ leBytes 4 (2 ^ 31 - 1) ++
      leBytes 2 0 ++ leBytes 2 1 ++ leBytes 2 2 ++ leBytes 2 0 ++ [0x61], none⟩).map
        (·.entries) = .error (.panic .overflow) :=
  rfl

/-- A listing `from_reader_directory` reads is a table built by `from_reader`. -/
theorem fromReaderDirectory_ofEntries {dir : DirectoryInode} {sb : SuperBlock}
    {image : Bytes} {t : DirectoryTable}
    (h : fromReaderDirectory env dir sb image = .ok t) :
    ∃ es, t = ofEntries env es := by
  obtain ⟨_, -, h⟩ := Run.bind_eq_ok.mp h
  obtain ⟨_, -, h⟩ := Run.bind_eq_ok.mp h
  obtain ⟨es, -, h⟩ := Run.bind_eq_ok.mp h
  cases h
  exact ⟨es, rfl⟩

/-! ### Listings -/

/-- An entry of a listing by its fields. -/
structure EntryRecord where
  inodeMetadataOffset : Nat
  inodeOffset : Int
  type : InodeType
  name : Bytes
  deriving DecidableEq, Repr

/-- A run of a listing: a header's two bases and the entries it heads. -/
structure RunRecord where
  inodeTableOffset : Nat
  inodeNumberBase : Nat
  entries : List EntryRecord
  deriving DecidableEq, Repr

namespace EntryRecord

/-- `inode_metadata_offset`, `inode_offset` in two's complement, the type, `name_size`, then the
name. -/
def encode (e : EntryRecord) : Bytes :=
  leBytes 2 e.inodeMetadataOffset ++ leBytes 2 (e.inodeOffset % 2 ^ 16).toNat ++
    leBytes 2 e.type.toU16 ++ leBytes 2 (e.name.length - 1) ++ e.name

/-- Under a header with bases `tableOffset` and `base`: each field fits its width, the sums
`Entry::from` makes fit theirs, and the name is nonempty UTF-8 that `name_size` can count. -/
def Valid (tableOffset base : Nat) (e : EntryRecord) : Prop :=
  e.inodeMetadataOffset < 2 ^ 16 ∧ tableOffset + e.inodeMetadataOffset < 2 ^ 32 ∧
    -2 ^ 15 ≤ e.inodeOffset ∧ e.inodeOffset < 2 ^ 15 ∧
    -2 ^ 31 ≤ toSigned 32 base + e.inodeOffset ∧ toSigned 32 base + e.inodeOffset < 2 ^ 31 ∧
    e.name ≠ [] ∧ e.name.length ≤ 2 ^ 16 ∧ utf8Valid e.name = true

/-- The entry of the listing: its metadata offset from the header's, and its inode number the
header's base plus its offset, modulo `2 ^ 32`. -/
def toEntry (h : Header) (e : EntryRecord) : Entry :=
  ⟨h.inodeTableOffset + e.inodeMetadataOffset,
    ((h.inodeNumberBase + e.inodeOffset) % 2 ^ 32).toNat, e.type, e.name⟩

instance (tableOffset base : Nat) (e : EntryRecord) : Decidable (e.Valid tableOffset base) :=
  inferInstanceAs (Decidable (_ ∧ _ ∧ _ ∧ _ ∧ _ ∧ _ ∧ _ ∧ _ ∧ _))

end EntryRecord

namespace RunRecord

/-- The header of a run counts its entries less one. -/
def header (r : RunRecord) : Header :=
  ⟨r.entries.length - 1, r.inodeTableOffset, r.inodeNumberBase⟩

/-- The header's three `u32`s, then the entries. -/
def encode (r : RunRecord) : Bytes :=
  leBytes 4 r.header.entries ++ leBytes 4 r.inodeTableOffset ++ leBytes 4 r.inodeNumberBase ++
    (r.entries.map EntryRecord.encode).flatten

/-- A run has between one and `2 ^ 32 - 1` entries (the count plus one is a `u32`), bases within
`u32`, and well-formed entries. -/
def Valid (r : RunRecord) : Prop :=
  r.entries ≠ [] ∧ r.entries.length < 2 ^ 32 ∧ r.inodeTableOffset < 2 ^ 32 ∧
    r.inodeNumberBase < 2 ^ 32 ∧ ∀ e ∈ r.entries, e.Valid r.inodeTableOffset r.inodeNumberBase

instance (r : RunRecord) : Decidable r.Valid :=
  inferInstanceAs (Decidable (_ ∧ _ ∧ _ ∧ _ ∧ _))

/-- The entries the run lists. -/
def toEntries (r : RunRecord) : List Entry := r.entries.map (EntryRecord.toEntry r.header)

end RunRecord

/-! ### Reading a listing back -/

theorem toSigned_sixteen {x : Int} (h₁ : -2 ^ 15 ≤ x) (h₂ : x < 2 ^ 15) :
    toSigned 16 (x % 2 ^ 16).toNat = x := by
  unfold toSigned; split_ifs <;> omega

theorem toSigned_add_emod (v : Nat) (x : Int) :
    (toSigned 32 v + x) % 2 ^ 32 = (v + x) % 2 ^ 32 := by
  unfold toSigned; split_ifs <;> omega

/-- The decoder of the fixed part of an entry, as `EntryInternal::from_reader` calls it. -/
theorem decode_entryFixed {tableOffset base : Nat} {e : EntryRecord}
    (he : e.Valid tableOffset base) :
    (fun bs : Bytes => (InodeType.ofU16 (field bs 4 2)).map
      fun ty => (field bs 0 2, toSigned 16 (field bs 2 2), ty, field bs 6 2))
      (leBytes 2 e.inodeMetadataOffset ++ leBytes 2 (e.inodeOffset % 2 ^ 16).toNat ++
        leBytes 2 e.type.toU16 ++ leBytes 2 (e.name.length - 1)) =
      some (e.inodeMetadataOffset, e.inodeOffset, e.type, e.name.length - 1) := by
  obtain ⟨h₁, -, h₃, h₄, -, -, -, hlen, -⟩ := he
  have hty := e.type.toU16_lt
  simp (disch := simp) only [List.append_assoc, field_append, length_leBytes]
  simp (disch := omega) [field_leBytes_append, field_leBytes, Nat.mod_eq_of_lt]
  exact toSigned_sixteen h₃ h₄

theorem length_entryFixed (e : EntryRecord) :
    (leBytes 2 e.inodeMetadataOffset ++ leBytes 2 (e.inodeOffset % 2 ^ 16).toNat ++
      leBytes 2 e.type.toU16 ++ leBytes 2 (e.name.length - 1)).length = 8 := by
  simp

theorem entryFromReader_encode {tableOffset base : Nat} {e : EntryRecord}
    (he : e.Valid tableOffset base) (rest : Bytes) (tl : Option IoError) :
    EntryInternal.fromReader ⟨e.encode ++ rest, tl⟩ =
      .ok (⟨e.inodeMetadataOffset, e.inodeOffset, e.type, e.name⟩, ⟨rest, tl⟩) := by
  have hpos : 0 < e.name.length := List.length_pos.mpr he.2.2.2.2.2.2.1
  have hsize : e.name.length - 1 + 1 = e.name.length := by omega
  rw [EntryRecord.encode, List.append_assoc]
  simp only [EntryInternal.fromReader, bincodeDeserFrom_append_of_length tl
    (fun bs : Bytes => (InodeType.ofU16 (field bs 4 2)).map
      fun ty => (field bs 0 2, toSigned 16 (field bs 2 2), ty, field bs 6 2))
    DirectoryTableError.invalidEntry (length_entryFixed e) (decode_entryFixed he), bind,
    Except.bind, hsize, Stream.bincodeDeserStringFrom_append _ _ tl _ he.2.2.2.2.2.2.2.2]
  rfl

theorem entry_from_eq {E : Type} (h : Header) {e : EntryRecord}
    (he : e.Valid h.inodeTableOffset h.inodeNumberBase) :
    (Entry.from h ⟨e.inodeMetadataOffset, e.inodeOffset, e.type, e.name⟩ : Run E Entry) =
      .ok (e.toEntry h) := by
  obtain ⟨-, h₂, -, -, h₅, h₆, -⟩ := he
  simp only [Entry.from, addChecked_of_lt h₂, addCheckedI32, if_pos (And.intro h₅ h₆), bind,
    Except.bind, pure, Except.pure, EntryRecord.toEntry, toSigned_add_emod]

theorem readEntries_encode (h : Header) (rest : Bytes) (tl : Option IoError) :
    ∀ es : List EntryRecord, (∀ e ∈ es, e.Valid h.inodeTableOffset h.inodeNumberBase) →
      readEntries h es.length ⟨(es.map EntryRecord.encode).flatten ++ rest, tl⟩ =
        .ok (es.map (EntryRecord.toEntry h), ⟨rest, tl⟩)
  | [], _ => rfl
  | e :: es, hv => by
    rw [List.forall_mem_cons] at hv
    simp only [List.length_cons, List.map_cons, List.flatten_cons, List.append_assoc, readEntries,
      entryFromReader_encode hv.1, Run.ofExcept_ok, bind, Except.bind, entry_from_eq h hv.1,
      readEntries_encode h rest tl es hv.2]
    rfl

theorem decode_header {r : RunRecord} (hr : r.Valid) :
    Header.decode (leBytes 4 r.header.entries ++ leBytes 4 r.inodeTableOffset ++
      leBytes 4 r.inodeNumberBase) = r.header := by
  obtain ⟨-, h₁, h₂, h₃, -⟩ := hr
  have h₀ : r.header.entries < 2 ^ 32 := by simp only [RunRecord.header]; omega
  simp (disch := simp) only [Header.decode, List.append_assoc, field_append, length_leBytes]
  simp (disch := omega) [field_leBytes_append, field_leBytes, Nat.mod_eq_of_lt]
  rfl

/-- **Step.**  One pass of the loop reads one well-formed run. -/
theorem fromReaderLoop_cons {r : RunRecord} (hr : r.Valid) (fuel : Nat) (rest : Bytes)
    (tl : Option IoError) :
    fromReaderLoop (fuel + 1) ⟨r.encode ++ rest, tl⟩ =
      fromReaderLoop fuel ⟨rest, tl⟩ >>= fun l => pure (r.toEntries ++ l) := by
  have hpos : 0 < r.entries.length := List.length_pos.mpr hr.1
  have hcount : r.header.entries + 1 = r.entries.length := by
    simp only [RunRecord.header]; omega
  have h12 : (leBytes 4 r.header.entries ++ leBytes 4 r.inodeTableOffset ++
      leBytes 4 r.inodeNumberBase).length = 12 := by simp
  simp only [fromReaderLoop, RunRecord.encode, List.append_assoc]
  rw [← List.append_assoc, ← List.append_assoc, readExact_append_of_length tl h12]
  simp only [decode_header hr, addChecked_of_lt (show r.header.entries + 1 < 2 ^ 32 by
    rw [hcount]; exact hr.2.1), hcount, readEntries_encode r.header rest tl r.entries hr.2.2.2.2,
    bind, Except.bind]
  rfl


/-- **Run.**  The loop reads well-formed runs one after the other. -/
theorem fromReaderLoop_encode (rest : Bytes) (tl : Option IoError) :
    ∀ (runs : List RunRecord) (fuel : Nat), (∀ r ∈ runs, r.Valid) → runs.length ≤ fuel →
      fromReaderLoop fuel ⟨(runs.map RunRecord.encode).flatten ++ rest, tl⟩ =
        fromReaderLoop (fuel - runs.length) ⟨rest, tl⟩ >>=
          fun l => pure (runs.flatMap RunRecord.toEntries ++ l)
  | [], fuel, _, _ => by cases h : fromReaderLoop fuel ⟨rest, tl⟩ <;> simp [h]
  | r :: runs, fuel + 1, hv, hlen => by
    rw [List.forall_mem_cons] at hv
    simp only [List.map_cons, List.flatten_cons, List.append_assoc, List.length_cons,
      Nat.add_sub_add_right, fromReaderLoop_cons hv.1,
      fromReaderLoop_encode rest tl runs fuel hv.2 (Nat.le_of_succ_le_succ hlen)]
    cases fromReaderLoop (fuel - runs.length) ⟨rest, tl⟩ <;> simp [bind, Except.bind, pure,
      Except.pure, List.flatMap_cons]

theorem length_le_length_flatten (runs : List RunRecord) :
    runs.length ≤ ((runs.map RunRecord.encode).flatten).length := by
  induction runs with
  | nil => simp
  | cons r runs ih =>
    simp only [List.map_cons, List.flatten_cons, List.length_append, List.length_cons,
      RunRecord.encode, length_leBytes]
    omega

/-- Fewer than 12 bytes before a clean end end the loop as a clean end does. -/
theorem fromReaderLoop_short (fuel : Nat) {part : Bytes} (hpart : part.length < 12) :
    fromReaderLoop (fuel + 1) ⟨part, none⟩ = .ok [] := by
  simp only [fromReaderLoop, Stream.readExact_of_lt ⟨part, none⟩ 12 hpart, Option.getD_none]

/-- The loop, with the fuel `from_reader` gives it, reads well-formed runs and fewer than 12
bytes after them as the entries of the runs. -/
theorem fromReaderLoop_runs (runs : List RunRecord) (hv : ∀ r ∈ runs, r.Valid) {part : Bytes}
    (hpart : part.length < 12) :
    fromReaderLoop (((runs.map RunRecord.encode).flatten ++ part).length + 1)
        ⟨(runs.map RunRecord.encode).flatten ++ part, none⟩ =
      .ok (runs.flatMap RunRecord.toEntries) := by
  have hlen := length_le_length_flatten runs
  rw [List.length_append, fromReaderLoop_encode part none runs _ hv (by omega),
    show (runs.map RunRecord.encode).flatten.length + part.length + 1 - runs.length =
      (runs.map RunRecord.encode).flatten.length + part.length - runs.length + 1 by omega,
    fromReaderLoop_short _ hpart]
  simp [bind, Except.bind, pure, Except.pure]

/-- **Listings.**  Well-formed runs, then fewer than 12 bytes (as `take(file_size)` leaves after a
listing: a directory's `file_size` is its listing's size plus three): `from_reader` returns the
entries of the runs in order, each with its metadata offset and its inode number the header's
base plus its offset modulo `2 ^ 32`. -/
theorem fromReader_runs (runs : List RunRecord) (hv : ∀ r ∈ runs, r.Valid) {part : Bytes}
    (hpart : part.length < 12) :
    fromReader env ⟨(runs.map RunRecord.encode).flatten ++ part, none⟩ =
      .ok (ofEntries env (runs.flatMap RunRecord.toEntries)) := by
  simp only [fromReader, fromReaderLoop_runs runs hv hpart]
  rfl


/-- Two runs: one from base 10, with a file `a` and a directory `bc` three below it, and one from
base `2 ^ 32 - 1` (the `i32` value `-1`), with a file `d` five above it. -/
def twoRuns : List RunRecord :=
  [⟨0, 10, [⟨0, 0, .basicFile, [0x61]⟩, ⟨32, -3, .basicDirectory, [0x62, 0x63]⟩]⟩,
    ⟨64, 2 ^ 32 - 1, [⟨0, 5, .basicFile, [0x64]⟩]⟩]

example : (twoRuns.flatMap RunRecord.toEntries).map (·.inode) = [10, 7, 4] := by decide

theorem fromReader_runs_two :
    (∀ r ∈ twoRuns, r.Valid) ∧ ([0, 0, 0] : Bytes).length < 12 ∧
      fromReader MetadataBlock.envTwice
          ⟨(twoRuns.map RunRecord.encode).flatten ++ [0, 0, 0], none⟩ =
        .ok (ofEntries MetadataBlock.envTwice (twoRuns.flatMap RunRecord.toEntries)) :=
  ⟨by decide, by decide, fromReader_runs _ twoRuns (by decide) (by decide)⟩

/-! ### Truncated listings -/

theorem entryFromReader_failsShort {tableOffset base : Nat} {e : EntryRecord}
    (he : e.Valid tableOffset base) :
    FailsShort EntryInternal.fromReader e.encode .invalidEntry := by
  have hpos : 0 < e.name.length := List.length_pos.mpr he.2.2.2.2.2.2.1
  exact InodeTable.FailsShort.bind
    (fun s => ((e.inodeMetadataOffset, e.inodeOffset, e.type, e.name.length - 1), s))
    (fun rest => bincodeDeserFrom_append_of_length none
      (fun bs : Bytes => (InodeType.ofU16 (field bs 4 2)).map
        fun ty => (field bs 0 2, toSigned 16 (field bs 2 2), ty, field bs 6 2))
      _ (length_entryFixed e)
      (decode_entryFixed he))
    (InodeTable.FailsShort.bincodeDeserFrom _ _ (length_entryFixed e))
    (InodeTable.FailsShort.bind_left (InodeTable.FailsShort.bincodeDeserFrom _ _ (by omega)))

theorem readEntries_failsShort (h : Header) :
    ∀ es : List EntryRecord, (∀ e ∈ es, e.Valid h.inodeTableOffset h.inodeNumberBase) →
      FailsShort (readEntries h es.length) (es.map EntryRecord.encode).flatten
        (.error .invalidEntry)
  | [], _ => fun k hk => absurd hk (by simp)
  | e :: es, hv => by
    rw [List.forall_mem_cons] at hv
    refine InodeTable.FailsShort.bind
      (fun s => (⟨e.inodeMetadataOffset, e.inodeOffset, e.type, e.name⟩, s))
      (fun rest => by rw [entryFromReader_encode hv.1]; rfl)
      ((entryFromReader_failsShort hv.1).ofExcept id) ?_
    simp only [entry_from_eq h hv.1]
    exact InodeTable.FailsShort.bind_left (readEntries_failsShort h es hv.2)


/-- **Step, cut short.**  A well-formed run cut after its header makes the loop fail with
`InvalidEntry`. -/
theorem fromReaderLoop_truncated {r : RunRecord} (hr : r.Valid) (fuel : Nat) {k : Nat}
    (hk : 12 ≤ k) (hk' : k < r.encode.length) :
    fromReaderLoop (fuel + 1) ⟨r.encode.take k, none⟩ = .error (.error .invalidEntry) := by
  have hpos : 0 < r.entries.length := List.length_pos.mpr hr.1
  have hcount : r.header.entries + 1 = r.entries.length := by
    simp only [RunRecord.header]; omega
  have h12 : (leBytes 4 r.header.entries ++ leBytes 4 r.inodeTableOffset ++
      leBytes 4 r.inodeNumberBase).length = 12 := by simp
  have hcut : k - 12 < ((r.entries.map EntryRecord.encode).flatten).length := by
    rw [RunRecord.encode, List.length_append, h12] at hk'; omega
  rw [RunRecord.encode, List.take_append_eq_append_take, h12,
    List.take_of_length_le (by rw [h12]; exact hk)]
  simp only [fromReaderLoop, readExact_append_of_length none h12, decode_header hr,
    addChecked_of_lt (show r.header.entries + 1 < 2 ^ 32 by rw [hcount]; exact hr.2.1), hcount,
    readEntries_failsShort r.header r.entries hr.2.2.2.2 _ hcut, bind, Except.bind]

/-- Well-formed runs, then one more cut short past its header: `from_reader` fails with
`InvalidEntry`.  A cut inside the header is a clean end instead (`fromReader_runs`). -/
theorem fromReader_truncated_run (runs : List RunRecord) (hv : ∀ r ∈ runs, r.Valid)
    {r : RunRecord} (hr : r.Valid) {k : Nat} (hk : 12 ≤ k) (hk' : k < r.encode.length) :
    fromReader env ⟨(runs.map RunRecord.encode).flatten ++ r.encode.take k, none⟩ =
      .error (.error .invalidEntry) := by
  have hlen := length_le_length_flatten runs
  rw [fromReader, List.length_append,
    fromReaderLoop_encode _ none runs _ hv (by omega),
    show (runs.map RunRecord.encode).flatten.length + (r.encode.take k).length + 1 -
        runs.length =
      (runs.map RunRecord.encode).flatten.length + (r.encode.take k).length - runs.length + 1
      by omega,
    fromReaderLoop_truncated hr _ hk hk']
  rfl

/-- A run of one file `xyz`. -/
def xyzRun : RunRecord := ⟨0, 100, [⟨0, 1, .basicFile, [0x78, 0x79, 0x7A]⟩]⟩

/-- `twoRuns`, then `xyzRun` cut one byte into its name. -/
theorem fromReader_truncated_run_name :
    (∀ r ∈ twoRuns, r.Valid) ∧ xyzRun.Valid ∧ 12 ≤ 21 ∧ 21 < xyzRun.encode.length ∧
      fromReader MetadataBlock.envTwice
          ⟨(twoRuns.map RunRecord.encode).flatten ++ xyzRun.encode.take 21, none⟩ =
        .error (.error .invalidEntry) :=
  ⟨by decide, by decide, by decide, by decide,
    fromReader_truncated_run _ twoRuns (by decide) (by decide) (by decide) (by decide)⟩

end DirectoryTable

end SquashfsAsync
