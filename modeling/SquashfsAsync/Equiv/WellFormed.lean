import SquashfsAsync.Equiv.Fragments
import SquashfsAsync.Equiv.Image
import SquashfsAsync.Equiv.DirectoryTable

/-!
# Opening a well-formed image

`SquashFs::from_reader` reads the superblock, the root inode, the inode table, the fragments
table and one listing per directory of the inode table.  `WellFormed` lays an image out the way
those readers expect it: the superblock first, the inode table stored in metadata blocks up to
the directory table, the root reference at the header of a directory's record, each directory's
listing where its inode says, and the fragment table as in `Equiv/Fragments`.

* `fromReader_wellFormed`: on a well-formed image, with options it accepts (`Options.Accepts`),
  `from_reader` succeeds and keeps what the image holds: its superblock, the number of the record
  the root reference names, the files and directories of the records, the fragment entries, and
  for each directory the entries of its listing.

A table stored in metadata blocks is a `StoredTable`; a reference into it is the position of one
of its blocks and an offset in the bytes decoded from that block on.  Reading there gives what
stands there (`StoredTable.readRootInode_eq`, `StoredTable.fromReaderDirectory_eq`), and the
directories' listings are read one by one (`readDirectoryTables_ok`).
-/

namespace SquashfsAsync

open InodeTable (InodeRecord)

namespace MetadataBlock

open Stored

/-- A table stored in metadata blocks from `start`: the blocks that start before `endPos`, their
payloads of at most 8192 bytes, and what the image holds after them. -/
structure StoredTable (env : Env) (image : Bytes) (c : Compression) (start endPos : Nat) where
  blocks : List Stored
  payloads : List Bytes
  rest : Bytes
  reads : readerAt image start = (blocks.map encode).flatten ++ rest
  decode : List.Forall₂ (Payload env c) blocks payloads
  small : ∀ d ∈ payloads, d.length ≤ 8192
  spans : Spans start endPos blocks

namespace StoredTable

variable {env : Env} {image : Bytes} {c : Compression} {start endPos : Nat}

/-- The bytes decoded from the `j`-th block on. -/
def bytesFrom (T : StoredTable env image c start endPos) (j : Nat) : Bytes :=
  (T.payloads.drop j).flatten

/-- The listing `runs` stands where `dir` says in the directory table `T`: at the position of a
block and an offset past which `file_size` bytes hold the runs and fewer than 12 bytes more. -/
def HoldsListing (T : StoredTable env image c start endPos) (dir : DirectoryInode)
    (runs : List DirectoryTable.RunRecord) : Prop :=
  ∃ j part, j < T.blocks.length ∧ dir.tableLocation.start = span (T.blocks.take j) ∧
    dir.tableLocation.offset + dir.tableLocation.fileSize ≤ (T.bytesFrom j).length ∧
    ((T.bytesFrom j).drop dir.tableLocation.offset).take dir.tableLocation.fileSize =
      (runs.map DirectoryTable.RunRecord.encode).flatten ++ part ∧
    part.length < 12 ∧ ∀ r ∈ runs, r.Valid

section

variable (T : StoredTable env image c start endPos)

theorem fromReaderFlatten_block (j : Nat) :
    fromReaderFlatten env image (start + span (T.blocks.take j)) endPos c =
      .ofBytes (T.bytesFrom j) :=
  fromReaderFlatten_drop T.reads T.decode T.small T.spans j

/-- In an image shorter than `2 ^ 64`, the position of a block fits a `u64`. -/
theorem position_lt (hlen : image.length < 2 ^ 64) {j : Nat} (hj : j < T.blocks.length) :
    start + span (T.blocks.take j) < 2 ^ 64 := by
  have := span_add_length_rest T.reads
  have := two_mul_length_le_span (T.blocks.drop j)
  have := span_append (T.blocks.take j) (T.blocks.drop j)
  rw [List.take_append_drop, List.length_drop] at *
  omega

/-- The bytes decoded from a block on are those of the whole table past the blocks before. -/
theorem bytesFrom_eq (j : Nat) :
    T.bytesFrom j = T.payloads.flatten.drop (T.payloads.take j).flatten.length := by
  rw [bytesFrom, ← List.drop_left (T.payloads.take j).flatten (T.payloads.drop j).flatten,
    ← List.flatten_append, List.take_append_drop]

end

/-- A reference to the `j`-th block of the inode table and an offset there reads the header
that stands there. -/
theorem readRootInode_eq {sb : SuperBlock}
    (T : StoredTable env image sb.compression sb.inodeTableStart sb.directoryTableStart)
    (hlen : image.length < 2 ^ 64) {j o : Nat} (hj : j < T.blocks.length) (ho : o < 8192)
    {h : InodeHeader} (hroom : o + 16 ≤ (T.bytesFrom j).length)
    (hdec : InodeHeader.decode (((T.bytesFrom j).drop o).take 16) = some h) :
    InodeTable.readRootInode env ⟨span (T.blocks.take j) <<< 16 ||| o⟩ sb image =
      .ok h.inodeNumber := by
  obtain ⟨hb, ho'⟩ := InodeRef.split (b := span (T.blocks.take j)) (by omega : o < 2 ^ 16)
  have hhdr : (⟨(T.bytesFrom j).drop o, none⟩ : Stream).readExact 16 =
      .ok (((T.bytesFrom j).drop o).take 16, ⟨(T.bytesFrom j).drop (o + 16), none⟩) := by
    rw [Stream.readExact, if_pos (by simp only [List.length_drop]; omega), List.drop_drop,
      Nat.add_comm]
  simp only [InodeTable.readRootInode, InodeTable.inodeTableBytes, Option.map_some',
    Option.getD_some, hb, ho', addChecked_of_lt (T.position_lt hlen hj),
    T.fromReaderFlatten_block, Stream.discard_of_le (s := ⟨T.bytesFrom j, none⟩) (n := o)
      (by simp only; omega),
    Stream.ofBytes, bind, Except.bind, Run.ofExcept, Stream.bincodeDeserFrom, hhdr, hdec]
  rfl

/-- A directory whose listing starts in the `j`-th block of the directory table reads its
`file_size` bytes from its offset there. -/
theorem fromReaderDirectory_eq {sb : SuperBlock}
    (T : StoredTable env image sb.compression sb.directoryTableStart sb.fragmentTableStart)
    (hlen : image.length < 2 ^ 64) {j : Nat} (hj : j < T.blocks.length) {dir : DirectoryInode}
    (hstart : dir.tableLocation.start = span (T.blocks.take j))
    (hroom : dir.tableLocation.offset + dir.tableLocation.fileSize ≤ (T.bytesFrom j).length) :
    DirectoryTable.fromReaderDirectory env dir sb image =
      DirectoryTable.fromReader env (.ofBytes
        (((T.bytesFrom j).drop dir.tableLocation.offset).take dir.tableLocation.fileSize)) := by
  have htake := Stream.take_of_le (s := ⟨(T.bytesFrom j).drop dir.tableLocation.offset, none⟩)
    (n := dir.tableLocation.fileSize) (by simp only [List.length_drop]; omega)
  simp only [DirectoryTable.fromReaderDirectory, hstart, addChecked_of_lt (T.position_lt hlen hj),
    T.fromReaderFlatten_block, Stream.discard_of_le (s := ⟨T.bytesFrom j, none⟩)
      (n := dir.tableLocation.offset) (by simp only; omega),
    Stream.ofBytes, bind, Except.bind, Run.ofExcept, htake]

/-- A directory whose listing stands where it says reads the listing's entries. -/
theorem fromReaderDirectory_listing {sb : SuperBlock}
    (T : StoredTable env image sb.compression sb.directoryTableStart sb.fragmentTableStart)
    (hlen : image.length < 2 ^ 64) {dir : DirectoryInode} {runs : List DirectoryTable.RunRecord}
    (h : T.HoldsListing dir runs) :
    DirectoryTable.fromReaderDirectory env dir sb image =
      .ok (DirectoryTable.ofEntries env (runs.flatMap DirectoryTable.RunRecord.toEntries)) := by
  obtain ⟨j, part, hj, hstart, hroom, hbytes, hpart, hv⟩ := h
  rw [fromReaderDirectory_eq T hlen hj hstart hroom, hbytes]
  simp only [DirectoryTable.fromReader, Stream.ofBytes, DirectoryTable.fromReaderLoop_runs runs hv hpart]
  rfl

/-- An inode table whose decoded bytes are well-formed records and fewer than 16 bytes more is
read as the table of the records. -/
theorem inodeTable_fromReader {sb : SuperBlock}
    (T : StoredTable env image sb.compression sb.inodeTableStart sb.directoryTableStart)
    (hstart : sb.inodeTableStart < 2 ^ 64) (hB : 0 < sb.blockSize) (hB' : sb.blockSize < 2 ^ 53)
    {recs : List InodeRecord} (hv : ∀ r ∈ recs, r.Valid sb.blockSize) {part : Bytes}
    (hpart : part.length < 16)
    (hbytes : T.payloads.flatten = (recs.map InodeRecord.encode).flatten ++ part) :
    InodeTable.fromReader env sb image = .ok (recs.foldl InodeRecord.insertInto .empty) := by
  have hs := T.fromReaderFlatten_block 0
  rw [List.take_zero, span_nil, Nat.add_zero, bytesFrom, List.drop_zero, hbytes] at hs
  simp only [InodeTable.fromReader, InodeTable.inodeTableBytes, Option.map_none',
    Option.getD_none, addChecked_of_lt (show sb.inodeTableStart + 0 < 2 ^ 64 by omega),
    Nat.add_zero, hs, Stream.ofBytes, bind, Except.bind, pure, Except.pure, Run.ofExcept,
    InodeTable.fromStream_append_short sb hB hB' recs hv hpart]

end StoredTable

end MetadataBlock

namespace InodeTable

variable {recs : List InodeRecord} (hnd : (recs.map InodeRecord.number).Nodup)
include hnd

theorem files_foldl (n : Nat) :
    (recs.foldl InodeRecord.insertInto empty).files.get? n =
      lookupKey n (recs.filterMap InodeRecord.fileEntry) := by
  rw [get?_foldl_insertInto InodeTable.files _ files_insertInto fileEntry_number n recs _ hnd]
  simp [empty]

theorem directories_foldl (n : Nat) :
    (recs.foldl InodeRecord.insertInto empty).directories.get? n =
      lookupKey n (recs.filterMap InodeRecord.dirEntry) := by
  rw [get?_foldl_insertInto InodeTable.directories _ directories_insertInto dirEntry_number n
    recs _ hnd]
  simp [empty]

/-- A number of the table of the records is a record's. -/
theorem mem_ids_foldl {k : Nat} (hk : k ∈ (recs.foldl InodeRecord.insertInto empty).ids) :
    ∃ r ∈ recs, r.number = k := by
  rw [ids, List.mem_append, BTreeMap.mem_keys_iff, BTreeMap.mem_keys_iff, directories_foldl hnd,
    files_foldl hnd, Option.isSome_iff_exists, Option.isSome_iff_exists] at hk
  rcases hk with ⟨d, hd⟩ | ⟨f, hf⟩
  · obtain ⟨r, hr, he⟩ := List.mem_filterMap.mp (BTreeMap.mem_of_lookupKey hd)
    exact ⟨r, hr, (dirEntry_number r k d he).symm⟩
  · obtain ⟨r, hr, he⟩ := List.mem_filterMap.mp (BTreeMap.mem_of_lookupKey hf)
    exact ⟨r, hr, (fileEntry_number r k f he).symm⟩

/-- The number of a directory's record is a number of the table. -/
theorem mem_ids_of_dirEntry {r : InodeRecord} (hr : r ∈ recs) {n : Nat} {d : DirectoryInode}
    (he : r.dirEntry = some (n, d)) : n ∈ (recs.foldl InodeRecord.insertInto empty).ids := by
  rw [ids, List.mem_append, BTreeMap.mem_keys_iff, directories_foldl hnd]
  exact .inl (BTreeMap.lookupKey_isSome (List.mem_filterMap.mpr ⟨r, hr, he⟩))

end InodeTable

variable (env : Env)

/-- Options `from_reader` accepts with the superblock `sb`: a reader at least, a cache at least
ten times the direct limit with both products within `u64`, and caches that can be made. -/
def Options.Accepts (opts : Options) (sb : SuperBlock) : Prop :=
  0 < opts.readers ∧ opts.directLimit * 10 ≤ opts.cacheMb * 1000000 ∧
    opts.cacheMb * 1000000 < 2 ^ 64 ∧
    (0 < opts.cacheMb → env.indexCacheNew opts.cacheMb sb.blockSize sb.bytesUsed = true) ∧
    (0 < opts.directLimit → sb.inodeCount * opts.directLimit < 2 ^ 64 ∧
      env.lruCacheNew opts.cacheMb opts.directLimit (sb.inodeCount * opts.directLimit) = true)

instance (opts : Options) (sb : SuperBlock) : Decidable (opts.Accepts env sb) :=
  inferInstanceAs (Decidable (_ ∧ _ ∧ _ ∧ _ ∧ _))

namespace SquashFs

open MetadataBlock (StoredTable StoredAt)
open MetadataBlock.Stored (span)
open DirectoryTable (RunRecord)
open Fragments (StoredEntry)

/-- Listings that each read as `tab` of their directory's number are read into the map of `tab`
over the directories. -/
theorem readDirectoryTables_ok {sb : SuperBlock} {image : Bytes} (tab : Nat → DirectoryTable) :
    ∀ l : List (Nat × DirectoryInode),
      (∀ p ∈ l, DirectoryTable.fromReaderDirectory env p.2 sb image = .ok (tab p.1)) →
      ∃ m, readDirectoryTables env sb image l = .ok m ∧
        ∀ k, m.get? k = (lookupKey k l).map fun _ => tab k
  | [], _ => ⟨.empty, rfl, fun _ => rfl⟩
  | (ino, dir) :: rest, h => by
    obtain ⟨m, hm, hget⟩ := readDirectoryTables_ok tab rest fun p hp => h p (.tail _ hp)
    refine ⟨m.insert ino (tab ino), ?_, fun k => ?_⟩
    · simp only [readDirectoryTables, h _ (.head _), hm, Run.mapErr_ok, bind, Except.bind, pure,
        Except.pure]
    · rw [BTreeMap.get?_insert, hget, lookupKey]
      split_ifs with hk <;> simp [hk]

/-- `from_reader` assembles what its readers return, when the options pass its checks, the tables
lie past their start in the image and some number is one below `u32`'s bound at most. -/
theorem fromReader_of_parts {opts : Options} {image : Bytes} {sb : SuperBlock} {rootInode : Nat}
    {t : InodeTable} {ft : FragmentsTable} {m : BTreeMap DirectoryTable} {mx : Nat}
    (hopts : opts.Accepts env sb) (hsb : SuperBlock.fromReader env image = .ok sb)
    (hbytes : sb.inodeTableStart ≤ sb.bytesUsed)
    (hroot : InodeTable.readRootInode env sb.rootInode sb image = .ok rootInode)
    (ht : InodeTable.fromReader env sb image = .ok t)
    (hfrag : FragmentsTable.fromReader env sb image = .ok ft)
    (hm : readDirectoryTables env sb image t.directories.entries = .ok m)
    (hmx : t.ids.max? = some mx) (hlt : mx + 1 < 2 ^ 32) :
    fromReader env opts image = .ok ⟨sb, t, ft, m, rootInode, opts.readers, mx + 1,
      opts.directLimit, 0 < opts.cacheMb, 0 < opts.directLimit, image⟩ := by
  obtain ⟨hr, hle, hc, hidx, hlru⟩ := hopts
  have hcache : ¬ (0 < opts.cacheMb ∧
      (!env.indexCacheNew opts.cacheMb sb.blockSize sb.bytesUsed) = true) := by
    rintro ⟨hpos, hnew⟩
    simp [hidx hpos] at hnew
  simp only [fromReader, if_neg (Nat.pos_iff_ne_zero.mp hr),
    mulChecked_of_lt (show opts.directLimit * 10 < 2 ^ 64 by omega), mulChecked_of_lt hc,
    if_neg (Nat.not_lt.mpr hle), hsb, SuperBlock.tablesLength, subChecked_of_le hbytes, hroot, ht,
    hfrag, hm, Run.mapErr_ok, Run.ofExcept_ok, hmx, unwrap, addChecked_of_lt hlt, if_neg hcache,
    bind, Except.bind, pure, Except.pure]
  -- the cache of small files
  split_ifs with hd
  · simp only [mulChecked_of_lt (hlru hd).1, (hlru hd).2, Bool.not_true, if_neg Bool.false_ne_true,
      bind, Except.bind]
  · rfl

/-- An image laid out as `from_reader` reads it.  The superblock comes first; the inode table's
decoded bytes are well-formed records with distinct numbers and fewer than 16 bytes more; the
root reference names the header of the `root`-th record, a directory; each directory's listing
stands where its inode says in the directory table; and the fragment table is laid out as in
`FragmentsTable.fromReader_entries`. -/
structure WellFormed (image : Bytes) where
  sb : SuperBlock
  encodable : sb.Encodable
  starts : sb.encode <+: image
  fits : image.length < 2 ^ 64
  tablesLength_ok : sb.inodeTableStart ≤ sb.bytesUsed
  blockSize_pos : 0 < sb.blockSize
  inodes : StoredTable env image sb.compression sb.inodeTableStart sb.directoryTableStart
  records : List InodeRecord
  inodePart : Bytes
  inodeBytes : inodes.payloads.flatten = (records.map InodeRecord.encode).flatten ++ inodePart
  inodePart_lt : inodePart.length < 16
  valid : ∀ r ∈ records, r.Valid sb.blockSize
  nodup : (records.map InodeRecord.number).Nodup
  number_succ_lt : ∀ r ∈ records, r.number + 1 < 2 ^ 32
  root : Fin records.length
  rootBlock : Nat
  rootOffset : Nat
  rootBlock_lt : rootBlock < inodes.blocks.length
  rootOffset_lt : rootOffset < 8192
  rootRef : sb.rootInode = ⟨span (inodes.blocks.take rootBlock) <<< 16 ||| rootOffset⟩
  rootAt : (inodes.payloads.take rootBlock).flatten.length + rootOffset =
    ((records.take root).map InodeRecord.encode).flatten.length
  rootDir : (records.get root).dirEntry.isSome
  directories : StoredTable env image sb.compression sb.directoryTableStart sb.fragmentTableStart
  listing : Nat → List RunRecord
  listed : ∀ r ∈ records, ∀ n dir, r.dirEntry = some (n, dir) →
    directories.HoldsListing dir (listing n)
  fragments : List StoredEntry
  locations : List Nat
  fragmentRest : Bytes
  fragmentCount : sb.fragmentEntryCount = fragments.length
  locations_length : locations.length = (fragments.length + 511) / 512
  locations_lt : ∀ l ∈ locations, l < 2 ^ 64
  locationsAt :
    readerAt image sb.fragmentTableStart = (locations.map (leBytes 8)).flatten ++ fragmentRest
  fragmentBlocks : ∀ j (hj : j < locations.length), StoredAt env image sb.compression
    (locations.get ⟨j, hj⟩) (FragmentsTable.blockPayload fragments j)

namespace WellFormed

variable {env} {image : Bytes} (W : WellFormed env image)

/-- Past the root reference stand the root's record and those after it. -/
theorem bytes_root :
    (W.inodes.bytesFrom W.rootBlock).drop W.rootOffset = (W.records.get W.root).encode ++
      (((W.records.drop (W.root + 1)).map InodeRecord.encode).flatten ++ W.inodePart) := by
  have hsplit : (W.records.map InodeRecord.encode).flatten =
      ((W.records.take W.root).map InodeRecord.encode).flatten ++
        ((W.records.drop W.root).map InodeRecord.encode).flatten := by
    rw [← List.flatten_append, ← List.map_append, List.take_append_drop]
  rw [StoredTable.bytesFrom_eq, List.drop_drop, W.rootAt, W.inodeBytes, hsplit, List.append_assoc,
    List.drop_left, List.drop_eq_getElem_cons W.root.isLt]
  simp only [List.map_cons, List.flatten_cons, List.append_assoc, List.get_eq_getElem]

/-- The root reference reads the number of the root's record. -/
theorem readRootInode_root :
    InodeTable.readRootInode env W.sb.rootInode W.sb image = .ok (W.records.get W.root).number := by
  have hnum := InodeTable.InodeRecord.number_lt (W.valid _ (List.get_mem _ W.root.1 W.root.2))
  have hlen : 16 ≤ (W.records.get W.root).encode.length := by
    simp [InodeRecord.encode, InodeTable.length_encodeHeader]
  rw [W.rootRef]
  refine StoredTable.readRootInode_eq W.inodes W.fits W.rootBlock_lt W.rootOffset_lt
    (h := ⟨(W.records.get W.root).inodeType, (W.records.get W.root).number⟩) ?_ ?_
  · have := congrArg List.length W.bytes_root
    simp only [List.length_drop, List.length_append] at this
    omega
  · rw [W.bytes_root, InodeRecord.encode, List.append_assoc,
      List.take_left' (InodeTable.length_encodeHeader _ _ _),
      InodeTable.decode_encodeHeader _ _ hnum]

/-- The table of the records holds a largest number, and one past it fits a `u32`. -/
theorem ids_max :
    ∃ mx, (W.records.foldl InodeRecord.insertInto .empty).ids.max? = some mx ∧ mx + 1 < 2 ^ 32 := by
  obtain ⟨⟨n, d⟩, hd⟩ := Option.isSome_iff_exists.mp W.rootDir
  have hmem := InodeTable.mem_ids_of_dirEntry W.nodup (List.get_mem _ W.root.1 W.root.2) hd
  cases hmx : (W.records.foldl InodeRecord.insertInto .empty).ids.max? with
  | none => exact absurd (List.max?_eq_none_iff.mp hmx) (List.ne_nil_of_mem hmem)
  | some mx =>
    obtain ⟨r, hr, rfl⟩ := InodeTable.mem_ids_foldl W.nodup (List.max?_eq_some_iff'.mp hmx).1
    exact ⟨r.number, rfl, W.number_succ_lt r hr⟩

/-- Every directory of the records reads its listing. -/
theorem listings_read {p : Nat × DirectoryInode}
    (hp : p ∈ (W.records.foldl InodeRecord.insertInto .empty).directories.entries) :
    DirectoryTable.fromReaderDirectory env p.2 W.sb image =
      .ok (DirectoryTable.ofEntries env ((W.listing p.1).flatMap RunRecord.toEntries)) := by
  have hget := BTreeMap.get?_of_mem_entries hp
  rw [InodeTable.directories_foldl W.nodup] at hget
  obtain ⟨r, hr, he⟩ := List.mem_filterMap.mp (BTreeMap.mem_of_lookupKey hget)
  exact StoredTable.fromReaderDirectory_listing W.directories W.fits (W.listed r hr _ _ he)

end WellFormed

/-- **Opening a well-formed image.**  On an image laid out as `WellFormed` says, with options it
accepts, `from_reader` succeeds.  It keeps the superblock; the root inode is the number of the
record the root reference names; the files and directories are those of the records; the
fragment entries are those of the fragment table; and each directory's listing holds the
entries of its runs, each with the number its run's base and its offset give. -/
theorem fromReader_wellFormed {image : Bytes} (W : WellFormed env image) {opts : Options}
    (hopts : opts.Accepts env W.sb) :
    ∃ fs, fromReader env opts image = .ok fs ∧ fs.superblock = W.sb ∧
      fs.rootInode = (W.records.get W.root).number ∧
      (∀ n, fs.inodeTable.files.get? n = lookupKey n (W.records.filterMap InodeRecord.fileEntry)) ∧
      (∀ n, fs.inodeTable.directories.get? n =
        lookupKey n (W.records.filterMap InodeRecord.dirEntry)) ∧
      fs.fragmentsTable = ⟨W.fragments.map StoredEntry.toEntry⟩ ∧
      ∀ n, fs.directoryTables.get? n =
        (lookupKey n (W.records.filterMap InodeRecord.dirEntry)).map
          fun _ => DirectoryTable.ofEntries env ((W.listing n).flatMap RunRecord.toEntries) := by
  obtain ⟨h₁, -, h₃, h₄, -, -, -, -, -, -, h₁₁, -⟩ := W.encodable
  obtain ⟨rest, hstart⟩ := W.starts
  have hsb := SuperBlock.fromReader_encode env W.encodable rest
  rw [hstart] at hsb
  have ht := W.inodes.inodeTable_fromReader h₁₁ W.blockSize_pos (by omega) W.valid W.inodePart_lt
    W.inodeBytes
  have hfrag := FragmentsTable.fromReader_stored W.fragmentCount (W.fragmentCount ▸ h₄)
    W.locations_length W.locations_lt W.locationsAt W.fragmentBlocks
  obtain ⟨m, hm, hget⟩ := readDirectoryTables_ok env
    (fun n => DirectoryTable.ofEntries env ((W.listing n).flatMap RunRecord.toEntries)) _
    fun _ => W.listings_read
  obtain ⟨mx, hmx, hlt⟩ := W.ids_max
  refine ⟨_, fromReader_of_parts env hopts hsb W.tablesLength_ok W.readRootInode_root ht hfrag hm
    hmx hlt, rfl, rfl, InodeTable.files_foldl W.nodup, InodeTable.directories_foldl W.nodup, rfl,
    fun n => ?_⟩
  rw [hget, ← InodeTable.directories_foldl W.nodup]
  rfl

/-! ### An image of the root directory alone -/

/-- The root directory, numbered 1, whose listing is the directory table's first three bytes. -/
def rootRecord : InodeRecord := .basicDirectory ⟨0o755, 0, 0, 0⟩ 1 ⟨2, 1, ⟨0, 0, 3⟩⟩

/-- The inode table's one block, stored as is. -/
def rootBlock : MetadataBlock.Stored := ⟨0x8020, rootRecord.encode, by decide, by decide⟩

/-- The directory table's one block, stored as is: three bytes, fewer than a run's header. -/
def listingBlock : MetadataBlock.Stored := ⟨0x8003, [0, 0, 0], by decide, by decide⟩

/-- The superblock: the inode table at 96, the directory table at 130, no fragments. -/
def rootSuperBlock : SuperBlock :=
  ⟨0x73717368, 1, 4096, 0, .gzip, 0, 4, 0, ⟨0⟩, 135, 96, 130, 135, none⟩

/-- The image: the superblock, then the two blocks. -/
def rootImage : Bytes := rootSuperBlock.encode ++ rootBlock.encode ++ listingBlock.encode

/-- One reader and no cache. -/
def oneReader : Options := ⟨0, 1, 0, by decide, by decide, by decide⟩

set_option maxRecDepth 100000 in
/-- The layout of `rootImage`. -/
def rootWellFormed : WellFormed MetadataBlock.envTwice rootImage where
  sb := rootSuperBlock
  encodable := by unfold SuperBlock.Encodable; decide
  starts := ⟨_, List.append_assoc _ _ _⟩
  fits := by decide
  tablesLength_ok := by decide
  blockSize_pos := by decide
  inodes := ⟨[rootBlock], [rootRecord.encode], listingBlock.encode, by decide, by decide, by decide,
    by decide⟩
  records := [rootRecord]
  inodePart := []
  inodeBytes := rfl
  inodePart_lt := by decide
  valid := by simp [rootRecord, InodeRecord.Valid]
  nodup := by decide
  number_succ_lt := by decide
  root := ⟨0, by decide⟩
  rootBlock := 0
  rootOffset := 0
  rootBlock_lt := by decide
  rootOffset_lt := by decide
  rootRef := by rfl
  rootAt := by rfl
  rootDir := by rfl
  directories := ⟨[listingBlock], [[0, 0, 0]], [], by decide, by decide, by decide, by decide⟩
  listing := fun _ => []
  listed := by
    rintro r hr n dir he
    obtain rfl := List.mem_singleton.mp hr
    obtain ⟨rfl, rfl⟩ := Prod.mk.inj (Option.some.inj he.symm)
    exact ⟨0, [0, 0, 0], by decide, rfl, by decide, rfl, by decide, by simp⟩
  fragments := []
  locations := []
  fragmentRest := []
  fragmentCount := rfl
  locations_length := rfl
  locations_lt := by simp
  locationsAt := by decide
  fragmentBlocks := fun _ hj => absurd hj (Nat.not_lt_zero _)

theorem fromReader_wellFormed_root :
    oneReader.Accepts MetadataBlock.envTwice rootSuperBlock ∧
      ∃ fs, fromReader MetadataBlock.envTwice oneReader rootImage = .ok fs ∧ fs.rootInode = 1 ∧
        fs.directoryTables.get? 1 = some (DirectoryTable.ofEntries MetadataBlock.envTwice []) := by
  have hopts : oneReader.Accepts MetadataBlock.envTwice rootWellFormed.sb := by decide
  obtain ⟨fs, h, -, hroot, -, -, -, hdirs⟩ :=
    fromReader_wellFormed MetadataBlock.envTwice rootWellFormed hopts
  exact ⟨hopts, fs, h, hroot, hdirs 1⟩

end SquashFs

end SquashfsAsync
