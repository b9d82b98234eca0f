import SquashfsAsync.Inodes

/-!
# Directory tables

`directory_table.rs`: a directory's listing is `file_size` bytes of the metadata stream from
`directory_table_start` plus its block start, past its offset.  It is a sequence of runs: a
12-byte `Header` (`entries`, `inode_table_offset`, `inode_number_base`) and `entries + 1` entries
(`inode_metadata_offset: u16`, `inode_offset: i16`, the type, `name_size: u16`, then
`name_size + 1` bytes of UTF-8 name).  `Entry::from` adds the offsets to the header's bases in
`u32` and in `i32`; both additions can overflow.

`DirectoryTable::find` looks a name up through a multi-index from `index_hash` of each name to
the positions of the entries with that hash (`into_group_map`), in ascending order.
-/

namespace SquashfsAsync

variable (env : Env)

namespace DirectoryTable

/-- `directory_table::Header`. -/
structure Header where
  entries : Nat
  inodeTableOffset : Nat
  inodeNumberBase : Nat
  deriving DecidableEq, Repr

/-- The `bincode` decoding of a 12-byte header: three `u32`s. -/
def Header.decode (bs : Bytes) : Header := ⟨field bs 0 4, field bs 4 4, field bs 8 4⟩

/-- `directory_table::EntryInternal`. -/
structure EntryInternal where
  inodeMetadataOffset : Nat
  inodeOffset : Int
  type : InodeType
  name : Bytes
  deriving DecidableEq, Repr

/-- The two's-complement value of a `w`-bit field (`as i16`, `as i32`). -/
def toSigned (w v : Nat) : Int := if v < 2 ^ (w - 1) then v else (v : Int) - 2 ^ w

/-- `EntryInternal::from_reader`: 8 bytes, whose type must be one of the fourteen, then the
name. -/
def EntryInternal.fromReader (s : Stream) : Except DirectoryTableError (EntryInternal × Stream) := do
  let ((meta, off, ty, nameSize), s) ← s.bincodeDeserFrom 8
    (fun bs => (InodeType.ofU16 (field bs 4 2)).map
      fun ty => (field bs 0 2, toSigned 16 (field bs 2 2), ty, field bs 6 2))
    DirectoryTableError.invalidEntry
  let (name, s) ← s.bincodeDeserStringFrom (nameSize + 1) DirectoryTableError.invalidEntry
  pure (⟨meta, off, ty, name⟩, s)

/-- `directory_table::Entry`. -/
structure Entry where
  inodeMetadataOffset : Nat
  inode : Nat
  type : InodeType
  name : Bytes
  deriving DecidableEq, Repr

/-- `i32` addition, panicking on overflow. -/
def addCheckedI32 {E : Type} (a b : Int) : Run E Int :=
  if -2 ^ 31 ≤ a + b ∧ a + b < 2 ^ 31 then .ok (a + b) else panic .overflow

/-- `Entry::from`: `header.inode_table_offset + entry.inode_metadata_offset as u32`, and
`(header.inode_number_base as i32 + entry.inode_offset as i32) as u32`. -/
def Entry.from {E : Type} (h : Header) (e : EntryInternal) : Run E Entry := do
  let meta ← addChecked 32 h.inodeTableOffset e.inodeMetadataOffset
  let inode ← addCheckedI32 (toSigned 32 h.inodeNumberBase) e.inodeOffset
  pure ⟨meta, (inode % 2 ^ 32).toNat, e.type, e.name⟩

/-- The `count` entries of a run. -/
def readEntries (h : Header) : Nat → Stream → Run DirectoryTableError (List Entry × Stream)
  | 0, s => .ok ([], s)
  | n + 1, s => do
    let (e, s) ← Run.ofExcept id (EntryInternal.fromReader s)
    let e ← Entry.from h e
    let (es, s) ← readEntries h n s
    pure (e :: es, s)

/-- The loop of `DirectoryTable::from_reader`: runs until a clean end at a header. -/
def fromReaderLoop : Nat → Stream → Run DirectoryTableError (List Entry)
  | 0, _ => .ok []
  | fuel + 1, s =>
    match s.readExact 12 with
    | .error .unexpectedEof => .ok []
    | .error _ => fail .invalidHeader
    | .ok (hbs, s) => do
      let h := Header.decode hbs
      let count ← addChecked 32 h.entries 1
      let (es, s) ← readEntries h count s
      let rest ← fromReaderLoop fuel s
      pure (es ++ rest)

/-- `into_group_map` of `(index_hash(name), position)`, as the list of each hash's positions in
ascending order (the order `HashMap::get` then yields them in). -/
def groupMap : List (Nat × Nat) → Nat → List Nat
  | [], _ => []
  | (h, i) :: rest, k => if h = k then i :: groupMap rest k else groupMap rest k

end DirectoryTable

/-- `directory_table::DirectoryTable`: the entries, and the multi-index over their names. -/
structure DirectoryTable where
  entries : List DirectoryTable.Entry
  index : Nat → List Nat

namespace DirectoryTable

/-- The table `DirectoryTable::from_reader` builds from its entries. -/
def ofEntries (es : List Entry) : DirectoryTable :=
  ⟨es, groupMap (es.enum.map fun (i, e) => (env.indexHash e.name, i))⟩

/-- `DirectoryTable::from_reader`. -/
def fromReader (s : Stream) : Run DirectoryTableError DirectoryTable := do
  let es ← fromReaderLoop (s.bytes.length + 1) s
  pure (ofEntries env es)

/-- The lazy search of `find` over the positions of a hash: `&self.entries[*i]` panics out of
range. -/
def findIn (entries : List Entry) (name : Bytes) : List Nat → Except Panic (Option Entry)
  | [] => .ok none
  | i :: is =>
    match entries.get? i with
    | none => .error .outOfBounds
    | some e => if e.name = name then .ok (some e) else findIn entries name is

/-- `DirectoryTable::find`. -/
def find (t : DirectoryTable) (name : Bytes) : Except Panic (Option Entry) :=
  findIn t.entries name (t.index (env.indexHash name))

/-- `DirectoryTable::from_reader_directory`: `file_size` bytes of the metadata stream from
`directory_table_start + start` (an addition that can overflow) to `fragment_table_start`, past
`offset`. -/
def fromReaderDirectory (dir : DirectoryInode) (sb : SuperBlock) (image : Bytes) :
    Run DirectoryTableError DirectoryTable := do
  let loc := dir.tableLocation
  let pos ← addChecked 64 sb.directoryTableStart loc.start
  let s := MetadataBlock.fromReaderFlatten env image pos sb.fragmentTableStart sb.compression
  let s ← Run.ofExcept .readFailure (s.discard loc.offset)
  fromReader env (s.take loc.fileSize)

end DirectoryTable

end SquashfsAsync
