import SquashfsAsync.Fragments
import SquashfsAsync.BTreeMap

/-!
# The inode table

`inodes/`: the inode table is the payload of the metadata blocks from `inode_table_start` to
`directory_table_start`, read as one stream (`InodeTable::inode_table_bytes`).  Each record is a
16-byte header (`InodeHeader`) and a payload of its type.  `InodeTable::from_reader` reads records
until the stream ends cleanly at a header; it keeps regular files and directories by inode number,
reads past basic symlinks, and reads nothing for the other types.

A file record's payload is followed by its block-size words, as many as `FileInodeDeser::n_blocks`
says: the file size over the block size in `f64`, rounded down when the file has a fragment and up
otherwise, cast to `u32`.

The loop is given `fuel`; each pass reads a 16-byte header, so the stream's length bounds the
number of passes.
-/

namespace SquashfsAsync

variable (env : Env)

/-! ### Records -/

/-- `inodes::InodeType`. -/
inductive InodeType
  | basicDirectory | basicFile | basicSymlink | basicBlockDevice | basicCharDevice | basicFifo
  | basicSocket | extendedDirectory | extendedFile | extendedSymlink | extendedBlockDevice
  | extendedCharDevice | extendedFifo | extendedSocket
  deriving DecidableEq, Repr

namespace InodeType

/-- `Deserialize_repr` of the `#[repr(u16)]` enum: the discriminants `1..=14`. -/
def ofU16 : Nat → Option InodeType
  | 1 => some .basicDirectory
  | 2 => some .basicFile
  | 3 => some .basicSymlink
  | 4 => some .basicBlockDevice
  | 5 => some .basicCharDevice
  | 6 => some .basicFifo
  | 7 => some .basicSocket
  | 8 => some .extendedDirectory
  | 9 => some .extendedFile
  | 10 => some .extendedSymlink
  | 11 => some .extendedBlockDevice
  | 12 => some .extendedCharDevice
  | 13 => some .extendedFifo
  | 14 => some .extendedSocket
  | _ => none

/-- The discriminant of a type. -/
def toU16 : InodeType → Nat
  | .basicDirectory => 1
  | .basicFile => 2
  | .basicSymlink => 3
  | .basicBlockDevice => 4
  | .basicCharDevice => 5
  | .basicFifo => 6
  | .basicSocket => 7
  | .extendedDirectory => 8
  | .extendedFile => 9
  | .extendedSymlink => 10
  | .extendedBlockDevice => 11
  | .extendedCharDevice => 12
  | .extendedFifo => 13
  | .extendedSocket => 14

@[simp] theorem ofU16_toU16 (t : InodeType) : ofU16 t.toU16 = some t := by
  cases t <;> rfl

theorem toU16_lt (t : InodeType) : t.toU16 < 2 ^ 16 := by
  cases t <;> decide

/-- `InodeType::is_dir`. -/
def isDir : InodeType → Bool
  | .basicDirectory | .extendedDirectory => true
  | _ => false

end InodeType

/-- `inodes::InodeHeader`, with the fields the code reads. -/
structure InodeHeader where
  inodeType : InodeType
  inodeNumber : Nat
  deriving DecidableEq, Repr

/-- The `bincode` decoding of a 16-byte header; the type must be one of the fourteen. -/
def InodeHeader.decode (bs : Bytes) : Option InodeHeader := do
  let t ← InodeType.ofU16 (field bs 0 2)
  pure ⟨t, field bs 12 4⟩

/-- The trait `FileInode` as `BasicFile` and `ExtendedFile` implement it, every field widened
to `u64`. -/
structure FileInode where
  blocksStart : Nat
  fileSize : Nat
  fragment : FragmentLocation
  blockSizes : List BlockSize
  deriving DecidableEq, Repr

/-- The two layouts of a regular file. -/
inductive FileKind
  | basic | extended
  deriving DecidableEq, Repr

namespace FileKind

/-- `FileInodeDeser::encoded_size`. -/
def encodedSize : FileKind → Nat
  | .basic => 16
  | .extended => 40

/-- The `bincode` decoding of the fixed part: `BasicFile` has `blocks_start`, `fragment_index`,
`fragment_offset` and `file_size` as `u32`s; `ExtendedFile` has `blocks_start`, `file_size`,
`_sparse` as `u64`s, then `_hard_link_count`, `fragment_index`, `fragment_offset`, `_xattr_idx`
as `u32`s. -/
def decode (k : FileKind) (bs : Bytes) : FileInode :=
  match k with
  | .basic => ⟨field bs 0 4, field bs 12 4, ⟨field bs 4 4, field bs 8 4⟩, []⟩
  | .extended => ⟨field bs 0 8, field bs 8 8, ⟨field bs 28 4, field bs 32 4⟩, []⟩

end FileKind

namespace FileInode

/-- `FileInodeDeser::n_blocks`: `file_size as f64 / block_size as f64`, floored with a fragment
and ceiled without, then `as u32`. -/
def nBlocks (f : FileInode) (blockSize : Nat) : Nat :=
  let n := F64.div (F64.ofNat f.fileSize) (F64.ofNat blockSize)
  F64.toUInt 32 (if f.fragment.valid then n.floor else n.ceil)

/-- `FileInodeDeser::from_reader`: the fixed part, then `n_blocks` size words. -/
def fromReader (k : FileKind) (s : Stream) (sb : SuperBlock) :
    Except InodeTableError (FileInode × Stream) := do
  let (file, s) ← s.bincodeDeserFrom k.encodedSize (fun bs => some (k.decode bs))
    InodeTableError.invalidEntry
  let (ws, s) ← (s.readWords 4 (file.nBlocks sb.blockSize)).mapError fun _ => .invalidEntry
  pure ({ file with blockSizes := ws.map BlockSize.mk }, s)

/-- `FileInode::data_locations`, with `block_start` the running sum as a mathematical number;
`dataLocationsPrefix` below is the same with the closure's `u64` addition. -/
def dataLocations (f : FileInode) : List DataLocation :=
  go f.blocksStart f.blockSizes
where
  go (start : Nat) : List BlockSize → List DataLocation
    | [] => []
    | b :: bs => ⟨start, b⟩ :: go (start + b.compressedSize) bs

theorem length_dataLocationsGo (start : Nat) (bs : List BlockSize) :
    (dataLocations.go start bs).length = bs.length := by
  induction bs generalizing start with
  | nil => rfl
  | cons b bs ih => simp [dataLocations.go, ih]

/-- The first `k` items of `data_locations()`: each item pulled runs the closure, whose
`block_start += block_size.compressed_size()` panics on `u64` overflow. -/
def dataLocationsPrefix {E : Type} (start : Nat) : List BlockSize → Nat → Run E (List DataLocation)
  | [], _ => .ok []
  | _, 0 => .ok []
  | b :: bs, k + 1 => do
    let next ← addChecked 64 start b.compressedSize
    let rest ← dataLocationsPrefix next bs k
    pure (⟨start, b⟩ :: rest)

end FileInode

/-- `directory::DirectoryTableLocation`. -/
structure DirectoryTableLocation where
  start : Nat
  offset : Nat
  fileSize : Nat
  deriving DecidableEq, Repr

/-- The trait `DirectoryInode` as `BasicDirectory` and `ExtendedDirectory` implement it. -/
structure DirectoryInode where
  hardLinkCount : Nat
  parentInodeNumber : Nat
  tableLocation : DirectoryTableLocation
  deriving DecidableEq, Repr

/-- The `bincode` decoding of a `BasicDirectory` (16 bytes): `dir_block_start: u32`,
`hard_link_count: u32`, `file_size: u16`, `block_offset: u16`, `parent_inode_number: u32`. -/
def BasicDirectory.decode (bs : Bytes) : DirectoryInode :=
  ⟨field bs 4 4, field bs 12 4, ⟨field bs 0 4, field bs 10 2, field bs 8 2⟩⟩

/-- `directory::DirectoryIndex` (private to the module): its name is read and checked, and not
kept, since no method of the trait reads it. -/
def DirectoryIndex.fromReader (s : Stream) : Except InodeTableError Stream := do
  let (nameSize, s) ← s.bincodeDeserFrom 12 (fun bs => some (field bs 8 4))
    InodeTableError.invalidEntry
  let (_, s) ← s.bincodeDeserStringFrom (nameSize + 1) InodeTableError.invalidEntry
  pure s

/-- The `index_count` directory indexes of an extended directory. -/
def DirectoryIndex.readMany : Nat → Stream → Except InodeTableError Stream
  | 0, s => .ok s
  | n + 1, s => do
    let s ← DirectoryIndex.fromReader s
    DirectoryIndex.readMany n s

/-- `ExtendedDirectory::from_reader`: 24 bytes (`hard_link_count`, `file_size`,
`dir_block_start`, `parent_inode_number` as `u32`s, `index_count`, `block_offset` as `u16`s,
`_xattr_idx: u32`), then the indexes. -/
def ExtendedDirectory.fromReader (s : Stream) : Except InodeTableError (DirectoryInode × Stream) := do
  let (bs, s) ← s.bincodeDeserFrom 24 some InodeTableError.invalidEntry
  let s ← DirectoryIndex.readMany (field bs 16 2) s
  pure (⟨field bs 0 4, field bs 12 4, ⟨field bs 8 4, field bs 18 2, field bs 4 4⟩⟩, s)

/-- `symlink::Symlink::from_reader`: `link_count` and `target_size` as `u32`s, then a UTF-8
target of `target_size` bytes. -/
def Symlink.fromReader (s : Stream) : Except InodeTableError Stream := do
  let (targetSize, s) ← s.bincodeDeserFrom 8 (fun bs => some (field bs 4 4))
    InodeTableError.invalidEntry
  let (_, s) ← s.bincodeDeserStringFrom targetSize InodeTableError.invalidEntry
  pure s

/-! ### The table -/

/-- `inodes::InodeTable`. -/
structure InodeTable where
  directories : BTreeMap DirectoryInode
  files : BTreeMap FileInode

namespace InodeTable

/-- `InodeTable::default()`. -/
def empty : InodeTable := ⟨.empty, .empty⟩

/-- `InodeTable::ids`: the directories' numbers, then the files'. -/
def ids (t : InodeTable) : List Nat := t.directories.keys ++ t.files.keys

/-- One record after its header: the table with the record's inode, and the rest of the
stream. -/
def readRecord (sb : SuperBlock) (h : InodeHeader) (t : InodeTable) (s : Stream) :
    Except InodeTableError (InodeTable × Stream) :=
  match h.inodeType with
  | .basicFile => do
    let (f, s) ← FileInode.fromReader .basic s sb
    pure ({ t with files := t.files.insert h.inodeNumber f }, s)
  | .extendedFile => do
    let (f, s) ← FileInode.fromReader .extended s sb
    pure ({ t with files := t.files.insert h.inodeNumber f }, s)
  | .basicDirectory => do
    let (d, s) ← s.bincodeDeserFrom 16 (fun bs => some (BasicDirectory.decode bs))
      InodeTableError.invalidEntry
    pure ({ t with directories := t.directories.insert h.inodeNumber d }, s)
  | .extendedDirectory => do
    let (d, s) ← ExtendedDirectory.fromReader s
    pure ({ t with directories := t.directories.insert h.inodeNumber d }, s)
  | .basicSymlink => do
    let s ← Symlink.fromReader s
    pure (t, s)
  | _ => .ok (t, s)

/-- The loop of `InodeTable::from_reader`: a clean end at a header ends the table, any other
failure to read or decode a header is `InvalidHeader`. -/
def fromReaderLoop (sb : SuperBlock) : Nat → Stream → InodeTable → Except InodeTableError InodeTable
  | 0, _, t => .ok t
  | fuel + 1, s, t =>
    match s.readExact 16 with
    | .error .unexpectedEof => .ok t
    | .error _ => .error .invalidHeader
    | .ok (hbs, s) =>
      match InodeHeader.decode hbs with
      | none => .error .invalidHeader
      | some h => do
        let (t, s) ← readRecord sb h t s
        fromReaderLoop sb fuel s t

/-- The records of a stream, from an empty table. -/
def fromStream (sb : SuperBlock) (s : Stream) : Except InodeTableError InodeTable :=
  fromReaderLoop sb (s.bytes.length + 1) s empty

/-- `InodeTable::inode_table_bytes`: the metadata stream from `inode_table_start` plus the
reference's block start (an addition that can overflow) to `directory_table_start`, past the
reference's offset. -/
def inodeTableBytes (sb : SuperBlock) (image : Bytes) (ref : Option InodeRef) :
    Run InodeTableError Stream := do
  let pos ← addChecked 64 sb.inodeTableStart ((ref.map InodeRef.blockStart).getD 0)
  let s := MetadataBlock.fromReaderFlatten env image pos sb.directoryTableStart sb.compression
  match ref with
  | some r => Run.ofExcept .readFailure (s.discard r.blockOffset)
  | none => pure s

/-- `InodeTable::read_root_inode`: the inode number in the header the reference points at. -/
def readRootInode (ref : InodeRef) (sb : SuperBlock) (image : Bytes) : Run InodeTableError Nat := do
  let s ← inodeTableBytes env sb image (some ref)
  let (h, _) ← Run.ofExcept id (s.bincodeDeserFrom 16 InodeHeader.decode .invalidHeader)
  pure h.inodeNumber

/-- `InodeTable::from_reader`. -/
def fromReader (sb : SuperBlock) (image : Bytes) : Run InodeTableError InodeTable := do
  let s ← inodeTableBytes env sb image none
  Run.ofExcept id (fromStream sb s)

end InodeTable

end SquashfsAsync
