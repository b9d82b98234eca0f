import SquashfsAsync.DirectoryTable

/-!
# Opening an image

`SquashFs::from_reader` (`lib.rs`) checks the options, reads the superblock, the root inode, the
inode table, the fragments table and the listing of every directory (in ascending inode order),
builds the two caches, and sets `inode_extra` to one past the largest inode number of a file or a
directory.  All tables are kept in memory; the reads later go through pools of readers of the
same image, one pool per set of open flags.

The readers of every pool read the image's bytes; the manager factory and the pools are taken to
succeed, as they do for the crate's local backends.
-/

namespace SquashfsAsync

variable (env : Env)

/-- `pools::ReadFlags`, an `i32` of `open(2)` flags. -/
abbrev ReadFlags := BitVec 32

/-- `libc::O_NONBLOCK` on Linux. -/
def oNonblock : ReadFlags := 0x800

/-- `libc::O_DIRECT` on Linux (x86-64). -/
def oDirect : ReadFlags := 0x4000

/-- `lib::Options`, each field within its type. -/
structure Options where
  cacheMb : Nat
  readers : Nat
  directLimit : Nat
  cacheMb_lt : cacheMb < 2 ^ 64
  readers_lt : readers < 2 ^ 64
  directLimit_lt : directLimit < 2 ^ 64

/-- `lib::SquashFs`, without the manager factory and the file handles. -/
structure SquashFs where
  superblock : SuperBlock
  inodeTable : InodeTable
  fragmentsTable : FragmentsTable
  directoryTables : BTreeMap DirectoryTable
  rootInode : Nat
  nReaders : Nat
  inodeExtra : Nat
  directLimit : Nat
  /-- `cache.is_some()`: the decoded-block cache is on. -/
  cache : Bool
  /-- `small_files_cache.is_some()`: the whole-small-file cache is on. -/
  smallFilesCache : Bool
  /-- What every reader reads. -/
  image : Bytes

namespace SquashFs

/-- The directory listings, in ascending inode order. -/
def readDirectoryTables (sb : SuperBlock) (image : Bytes) :
    List (Nat × DirectoryInode) → Run Error (BTreeMap DirectoryTable)
  | [] => .ok .empty
  | (ino, dir) :: rest => do
    let t ← (DirectoryTable.fromReaderDirectory env dir sb image).mapErr .directoryTable
    let m ← readDirectoryTables sb image rest
    pure (m.insert ino t)

/-- `SquashFs::from_reader`. -/
def fromReader (opts : Options) (image : Bytes) : Run Error SquashFs := do
  if opts.readers = 0 then fail (.invalidOptions "The number of readers must be >=1")
  let lhs ← mulChecked 64 opts.directLimit 10
  let rhs ← mulChecked 64 opts.cacheMb 1000000
  if rhs < lhs then
    fail (.invalidOptions "The cache size must be at least 10x as large as --direct-limit.")
  let sb ← Run.ofExcept id (SuperBlock.fromReader env image)
  let _ ← (sb.tablesLength : Run Error Nat)
  let rootInode ← (InodeTable.readRootInode env sb.rootInode sb image).mapErr .inodeTable
  let inodeTable ← (InodeTable.fromReader env sb image).mapErr .inodeTable
  let fragmentsTable ← Run.ofExcept .fragments (FragmentsTable.fromReader env sb image)
  let directoryTables ← readDirectoryTables env sb image inodeTable.directories.entries
  if 0 < opts.cacheMb ∧ !env.indexCacheNew opts.cacheMb sb.blockSize sb.bytesUsed then
    fail .cacheError
  if 0 < opts.directLimit then
    let capacity ← mulChecked 64 sb.inodeCount opts.directLimit
    if !env.lruCacheNew opts.cacheMb opts.directLimit capacity then fail .cacheError
  let maxId ← unwrap inodeTable.ids.max?
  let inodeExtra ← addChecked 32 maxId 1
  pure {
    superblock := sb
    inodeTable := inodeTable
    fragmentsTable := fragmentsTable
    directoryTables := directoryTables
    rootInode := rootInode
    nReaders := opts.readers
    inodeExtra := inodeExtra
    directLimit := opts.directLimit
    cache := 0 < opts.cacheMb
    smallFilesCache := 0 < opts.directLimit
    image := image }

end SquashFs

end SquashfsAsync
