import SquashfsAsync.System

/-!
# The FUSE adaptor

`squashfuse.rs` implements `fuser_async::Filesystem` on `SquashFs`.  FUSE numbers the root
directory `FUSE_ROOT_ID = 1`, so the adaptor sends the image's root inode to 1, and the inode
numbered 1 to `inode_extra`, one past the largest number of a file or a directory
(`SquashFs::from_reader`); `ino_from_fuse` undoes the two moves.  `readdir` and `lookup` give the
FUSE numbers of directory entries, `getattr` takes one back.

Attributes keep the fields the adaptor computes from the image: the number, the size, the kind
and, for a directory, the link count, its `hard_link_count`.  Times, permissions, owners and the
block size are constants, so they are left out.  A file's attributes are those
`fuser_async::utils::file_attr` makes from the number and the size; that function is not in the
repository, and the model takes it to report a regular file and leaves its link count out.

`open` gives out file handles, one past the largest open one, and records the open flags under
them; `release` removes a handle and `read` looks its flags up.  The map sits behind a lock that
each of the three holds for the whole of its work on it, so the calls act on it one at a time,
in whatever order they take the lock: `HandleCall.run` runs them in one such order.
-/

namespace SquashfsAsync

variable (env : Env)

/-- `fuser::FUSE_ROOT_ID`. -/
def fuseRootId : Nat := 1

/-- `fuser::FileType`, of the two kinds the adaptor reports. -/
inductive FileType
  | directory | regularFile
  deriving DecidableEq, Repr

/-- `fuser::FileAttr`, with the fields computed from the image.  `nlink` is a directory's
`hard_link_count`, and `none` for a file, whose link count `fuser_async::utils::file_attr` sets. -/
structure FileAttr where
  ino : Nat
  size : Nat
  kind : FileType
  nlink : Option Nat
  deriving DecidableEq, Repr

/-- `fuser_async::DirEntry`. -/
structure DirEntry where
  inode : Nat
  name : Bytes
  fileType : FileType
  deriving DecidableEq, Repr

/-- `impl From<&directory_table::Entry> for DirEntry`: an entry is a directory or, whatever its
type, a regular file. -/
def DirEntry.ofEntry (e : DirectoryTable.Entry) : DirEntry :=
  ⟨e.inode, e.name, if e.type.isDir then .directory else .regularFile⟩

/-- `impl From<Error> for ErrorFuse`: the answer FUSE gives for an error of the adaptor. -/
def FuseError.ofError : Error → FuseError
  | .fileNotFound _ | .directoryNotFound => .noFileDir
  | .invalidInode | .invalidOffset => .invalidArgument
  | .encoding => .unimplemented
  | .fuse e => e
  | _ => .io

namespace SquashFs

variable (fs : SquashFs)

/-- `SquashFs::ino_from_fuse`: `FUSE_ROOT_ID` is the root inode, `inode_extra` is the inode
numbered 1, and any other number must fit a `u32`. -/
def inoFromFuse (ino : Nat) : Except Error Nat :=
  if ino = fuseRootId then .ok fs.rootInode
  else if ino = fs.inodeExtra then .ok fuseRootId
  else if ino < 2 ^ 32 then .ok ino
  else .error .invalidInode

/-- `SquashFs::ino_to_fuse`. -/
def inoToFuse (ino : Nat) : Nat :=
  if ino = fs.rootInode then fuseRootId
  else if ino = fuseRootId then fs.inodeExtra
  else ino

/-- `SquashFs::getattr_inode`: a file's attributes, else a directory's. -/
def getattrInode (ino : Nat) : Except Error FileAttr :=
  match fs.inodeTable.files.get? ino with
  | some f => .ok ⟨fs.inoToFuse ino, f.fileSize, .regularFile, none⟩
  | none =>
    match fs.inodeTable.directories.get? ino with
    | some d => .ok ⟨fs.inoToFuse ino, 0, .directory, some d.hardLinkCount⟩
    | none => .error .directoryNotFound

/-- `SquashFs::inodes`: the files' numbers, then the directories'. -/
def inodes : List Nat := fs.inodeTable.files.keys ++ fs.inodeTable.directories.keys

/-- `Filesystem::inodes`: the FUSE numbers of the files and directories, as a set. -/
def fuseInodes : Finset Nat := (fs.inodes.map fs.inoToFuse).toFinset

/-- `Filesystem::getattr`. -/
def getattr (inoFuse : Nat) : Except Error FileAttr := do
  let ino ← fs.inoFromFuse inoFuse
  fs.getattrInode ino

/-- `Filesystem::readdir`: the entries of a listing from `offset` on, with FUSE numbers.  A number
`ino_from_fuse` refuses panics at its `unwrap`. -/
def readdir (inoFuse offset : Nat) : Run Error (List DirEntry) := do
  let ino ← match fs.inoFromFuse inoFuse with
    | .ok ino => pure ino
    | .error _ => panic .unwrapErr
  let some d := fs.directoryTables.get? ino | fail .directoryNotFound
  pure ((d.entries.drop offset).map fun e =>
    { DirEntry.ofEntry e with inode := fs.inoToFuse e.inode })

/-- `Filesystem::lookup`: the attributes of the entry `name` of the directory `parent`.  The name
must be UTF-8 (`OsStr::to_str`), and `find` can panic on an index out of range. -/
def lookup (parent : Nat) (name : Bytes) : Run Error FileAttr := do
  let ino ← Run.ofExcept id (fs.inoFromFuse parent)
  let some d := fs.directoryTables.get? ino | fail .directoryNotFound
  if !utf8Valid name then fail .encoding
  let found ← match d.find env name with
    | .ok found => pure found
    | .error p => panic p
  let some f := found | fail (.fileNotFound (some name))
  Run.ofExcept id (fs.getattrInode f.inode)

end SquashFs

/-! ### File handles -/

/-- `SquashFs::handles`: the open file handles, and the flags each was opened with. -/
abbrev Handles := BTreeMap ReadFlags

namespace Handles

/-- `Filesystem::open`: one past the largest open handle (`unwrap_or_default() + 1`, a `u64`
addition), recorded with the flags. -/
def «open» (handles : Handles) (flags : ReadFlags) : Run Error (Nat × Handles) := do
  let fh ← addChecked 64 (handles.lastKey?.getD 0) 1
  pure (fh, handles.insert fh flags)

/-- `Filesystem::release`: the handle removed, or `BadFileDescriptor`. -/
def release (handles : Handles) (fh : Nat) : Run Error Handles :=
  match handles.remove fh with
  | (some _, handles) => .ok handles
  | (none, _) => fail (.fuse .badFileDescriptor)

/-- The flags `Filesystem::read` takes from the handle, or `BadFileDescriptor`. -/
def flags (handles : Handles) (fh : Nat) : Run Error ReadFlags :=
  match handles.get? fh with
  | some f => .ok f
  | none => fail (.fuse .badFileDescriptor)

/-- `SquashFs::has_handles`. -/
def hasHandles (handles : Handles) : Bool := !handles.isEmpty

end Handles

/-- `Filesystem::read`: the inode, then the flags of the handle, which make the arguments of
`read_file` (the task `SquashFs.readTask`).  `offset as usize` takes the `i64` in two's
complement, and `size` is a `u32`. -/
def SquashFs.read (fs : SquashFs) (handles : Handles) (inoFuse fh : Nat) (offset : Int)
    (size : Nat) : Run Error ReadArgs := do
  let ino ← Run.ofExcept id (fs.inoFromFuse inoFuse)
  let flags ← Handles.flags handles fh
  pure ⟨ino, (offset % 2 ^ 64).toNat, size, flags⟩

/-- A call of the adaptor on the handles. -/
inductive HandleCall
  | «open» (flags : ReadFlags)
  | release (fh : Nat)
  | read (fh : Nat)
  | hasHandles
  deriving DecidableEq, Repr

/-- What a call on the handles returns. -/
inductive HandleReply
  | opened (fh : Nat)
  | released
  | flags (f : ReadFlags)
  | has (b : Bool)
  deriving DecidableEq, Repr

namespace HandleCall

/-- One call: its reply, and the map after it.  A call that fails leaves the map as it was: the
errors come before any change, and the panic of `open`'s addition before its `insert`. -/
def step (handles : Handles) : HandleCall → Run Error HandleReply × Handles
  | .open f =>
    match Handles.open handles f with
    | .ok (fh, h) => (.ok (.opened fh), h)
    | .error e => (.error e, handles)
  | .release fh =>
    match Handles.release handles fh with
    | .ok h => (.ok .released, h)
    | .error e => (.error e, handles)
  | .read fh => ((Handles.flags handles fh).map .flags, handles)
  | .hasHandles => (.ok (.has (Handles.hasHandles handles)), handles)

/-- Calls one after the other: the replies in order, and the map after them. -/
def run : Handles → List HandleCall → List (Run Error HandleReply) × Handles
  | h, [] => ([], h)
  | h, c :: cs =>
    let rest := run (c.step h).2 cs
    ((c.step h).1 :: rest.1, rest.2)

end HandleCall

end SquashfsAsync
