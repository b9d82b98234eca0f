import SquashfsAsync.Prog

/-!
# Reading a file

`data.rs`.  `SquashFs::read_file` clamps the request to the file, then takes one of three paths:

* a file smaller than a block is read with `O_DIRECT` added to the flags;
* a file below `direct_limit`, without a fragment, asked for with `O_DIRECT`, goes through the
  whole-small-file cache: its single-flight producer reads the file's whole compressed span at
  once and decodes it with `read_file_impl` over a cursor on that span;
* any other request is read with `read_file_impl` from a reader of the image.

`read_file_impl` computes the first block and the number of blocks in `f64`, lays out one zeroed
buffer part per block, reads each block's data location into its part with `read_data_block`,
reads the fragment into the last part when the data locations run out, and cuts the request out
of the parts.  `read_data_block` returns at once for a sparse block, serves a hit of the
decoded-block cache, and otherwise decompresses into the part and inserts the part into the
cache.

Each function is a `Prog` over the shared state, applied to the image a reader reads (`src`,
read from `reader_offset` on).  The read tasks are those of the filesystem adaptor, which passes
`superblock.compression`.
-/

namespace SquashfsAsync

variable (env : Env)

/-- `Iterator::sum::<u64>()`, panicking on overflow. -/
def sumChecked {E : Type} : List Nat → Run E Nat
  | [] => .ok 0
  | x :: xs => do
    let s ← sumChecked xs
    addChecked 64 x s

/-- `BytesMut::split_to(at)` kept for the rest: the bytes from `at` on; panics past the end. -/
def splitToRest {E : Type} (buf : Bytes) (at' : Nat) : Run E Bytes :=
  if at' ≤ buf.length then .ok (buf.drop at') else panic .outOfBounds

/-- `BytesMut::split_off(at)` kept for the front: the bytes before `at`; panics past the end. -/
def splitOffFront {E : Type} (buf : Bytes) (at' : Nat) : Run E Bytes :=
  if at' ≤ buf.length then .ok (buf.take at') else panic .outOfBounds

theorem splitToRest_of_le {E : Type} {buf : Bytes} {at' : Nat} (h : at' ≤ buf.length) :
    (splitToRest buf at' : Run E Bytes) = .ok (buf.drop at') := if_pos h

theorem splitOffFront_of_le {E : Type} {buf : Bytes} {at' : Nat} (h : at' ≤ buf.length) :
    (splitOffFront buf at' : Run E Bytes) = .ok (buf.take at') := if_pos h

namespace SquashFs

/-- `SquashFs::get_reader(flags)`: the pool a reader was checked out of. -/
def getReader (flags : ReadFlags) : Prog Nat := do
  let present ← Prog.cmd (.readersCheck flags)
  if present then Prog.cmd (.poolGet flags)
  else do
    Prog.cmd (.readersInsert flags)
    Prog.cmd (.poolGet flags)

/-- The miss path of `read_data_block`: decompress the block read from `pos` into `buf`, then
insert the whole buffer into the cache when there is one. -/
def decompressBlock (src : Bytes) (pos start : Nat) (b : BlockSize) (buf : Bytes) (cache : Bool)
    (c : Compression) : Prog Bytes := do
  Prog.cmd (.decompressing start)
  let out ← Prog.lift (Run.ofExcept .decompress
    (decompress env (readerAt src pos) b.compressedSize (some buf.length) (b.algo c)))
  let data := out ++ buf.drop out.length
  if cache then Prog.cmd (.blockInsert start data)
  pure data

/-- `read_data_block(r, reader_offset, start, b, buf, cache, compression)`: the buffer after the
call, with `r` reading `src`. -/
def readDataBlock (src : Bytes) (readerOffset start : Nat) (b : BlockSize) (buf : Bytes)
    (cache : Bool) (c : Compression) : Prog Bytes := do
  let pos ← Prog.lift (subChecked start readerOffset)
  if b.compressedSize = 0 then pure buf
  else if cache then
    Prog.exec (.blockGet start) fun
      | some d => if d.length ≠ buf.length then .fail (.error .invalidBufferSize) else .done d
      | none => decompressBlock env src pos start b buf cache c
  else decompressBlock env src pos start b buf cache c

/-- The loop over `data_locations.iter().zip(buf_parts.iter_mut())`: parts without a location
are left as they are. -/
def readBlocks (fs : SquashFs) (src : Bytes) (readerOffset : Nat) (c : Compression) :
    List DataLocation → List Bytes → Prog (List Bytes)
  | l :: ls, p :: ps => do
    let p ← readDataBlock env src readerOffset l.blockStart l.blockSize p fs.cache c
    let ps ← readBlocks fs src readerOffset c ls ps
    pure (p :: ps)
  | _, ps => pure ps

/-- `(x as f64 / block_size as f64)`. -/
def ratio (x blockSize : Nat) : F64 := F64.div (F64.ofNat x) (F64.ofNat blockSize)

/-- The fragment branch: read the fragment block into the last part, then drop the first
`fragment_location.offset` bytes of that part. -/
def readFragment (fs : SquashFs) (file : FileInode) (src : Bytes) (readerOffset : Nat)
    (c : Compression) (parts : List Bytes) : Prog (List Bytes) := do
  let last ← Prog.lift (unwrap parts.getLast?)
  let entry ← Prog.lift (Run.ofExcept .fragments (fs.fragmentsTable.entry file.fragment))
  let last ← readDataBlock env src readerOffset entry.start entry.size last fs.cache c
  let last ← Prog.lift (splitToRest last file.fragment.offset)
  pure (parts.dropLast ++ [last])

/-- The parts after the block loop: when the data locations run out before the `nBlocks` parts,
`assert!(n_blocks == data_locations.len() + 1)` and the fragment goes into the last part. -/
def completeParts (fs : SquashFs) (file : FileInode) (src : Bytes) (readerOffset : Nat)
    (c : Compression) (nBlocks nLocs : Nat) (parts : List Bytes) : Prog (List Bytes) :=
  if nLocs ≠ nBlocks then do
    if nBlocks ≠ nLocs + 1 then Prog.fail (.panic .assertion)
    readFragment env fs file src readerOffset c parts
  else pure parts

/-- `SquashFs::read_file_impl(file, (reader, reader_offset), inode, (offset, size), compression)`
with the reader reading `src`. -/
def readFileImpl (fs : SquashFs) (file : FileInode) (src : Bytes) (readerOffset : Nat)
    (offset size : Nat) (c : Compression) : Prog Bytes := do
  let B := fs.superblock.blockSize
  let firstBlock := (ratio offset B).floor.toUInt 64
  let blockOffset ← Prog.lift (remChecked offset B)
  let span ← Prog.lift (addChecked 64 blockOffset size)
  let nBlocks := (ratio span B).ceil.toUInt 64
  let _ ← Prog.lift (mulChecked 64 B nBlocks)
  let parts := List.replicate nBlocks (List.replicate B 0)
  let locs ← Prog.lift (FileInode.dataLocationsPrefix file.blocksStart file.blockSizes
    (if nBlocks = 0 then 0 else firstBlock + nBlocks))
  let locs := (locs.drop firstBlock).take nBlocks
  let parts ← readBlocks env fs src readerOffset c locs parts
  let parts ← completeParts env fs file src readerOffset c nBlocks locs.length parts
  let buf ← Prog.lift (splitToRest parts.flatten blockOffset)
  let buf ← Prog.lift (splitOffFront buf size)
  if buf.length ≠ size then Prog.fail (.error .invalidBufferSize)
  pure buf

/-- The producer of the whole-small-file cache: check out a reader, read the compressed span
`[first.block_start, first.block_start + tot_size)` at once, decode it over a cursor, and give
the reader back. -/
def wholeFileProducer (fs : SquashFs) (file : FileInode) (first : DataLocation) (totSize : Nat)
    (flags : ReadFlags) (c : Compression) : Prog (Except Error Bytes) := do
  let p ← getReader flags
  let r ← Prog.catchErr do
    let (span, _) ← Prog.lift (Run.ofExcept .readFailure
      ((Stream.ofBytes (readerAt fs.image first.blockStart)).readExact totSize))
    readFileImpl env fs file span first.blockStart 0 file.fileSize c
  Prog.cmd (.poolPut p)
  pure r

/-- The whole-small-file path of `read_file`. -/
def readWholeFile (fs : SquashFs) (inode : Nat) (file : FileInode) (offset size : Nat)
    (flags : ReadFlags) (c : Compression) : Prog Bytes := do
  let firsts ← Prog.lift (FileInode.dataLocationsPrefix file.blocksStart file.blockSizes 1)
  let first ← Prog.lift (unwrap firsts.head?)
  let all ← Prog.lift (FileInode.dataLocationsPrefix file.blocksStart file.blockSizes
    file.blockSizes.length)
  let totSize ← Prog.lift (sumChecked (all.map fun l => l.blockSize.compressedSize))
  let flags := flags ||| oDirect
  let ans ← Prog.cmd (.fileLock inode)
  let r ← match ans with
    | .result r => pure r
    | .produce => do
      let r ← wholeFileProducer env fs file first totSize flags c
      Prog.cmd (.filePublish inode r)
      pure r
  match r with
  | .error e => Prog.fail (.error (.cacheProducerError e))
  | .ok data =>
    if offset + size ≤ data.length then pure ((data.drop offset).take size)
    else Prog.fail (.panic .outOfBounds)

/-- `SquashFs::read_file(inode, offset, size, flags, compression)`. -/
def readFile (fs : SquashFs) (inode offset size : Nat) (flags : ReadFlags) (c : Compression) :
    Prog Bytes :=
  match fs.inodeTable.files.get? inode with
  | none => Prog.fail (.error (.fileNotFound none))
  | some file =>
    if file.fileSize < offset then Prog.fail (.error .invalidOffset)
    else
      let size := min size (file.fileSize - offset)
      if size = 0 then pure []
      else if file.fileSize < fs.superblock.blockSize then do
        let _ ← getReader (flags ||| oDirect)
        readFileImpl env fs file fs.image 0 offset size c
      else if fs.smallFilesCache ∧ file.fileSize < fs.directLimit ∧ !file.fragment.valid ∧
          flags &&& oDirect ≠ 0 then
        readWholeFile env fs inode file offset size flags c
      else do
        let _ ← getReader flags
        readFileImpl env fs file fs.image 0 offset size c

end SquashFs

end SquashfsAsync
