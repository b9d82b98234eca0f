import SquashfsAsync.Metadata

/-!
# The superblock

The first 96 bytes of an image (`superblock.rs`): the magic number, the version (which must be
4.0), the block size, the compression, the flags, the root inode reference and the start of
each table.  With the compressor-options flag a metadata block follows, whose stored size is
checked against the algorithm.  The fields no modelled function reads (times, the id, xattr and
export tables) are decoded past and not kept.
-/

namespace SquashfsAsync

variable (env : Env)

/-- `inodes::InodeRef(u64)`: the start of the metadata block holding an inode, relative to the
inode table, and the inode's offset in that block's payload. -/
structure InodeRef where
  bits : Nat
  deriving DecidableEq, Repr

/-- `InodeRef::block_start`: `self.0 >> 16`. -/
def InodeRef.blockStart (r : InodeRef) : Nat := r.bits >>> 16

/-- `InodeRef::block_offset`: `self.0 & 0xFFFF`. -/
def InodeRef.blockOffset (r : InodeRef) : Nat := r.bits &&& 0xFFFF

/-- `superblock::CompressionOptions`. -/
inductive CompressionOptions
  | zstd | gzip | xz
  deriving DecidableEq, Repr

/-- `CompressionOptions::from_metadata`: the stored size of the options block must be 4 bytes
for Zstd and 8 for Gzip and Xz. -/
def CompressionOptions.fromMetadata (c : Compression) (block : MetadataBlock) :
    Except Error CompressionOptions :=
  match c with
  | .zstd => if block.compressedSize ≠ 4 then throw .invalidBufferSize else pure .zstd
  | .gzip => if block.compressedSize ≠ 8 then throw .invalidBufferSize else pure .gzip
  | .xz => if block.compressedSize ≠ 8 then throw .invalidBufferSize else pure .xz
  | c => throw (.decompress (.unsupportedCompression c))

/-- `superblock::SuperBlock`, with the fields the code reads. -/
structure SuperBlock where
  magic : Nat
  inodeCount : Nat
  blockSize : Nat
  fragmentEntryCount : Nat
  compression : Compression
  flags : Nat
  versionMajor : Nat
  versionMinor : Nat
  rootInode : InodeRef
  bytesUsed : Nat
  inodeTableStart : Nat
  directoryTableStart : Nat
  fragmentTableStart : Nat
  compressionOptions : Option CompressionOptions
  deriving DecidableEq, Repr

namespace SuperBlock

/-- The `bincode` decoding of the 96 bytes: fixed-width little-endian fields in declaration
order; only the compression can be invalid. -/
def decode (bs : Bytes) : Option SuperBlock := do
  let c ← Compression.ofU16 (field bs 20 2)
  pure {
    magic := field bs 0 4
    inodeCount := field bs 4 4
    blockSize := field bs 12 4
    fragmentEntryCount := field bs 16 4
    compression := c
    flags := field bs 24 2
    versionMajor := field bs 28 2
    versionMinor := field bs 30 2
    rootInode := ⟨field bs 32 8⟩
    bytesUsed := field bs 40 8
    inodeTableStart := field bs 64 8
    directoryTableStart := field bs 72 8
    fragmentTableStart := field bs 80 8
    compressionOptions := none }

/-- `SuperBlockFlags::COMPRESSOR_OPTIONS`. -/
def compressorOptionsFlag : Nat := 0x0400

/-- `SuperBlock::from_reader(r)` with `r` at the start of the image. -/
def fromReader (image : Bytes) : Except Error SuperBlock := do
  let (bs, _) ← ((Stream.ofBytes image).readExact 96).mapError fun _ => Error.invalidSuperblock
  let some sb := decode bs | throw .invalidSuperblock
  if sb.magic ≠ 0x73717368 ∨ sb.versionMajor ≠ 4 ∨ sb.versionMinor ≠ 0 then
    throw .invalidSuperblock
  if sb.flags &&& compressorOptionsFlag ≠ 0 then
    let (block, _) ← (MetadataBlock.fromReader env image 96 sb.compression).mapError .metadata
    let opts ← CompressionOptions.fromMetadata sb.compression block
    pure { sb with compressionOptions := some opts }
  else pure sb

/-- `SuperBlock::tables_length`: `self.bytes_used - self.inode_table_start`. -/
def tablesLength {E : Type} (sb : SuperBlock) : Run E Nat :=
  subChecked sb.bytesUsed sb.inodeTableStart

end SuperBlock

end SquashfsAsync
