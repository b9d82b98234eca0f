import SquashfsAsync.Data

/-!
# Metadata blocks

A metadata block (`metadata.rs`) is a 16-bit little-endian header (the low 15 bits the stored
size, the high bit set for a block stored uncompressed) and the stored body; its payload may not
exceed 8192 bytes.  `MetadataBlock.fromReaderStream` reads consecutive blocks while the reader's
position is below `end`, and `MetadataBlock.fromReaderFlatten` concatenates their payloads into
one byte stream, which fails where the block stream fails.

The stream is lazy in the code; here it is computed whole, which a consumer cannot tell apart,
since what it reads is a prefix of the bytes and the error only past them.  Each block takes at
least its two header bytes, so the image's length bounds the number of blocks.
-/

namespace SquashfsAsync

variable (env : Env)

/-- `metadata::MetadataBlock`. -/
structure MetadataBlock where
  compressedSize : Nat
  data : Bytes
  deriving DecidableEq, Repr

namespace MetadataBlock

/-- `MetadataBlock::from_reader(r, compression)` with `r` at `pos`: the block, and the position
after its body. -/
def fromReader (image : Bytes) (pos : Nat) (c : Compression) :
    Except MetadataError (MetadataBlock × Nat) := do
  let (hdr, _) ← ((Stream.ofBytes (readerAt image pos)).readExact 2).mapError
    fun _ => MetadataError.invalidHeader
  let header := leValue hdr
  let compressedSize := header &&& 0x7FFF
  let compressed := header &&& 0x8000 == 0
  let body := readerAt image (pos + 2)
  let data ← (decompress env body compressedSize none
    (if compressed then some c else none)).mapError .decompress
  if 8192 < data.length then throw .invalidDataLength
  pure (⟨compressedSize, data⟩, pos + 2 + (body.take compressedSize).length)

/-- `MetadataBlock::from_reader_stream(r, end, compression)` from `pos`: the blocks with their
positions, and the error that ends the stream, if one does.  `fuel` bounds the number of
blocks. -/
def fromReaderStream (image : Bytes) (endPos : Nat) (c : Compression) :
    Nat → Nat → List (Nat × MetadataBlock) × Option MetadataError
  | 0, _ => ([], none)
  | fuel + 1, pos =>
    if endPos ≤ pos then ([], none)
    else match fromReader env image pos c with
      | .error e => ([], some e)
      | .ok (b, pos') =>
        let rest := fromReaderStream image endPos c fuel pos'
        ((pos, b) :: rest.1, rest.2)

/-- `MetadataBlock::from_reader_flatten(r, end, compression)` with `r` at `pos`: the payloads in
order, then the end of the stream or its error, wrapped as `ErrorKind::Other`. -/
def fromReaderFlatten (image : Bytes) (pos endPos : Nat) (c : Compression) : Stream :=
  let blocks := fromReaderStream env image endPos c (image.length + 1) pos
  ⟨(blocks.1.map fun b => b.2.data).flatten, blocks.2.map fun _ => .other⟩

end MetadataBlock

end SquashfsAsync
