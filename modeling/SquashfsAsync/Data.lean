import SquashfsAsync.Basic

/-!
# Decompression and data-block locations

`decompress` (`data.rs`) wraps the next `compressed_size` bytes of a reader in the decoder of the
algorithm, or copies them verbatim when there is none, and copies the result into a sink: a
`Vec` for metadata blocks, or the `Cursor` over a data block's buffer, which refuses bytes past
its end.  `BlockSize` is the on-disk size word of a data block and `DataLocation` a block's start
and size word, as `FileInode::data_locations` yields them.

The decoders are other crates' code: `Env.decode` gives the whole output of a body.  Reading from
a seekable reader is reading from a suffix of the image (`readerAt`).
-/

namespace SquashfsAsync

variable (env : Env)

/-- The algorithms `decompress` has a decoder for. -/
def Compression.supported : Compression → Bool
  | .zstd | .gzip | .xz => true
  | _ => false

/-- `decompress(input, compressed_size, output, compression)`: the bytes written to the sink, of
room `cap` (`none` for a `Vec`).  A decoder rejecting its input is an `InvalidData` error, a
write past the room of a `Cursor<&mut [u8]>` is `WriteZero`. -/
def decompress (input : Bytes) (compressedSize : Nat) (cap : Option Nat)
    (compression : Option Compression) : Except DecompressError Bytes := do
  let body := input.take compressedSize
  let out ← match compression with
    | none => pure body
    | some c =>
      if c.supported then
        match env.decode c body with
        | some out => pure out
        | none => throw (.io .invalidData)
      else throw (.unsupportedCompression c)
  match cap with
  | some n => if n < out.length then throw (.io .writeZero) else pure out
  | none => pure out

/-- The reader of an image positioned at `pos`. -/
def readerAt (image : Bytes) (pos : Nat) : Bytes := image.drop pos

/-- `BlockSize(u32)`: the low 24 bits are the on-disk size, bit 24 marks a block stored
uncompressed. -/
structure BlockSize where
  bits : Nat
  deriving DecidableEq, Repr

namespace BlockSize

/-- `BlockSize::compressed`: `(self.0 & (1 << 24)) == 0`. -/
def compressed (b : BlockSize) : Bool := b.bits &&& (1 <<< 24) == 0

/-- `BlockSize::compressed_size`: `self.0 & 0x00FFFFFF`. -/
def compressedSize (b : BlockSize) : Nat := b.bits &&& 0x00FFFFFF

end BlockSize

/-- `data::DataLocation`. -/
structure DataLocation where
  blockStart : Nat
  blockSize : BlockSize
  deriving DecidableEq, Repr

/-- The algorithm a block is decoded with: `b.compressed().then_some(compression)`. -/
def BlockSize.algo (b : BlockSize) (c : Compression) : Option Compression :=
  if b.compressed then some c else none

end SquashfsAsync
