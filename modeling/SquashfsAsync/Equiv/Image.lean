import SquashfsAsync.Image
import SquashfsAsync.Equiv.InodeTable

/-!
# Opening an image

Images are laid out with `SuperBlock.encode` (the 96 bytes, with zeros in the fields no
modelled function reads) and `MetadataBlock.encodeUncompressed` (a block stored as is).

* `SuperBlock.fromReader_encode`: the superblock reader gives back the fields it was given,
  whatever follows them, for the fields within their widths, version 4.0 and no compressor
  options.
* `fromReader_symlink_only`: an image whose inode table holds one symlink and no file or
  directory is read through to its last check, where `inode_table.ids().max().unwrap()` panics.
-/

namespace SquashfsAsync

variable (env : Env)

/-- The `#[repr(u16)]` discriminant of a compression. -/
def Compression.toU16 : Compression → Nat
  | .gzip => 1
  | .lzma => 2
  | .lzd => 3
  | .xz => 4
  | .lz4 => 5
  | .zstd => 6

@[simp] theorem Compression.ofU16_toU16 (c : Compression) : Compression.ofU16 c.toU16 = some c := by
  cases c <;> rfl

theorem Compression.toU16_lt (c : Compression) : c.toU16 < 2 ^ 16 := by
  cases c <;> decide

namespace SuperBlock

/-- The 96 bytes of a superblock. -/
def encode (sb : SuperBlock) : Bytes :=
  leBytes 4 sb.magic ++ leBytes 4 sb.inodeCount ++ leBytes 4 0 ++ leBytes 4 sb.blockSize ++
    leBytes 4 sb.fragmentEntryCount ++ leBytes 2 sb.compression.toU16 ++ leBytes 2 0 ++
    leBytes 2 sb.flags ++ leBytes 2 0 ++ leBytes 2 sb.versionMajor ++ leBytes 2 sb.versionMinor ++
    leBytes 8 sb.rootInode.bits ++ leBytes 8 sb.bytesUsed ++ leBytes 8 0 ++ leBytes 8 0 ++
    leBytes 8 sb.inodeTableStart ++ leBytes 8 sb.directoryTableStart ++
    leBytes 8 sb.fragmentTableStart ++ leBytes 8 0

/-- A superblock `encode` lays out faithfully and `from_reader` accepts: each field within its
width, the magic number, version 4.0, and no compressor options. -/
def Encodable (sb : SuperBlock) : Prop :=
  sb.magic = 0x73717368 ∧ sb.inodeCount < 2 ^ 32 ∧ sb.blockSize < 2 ^ 32 ∧
    sb.fragmentEntryCount < 2 ^ 32 ∧ sb.flags < 2 ^ 16 ∧ sb.flags &&& compressorOptionsFlag = 0 ∧
    sb.versionMajor = 4 ∧ sb.versionMinor = 0 ∧ sb.rootInode.bits < 2 ^ 64 ∧
    sb.bytesUsed < 2 ^ 64 ∧ sb.inodeTableStart < 2 ^ 64 ∧ sb.directoryTableStart < 2 ^ 64 ∧
    sb.fragmentTableStart < 2 ^ 64 ∧ sb.compressionOptions = none

theorem length_encode (sb : SuperBlock) : sb.encode.length = 96 := by
  simp [encode]

theorem decode_encode {sb : SuperBlock} (h : sb.Encodable) : decode sb.encode = some sb := by
  obtain ⟨h₁, h₂, h₃, h₄, h₅, -, h₇, h₈, h₉, h₁₀, h₁₁, h₁₂, h₁₃, h₁₄⟩ := h
  have hc := sb.compression.toU16_lt
  simp (disch := simp) only [decode, encode, List.append_assoc, field_leBytes_append, field_append,
    length_leBytes]
  cases sb
  simp_all [field_leBytes_append, field_leBytes, Nat.mod_eq_of_lt]

/-- **Round trip.**  The superblock reader gives back an encodable superblock. -/
theorem fromReader_encode {sb : SuperBlock} (h : sb.Encodable) (rest : Bytes) :
    fromReader env (sb.encode ++ rest) = .ok sb := by
  have hr : (Stream.ofBytes (sb.encode ++ rest)).readExact 96 = .ok (sb.encode, ⟨rest, none⟩) := by
    rw [← length_encode sb]; exact Stream.readExact_append _ _ _
  have hd := decode_encode h
  obtain ⟨h₁, -, -, -, -, h₆, h₇, h₈, -⟩ := h
  -- the decoder is kept opaque: reducing it on an encoding with unknown fields is costly
  rw [fromReader]
  generalize sb.encode = E at hr hd ⊢
  simp only [hr, Except.mapError, bind, Except.bind, hd, h₁, h₆, h₇, h₈]
  simp [pure, Except.pure]

end SuperBlock

/-- A metadata block stored uncompressed: its header (the size with the high bit set), then the
payload. -/
def MetadataBlock.encodeUncompressed (d : Bytes) : Bytes := leBytes 2 (0x8000 + d.length) ++ d

/-! ### An inode table without a file or a directory -/

set_option maxRecDepth 100000 in
/-- `inode_table.ids().max().unwrap()` in `from_reader` panics on an image whose inode table
holds a symlink only, every earlier step of `from_reader` having passed. -/
theorem fromReader_symlink_only :
    (SquashFs.fromReader env ⟨0, 1, 0, by decide, by decide, by decide⟩
      (SuperBlock.encode ⟨0x73717368, 1, 16, 0, .gzip, 0, 4, 0, ⟨0⟩, 123, 96, 123, 123, none⟩ ++
        MetadataBlock.encodeUncompressed
          (InodeTable.InodeRecord.basicSymlink ⟨0, 0, 0, 0⟩ 1 1 [0x61]).encode)).map
      (fun _ => ()) = .error (.panic .unwrapNone) := rfl

end SquashfsAsync
