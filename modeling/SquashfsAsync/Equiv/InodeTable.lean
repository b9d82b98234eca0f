import SquashfsAsync.Inodes

/-!
# Correctness of the inode-table parser

A table is a stream of records.  `InodeRecord` lists the records `InodeTable::from_reader`
understands (regular files and directories, basic and extended, and basic symlinks) by their
fields, and `InodeRecord.encode` lays them out as SquashFS 4.0 does.

* `fromStream_records`: on the encoding of well-formed records with distinct inode numbers the
  parser returns the table whose maps are those of the records.  A file's block-size words are as
  many as its size over the block size, rounded down with a fragment and up without, provided
  that count fits in the `u32` that `n_blocks` casts it to.
* `fromStream_blockSizes_saturate`: a file of `2 ^ 32` blocks loses its last block-size word, as
  `n_blocks` saturates at `u32::MAX`.
* `fromStream_fifo_misparse`: the record of a FIFO is skipped without its payload, so the
  payload is read as the start of the next header.
* `fromStream_append_short`, `fromStream_truncated_payload`: records, then one more record cut
  short.  A cut inside its 16-byte header is read as a clean end, and the parser returns the
  table without it; a cut anywhere in its payload fails with `InvalidEntry`.

The proof follows the loop: `fromReaderLoop_cons` is one pass on one record (its header by
`decode_encodeHeader`, its payload by `readRecord_payload`, one lemma per type), and
`fromReaderLoop_encode` is the induction over the records.  A cut payload is handled by
`FailsShort`, which composes through the binds of the readers as the encodings concatenate.
`fromStream_extendedFile_words` reads a file record whatever the number of words it carries,
which gives the saturation.
-/

namespace SquashfsAsync

namespace InodeTable

/-! ### Records -/

/-- The header fields the table does not keep. -/
structure HeaderRest where
  permissions : Nat
  uid : Nat
  gid : Nat
  mtime : Nat
  deriving DecidableEq, Repr

/-- A 16-byte inode header. -/
def encodeHeader (t : InodeType) (h : HeaderRest) (n : Nat) : Bytes :=
  leBytes 2 t.toU16 ++ leBytes 2 h.permissions ++ leBytes 2 h.uid ++ leBytes 2 h.gid ++
    leBytes 4 h.mtime ++ leBytes 4 n

/-- A directory index of an extended directory: `index`, `start`, `name_size`, then the
`name_size + 1` bytes of its name. -/
structure IndexRecord where
  index : Nat
  start : Nat
  name : Bytes
  deriving DecidableEq, Repr

namespace IndexRecord

def encode (x : IndexRecord) : Bytes :=
  leBytes 4 x.index ++ leBytes 4 x.start ++ leBytes 4 (x.name.length - 1) ++ x.name

/-- The name is nonempty, its size fits `name_size`, and it is UTF-8. -/
def Valid (x : IndexRecord) : Prop :=
  x.name ≠ [] ∧ x.name.length ≤ 2 ^ 32 ∧ utf8Valid x.name = true

end IndexRecord

/-- The block-size words of a file. -/
def encodeWords (bs : List BlockSize) : Bytes := (bs.map fun b => leBytes 4 b.bits).flatten

/-- The fixed part of a `BasicFile`. -/
def encodeBasicFile (f : FileInode) : Bytes :=
  leBytes 4 f.blocksStart ++ leBytes 4 f.fragment.index ++ leBytes 4 f.fragment.offset ++
    leBytes 4 f.fileSize

/-- The fixed part of an `ExtendedFile`. -/
def encodeExtendedFile (f : FileInode) (sparse hardLinkCount xattrIdx : Nat) : Bytes :=
  leBytes 8 f.blocksStart ++ leBytes 8 f.fileSize ++ leBytes 8 sparse ++ leBytes 4 hardLinkCount ++
    leBytes 4 f.fragment.index ++ leBytes 4 f.fragment.offset ++ leBytes 4 xattrIdx

/-- A `BasicDirectory`. -/
def encodeBasicDirectory (d : DirectoryInode) : Bytes :=
  leBytes 4 d.tableLocation.start ++ leBytes 4 d.hardLinkCount ++
    leBytes 2 d.tableLocation.fileSize ++ leBytes 2 d.tableLocation.offset ++
    leBytes 4 d.parentInodeNumber

/-- The fixed part of an `ExtendedDirectory` with `indexCount` indexes. -/
def encodeExtendedDirectory (d : DirectoryInode) (indexCount xattrIdx : Nat) : Bytes :=
  leBytes 4 d.hardLinkCount ++ leBytes 4 d.tableLocation.fileSize ++
    leBytes 4 d.tableLocation.start ++ leBytes 4 d.parentInodeNumber ++ leBytes 2 indexCount ++
    leBytes 2 d.tableLocation.offset ++ leBytes 4 xattrIdx

/-- An inode record of a type the table keeps or reads past, by its fields. -/
inductive InodeRecord
  | basicFile (h : HeaderRest) (number : Nat) (f : FileInode)
  | extendedFile (h : HeaderRest) (number : Nat) (f : FileInode) (sparse hardLinkCount xattrIdx : Nat)
  | basicDirectory (h : HeaderRest) (number : Nat) (d : DirectoryInode)
  | extendedDirectory (h : HeaderRest) (number : Nat) (d : DirectoryInode)
      (index : List IndexRecord) (xattrIdx : Nat)
  | basicSymlink (h : HeaderRest) (number : Nat) (linkCount : Nat) (target : Bytes)

/-- The number of block-size words of a file: its size over the block size, rounded down when it
has a fragment and up when it has none. -/
def blockCount (B : Nat) (f : FileInode) : Nat :=
  if f.fragment.valid then f.fileSize / B else (f.fileSize + B - 1) / B

/-- The words of a file fit a `u32` each, and there are `blockCount` of them, a number that fits a
`u32`. -/
def WordsValid (B : Nat) (f : FileInode) : Prop :=
  (∀ b ∈ f.blockSizes, b.bits < 2 ^ 32) ∧ f.blockSizes.length = blockCount B f ∧
    f.blockSizes.length < 2 ^ 32

namespace InodeRecord

def number : InodeRecord → Nat
  | basicFile _ n _ | extendedFile _ n _ _ _ _ | basicDirectory _ n _
  | extendedDirectory _ n _ _ _ | basicSymlink _ n _ _ => n

def inodeType : InodeRecord → InodeType
  | basicFile .. => .basicFile
  | extendedFile .. => .extendedFile
  | basicDirectory .. => .basicDirectory
  | extendedDirectory .. => .extendedDirectory
  | basicSymlink .. => .basicSymlink

def headerRest : InodeRecord → HeaderRest
  | basicFile h _ _ | extendedFile h _ _ _ _ _ | basicDirectory h _ _
  | extendedDirectory h _ _ _ _ | basicSymlink h _ _ _ => h

/-- What follows the header. -/
def payload : InodeRecord → Bytes
  | basicFile _ _ f => encodeBasicFile f ++ encodeWords f.blockSizes
  | extendedFile _ _ f sp hl x => encodeExtendedFile f sp hl x ++ encodeWords f.blockSizes
  | basicDirectory _ _ d => encodeBasicDirectory d
  | extendedDirectory _ _ d idx x =>
    encodeExtendedDirectory d idx.length x ++ (idx.map IndexRecord.encode).flatten
  | basicSymlink _ _ lc tgt => leBytes 4 lc ++ leBytes 4 tgt.length ++ tgt

def encode (r : InodeRecord) : Bytes := encodeHeader r.inodeType r.headerRest r.number ++ r.payload

/-- Every field fits its width; names and targets are UTF-8. -/
def Valid (B : Nat) : InodeRecord → Prop
  | basicFile _ n f =>
    n < 2 ^ 32 ∧ f.blocksStart < 2 ^ 32 ∧ f.fileSize < 2 ^ 32 ∧ f.fragment.index < 2 ^ 32 ∧
      f.fragment.offset < 2 ^ 32 ∧ WordsValid B f
  | extendedFile _ n f _ _ _ =>
    n < 2 ^ 32 ∧ f.blocksStart < 2 ^ 64 ∧ f.fileSize < 2 ^ 53 ∧ f.fragment.index < 2 ^ 32 ∧
      f.fragment.offset < 2 ^ 32 ∧ WordsValid B f
  | basicDirectory _ n d =>
    n < 2 ^ 32 ∧ d.tableLocation.start < 2 ^ 32 ∧ d.hardLinkCount < 2 ^ 32 ∧
      d.tableLocation.fileSize < 2 ^ 16 ∧ d.tableLocation.offset < 2 ^ 16 ∧
      d.parentInodeNumber < 2 ^ 32
  | extendedDirectory _ n d idx _ =>
    n < 2 ^ 32 ∧ d.tableLocation.start < 2 ^ 32 ∧ d.hardLinkCount < 2 ^ 32 ∧
      d.tableLocation.fileSize < 2 ^ 32 ∧ d.tableLocation.offset < 2 ^ 16 ∧
      d.parentInodeNumber < 2 ^ 32 ∧ idx.length < 2 ^ 16 ∧ ∀ x ∈ idx, x.Valid
  | basicSymlink _ n _ tgt => n < 2 ^ 32 ∧ tgt.length < 2 ^ 32 ∧ utf8Valid tgt = true

/-- The entry of the files map a record makes. -/
def fileEntry : InodeRecord → Option (Nat × FileInode)
  | basicFile _ n f | extendedFile _ n f _ _ _ => some (n, f)
  | _ => none

/-- The entry of the directories map a record makes. -/
def dirEntry : InodeRecord → Option (Nat × DirectoryInode)
  | basicDirectory _ n d | extendedDirectory _ n d _ _ => some (n, d)
  | _ => none

/-- The table after the record. -/
def insertInto (t : InodeTable) : InodeRecord → InodeTable
  | basicFile _ n f | extendedFile _ n f _ _ _ => { t with files := t.files.insert n f }
  | basicDirectory _ n d | extendedDirectory _ n d _ _ =>
    { t with directories := t.directories.insert n d }
  | basicSymlink _ _ _ _ => t

end InodeRecord

/-! ### Decoding fields -/

theorem readExact_append_of_length {bs rest : Bytes} {n : Nat} (t : Option IoError)
    (h : bs.length = n) : Stream.readExact ⟨bs ++ rest, t⟩ n = .ok (bs, ⟨rest, t⟩) := by
  subst h; exact Stream.readExact_append bs rest t

theorem bincodeDeserFrom_append_of_length {ε α : Type} {bs rest : Bytes} {n : Nat}
    (t : Option IoError) (dec : Bytes → Option α) (err : ε) {a : α} (h : bs.length = n)
    (hd : dec bs = some a) :
    Stream.bincodeDeserFrom ⟨bs ++ rest, t⟩ n dec err = .ok (a, ⟨rest, t⟩) := by
  subst h; exact Stream.bincodeDeserFrom_append bs rest t dec err hd

theorem decode_encodeHeader (t : InodeType) (h : HeaderRest) {n : Nat} (hn : n < 2 ^ 32) :
    InodeHeader.decode (encodeHeader t h n) = some ⟨t, n⟩ := by
  simp (disch := simp) only [InodeHeader.decode, encodeHeader, List.append_assoc,
    field_leBytes_append, field_append, length_leBytes]
  have := InodeType.toU16_lt t
  simp (disch := omega) [field_leBytes, Nat.mod_eq_of_lt]

theorem decode_encodeBasicFile {f : FileInode} (h₁ : f.blocksStart < 2 ^ 32)
    (h₂ : f.fileSize < 2 ^ 32) (h₃ : f.fragment.index < 2 ^ 32) (h₄ : f.fragment.offset < 2 ^ 32) :
    FileKind.basic.decode (encodeBasicFile f) = { f with blockSizes := [] } := by
  simp (disch := simp) only [FileKind.decode, encodeBasicFile, List.append_assoc,
    field_leBytes_append, field_append, length_leBytes]
  simp (disch := omega) [field_leBytes_append, field_leBytes, Nat.mod_eq_of_lt]

theorem decode_encodeExtendedFile {f : FileInode} (sp hl x : Nat) (h₁ : f.blocksStart < 2 ^ 64)
    (h₂ : f.fileSize < 2 ^ 53) (h₃ : f.fragment.index < 2 ^ 32) (h₄ : f.fragment.offset < 2 ^ 32) :
    FileKind.extended.decode (encodeExtendedFile f sp hl x) = { f with blockSizes := [] } := by
  have h₂' : f.fileSize < 2 ^ 64 := Nat.lt_trans h₂ (by decide)
  simp (disch := simp) only [FileKind.decode, encodeExtendedFile, List.append_assoc,
    field_leBytes_append, field_append, length_leBytes]
  simp (disch := omega) [field_leBytes_append, field_leBytes, Nat.mod_eq_of_lt]

theorem decode_encodeBasicDirectory {d : DirectoryInode} (h₁ : d.tableLocation.start < 2 ^ 32)
    (h₂ : d.hardLinkCount < 2 ^ 32) (h₃ : d.tableLocation.fileSize < 2 ^ 16)
    (h₄ : d.tableLocation.offset < 2 ^ 16) (h₅ : d.parentInodeNumber < 2 ^ 32) :
    BasicDirectory.decode (encodeBasicDirectory d) = d := by
  simp (disch := simp) only [BasicDirectory.decode, encodeBasicDirectory, List.append_assoc,
    field_leBytes_append, field_append, length_leBytes]
  simp (disch := omega) [field_leBytes_append, field_leBytes, Nat.mod_eq_of_lt]

/-! ### Payloads -/

/-- `n_blocks` is the exact count when the size and the block size are below `2 ^ 53` and the
count fits a `u32`. -/
theorem nBlocks_eq {f : FileInode} {B : Nat} (hB : 0 < B) (hB' : B < 2 ^ 53)
    (hf : f.fileSize < 2 ^ 53) (hN : blockCount B f < 2 ^ 32) : f.nBlocks B = blockCount B f := by
  unfold FileInode.nBlocks blockCount at *
  split_ifs at * with h
  · rw [F64.toUInt_floor_div hf hB hB']; omega
  · rw [F64.toUInt_ceil_div hf hB hB']; omega

theorem encodeWords_eq (bs : List BlockSize) :
    encodeWords bs = ((bs.map BlockSize.bits).map (leBytes 4)).flatten := by
  simp [encodeWords, Function.comp_def]

theorem map_mod_words {bs : List BlockSize} (h : ∀ b ∈ bs, b.bits < 2 ^ 32) :
    ((bs.map BlockSize.bits).map (· % 256 ^ 4)).map BlockSize.mk = bs := by
  induction bs with
  | nil => rfl
  | cons b bs ih =>
    simp only [List.map_cons, List.forall_mem_cons] at h ⊢
    rw [ih h.2, Nat.mod_eq_of_lt (by omega)]

/-- `n_blocks` of a well-formed file asks for the words it has. -/
theorem nBlocks_words {B : Nat} {f : FileInode} (hB : 0 < B) (hB' : B < 2 ^ 53)
    (hf : f.fileSize < 2 ^ 53) (hw : WordsValid B f) :
    ({ f with blockSizes := [] } : FileInode).nBlocks B = (f.blockSizes.map BlockSize.bits).length := by
  rw [List.length_map, hw.2.1]
  exact nBlocks_eq hB hB' hf (hw.2.1 ▸ hw.2.2)

/-- A file record's payload: its fixed part, then its words. -/
theorem fileFromReader_encode (k : FileKind) (sb : SuperBlock) {f : FileInode} {fixed : Bytes}
    (rest : Bytes) (tl : Option IoError) (hlen : fixed.length = k.encodedSize)
    (hdec : k.decode fixed = { f with blockSizes := [] }) (hB : 0 < sb.blockSize)
    (hB' : sb.blockSize < 2 ^ 53) (hf : f.fileSize < 2 ^ 53) (hw : WordsValid sb.blockSize f) :
    FileInode.fromReader k ⟨fixed ++ (encodeWords f.blockSizes ++ rest), tl⟩ sb =
      .ok (f, ⟨rest, tl⟩) := by
  simp only [FileInode.fromReader, bincodeDeserFrom_append_of_length tl
    (fun bs => some (k.decode bs)) InodeTableError.invalidEntry hlen (congrArg some hdec),
    bind, Except.bind, nBlocks_words hB hB' hf hw, encodeWords_eq, Stream.readWords_append,
    Except.mapError, pure, Except.pure, map_mod_words hw.1]

theorem basicDirectory_readRecord (sb : SuperBlock) (h : InodeHeader) (t : InodeTable)
    {d : DirectoryInode} (rest : Bytes) (tl : Option IoError) (ht : h.inodeType = .basicDirectory)
    (hd : d.tableLocation.start < 2 ^ 32 ∧ d.hardLinkCount < 2 ^ 32 ∧
      d.tableLocation.fileSize < 2 ^ 16 ∧ d.tableLocation.offset < 2 ^ 16 ∧
      d.parentInodeNumber < 2 ^ 32) :
    readRecord sb h t ⟨encodeBasicDirectory d ++ rest, tl⟩ =
      .ok ({ t with directories := t.directories.insert h.inodeNumber d }, ⟨rest, tl⟩) := by
  obtain ⟨h₁, h₂, h₃, h₄, h₅⟩ := hd
  have hlen : (encodeBasicDirectory d).length = 16 := by simp [encodeBasicDirectory]
  simp only [readRecord, ht, bincodeDeserFrom_append_of_length tl
    (fun bs => some (BasicDirectory.decode bs)) InodeTableError.invalidEntry hlen
    (congrArg some (decode_encodeBasicDirectory h₁ h₂ h₃ h₄ h₅))]
  rfl

/-- The `name_size` field of an index. -/
theorem IndexRecord.field_nameSize {x : IndexRecord} (hlen : x.name.length ≤ 2 ^ 32) :
    field (leBytes 4 x.index ++ leBytes 4 x.start ++ leBytes 4 (x.name.length - 1)) 8 4 =
      x.name.length - 1 := by
  simp (disch := simp) only [List.append_assoc, field_append, length_leBytes]
  simp (disch := omega) [field_leBytes, Nat.mod_eq_of_lt]

theorem indexFromReader_encode {x : IndexRecord} (hx : x.Valid) (rest : Bytes)
    (tl : Option IoError) :
    DirectoryIndex.fromReader ⟨x.encode ++ rest, tl⟩ = .ok ⟨rest, tl⟩ := by
  obtain ⟨hne, hlen, hutf⟩ := hx
  have hpos : 0 < x.name.length := List.length_pos.mpr hne
  have hsplit : x.encode ++ rest =
      (leBytes 4 x.index ++ leBytes 4 x.start ++ leBytes 4 (x.name.length - 1)) ++
        (x.name ++ rest) := by simp [IndexRecord.encode]
  have hsize : x.name.length - 1 + 1 = x.name.length := by omega
  have h12 : (leBytes 4 x.index ++ leBytes 4 x.start ++
      leBytes 4 (x.name.length - 1)).length = 12 := by simp
  simp only [DirectoryIndex.fromReader, hsplit, bincodeDeserFrom_append_of_length tl
    (fun bs => some (field bs 8 4)) InodeTableError.invalidEntry h12
    (congrArg some (IndexRecord.field_nameSize hlen)),
    bind, Except.bind, hsize, Stream.bincodeDeserStringFrom_append _ _ tl _ hutf]
  rfl

theorem readMany_encode : ∀ (idx : List IndexRecord), (∀ x ∈ idx, x.Valid) →
    ∀ (rest : Bytes) (tl : Option IoError),
      DirectoryIndex.readMany idx.length ⟨(idx.map IndexRecord.encode).flatten ++ rest, tl⟩ =
        .ok ⟨rest, tl⟩
  | [], _, _, _ => rfl
  | x :: idx, hv, rest, tl => by
    rw [List.forall_mem_cons] at hv
    simp only [List.length_cons, List.map_cons, List.flatten_cons, List.append_assoc,
      DirectoryIndex.readMany, indexFromReader_encode hv.1, bind, Except.bind]
    exact readMany_encode idx hv.2 rest tl

/-- The `index_count` field of an extended directory. -/
theorem field_indexCount (d : DirectoryInode) {n : Nat} (x : Nat) (hn : n < 2 ^ 16) :
    field (encodeExtendedDirectory d n x) 16 2 = n := by
  simp (disch := simp) only [encodeExtendedDirectory, List.append_assoc, field_append,
    length_leBytes]
  simp (disch := omega) [field_leBytes_append, Nat.mod_eq_of_lt]

theorem extendedDirectory_fromReader_encode {d : DirectoryInode} {idx : List IndexRecord}
    (x : Nat) (hd : d.tableLocation.start < 2 ^ 32 ∧ d.hardLinkCount < 2 ^ 32 ∧
      d.tableLocation.fileSize < 2 ^ 32 ∧ d.tableLocation.offset < 2 ^ 16 ∧
      d.parentInodeNumber < 2 ^ 32) (hcount : idx.length < 2 ^ 16) (hidx : ∀ y ∈ idx, y.Valid)
    (rest : Bytes) (tl : Option IoError) :
    ExtendedDirectory.fromReader
        ⟨encodeExtendedDirectory d idx.length x ++ ((idx.map IndexRecord.encode).flatten ++ rest), tl⟩ =
      .ok (d, ⟨rest, tl⟩) := by
  obtain ⟨h₁, h₂, h₃, h₄, h₅⟩ := hd
  have hlen : (encodeExtendedDirectory d idx.length x).length = 24 := by
    simp [encodeExtendedDirectory]
  simp only [ExtendedDirectory.fromReader, bincodeDeserFrom_append_of_length tl some
    InodeTableError.invalidEntry hlen rfl, bind, Except.bind, field_indexCount d x hcount,
    readMany_encode idx hidx]
  simp (disch := simp) only [encodeExtendedDirectory, List.append_assoc, field_append,
    length_leBytes, field_leBytes_append]
  simp (disch := omega) [field_leBytes_append, field_leBytes, Nat.mod_eq_of_lt, pure, Except.pure]

/-- The `target_size` field of a symlink. -/
theorem field_targetSize (lc : Nat) {tgt : Bytes} (hlen : tgt.length < 2 ^ 32) :
    field (leBytes 4 lc ++ leBytes 4 tgt.length) 4 4 = tgt.length := by
  simp (disch := simp) only [List.append_assoc, field_append, length_leBytes]
  simp (disch := omega) [field_leBytes, Nat.mod_eq_of_lt]

theorem symlink_fromReader_encode (lc : Nat) {tgt : Bytes} (hlen : tgt.length < 2 ^ 32)
    (hutf : utf8Valid tgt = true) (rest : Bytes) (tl : Option IoError) :
    Symlink.fromReader ⟨leBytes 4 lc ++ (leBytes 4 tgt.length ++ (tgt ++ rest)), tl⟩ =
      .ok ⟨rest, tl⟩ := by
  rw [← List.append_assoc]
  have h8 : (leBytes 4 lc ++ leBytes 4 tgt.length).length = 8 := by simp
  simp only [Symlink.fromReader, bincodeDeserFrom_append_of_length tl
    (fun bs => some (field bs 4 4)) InodeTableError.invalidEntry h8
    (congrArg some (field_targetSize lc hlen)),
    bind, Except.bind, Stream.bincodeDeserStringFrom_append _ _ tl _ hutf]
  rfl

/-! ### The loop -/

theorem InodeRecord.number_lt {B : Nat} {r : InodeRecord} (hr : r.Valid B) : r.number < 2 ^ 32 := by
  cases r <;> exact hr.1

/-- **One record.**  After the header of a well-formed record, `readRecord` consumes its
payload and adds its inode. -/
theorem readRecord_payload (sb : SuperBlock) (hB : 0 < sb.blockSize) (hB' : sb.blockSize < 2 ^ 53)
    (r : InodeRecord) (hr : r.Valid sb.blockSize) (t : InodeTable) (rest : Bytes)
    (tl : Option IoError) :
    readRecord sb ⟨r.inodeType, r.number⟩ t ⟨r.payload ++ rest, tl⟩ =
      .ok (r.insertInto t, ⟨rest, tl⟩) := by
  cases r with
  | basicFile h n f =>
    obtain ⟨-, h₁, h₂, h₃, h₄, hw⟩ := hr
    simp only [InodeRecord.payload, List.append_assoc, readRecord, InodeRecord.inodeType,
      fileFromReader_encode .basic sb rest tl (by simp [encodeBasicFile, FileKind.encodedSize])
        (decode_encodeBasicFile h₁ h₂ h₃ h₄) hB hB' (Nat.lt_trans h₂ (by decide)) hw]
    rfl
  | extendedFile h n f sp hl x =>
    obtain ⟨-, h₁, h₂, h₃, h₄, hw⟩ := hr
    simp only [InodeRecord.payload, List.append_assoc, readRecord, InodeRecord.inodeType,
      fileFromReader_encode .extended sb rest tl
        (by simp [encodeExtendedFile, FileKind.encodedSize])
        (decode_encodeExtendedFile sp hl x h₁ h₂ h₃ h₄) hB hB' h₂ hw]
    rfl
  | basicDirectory h n d =>
    exact basicDirectory_readRecord sb _ t rest tl rfl hr.2
  | extendedDirectory h n d idx x =>
    obtain ⟨-, h₁, h₂, h₃, h₄, h₅, hc, hidx⟩ := hr
    simp only [InodeRecord.payload, List.append_assoc, readRecord, InodeRecord.inodeType,
      extendedDirectory_fromReader_encode x ⟨h₁, h₂, h₃, h₄, h₅⟩ hc hidx rest tl]
    rfl
  | basicSymlink h n lc tgt =>
    obtain ⟨-, hlen, hutf⟩ := hr
    simp only [InodeRecord.payload, List.append_assoc, readRecord, InodeRecord.inodeType,
      symlink_fromReader_encode lc hlen hutf rest tl]
    rfl

theorem length_encodeHeader (t : InodeType) (h : HeaderRest) (n : Nat) :
    (encodeHeader t h n).length = 16 := by
  simp [encodeHeader]

/-- **Step.**  One pass of the loop reads one well-formed record. -/
theorem fromReaderLoop_cons (sb : SuperBlock) (hB : 0 < sb.blockSize)
    (hB' : sb.blockSize < 2 ^ 53) (r : InodeRecord) (hr : r.Valid sb.blockSize) (fuel : Nat)
    (rest : Bytes) (tl : Option IoError) (t : InodeTable) :
    fromReaderLoop sb (fuel + 1) ⟨r.encode ++ rest, tl⟩ t =
      fromReaderLoop sb fuel ⟨rest, tl⟩ (r.insertInto t) := by
  simp only [fromReaderLoop, InodeRecord.encode, List.append_assoc,
    readExact_append_of_length tl (length_encodeHeader _ _ _),
    decode_encodeHeader _ _ (InodeRecord.number_lt hr), readRecord_payload sb hB hB' r hr,
    bind, Except.bind]

/-- **Run.**  The loop reads well-formed records one after the other. -/
theorem fromReaderLoop_encode (sb : SuperBlock) (hB : 0 < sb.blockSize)
    (hB' : sb.blockSize < 2 ^ 53) (rest : Bytes) (tl : Option IoError) :
    ∀ (recs : List InodeRecord) (fuel : Nat) (t : InodeTable), (∀ r ∈ recs, r.Valid sb.blockSize) →
      recs.length ≤ fuel →
      fromReaderLoop sb fuel ⟨(recs.map InodeRecord.encode).flatten ++ rest, tl⟩ t =
        fromReaderLoop sb (fuel - recs.length) ⟨rest, tl⟩ (recs.foldl InodeRecord.insertInto t)
  | [], fuel, t, _, _ => rfl
  | r :: recs, fuel + 1, t, hv, hlen => by
    rw [List.forall_mem_cons] at hv
    simp only [List.map_cons, List.flatten_cons, List.append_assoc, List.foldl_cons,
      List.length_cons, Nat.add_sub_add_right]
    rw [fromReaderLoop_cons sb hB hB' r hv.1]
    exact fromReaderLoop_encode sb hB hB' rest tl recs fuel _ hv.2
      (Nat.le_of_succ_le_succ hlen)

/-- Fewer than 16 bytes before a clean end end the loop as a clean end does: `read_exact`
fails with `UnexpectedEof` whether or not it read some bytes. -/
theorem fromReaderLoop_short (sb : SuperBlock) (fuel : Nat) (t : InodeTable) {part : Bytes}
    (hpart : part.length < 16) : fromReaderLoop sb (fuel + 1) ⟨part, none⟩ t = .ok t := by
  simp only [fromReaderLoop, Stream.readExact_of_lt ⟨part, none⟩ 16 hpart, Option.getD_none]

theorem length_le_length_flatten (recs : List InodeRecord) :
    recs.length ≤ ((recs.map InodeRecord.encode).flatten).length := by
  induction recs with
  | nil => simp
  | cons r recs ih =>
    simp only [List.map_cons, List.flatten_cons, List.length_append, List.length_cons,
      InodeRecord.encode, length_encodeHeader]
    omega

/-- Well-formed records, then fewer than 16 bytes: the parser returns the table of the records,
whatever those bytes are. -/
theorem fromStream_append_short (sb : SuperBlock) (hB : 0 < sb.blockSize)
    (hB' : sb.blockSize < 2 ^ 53) (recs : List InodeRecord) (hv : ∀ r ∈ recs, r.Valid sb.blockSize)
    {part : Bytes} (hpart : part.length < 16) :
    fromStream sb ⟨(recs.map InodeRecord.encode).flatten ++ part, none⟩ =
      .ok (recs.foldl InodeRecord.insertInto empty) := by
  have hlen := length_le_length_flatten recs
  rw [fromStream, List.length_append,
    fromReaderLoop_encode sb hB hB' part none recs _ empty hv (by omega),
    show (recs.map InodeRecord.encode).flatten.length + part.length + 1 - recs.length =
      (recs.map InodeRecord.encode).flatten.length + part.length - recs.length + 1 by omega,
    fromReaderLoop_short sb _ _ hpart]

/-! ### The maps -/

theorem lookupKey_eq_none {V : Type} {n : Nat} :
    ∀ {l : List (Nat × V)}, n ∉ l.map Prod.fst → lookupKey n l = none
  | [], _ => rfl
  | (k, v) :: l, h => by
    simp only [List.map_cons, List.mem_cons, not_or] at h
    simp [lookupKey, h.1, lookupKey_eq_none h.2]

/-- With distinct inode numbers, a map of the table after the records holds each record's
entry, over what it held before. -/
theorem get?_foldl_insertInto {V : Type} (proj : InodeTable → BTreeMap V)
    (entry : InodeRecord → Option (Nat × V))
    (hins : ∀ t r, proj (r.insertInto t) = (entry r).elim (proj t) fun e => (proj t).insert e.1 e.2)
    (hnum : ∀ r n v, entry r = some (n, v) → n = r.number) (n : Nat) :
    ∀ (recs : List InodeRecord) (t : InodeTable), (recs.map InodeRecord.number).Nodup →
      (proj (recs.foldl InodeRecord.insertInto t)).get? n =
        (lookupKey n (recs.filterMap entry)).or ((proj t).get? n)
  | [], t, _ => by simp [lookupKey]
  | r :: recs, t, hnd => by
    rw [List.map_cons, List.nodup_cons] at hnd
    rw [List.foldl_cons, get?_foldl_insertInto proj entry hins hnum n recs _ hnd.2, hins]
    cases he : entry r with
    | none => simp [List.filterMap_cons, he]
    | some e =>
      obtain ⟨m, v⟩ := e
      have hkeys : m ∉ (recs.filterMap entry).map Prod.fst := by
        intro hm
        obtain ⟨⟨k, w⟩, hk, hkm⟩ := List.mem_map.mp hm
        obtain ⟨r', hr', he'⟩ := List.mem_filterMap.mp hk
        apply hnd.1
        rw [← hnum r m v he, ← hkm, hnum r' k w he']
        exact List.mem_map_of_mem _ hr'
      by_cases hn : n = m
      · subst hn; simp [List.filterMap_cons, he, lookupKey, lookupKey_eq_none hkeys]
      · simp [List.filterMap_cons, he, lookupKey, hn]

theorem files_insertInto (t : InodeTable) (r : InodeRecord) :
    (r.insertInto t).files = r.fileEntry.elim t.files fun e => t.files.insert e.1 e.2 := by
  cases r <;> rfl

theorem directories_insertInto (t : InodeTable) (r : InodeRecord) :
    (r.insertInto t).directories =
      r.dirEntry.elim t.directories fun e => t.directories.insert e.1 e.2 := by
  cases r <;> rfl

theorem fileEntry_number (r : InodeRecord) (n : Nat) (f : FileInode)
    (h : r.fileEntry = some (n, f)) : n = r.number := by
  cases r <;> simp_all [InodeRecord.fileEntry, InodeRecord.number]

theorem dirEntry_number (r : InodeRecord) (n : Nat) (d : DirectoryInode)
    (h : r.dirEntry = some (n, d)) : n = r.number := by
  cases r <;> simp_all [InodeRecord.dirEntry, InodeRecord.number]

/-- **Parsing.**  On the records of a table with distinct inode numbers, every field within its
width and every file's word count below `2 ^ 32`, `InodeTable::from_reader` returns the files and
the directories of the records. -/
theorem fromStream_records (sb : SuperBlock) (hB : 0 < sb.blockSize)
    (hB' : sb.blockSize < 2 ^ 32) (recs : List InodeRecord)
    (hv : ∀ r ∈ recs, r.Valid sb.blockSize) (hnd : (recs.map InodeRecord.number).Nodup) :
    ∃ t, fromStream sb ⟨(recs.map InodeRecord.encode).flatten, none⟩ = .ok t ∧
      (∀ n, t.files.get? n = lookupKey n (recs.filterMap InodeRecord.fileEntry)) ∧
      ∀ n, t.directories.get? n = lookupKey n (recs.filterMap InodeRecord.dirEntry) := by
  have hB53 : sb.blockSize < 2 ^ 53 := Nat.lt_trans hB' (by decide)
  refine ⟨recs.foldl InodeRecord.insertInto empty, ?_, fun n => ?_, fun n => ?_⟩
  · simpa using @fromStream_append_short sb hB hB53 recs hv [] (by decide)
  · rw [get?_foldl_insertInto InodeTable.files _ files_insertInto fileEntry_number n recs _ hnd]
    simp [empty]
  · rw [get?_foldl_insertInto InodeTable.directories _ directories_insertInto dirEntry_number n
      recs _ hnd]
    simp [empty]

theorem fromStream_records_basicFile :
    ∃ t, fromStream ⟨0x73717368, 1, 4096, 0, .gzip, 0, 4, 0, ⟨0⟩, 0, 0, 0, 0, none⟩
        ⟨([InodeRecord.basicFile ⟨0, 0, 0, 0⟩ 1 ⟨96, 5000, ⟨0xFFFFFFFF, 0⟩, [⟨100⟩, ⟨200⟩]⟩].map
          InodeRecord.encode).flatten, none⟩ = .ok t ∧
      (∀ n, t.files.get? n = lookupKey n ([InodeRecord.basicFile ⟨0, 0, 0, 0⟩ 1
        ⟨96, 5000, ⟨0xFFFFFFFF, 0⟩, [⟨100⟩, ⟨200⟩]⟩].filterMap InodeRecord.fileEntry)) ∧
      ∀ n, t.directories.get? n = lookupKey n ([InodeRecord.basicFile ⟨0, 0, 0, 0⟩ 1
        ⟨96, 5000, ⟨0xFFFFFFFF, 0⟩, [⟨100⟩, ⟨200⟩]⟩].filterMap InodeRecord.dirEntry) :=
  fromStream_records _ (by decide) (by decide) _
    (by
      simp only [List.mem_singleton, forall_eq]
      unfold InodeRecord.Valid WordsValid blockCount
      decide)
    (by decide)

/-! ### Inode numbers -/

/-- The number of a header is its 4-byte field, so it fits a `u32`. -/
theorem inodeNumber_lt {bs : Bytes} {h : InodeHeader} (hd : InodeHeader.decode bs = some h) :
    h.inodeNumber < 2 ^ 32 := by
  simp only [InodeHeader.decode, Option.bind_eq_bind, Option.bind_eq_some, Option.pure_def,
    Option.some.injEq] at hd
  obtain ⟨_, -, rfl⟩ := hd
  have hlt := leValue_lt ((bs.drop 12).take 4)
  have hlen : ((bs.drop 12).take 4).length ≤ 4 := List.length_take_le _ _
  calc field bs 12 4 < 256 ^ ((bs.drop 12).take 4).length := hlt
    _ ≤ 256 ^ 4 := Nat.pow_le_pow_right (by decide) hlen
    _ = 2 ^ 32 := by norm_num

/-- What one record does to the table: nothing, or an insertion under the header's number. -/
theorem readRecord_cases {sb : SuperBlock} {h : InodeHeader} {t t' : InodeTable} {s s' : Stream}
    (hr : readRecord sb h t s = .ok (t', s')) :
    t' = t ∨ (∃ f, t' = { t with files := t.files.insert h.inodeNumber f }) ∨
      ∃ d, t' = { t with directories := t.directories.insert h.inodeNumber d } := by
  unfold readRecord at hr
  split at hr
  all_goals first
    | (cases hr; exact .inl rfl)
    | obtain ⟨⟨x, _⟩, -, hr⟩ := Run.bind_eq_ok.mp hr
      cases hr
      first | exact .inr (.inl ⟨x, rfl⟩) | exact .inr (.inr ⟨x, rfl⟩)
    | obtain ⟨_, -, hr⟩ := Run.bind_eq_ok.mp hr
      cases hr
      exact .inl rfl

theorem ids_readRecord {sb : SuperBlock} {h : InodeHeader} {t t' : InodeTable} {s s' : Stream}
    (hr : readRecord sb h t s = .ok (t', s')) : ∀ k ∈ t'.ids, k = h.inodeNumber ∨ k ∈ t.ids := by
  intro k hk
  rcases readRecord_cases hr with rfl | ⟨f, rfl⟩ | ⟨d, rfl⟩ <;>
    simp only [ids, List.mem_append, BTreeMap.mem_keys_insert] at hk ⊢ <;> tauto

/-- **Run.**  The loop keeps the numbers of a table within `u32`. -/
theorem ids_fromReaderLoop_lt (sb : SuperBlock) :
    ∀ (fuel : Nat) (s : Stream) (t t' : InodeTable), fromReaderLoop sb fuel s t = .ok t' →
      (∀ k ∈ t.ids, k < 2 ^ 32) → ∀ k ∈ t'.ids, k < 2 ^ 32
  | 0, _, _, _, hrun, ht => by cases hrun; exact ht
  | fuel + 1, s, t, t', hrun, ht => by
    unfold fromReaderLoop at hrun
    split at hrun
    · cases hrun; exact ht
    · cases hrun
    · split at hrun
      · cases hrun
      · obtain ⟨⟨t₁, s₁⟩, hrec, hrun⟩ := Run.bind_eq_ok.mp hrun
        refine ids_fromReaderLoop_lt sb fuel s₁ t₁ t' hrun fun k hk => ?_
        rcases ids_readRecord hrec k hk with rfl | hk
        · exact inodeNumber_lt ‹_›
        · exact ht k hk

theorem ids_fromReader_lt {env : Env} {sb : SuperBlock} {image : Bytes} {t : InodeTable}
    (h : InodeTable.fromReader env sb image = .ok t) : ∀ k ∈ t.ids, k < 2 ^ 32 := by
  obtain ⟨s, -, h⟩ := Run.bind_eq_ok.mp h
  exact ids_fromReaderLoop_lt sb _ s empty t ((Run.ofExcept_eq_ok _ _ _).mp h) (by simp [ids, empty])

/-! ### Truncated records -/

/-- `p` fails with `e` on every proper prefix of `enc` that ends cleanly. -/
def FailsShort {ε β : Type} (p : Stream → Except ε β) (enc : Bytes) (e : ε) : Prop :=
  ∀ k < enc.length, p ⟨enc.take k, none⟩ = .error e

theorem FailsShort.readExact {n : Nat} {enc : Bytes} (hn : enc.length = n) :
    FailsShort (fun s => s.readExact n) enc .unexpectedEof := fun k hk =>
  Stream.readExact_of_lt ⟨enc.take k, none⟩ n (by simp; omega)

theorem FailsShort.bincodeDeserFrom {ε α : Type} {n : Nat} (dec : Bytes → Option α) (err : ε)
    {enc : Bytes} (hn : enc.length = n) :
    FailsShort (fun s => s.bincodeDeserFrom n dec err) enc err := fun k hk => by
  simp only [Stream.bincodeDeserFrom, FailsShort.readExact hn k hk]

/-- A failure of the first part is a failure of the sequence. -/
theorem FailsShort.bind_left {ε α β : Type} {p : Stream → Except ε α} {f : α → Except ε β}
    {enc : Bytes} {e : ε} (h : FailsShort p enc e) : FailsShort (fun s => p s >>= f) enc e :=
  fun k hk => by simp only [h k hk]; rfl

theorem FailsShort.mapError {ε ε' α : Type} {p : Stream → Except ε α} {enc : Bytes} {e : ε}
    (g : ε → ε') (h : FailsShort p enc e) : FailsShort (fun s => (p s).mapError g) enc (g e) :=
  fun k hk => by simp only [h k hk]; rfl

theorem FailsShort.ofExcept {E E' α : Type} {p : Stream → Except E α} {enc : Bytes} {e : E}
    (f : E → E') (h : FailsShort p enc e) :
    FailsShort (fun s => (Run.ofExcept f (p s) : Run E' α)) enc (.error (f e)) :=
  fun k hk => by simp only [h k hk]; rfl

/-- **Sequence.**  A first part that reads exactly `enc₁` and fails short of it, then a second
part that fails short of `enc₂`: the sequence fails short of `enc₁ ++ enc₂`. -/
theorem FailsShort.bind {ε γ β : Type} {p : Stream → Except ε γ} {f : γ → Except ε β}
    {enc₁ enc₂ : Bytes} {e : ε} (mk : Stream → γ)
    (hp : ∀ rest, p ⟨enc₁ ++ rest, none⟩ = .ok (mk ⟨rest, none⟩)) (h₁ : FailsShort p enc₁ e)
    (h₂ : FailsShort (fun s => f (mk s)) enc₂ e) :
    FailsShort (fun s => p s >>= f) (enc₁ ++ enc₂) e := by
  intro k hk
  by_cases hk₁ : k < enc₁.length
  · -- the first part runs out
    rw [List.take_append_of_le_length hk₁.le]
    exact h₁.bind_left k hk₁
  · -- the first part is read whole, the second runs out
    have hk₂ : k - enc₁.length < enc₂.length := by simp only [List.length_append] at hk; omega
    rw [List.take_append_eq_append_take, List.take_of_length_le (Nat.le_of_not_lt hk₁)]
    show p _ >>= f = _
    rw [hp]
    exact h₂ _ hk₂

theorem FailsShort.readWords (w : Nat) :
    ∀ ws : List Nat,
      FailsShort (fun s => s.readWords w ws.length) (ws.map (leBytes w)).flatten .unexpectedEof
  | [] => fun k hk => absurd hk (by simp)
  | x :: ws =>
    FailsShort.bind (fun s => (leBytes w x, s))
      (fun rest => readExact_append_of_length none (length_leBytes w x))
      (FailsShort.readExact (length_leBytes w x)) (FailsShort.bind_left (FailsShort.readWords w ws))

/-- A file record's payload cut short: its fixed part, or its words. -/
theorem fileFromReader_failsShort (k : FileKind) (sb : SuperBlock) {f : FileInode} {fixed : Bytes}
    (hlen : fixed.length = k.encodedSize) (hdec : k.decode fixed = { f with blockSizes := [] })
    (hB : 0 < sb.blockSize) (hB' : sb.blockSize < 2 ^ 53) (hf : f.fileSize < 2 ^ 53)
    (hw : WordsValid sb.blockSize f) :
    FailsShort (fun s => FileInode.fromReader k s sb) (fixed ++ encodeWords f.blockSizes)
      .invalidEntry := by
  refine FailsShort.bind (fun s => ({ f with blockSizes := [] }, s))
    (fun rest => bincodeDeserFrom_append_of_length none _ _ hlen (congrArg some hdec))
    (FailsShort.bincodeDeserFrom _ _ hlen) ?_
  dsimp only
  rw [nBlocks_words hB hB' hf hw, encodeWords_eq]
  exact FailsShort.bind_left ((FailsShort.readWords 4 _).mapError _)

theorem indexFromReader_failsShort {x : IndexRecord} (hx : x.Valid) :
    FailsShort DirectoryIndex.fromReader x.encode .invalidEntry := by
  obtain ⟨hne, hlen, -⟩ := hx
  have hpos : 0 < x.name.length := List.length_pos.mpr hne
  exact FailsShort.bind (fun s => (x.name.length - 1, s))
    (fun rest => bincodeDeserFrom_append_of_length none _ _ (by simp)
      (congrArg some (IndexRecord.field_nameSize hlen)))
    (FailsShort.bincodeDeserFrom _ _ (by simp))
    (FailsShort.bind_left (FailsShort.bincodeDeserFrom _ _ (by omega)))

theorem readMany_failsShort :
    ∀ idx : List IndexRecord, (∀ x ∈ idx, x.Valid) →
      FailsShort (DirectoryIndex.readMany idx.length) (idx.map IndexRecord.encode).flatten
        .invalidEntry
  | [], _ => fun k hk => absurd hk (by simp)
  | x :: idx, hv => by
    rw [List.forall_mem_cons] at hv
    exact FailsShort.bind id (fun rest => indexFromReader_encode hv.1 rest none)
      (indexFromReader_failsShort hv.1) (readMany_failsShort idx hv.2)

/-- **One record, cut short.**  After the header of a well-formed record, any proper prefix of
its payload makes `readRecord` fail with `InvalidEntry`. -/
theorem readRecord_failsShort (sb : SuperBlock) (hB : 0 < sb.blockSize)
    (hB' : sb.blockSize < 2 ^ 53) (r : InodeRecord) (hr : r.Valid sb.blockSize) (t : InodeTable) :
    FailsShort (readRecord sb ⟨r.inodeType, r.number⟩ t) r.payload .invalidEntry := by
  cases r with
  | basicFile h n f =>
    obtain ⟨-, h₁, h₂, h₃, h₄, hw⟩ := hr
    exact FailsShort.bind_left (fileFromReader_failsShort .basic sb
      (by simp [encodeBasicFile, FileKind.encodedSize]) (decode_encodeBasicFile h₁ h₂ h₃ h₄) hB hB'
      (Nat.lt_trans h₂ (by decide)) hw)
  | extendedFile h n f sp hl x =>
    obtain ⟨-, h₁, h₂, h₃, h₄, hw⟩ := hr
    exact FailsShort.bind_left (fileFromReader_failsShort .extended sb
      (by simp [encodeExtendedFile, FileKind.encodedSize])
      (decode_encodeExtendedFile sp hl x h₁ h₂ h₃ h₄) hB hB' h₂ hw)
  | basicDirectory h n d =>
    exact FailsShort.bind_left
      (FailsShort.bincodeDeserFrom _ _ (by simp [InodeRecord.payload, encodeBasicDirectory]))
  | extendedDirectory h n d idx x =>
    obtain ⟨-, -, -, -, -, -, hc, hidx⟩ := hr
    refine FailsShort.bind_left
      (FailsShort.bind (fun s => (encodeExtendedDirectory d idx.length x, s))
      (fun rest => bincodeDeserFrom_append_of_length none _ _ (by simp [encodeExtendedDirectory]) rfl)
      (FailsShort.bincodeDeserFrom _ _ (by simp [encodeExtendedDirectory])) ?_)
    dsimp only
    rw [field_indexCount d x hc]
    exact FailsShort.bind_left (readMany_failsShort idx hidx)
  | basicSymlink h n lc tgt =>
    obtain ⟨-, hlen, -⟩ := hr
    exact FailsShort.bind_left (FailsShort.bind (fun s => (tgt.length, s))
      (fun rest => bincodeDeserFrom_append_of_length none _ _ (by simp)
        (congrArg some (field_targetSize lc hlen)))
      (FailsShort.bincodeDeserFrom _ _ (by simp)) (FailsShort.bind_left
        (FailsShort.bincodeDeserFrom _ _ rfl)))

/-- **Step, cut short.**  A well-formed record cut short after its header makes the loop fail
with `InvalidEntry`. -/
theorem fromReaderLoop_truncated (sb : SuperBlock) (hB : 0 < sb.blockSize)
    (hB' : sb.blockSize < 2 ^ 53) (r : InodeRecord) (hr : r.Valid sb.blockSize) (fuel : Nat)
    (t : InodeTable) {k : Nat} (hk : 16 ≤ k) (hk' : k < r.encode.length) :
    fromReaderLoop sb (fuel + 1) ⟨r.encode.take k, none⟩ t = .error .invalidEntry := by
  have hpay : k - 16 < r.payload.length := by
    rw [InodeRecord.encode, List.length_append, length_encodeHeader] at hk'; omega
  rw [InodeRecord.encode, List.take_append_eq_append_take, length_encodeHeader,
    List.take_of_length_le (by rw [length_encodeHeader]; exact hk)]
  simp only [fromReaderLoop, readExact_append_of_length none (length_encodeHeader _ _ _),
    decode_encodeHeader _ _ (InodeRecord.number_lt hr),
    readRecord_failsShort sb hB hB' r hr t _ hpay, bind, Except.bind]

/-- Well-formed records, then one more cut short past its header: the parser fails with
`InvalidEntry`.  A cut inside the header is a clean end instead (`fromStream_append_short`). -/
theorem fromStream_truncated_payload (sb : SuperBlock) (hB : 0 < sb.blockSize)
    (hB' : sb.blockSize < 2 ^ 53) (recs : List InodeRecord) (hv : ∀ r ∈ recs, r.Valid sb.blockSize)
    (r : InodeRecord) (hr : r.Valid sb.blockSize) {k : Nat} (hk : 16 ≤ k)
    (hk' : k < r.encode.length) :
    fromStream sb ⟨(recs.map InodeRecord.encode).flatten ++ r.encode.take k, none⟩ =
      .error .invalidEntry := by
  have hlen := length_le_length_flatten recs
  rw [fromStream, List.length_append,
    fromReaderLoop_encode sb hB hB' _ none recs _ empty hv (by omega),
    show (recs.map InodeRecord.encode).flatten.length + (r.encode.take k).length + 1 - recs.length =
      (recs.map InodeRecord.encode).flatten.length + (r.encode.take k).length - recs.length + 1
      by omega]
  exact fromReaderLoop_truncated sb hB hB' r hr _ _ hk hk'

/-- A directory record, then a symlink record cut one byte into its target. -/
theorem fromStream_truncated_payload_symlink :
    16 ≤ 25 ∧ 25 < (InodeRecord.basicSymlink ⟨0, 0, 0, 0⟩ 3 1 [0x78, 0x79]).encode.length ∧
      fromStream ⟨0x73717368, 1, 4096, 0, .gzip, 0, 4, 0, ⟨0⟩, 0, 0, 0, 0, none⟩
        ⟨([InodeRecord.basicDirectory ⟨0, 0, 0, 0⟩ 2 ⟨2, 1, ⟨0, 0, 3⟩⟩].map
          InodeRecord.encode).flatten ++
          (InodeRecord.basicSymlink ⟨0, 0, 0, 0⟩ 3 1 [0x78, 0x79]).encode.take 25, none⟩ =
        .error .invalidEntry :=
  ⟨by decide, by decide, fromStream_truncated_payload _ (by decide) (by decide) _
    (by simp only [List.mem_singleton, forall_eq]; unfold InodeRecord.Valid; decide) _
    (by unfold InodeRecord.Valid; decide) (by decide) (by decide)⟩

/-! ### Two streams the parser misreads -/

theorem encodeWords_replicate_succ (n : Nat) (b : BlockSize) :
    encodeWords (List.replicate (n + 1) b) =
      ((List.replicate n b.bits).map (leBytes 4)).flatten ++ leBytes 4 b.bits := by
  rw [encodeWords_eq, List.replicate_succ']
  simp

theorem length_encode_pos (r : InodeRecord) : ∃ k, r.encode.length = k + 1 :=
  ⟨15 + r.payload.length, by rw [InodeRecord.encode, List.length_append, length_encodeHeader]; omega⟩

/-- A lone extended file record read with `n_blocks` words, whatever the words it has: the
parser keeps the first `n_blocks` words, and leftover bytes shorter than a header end the table. -/
theorem fromStream_extendedFile_words (sb : SuperBlock) (h : HeaderRest) {n : Nat}
    (hn : n < 2 ^ 32) {f : FileInode} (sp hl x : Nat) (h₁ : f.blocksStart < 2 ^ 64)
    (h₂ : f.fileSize < 2 ^ 53) (h₃ : f.fragment.index < 2 ^ 32) (h₄ : f.fragment.offset < 2 ^ 32)
    {ws : List Nat} {rest : Bytes} (hw : encodeWords f.blockSizes = (ws.map (leBytes 4)).flatten ++ rest)
    (hN : FileInode.nBlocks { f with blockSizes := [] } sb.blockSize = ws.length)
    (hr : rest.length < 16) :
    (fromStream sb ⟨(InodeRecord.extendedFile h n f sp hl x).encode, none⟩).map
        (·.files.get? n) =
      .ok (some { f with blockSizes := (ws.map (· % 256 ^ 4)).map BlockSize.mk }) := by
  obtain ⟨k, hk⟩ := length_encode_pos (InodeRecord.extendedFile h n f sp hl x)
  have hfix : (encodeExtendedFile f sp hl x).length = FileKind.extended.encodedSize := by
    simp [encodeExtendedFile, FileKind.encodedSize]
  cases k with
  | zero => rw [InodeRecord.encode, List.length_append, length_encodeHeader] at hk; omega
  | succ k =>
    simp only [fromStream, hk]
    simp only [fromReaderLoop, InodeRecord.encode, InodeRecord.payload, InodeRecord.inodeType,
      InodeRecord.headerRest, InodeRecord.number,
      readExact_append_of_length none (length_encodeHeader _ _ _), decode_encodeHeader _ _ hn,
      readRecord, FileInode.fromReader, bincodeDeserFrom_append_of_length none
        (fun bs => some (FileKind.extended.decode bs)) InodeTableError.invalidEntry hfix
        (congrArg some (decode_encodeExtendedFile sp hl x h₁ h₂ h₃ h₄)),
      bind, Except.bind, hw, hN, Stream.readWords_append, Except.mapError, pure, Except.pure,
      Stream.readExact_of_lt ⟨rest, none⟩ 16 hr]
    simp [Except.map, empty]

/-- A file of `2 ^ 32` blocks of size 1: `n_blocks` saturates at `u32::MAX`, so the parser
keeps one word fewer than the file has. -/
theorem fromStream_blockSizes_saturate :
    (fromStream ⟨0x73717368, 1, 1, 0, .gzip, 0, 4, 0, ⟨0⟩, 0, 0, 0, 0, none⟩
        ⟨(InodeRecord.extendedFile ⟨0, 0, 0, 0⟩ 1 ⟨0, 2 ^ 32, ⟨0xFFFFFFFF, 0⟩,
          List.replicate (2 ^ 32) ⟨0⟩⟩ 0 0 0).encode, none⟩).map (·.files.get? 1) =
      .ok (some ⟨0, 2 ^ 32, ⟨0xFFFFFFFF, 0⟩, List.replicate (2 ^ 32 - 1) ⟨0⟩⟩) := by
  have hw := encodeWords_replicate_succ (2 ^ 32 - 1) ⟨0⟩
  rw [show 2 ^ 32 - 1 + 1 = 2 ^ 32 from rfl] at hw
  dsimp only at hw
  have hN : FileInode.nBlocks ⟨0, 2 ^ 32, ⟨0xFFFFFFFF, 0⟩, []⟩ 1 =
      (List.replicate (2 ^ 32 - 1) 0).length := by
    rw [List.length_replicate]; decide
  rw [fromStream_extendedFile_words _ ⟨0, 0, 0, 0⟩ (by decide) 0 0 0 (by decide) (by decide) (by decide)
    (by decide) hw hN (by decide)]
  simp only [List.map_replicate, Nat.zero_mod]


/-- A FIFO record (its header and `hard_link_count`) before a directory record: the FIFO's four
payload bytes are read as the start of the next header, so the directory is lost and a directory
numbered 0 appears in its place. -/
theorem fromStream_fifo_misparse (sb : SuperBlock) :
    (fromStream sb ⟨encodeHeader .basicFifo ⟨0, 0, 0, 0⟩ 5 ++ leBytes 4 1 ++
        (InodeRecord.basicDirectory ⟨0, 0, 0, 0⟩ 2 ⟨2, 1, ⟨0, 0, 3⟩⟩).encode, none⟩).map
      (fun t => (t.directories.get? 2, t.directories.get? 0)) = .ok (none, some ⟨0, 3, ⟨2, 0, 2⟩⟩) ∧
    (fromStream sb ⟨(InodeRecord.basicDirectory ⟨0, 0, 0, 0⟩ 2 ⟨2, 1, ⟨0, 0, 3⟩⟩).encode,
      none⟩).map (fun t => (t.directories.get? 2, t.directories.get? 0)) =
      .ok (some ⟨2, 1, ⟨0, 0, 3⟩⟩, none) :=
  ⟨rfl, rfl⟩

/-- A directory record, then the first byte of the header of another: the parser returns `Ok`
with the directory, and the truncated record is dropped without an error. -/
theorem fromStream_truncated_header :
    (fromStream ⟨0x73717368, 1, 4096, 0, .gzip, 0, 4, 0, ⟨0⟩, 0, 0, 0, 0, none⟩
        ⟨([InodeRecord.basicDirectory ⟨0, 0, 0, 0⟩ 2 ⟨2, 1, ⟨0, 0, 3⟩⟩].map
          InodeRecord.encode).flatten ++ (encodeHeader .basicDirectory ⟨0, 0, 0, 0⟩ 3).take 1,
          none⟩).map
      (fun t => (t.directories.get? 2, t.directories.get? 3)) = .ok (some ⟨2, 1, ⟨0, 0, 3⟩⟩, none) := by
  rw [fromStream_append_short _ (by decide) (by decide) _
    (by simp only [List.mem_singleton, forall_eq]; unfold InodeRecord.Valid; decide) (by decide)]
  rfl

end InodeTable

end SquashfsAsync
