import Mathlib

/-!
# Bytes, readers, faults and errors

The code decodes fixed-width little-endian fields with `bincode` (`deser.rs`) from readers that
end either cleanly or with an I/O error, and it can panic: an `unwrap` on `None`, an
out-of-bounds split of a `BytesMut`, a failed `assert!`, a remainder by zero, or an arithmetic
overflow.  Arithmetic is modelled with overflow checks on, as in a debug build, so an overflow is
a panic.

* `Stream` is what a reader has left to give: its bytes, then a clean end or an error.
  `Stream.readExact` is `read_exact`, `Stream.take` is `AsyncReadExt::take` and
  `Stream.discard` is a copy of a `take` into `tokio::io::sink()`.
* `Fault E` is how a function returning `Result<_, E>` fails: an error of its own type or a
  panic; `Run E α` is its outcome.
* The error enums are those of `error.rs`; `Env` collects what the code takes from other crates.
-/

namespace SquashfsAsync

/-- A byte string (`Vec<u8>`, `&[u8]`, `BytesMut`). -/
abbrev Bytes := List UInt8

/-! ### Little-endian fields -/

/-- The little-endian value of a byte string. -/
def leValue : Bytes → Nat
  | [] => 0
  | b :: bs => b.toNat + 256 * leValue bs

/-- The `n`-byte little-endian encoding of `v` modulo `256 ^ n`. -/
def leBytes : Nat → Nat → Bytes
  | 0, _ => []
  | n + 1, v => UInt8.ofNat (v % 256) :: leBytes n (v / 256)

/-- The field of `len` bytes at offset `off` of a record. -/
def field (bs : Bytes) (off len : Nat) : Nat := leValue ((bs.drop off).take len)

@[simp] theorem leValue_nil : leValue [] = 0 := rfl

@[simp] theorem leValue_cons (b : UInt8) (bs : Bytes) :
    leValue (b :: bs) = b.toNat + 256 * leValue bs := rfl

@[simp] theorem length_leBytes (n v : Nat) : (leBytes n v).length = n := by
  induction n generalizing v with
  | zero => rfl
  | succ n ih => simp [leBytes, ih]

theorem toNat_ofNat_mod (v : Nat) : (UInt8.ofNat (v % 256)).toNat = v % 256 := by
  simp [UInt8.toNat, UInt8.ofNat]

theorem leValue_leBytes (n v : Nat) : leValue (leBytes n v) = v % 256 ^ n := by
  induction n generalizing v with
  | zero => simp [leBytes, Nat.mod_one]
  | succ n ih =>
    rw [leBytes, leValue_cons, ih, toNat_ofNat_mod, Nat.pow_succ, Nat.mul_comm (256 ^ n),
      Nat.mod_mul]

theorem leValue_lt (bs : Bytes) : leValue bs < 256 ^ bs.length := by
  induction bs with
  | nil => simp
  | cons b bs ih =>
    have hb : b.toNat < 256 := b.val.isLt
    simp only [leValue_cons, List.length_cons, Nat.pow_succ]
    omega

theorem field_append (xs ys : Bytes) {off : Nat} (len : Nat) (h : xs.length ≤ off) :
    field (xs ++ ys) off len = field ys (off - xs.length) len := by
  simp [field, List.drop_append_eq_append_drop, List.drop_eq_nil_of_le h]

theorem field_leBytes_append (w v : Nat) (ys : Bytes) :
    field (leBytes w v ++ ys) 0 w = v % 256 ^ w := by
  rw [field, List.drop_zero, List.take_left' (length_leBytes w v), leValue_leBytes]

theorem field_leBytes (w v : Nat) : field (leBytes w v) 0 w = v % 256 ^ w := by
  simpa using field_leBytes_append w v []

/-! ### UTF-8 -/

/-- `b` is a UTF-8 continuation byte in `lo..=hi` (`0x80..=0xBF` unless the lead byte narrows it). -/
def contIn (lo hi : Nat) (b : UInt8) : Bool := lo ≤ b.toNat && b.toNat ≤ hi

/-- `std::str::from_utf8` succeeds: well-formed UTF-8 (Unicode table 3-7: no overlong forms, no
surrogates, nothing above `U+10FFFF`). -/
def utf8Valid : Bytes → Bool
  | [] => true
  | b :: rest =>
    if b.toNat < 0x80 then utf8Valid rest
    else match rest with
      | c1 :: rest1 =>
        if 0xC2 ≤ b.toNat && b.toNat ≤ 0xDF then contIn 0x80 0xBF c1 && utf8Valid rest1
        else match rest1 with
          | c2 :: rest2 =>
            if 0xE0 ≤ b.toNat && b.toNat ≤ 0xEF then
              contIn (if b.toNat = 0xE0 then 0xA0 else 0x80)
                (if b.toNat = 0xED then 0x9F else 0xBF) c1 &&
              contIn 0x80 0xBF c2 && utf8Valid rest2
            else match rest2 with
              | c3 :: rest3 =>
                0xF0 ≤ b.toNat && b.toNat ≤ 0xF4 &&
                contIn (if b.toNat = 0xF0 then 0x90 else 0x80)
                  (if b.toNat = 0xF4 then 0x8F else 0xBF) c1 &&
                contIn 0x80 0xBF c2 && contIn 0x80 0xBF c3 && utf8Valid rest3
              | [] => false
          | [] => false
      | [] => false

/-- Pieces of `B` bytes each flatten to `B` bytes a piece. -/
theorem length_flatten_of_length {B : Nat} :
    ∀ (xs : List Bytes), (∀ x ∈ xs, x.length = B) → xs.flatten.length = xs.length * B :=
  fun xs h => by
    rw [List.length_flatten, List.map_congr_left h, List.map_const', List.sum_replicate, smul_eq_mul]

/-! ### Readers -/

/-- The kinds of `std::io::Error` the code produces or tells apart. -/
inductive IoError
  /-- A read ran out of bytes (`read_exact` at the end of its reader). -/
  | unexpectedEof
  /-- A write into a full `Cursor<&mut [u8]>` during `tokio::io::copy`. -/
  | writeZero
  /-- A decoder of `async-compression` rejected its input. -/
  | invalidData
  /-- An error of the metadata stream, wrapped by `io::Error::new(ErrorKind::Other, e)`. -/
  | other
  deriving DecidableEq, Repr

/-- What a reader has left: its bytes, then a clean end (`tail = none`) or an error. -/
structure Stream where
  bytes : Bytes
  tail : Option IoError
  deriving DecidableEq, Repr

namespace Stream

/-- A reader of `bs` that ends cleanly. -/
def ofBytes (bs : Bytes) : Stream := ⟨bs, none⟩

/-- `read_exact`: the next `n` bytes, or the error that stops the read, `UnexpectedEof` at a
clean end. -/
def readExact (s : Stream) (n : Nat) : Except IoError (Bytes × Stream) :=
  if n ≤ s.bytes.length then .ok (s.bytes.take n, ⟨s.bytes.drop n, s.tail⟩)
  else .error (s.tail.getD .unexpectedEof)

/-- `AsyncReadExt::take(n)`: at most the next `n` bytes, then a clean end. -/
def take (s : Stream) (n : Nat) : Stream :=
  if n ≤ s.bytes.length then ⟨s.bytes.take n, none⟩ else s

/-- `tokio::io::copy(&mut r.take(n), &mut sink())`: skip up to `n` bytes, failing only when the
stream fails before them. -/
def discard (s : Stream) (n : Nat) : Except IoError Stream :=
  if n ≤ s.bytes.length then .ok ⟨s.bytes.drop n, s.tail⟩
  else match s.tail with
    | none => .ok ⟨[], none⟩
    | some e => .error e

@[simp] theorem readExact_append (bs rest : Bytes) (t : Option IoError) :
    readExact ⟨bs ++ rest, t⟩ bs.length = .ok (bs, ⟨rest, t⟩) := by
  simp [readExact]

theorem readExact_of_lt (s : Stream) (n : Nat) (h : s.bytes.length < n) :
    s.readExact n = .error (s.tail.getD .unexpectedEof) := by
  simp [readExact, Nat.not_le.mpr h]

theorem readExact_ok {s s' : Stream} {n : Nat} {bs : Bytes} (h : s.readExact n = .ok (bs, s')) :
    bs = s.bytes.take n := by
  unfold readExact at h
  split_ifs at h
  cases h
  rfl

theorem take_of_le {s : Stream} {n : Nat} (h : n ≤ s.bytes.length) :
    s.take n = .ofBytes (s.bytes.take n) := if_pos h

theorem discard_of_le {s : Stream} {n : Nat} (h : n ≤ s.bytes.length) :
    s.discard n = .ok ⟨s.bytes.drop n, s.tail⟩ := if_pos h

/-- `deser::bincode_deser_from(r, size)` with its error mapped to `err`: read `size` bytes and
decode them with `dec`. -/
def bincodeDeserFrom {ε α : Type} (s : Stream) (size : Nat) (dec : Bytes → Option α) (err : ε) :
    Except ε (α × Stream) :=
  match s.readExact size with
  | .ok (bs, s') =>
    match dec bs with
    | some a => .ok (a, s')
    | none => .error err
  | .error _ => .error err

/-- `deser::bincode_deser_string_from(r, size)` with its error mapped to `err`: `size` bytes of
valid UTF-8. -/
def bincodeDeserStringFrom {ε : Type} (s : Stream) (size : Nat) (err : ε) :
    Except ε (Bytes × Stream) :=
  s.bincodeDeserFrom size (fun bs => if utf8Valid bs then some bs else none) err

/-- `n` calls of `read_u32_le` (`width = 4`) or `read_u64_le` (`width = 8`). -/
def readWords (width : Nat) : Nat → Stream → Except IoError (List Nat × Stream)
  | 0, s => .ok ([], s)
  | n + 1, s => do
    let (bs, s) ← s.readExact width
    let (ws, s) ← readWords width n s
    pure (leValue bs :: ws, s)

theorem bincodeDeserFrom_append {ε α : Type} (bs rest : Bytes) (t : Option IoError)
    (dec : Bytes → Option α) (err : ε) {a : α} (h : dec bs = some a) :
    bincodeDeserFrom ⟨bs ++ rest, t⟩ bs.length dec err = .ok (a, ⟨rest, t⟩) := by
  simp [bincodeDeserFrom, h]

theorem bincodeDeserStringFrom_append {ε : Type} (bs rest : Bytes) (t : Option IoError)
    (err : ε) (h : utf8Valid bs = true) :
    bincodeDeserStringFrom ⟨bs ++ rest, t⟩ bs.length err = .ok (bs, ⟨rest, t⟩) :=
  bincodeDeserFrom_append bs rest t _ err (by simp [h])

/-- The words of `width` bytes are read back as their values modulo `256 ^ width`. -/
theorem readWords_append (width : Nat) (ws : List Nat) (rest : Bytes) (t : Option IoError) :
    readWords width ws.length ⟨(ws.map (leBytes width)).flatten ++ rest, t⟩ =
      .ok (ws.map (· % 256 ^ width), ⟨rest, t⟩) := by
  induction ws with
  | nil => rfl
  | cons w ws ih =>
    have h := readExact_append (leBytes width w) ((ws.map (leBytes width)).flatten ++ rest) t
    rw [length_leBytes] at h
    simp only [List.length_cons, List.map_cons, List.flatten_cons, List.append_assoc, readWords,
      h, bind, Except.bind, ih, leValue_leBytes]
    rfl

end Stream

/-! ### Faults -/

/-- The panics the code can reach. -/
inductive Panic
  /-- Integer overflow or underflow (`attempt to add with overflow`, ...). -/
  | overflow
  /-- `attempt to calculate the remainder with a divisor of zero`. -/
  | remainderByZero
  /-- `called Option::unwrap() on a None value`. -/
  | unwrapNone
  /-- `called Result::unwrap() on an Err value`. -/
  | unwrapErr
  /-- A failed `assert!`. -/
  | assertion
  /-- `split_to` or `split_off` past the end of a `BytesMut`, or a slice index out of range. -/
  | outOfBounds
  deriving DecidableEq, Repr

/-- How a function returning `Result<_, E>` fails: with an error of its type, or by panicking. -/
inductive Fault (E : Type)
  | error (e : E)
  | panic (p : Panic)
  deriving DecidableEq, Repr

/-- Outcomes are compared, so that runs on concrete inputs can be decided. -/
instance instDecidableEqExcept {ε α : Type} [DecidableEq ε] [DecidableEq α] :
    DecidableEq (Except ε α)
  | .ok a, .ok b => if h : a = b then isTrue (h ▸ rfl) else isFalse fun e => by cases e; exact h rfl
  | .error a, .error b =>
    if h : a = b then isTrue (h ▸ rfl) else isFalse fun e => by cases e; exact h rfl
  | .ok _, .error _ => isFalse nofun
  | .error _, .ok _ => isFalse nofun

/-- The outcome of a function returning `Result<α, E>`. -/
abbrev Run (E α : Type) := Except (Fault E) α

namespace Run

/-- Convert the error of a callee with `From`, as `?` does; panics pass through. -/
def mapErr {E E' α : Type} (f : E → E') : Run E α → Run E' α
  | .ok a => .ok a
  | .error (.error e) => .error (.error (f e))
  | .error (.panic p) => .error (.panic p)

/-- A callee that cannot panic, its error converted with `f`. -/
def ofExcept {E E' α : Type} (f : E → E') : Except E α → Run E' α
  | .ok a => .ok a
  | .error e => .error (.error (f e))

@[simp] theorem mapErr_ok {E E' α : Type} (f : E → E') (a : α) :
    mapErr f (.ok a : Run E α) = .ok a := rfl

@[simp] theorem ofExcept_ok {E E' α : Type} (f : E → E') (a : α) :
    ofExcept f (.ok a : Except E α) = (.ok a : Run E' α) := rfl

@[simp] theorem ofExcept_eq_ok {E E' α : Type} (f : E → E') (x : Except E α) (a : α) :
    (ofExcept f x : Run E' α) = .ok a ↔ x = .ok a := by
  cases x <;> simp [ofExcept]

/-- A sequence succeeds when its first part does and the rest succeeds on that part's value. -/
theorem bind_eq_ok {ε α β : Type} {x : Except ε α} {f : α → Except ε β} {b : β} :
    x >>= f = .ok b ↔ ∃ a, x = .ok a ∧ f a = .ok b := by
  cases x <;> simp [bind, Except.bind]

theorem ofExcept_eq_error {E E' α : Type} (f : E → E') (x : Except E α) (e : E') :
    (ofExcept f x : Run E' α) = .error (.error e) ↔ ∃ e', x = .error e' ∧ f e' = e := by
  cases x <;> simp [ofExcept]

/-- A sequence fails when its first part does, or when the rest fails on that part's value. -/
theorem bind_eq_error {ε α β : Type} {x : Except ε α} {f : α → Except ε β} {e : ε} :
    x >>= f = .error e ↔ x = .error e ∨ ∃ a, x = .ok a ∧ f a = .error e := by
  cases x <;> simp [bind, Except.bind]

end Run

/-- A panic. -/
def panic {E α : Type} (p : Panic) : Run E α := .error (.panic p)

/-- An error of the function's own type. -/
def fail {E α : Type} (e : E) : Run E α := .error (.error e)

/-- Unsigned addition at width `w`, panicking on overflow. -/
def addChecked {E : Type} (w a b : Nat) : Run E Nat :=
  if a + b < 2 ^ w then .ok (a + b) else panic .overflow

/-- Unsigned subtraction, panicking on underflow. -/
def subChecked {E : Type} (a b : Nat) : Run E Nat :=
  if b ≤ a then .ok (a - b) else panic .overflow

/-- Unsigned multiplication at width `w`, panicking on overflow. -/
def mulChecked {E : Type} (w a b : Nat) : Run E Nat :=
  if a * b < 2 ^ w then .ok (a * b) else panic .overflow

/-- `a % b`, panicking when `b = 0`. -/
def remChecked {E : Type} (a b : Nat) : Run E Nat :=
  if b = 0 then panic .remainderByZero else .ok (a % b)

/-- `Option::unwrap`. -/
def unwrap {E α : Type} : Option α → Run E α
  | some a => .ok a
  | none => panic .unwrapNone

@[simp] theorem addChecked_of_lt {E : Type} {w a b : Nat} (h : a + b < 2 ^ w) :
    (addChecked w a b : Run E Nat) = .ok (a + b) := if_pos h

@[simp] theorem subChecked_of_le {E : Type} {a b : Nat} (h : b ≤ a) :
    (subChecked a b : Run E Nat) = .ok (a - b) := if_pos h

theorem eq_of_addChecked {E : Type} {w a b c : Nat} (h : (addChecked w a b : Run E Nat) = .ok c) :
    c = a + b := by
  unfold addChecked panic at h
  split_ifs at h
  cases h
  rfl

@[simp] theorem mulChecked_of_lt {E : Type} {w a b : Nat} (h : a * b < 2 ^ w) :
    (mulChecked w a b : Run E Nat) = .ok (a * b) := if_pos h

@[simp] theorem remChecked_of_pos {E : Type} {a b : Nat} (h : 0 < b) :
    (remChecked a b : Run E Nat) = .ok (a % b) := if_neg (Nat.pos_iff_ne_zero.mp h)

/-! ### Compression and errors -/

/-- `superblock::Compression`. -/
inductive Compression
  | gzip | lzma | lzd | xz | lz4 | zstd
  deriving DecidableEq, Repr

/-- `Deserialize_repr` of the `#[repr(u16)]` enum: the discriminants `1..=6`. -/
def Compression.ofU16 : Nat → Option Compression
  | 1 => some .gzip
  | 2 => some .lzma
  | 3 => some .lzd
  | 4 => some .xz
  | 5 => some .lz4
  | 6 => some .zstd
  | _ => none

/-- `error::DecompressError`. -/
inductive DecompressError
  | io (e : IoError)
  | unsupportedCompression (c : Compression)
  deriving DecidableEq, Repr

/-- `error::MetadataError`. -/
inductive MetadataError
  | invalidHeader
  | invalidEntry
  | invalidDataLength
  | readFailure (e : IoError)
  | decompress (e : DecompressError)
  deriving DecidableEq, Repr

/-- `error::InodeTableError`. -/
inductive InodeTableError
  | invalidHeader
  | invalidEntry
  | invalidMetadata (e : MetadataError)
  | readFailure (e : IoError)
  deriving DecidableEq, Repr

/-- `error::DirectoryTableError`. -/
inductive DirectoryTableError
  | invalidHeader
  | invalidEntry
  | invalidMetadata (e : MetadataError)
  | readFailure (e : IoError)
  deriving DecidableEq, Repr

/-- `error::FragmentsError`. -/
inductive FragmentsError
  | invalidLocation
  | invalidMetadata (e : MetadataError)
  | invalidEntry
  | readFailure (e : IoError)
  deriving DecidableEq, Repr

/-- `fuser_async::Error`, of the variants the adaptor returns or converts its errors to: no such
file or directory, an invalid argument, an unimplemented call, an I/O error (whose text, the
error's message, is left out), a read-only filesystem, and a file handle that is not open. -/
inductive FuseError
  | noFileDir
  | invalidArgument
  | unimplemented
  | io
  | readOnly
  | badFileDescriptor
  deriving DecidableEq, Repr

/-- `error::Error`, without the variants of the reader pools and of the memory map.
`cacheError` is a failure of a cache itself, `cacheProducerError` the error of a single-flight
producer delivered by `insert_lock`. -/
inductive Error
  | invalidBufferSize
  | invalidSuperblock
  | readFailure (e : IoError)
  | fileNotFound (name : Option Bytes)
  | directoryNotFound
  | invalidOffset
  | cacheError
  | cacheProducerError (e : Error)
  | invalidOptions (msg : String)
  | fragments (e : FragmentsError)
  | inodeTable (e : InodeTableError)
  | directoryTable (e : DirectoryTableError)
  | metadata (e : MetadataError)
  | decompress (e : DecompressError)
  | encoding
  | invalidInode
  | fuse (e : FuseError)
  deriving DecidableEq, Repr

/-! ### Other crates -/

/-- What the code takes from other crates: the stream decoders of `async-compression` (consulted
for Zstd, Gzip and Xz), `index_hash` (`DefaultHasher` over a name), and whether the caches of
`fuser_async` accept their construction parameters. -/
structure Env where
  /-- The decoder for an algorithm: the whole output of a body, or `none` when it rejects it. -/
  decode : Compression → Bytes → Option Bytes
  indexHash : Bytes → Nat
  /-- `IndexCache::new(cache_mb, block_size, bytes_used)` succeeds. -/
  indexCacheNew : Nat → Nat → Nat → Bool
  /-- `LRUCache::new(cache_mb, direct_limit, capacity)` succeeds. -/
  lruCacheNew : Nat → Nat → Nat → Bool

end SquashfsAsync
