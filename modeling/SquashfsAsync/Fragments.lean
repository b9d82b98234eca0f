import SquashfsAsync.Superblock
import SquashfsAsync.Float64

/-!
# The fragments table

`fragments.rs`: a file's tail may live in a fragment block shared with other tails, named by a
`FragmentLocation` (an index into the table and an offset in the decoded block).  The table is
read eagerly: at `fragment_table_start` stand `⌈fragment_entry_count / 512⌉` little-endian `u64`
locations, computed in `f64`, each pointing at a metadata block whose payload is cut into
16-byte entries.
-/

namespace SquashfsAsync

variable (env : Env)

/-- `fragments::FragmentLocation`. -/
structure FragmentLocation where
  index : Nat
  offset : Nat
  deriving DecidableEq, Repr

/-- `FragmentLocation::valid`: the index `0xFFFFFFFF` marks a file without a fragment. -/
def FragmentLocation.valid (l : FragmentLocation) : Bool := l.index != 0xFFFFFFFF

namespace Fragments

/-- `fragments::Entry`: the start and size word of a fragment block. -/
structure Entry where
  start : Nat
  size : BlockSize
  deriving DecidableEq, Repr

/-- The `bincode` decoding of a 16-byte chunk (`start: u64`, `size: u32`, `_unused: u32`); a
shorter chunk is refused. -/
def Entry.decode (bs : Bytes) : Option Entry :=
  if bs.length = 16 then some ⟨field bs 0 8, ⟨field bs 8 4⟩⟩ else none

end Fragments

/-- `<[u8]>::chunks(n)` after at most `fuel` pieces. -/
def chunksAux (n : Nat) : Nat → Bytes → List Bytes
  | 0, _ => []
  | fuel + 1, bs => if bs = [] then [] else bs.take n :: chunksAux n fuel (bs.drop n)

/-- `<[u8]>::chunks(n)` for `0 < n`: pieces of `n` bytes, the last one possibly shorter. -/
def chunks (n : Nat) (bs : Bytes) : List Bytes := chunksAux n bs.length bs

/-- `fragments::FragmentsTable`. -/
structure FragmentsTable where
  entries : List Fragments.Entry
  deriving DecidableEq, Repr

namespace FragmentsTable

/-- `FragmentsTable::entry`. -/
def entry (t : FragmentsTable) (l : FragmentLocation) : Except FragmentsError Fragments.Entry :=
  if !l.valid then .error .invalidLocation
  else match t.entries.get? l.index with
    | some e => .ok e
    | none => .error .invalidLocation

/-- The number of locations: `(fragment_entry_count as f64 / 512.0).ceil() as usize`. -/
def nLocations (sb : SuperBlock) : Nat :=
  F64.toUInt 64 (F64.ceil (F64.div (F64.ofNat sb.fragmentEntryCount) (F64.ofNat 512)))

/-- The entries of the metadata blocks at `locations`, in order. -/
def readEntries (image : Bytes) (c : Compression) :
    List Nat → Except FragmentsError (List Fragments.Entry)
  | [] => .ok []
  | l :: ls => do
    let (block, _) ← (MetadataBlock.fromReader env image l c).mapError .invalidMetadata
    let es ← ((chunks 16 block.data).mapM Fragments.Entry.decode).elim
      (.error .invalidEntry) .ok
    let rest ← readEntries image c ls
    pure (es ++ rest)

/-- `FragmentsTable::from_reader`. -/
def fromReader (sb : SuperBlock) (image : Bytes) : Except FragmentsError FragmentsTable := do
  let (locations, _) ← ((Stream.ofBytes (readerAt image sb.fragmentTableStart)).readWords 8
    (nLocations sb)).mapError fun _ => .invalidLocation
  let entries ← readEntries env image sb.compression locations
  pure ⟨entries⟩

end FragmentsTable

end SquashfsAsync
