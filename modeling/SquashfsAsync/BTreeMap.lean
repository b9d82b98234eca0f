import SquashfsAsync.Basic

/-!
# `BTreeMap<u32, V>`

The inode tables and the directory tables are `BTreeMap`s keyed by inode number: `insert`
replaces an entry of the same key, and iteration runs in ascending key order (the directory
tables are read in that order by `SquashFs::from_reader`).  `BTreeMap V` is the list of entries
in ascending key order, which is a field of the structure.
-/

namespace SquashfsAsync

/-- Insert into entries sorted by key, replacing an entry of the same key. -/
def insertSorted {V : Type} (k : Nat) (v : V) : List (Nat × V) → List (Nat × V)
  | [] => [(k, v)]
  | (k', v') :: t =>
    if k < k' then (k, v) :: (k', v') :: t
    else if k = k' then (k, v) :: t
    else (k', v') :: insertSorted k v t

/-- The value of the first entry with key `k`. -/
def lookupKey {V : Type} (k : Nat) : List (Nat × V) → Option V
  | [] => none
  | (k', v) :: t => if k = k' then some v else lookupKey k t

/-- `BTreeMap<u32, V>`: its entries, in strictly ascending key order. -/
structure BTreeMap (V : Type) where
  entries : List (Nat × V)
  sorted : (entries.map Prod.fst).Pairwise (· < ·)

namespace BTreeMap

variable {V : Type}

theorem mem_keys_insertSorted {k x : Nat} {v : V} {l : List (Nat × V)}
    (h : x ∈ (insertSorted k v l).map Prod.fst) : x = k ∨ x ∈ l.map Prod.fst := by
  induction l with
  | nil => simpa [insertSorted] using h
  | cons e t ih =>
    simp only [insertSorted] at h
    split_ifs at h
    · simpa using h
    · simp only [List.map_cons, List.mem_cons] at h ⊢; tauto
    · simp only [List.map_cons, List.mem_cons] at h ⊢
      rcases h with h | h
      · exact .inr (.inl h)
      · exact (ih h).imp_right .inr

theorem sorted_insertSorted (k : Nat) (v : V) :
    ∀ l : List (Nat × V), (l.map Prod.fst).Pairwise (· < ·) →
      ((insertSorted k v l).map Prod.fst).Pairwise (· < ·)
  | [], _ => by simp [insertSorted]
  | (k', v') :: t, h => by
    rw [List.map_cons, List.pairwise_cons] at h
    simp only [insertSorted]
    split_ifs with h₁ h₂
    · simp only [List.map_cons, List.pairwise_cons, List.mem_cons]
      exact ⟨fun x hx => hx.elim (· ▸ h₁) fun hx => Nat.lt_trans h₁ (h.1 x hx), h.1, h.2⟩
    · subst h₂; simpa using h
    · simp only [List.map_cons, List.pairwise_cons]
      refine ⟨fun x hx => ?_, sorted_insertSorted k v t h.2⟩
      rcases mem_keys_insertSorted hx with rfl | hx
      · omega
      · exact h.1 x hx

/-- The empty map. -/
def empty : BTreeMap V := ⟨[], List.Pairwise.nil⟩

/-- `BTreeMap::insert`. -/
def insert (m : BTreeMap V) (k : Nat) (v : V) : BTreeMap V :=
  ⟨insertSorted k v m.entries, sorted_insertSorted k v _ m.sorted⟩

/-- `BTreeMap::get`. -/
def get? (m : BTreeMap V) (k : Nat) : Option V := lookupKey k m.entries

/-- `BTreeMap::keys`, ascending. -/
def keys (m : BTreeMap V) : List Nat := m.entries.map Prod.fst

/-- `BTreeMap::remove`: the value of `k`, and the map without it. -/
def remove (m : BTreeMap V) (k : Nat) : Option V × BTreeMap V :=
  (m.get? k, ⟨m.entries.filter (·.1 ≠ k), m.sorted.sublist ((List.filter_sublist _).map _)⟩)

/-- `BTreeMap::keys().last()`: the largest key. -/
def lastKey? (m : BTreeMap V) : Option Nat := m.keys.getLast?

/-- `BTreeMap::is_empty`. -/
def isEmpty (m : BTreeMap V) : Bool := m.entries.isEmpty

theorem lookupKey_insertSorted (k k' : Nat) (v : V) (l : List (Nat × V)) :
    lookupKey k' (insertSorted k v l) = if k' = k then some v else lookupKey k' l := by
  induction l with
  | nil => simp [insertSorted, lookupKey]
  | cons e t ih =>
    obtain ⟨k₁, v₁⟩ := e
    simp only [insertSorted]
    split_ifs <;> simp_all [lookupKey]

@[simp] theorem get?_insert (m : BTreeMap V) (k k' : Nat) (v : V) :
    (m.insert k v).get? k' = if k' = k then some v else m.get? k' :=
  lookupKey_insertSorted k k' v m.entries

@[simp] theorem get?_empty (k : Nat) : (empty : BTreeMap V).get? k = none := rfl

@[simp] theorem keys_empty : (empty : BTreeMap V).keys = [] := rfl

theorem mem_keys_iff (m : BTreeMap V) (k : Nat) : k ∈ m.keys ↔ (m.get? k).isSome := by
  obtain ⟨l, -⟩ := m
  simp only [keys, get?]
  induction l with
  | nil => simp [lookupKey]
  | cons e t ih =>
    obtain ⟨k', v'⟩ := e
    by_cases h : k = k' <;> simp_all [lookupKey]

theorem mem_keys_insert (m : BTreeMap V) (k k' : Nat) (v : V) :
    k' ∈ (m.insert k v).keys ↔ k' = k ∨ k' ∈ m.keys := by
  rw [mem_keys_iff, mem_keys_iff, get?_insert]
  by_cases h : k' = k <;> simp [h]

theorem lookupKey_filter (k k' : Nat) (l : List (Nat × V)) :
    lookupKey k' (l.filter (·.1 ≠ k)) = if k' = k then none else lookupKey k' l := by
  induction l with
  | nil => simp [lookupKey]
  | cons e t ih =>
    obtain ⟨k₁, v₁⟩ := e
    by_cases h₁ : k₁ = k <;> by_cases h₂ : k' = k₁ <;>
      simp_all [lookupKey, List.filter_cons]

@[simp] theorem get?_remove (m : BTreeMap V) (k k' : Nat) :
    (m.remove k).2.get? k' = if k' = k then none else m.get? k' :=
  lookupKey_filter k k' m.entries

theorem mem_keys_remove {m : BTreeMap V} {k x : Nat} (hx : x ∈ (m.remove k).2.keys) :
    x ∈ m.keys := by
  rw [mem_keys_iff, get?_remove] at hx
  split_ifs at hx
  · simp at hx
  · exact (mem_keys_iff m x).mpr hx

@[simp] theorem remove_fst (m : BTreeMap V) (k : Nat) : (m.remove k).1 = m.get? k := rfl

theorem le_getLast_of_pairwise :
    ∀ {l : List Nat}, l.Pairwise (· < ·) → ∀ {k : Nat}, k ∈ l → k ≤ l.getLast?.getD 0
  | [], _, _, hk => absurd hk (List.not_mem_nil _)
  | [_], _, _, hk => by simp_all
  | a :: b :: t, hl, k, hk => by
    rw [List.pairwise_cons] at hl
    rw [List.getLast?_cons_cons]
    rcases List.mem_cons.mp hk with rfl | hk
    · have := hl.1 b (List.mem_cons_self _ _)
      have := le_getLast_of_pairwise hl.2 (List.mem_cons_self b t)
      omega
    · exact le_getLast_of_pairwise hl.2 hk

/-- Every key is at most the last, as the keys ascend. -/
theorem le_lastKey {m : BTreeMap V} {k : Nat} (hk : k ∈ m.keys) : k ≤ m.lastKey?.getD 0 :=
  le_getLast_of_pairwise m.sorted hk

theorem isEmpty_iff (m : BTreeMap V) : m.isEmpty = true ↔ ∀ k, m.get? k = none := by
  obtain ⟨l, -⟩ := m
  cases l with
  | nil => simp [isEmpty, get?, lookupKey]
  | cons e t =>
    simp only [isEmpty, List.isEmpty_cons, Bool.false_eq_true, false_iff, not_forall]
    exact ⟨e.1, by simp [get?, lookupKey]⟩

/-- What a key finds is an entry of the list. -/
theorem mem_of_lookupKey {k : Nat} {v : V} :
    ∀ {l : List (Nat × V)}, lookupKey k l = some v → (k, v) ∈ l
  | [], h => nomatch h
  | (k', v') :: l, h => by
    unfold lookupKey at h
    split_ifs at h with hk
    · cases h; subst hk; exact .head _
    · exact .tail _ (mem_of_lookupKey h)

/-- A key of the list finds something. -/
theorem lookupKey_isSome {k : Nat} {v : V} :
    ∀ {l : List (Nat × V)}, (k, v) ∈ l → (lookupKey k l).isSome
  | _ :: _, .head _ => by simp [lookupKey]
  | (k', _) :: _, .tail _ h => by
    unfold lookupKey
    split_ifs
    · rfl
    · exact lookupKey_isSome h

/-- An entry of a map is what the map gives for its key: the keys ascend, so none before it is
the same. -/
theorem get?_of_mem_entries {m : BTreeMap V} {p : Nat × V} (hp : p ∈ m.entries) :
    m.get? p.1 = some p.2 := by
  obtain ⟨l, hs⟩ := m
  change p ∈ l at hp
  change lookupKey p.1 l = some p.2
  induction l with
  | nil => cases hp
  | cons q l ih =>
    rw [List.map_cons, List.pairwise_cons] at hs
    rcases List.mem_cons.mp hp with rfl | hp
    · simp [lookupKey]
    · rw [lookupKey, if_neg (Nat.ne_of_gt (hs.1 _ (List.mem_map_of_mem _ hp)))]
      exact ih hs.2 hp

theorem get?_eq_some_iff {m : BTreeMap V} {k : Nat} {v : V} :
    m.get? k = some v ↔ (k, v) ∈ m.entries :=
  ⟨mem_of_lookupKey, get?_of_mem_entries⟩

end BTreeMap

end SquashfsAsync
