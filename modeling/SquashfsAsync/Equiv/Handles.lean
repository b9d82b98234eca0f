import SquashfsAsync.Squashfuse

/-!
# The file-handle table of the adaptor

`open` numbers a new handle one past the largest open one, `release` closes a handle and `read`
looks up the flags its handle was opened with.  `HandleTable` is what the map is for: the flags
each open handle was opened with.  `HandleCall.Allowed` says which replies a table allows for a
call, and `HandleCall.effect` what a reply does to the table.

* `run_conforms`: from no open handle, every run of calls (in every order the lock lets them run)
  gets replies the table allows, the table following the replies.  So `open` never gives out a
  handle that is open, and a handle's flags are those of the `open` that gave it until it is
  closed.  Handle numbers are reused: after the largest handle is closed, the next `open` gives
  its number again.
* `run_no_overflow`: the `u64` addition of `open` does not panic before the `2 ^ 64`-th `open`,
  since every open handle is at most the number of `open`s so far.

The refinement is one lemma per call (`step_refines`, from `open_cases` and `release_eq`) and the
induction over the calls (`run_conforms_of_inv`).
-/

namespace SquashfsAsync

/-- The table of open handles the adaptor means to keep: the flags each handle is open with. -/
abbrev HandleTable := Nat → Option ReadFlags

namespace HandleCall

/-- What a call did to the table, read off its reply. -/
def effect (t : HandleTable) : HandleCall → Run Error HandleReply → HandleTable
  | .open f, .ok (.opened fh) => Function.update t fh (some f)
  | .release fh, .ok .released => Function.update t fh none
  | _, _ => t

/-- The replies the table allows.  `open` gives a positive `u64` handle that is not open, or
panics when the handle `2 ^ 64 - 1` is open; `release` succeeds on an open handle; `read` gets the
flags of an open handle; and both fail with `BadFileDescriptor` on a handle that is not open. -/
def Allowed (t : HandleTable) : HandleCall → Run Error HandleReply → Prop
  | .open _, .ok (.opened fh) => 0 < fh ∧ fh < 2 ^ 64 ∧ t fh = none
  | .open _, r => r = .error (.panic .overflow) ∧ t (2 ^ 64 - 1) ≠ none
  | .release fh, r => r = if (t fh).isSome then .ok .released else fail (.fuse .badFileDescriptor)
  | .read fh, r => r = (t fh).elim (fail (.fuse .badFileDescriptor)) fun f => .ok (.flags f)
  | .hasHandles, r => ∃ b, r = .ok (.has b) ∧ (b = true ↔ ∃ fh, t fh ≠ none)

/-- Whether a call is an `open`. -/
def isOpen : HandleCall → Bool
  | .open _ => true
  | _ => false

/-- Calls and replies the table allows, one after the other from `t`. -/
def Conforms : HandleTable → List HandleCall → List (Run Error HandleReply) → Prop
  | _, [], [] => True
  | t, c :: cs, r :: rs => Allowed t c r ∧ Conforms (effect t c r) cs rs
  | _, _, _ => False

end HandleCall

namespace Handles

/-- The handles are positive `u64`s. -/
def Inv (h : Handles) : Prop := ∀ k ∈ h.keys, 0 < k ∧ k < 2 ^ 64

theorem inv_empty : Inv .empty := by simp [Inv]

theorem lastKey_mem {h : Handles} {L : Nat} (hL : h.lastKey? = some L) : L ∈ h.keys :=
  List.mem_of_getLast?_eq_some hL

theorem get?_eq_none_of_lastKey_lt {h : Handles} {k : Nat} (hk : h.lastKey?.getD 0 < k) :
    h.get? k = none := by
  cases hg : h.get? k with
  | none => rfl
  | some v =>
    have := BTreeMap.le_lastKey ((BTreeMap.mem_keys_iff h k).mpr (by simp [hg]))
    omega

/-- **`open`.**  One past the largest handle, which is not open; or, when that addition
overflows, the handle `2 ^ 64 - 1` is open. -/
theorem open_cases {h : Handles} (hi : h.Inv) (f : ReadFlags) :
    (h.lastKey?.getD 0 + 1 < 2 ^ 64 ∧
      Handles.open h f = .ok (h.lastKey?.getD 0 + 1, h.insert (h.lastKey?.getD 0 + 1) f)) ∨
    (h.get? (2 ^ 64 - 1) ≠ none ∧ Handles.open h f = .error (.panic .overflow)) := by
  by_cases hlt : h.lastKey?.getD 0 + 1 < 2 ^ 64
  · exact .inl ⟨hlt, by
      simp [Handles.open, addChecked_of_lt hlt, bind, Except.bind, pure, Except.pure]⟩
  · refine .inr ⟨?_, by
      simp only [Handles.open, addChecked, if_neg hlt, bind, Except.bind, panic]⟩
    cases hL : h.lastKey? with
    | none => simp [hL] at hlt
    | some L =>
      have hmem := lastKey_mem hL
      have hL' : L = 2 ^ 64 - 1 := by have := (hi L hmem).2; simp [hL] at hlt; omega
      rw [← hL', ← Option.isSome_iff_ne_none, ← BTreeMap.mem_keys_iff]
      exact hmem

theorem inv_insert {h : Handles} (hi : h.Inv) {k : Nat} (hk : 0 < k ∧ k < 2 ^ 64)
    (f : ReadFlags) : Inv (h.insert k f) := by
  intro x hx
  rcases (BTreeMap.mem_keys_insert h k x f).mp hx with rfl | hx
  exacts [hk, hi x hx]

theorem inv_remove {h : Handles} (hi : h.Inv) (k : Nat) : Inv (h.remove k).2 :=
  fun x hx => hi x (BTreeMap.mem_keys_remove hx)

theorem release_eq (h : Handles) (fh : Nat) :
    Handles.release h fh =
      if (h.get? fh).isSome then .ok (h.remove fh).2 else fail (.fuse .badFileDescriptor) := by
  cases hg : h.get? fh <;> simp [Handles.release, BTreeMap.remove, hg]

/-- **Step.**  One call gets a reply the table allows, the map after it is the table after that
reply, and the handles stay positive `u64`s. -/
theorem step_refines {h : Handles} (hi : h.Inv) (c : HandleCall) :
    HandleCall.Allowed h.get? c (c.step h).1 ∧
      (c.step h).2.get? = HandleCall.effect h.get? c (c.step h).1 ∧ Inv (c.step h).2 := by
  cases c with
  | «open» f =>
    rcases open_cases hi f with ⟨hlt, ho⟩ | ⟨hfull, ho⟩
    · simp only [HandleCall.step, ho]
      refine ⟨⟨by omega, hlt, get?_eq_none_of_lastKey_lt (by omega)⟩, ?_,
        inv_insert hi ⟨by omega, hlt⟩ f⟩
      funext k
      simp [HandleCall.effect, Function.update_apply]
    · simp only [HandleCall.step, ho]
      exact ⟨⟨rfl, hfull⟩, rfl, hi⟩
  | release fh =>
    cases hg : h.get? fh with
    | none =>
      simp only [HandleCall.step, release_eq, hg, Option.isSome_none, if_false, fail]
      exact ⟨by simp [HandleCall.Allowed, hg, fail], rfl, hi⟩
    | some v =>
      simp only [HandleCall.step, release_eq, hg, Option.isSome_some, if_true]
      refine ⟨by simp [HandleCall.Allowed, hg], ?_, inv_remove hi fh⟩
      funext k
      simp [HandleCall.effect, Function.update_apply]
  | read fh =>
    refine ⟨?_, rfl, hi⟩
    cases hg : h.get? fh <;>
      simp [HandleCall.step, HandleCall.Allowed, Handles.flags, hg, fail, Except.map]
  | hasHandles =>
    refine ⟨⟨_, rfl, ?_⟩, rfl, hi⟩
    simp only [Handles.hasHandles, Bool.not_eq_true', Bool.eq_false_iff, ne_eq,
      BTreeMap.isEmpty_iff, not_forall]

/-- **Run.**  From positive `u64` handles, every run of calls gets replies the table of open
handles allows. -/
theorem run_conforms_of_inv :
    ∀ (cs : List HandleCall) (h : Handles), h.Inv →
      HandleCall.Conforms h.get? cs (HandleCall.run h cs).1
  | [], _, _ => trivial
  | c :: cs, h, hi => by
    obtain ⟨hallow, heff, hi'⟩ := step_refines hi c
    refine ⟨hallow, ?_⟩
    rw [← heff]
    exact run_conforms_of_inv cs _ hi'

/-- **The handle table.**  From no open handle, whatever calls the adaptor serves, in whatever
order they take the lock, each reply is one the table of open handles allows, and the table
follows the replies: `open` gives a positive `u64` handle that is not open (it panics only when
the handle `2 ^ 64 - 1` is open), `read` gets the flags of the `open` that gave its handle, as
long as no `release` has closed it, and `release` and `read` fail with `BadFileDescriptor` on a
handle that is not open. -/
theorem run_conforms (cs : List HandleCall) :
    HandleCall.Conforms (fun _ => none) cs (HandleCall.run .empty cs).1 :=
  run_conforms_of_inv cs .empty inv_empty

example : (HandleCall.run .empty [.open 0, .open 0, .release 2, .open 0]).1 =
    [.ok (.opened 1), .ok (.opened 2), .ok .released, .ok (.opened 2)] := by decide

/-! ### Overflow of the handle numbers -/

/-- One call on handles at most `m` does not overflow while `m`, plus one for an `open`, is a
`u64`; after it the handles are at most that. -/
theorem step_le {h : Handles} {m : Nat} (hle : ∀ k ∈ h.keys, k ≤ m) (c : HandleCall)
    (hm : m + (if c.isOpen then 1 else 0) < 2 ^ 64) :
    (c.step h).1 ≠ .error (.panic .overflow) ∧
      ∀ k ∈ (c.step h).2.keys, k ≤ m + (if c.isOpen then 1 else 0) := by
  cases c with
  | «open» f =>
    have hL : h.lastKey?.getD 0 ≤ m := by
      cases hL : h.lastKey? with
      | none => exact Nat.zero_le _
      | some L => exact hle L (lastKey_mem hL)
    have hlt : h.lastKey?.getD 0 + 1 < 2 ^ 64 := by simp [HandleCall.isOpen] at hm; omega
    simp only [HandleCall.step, HandleCall.isOpen, Handles.open, addChecked_of_lt hlt, bind,
      Except.bind, pure, Except.pure, if_true]
    refine ⟨nofun, fun k hk => ?_⟩
    rcases (BTreeMap.mem_keys_insert h _ k f).mp hk with rfl | hk
    · omega
    · exact Nat.le_succ_of_le (hle k hk)
  | release fh =>
    cases hg : h.get? fh with
    | none =>
      simp only [HandleCall.step, release_eq, hg, Option.isSome_none, if_false, fail]
      exact ⟨nofun, by simpa [HandleCall.isOpen] using hle⟩
    | some v =>
      simp only [HandleCall.step, release_eq, hg, Option.isSome_some, if_true]
      exact ⟨nofun, fun k hk => by
        simpa [HandleCall.isOpen] using hle k (BTreeMap.mem_keys_remove hk)⟩
  | read fh =>
    refine ⟨?_, by simpa [HandleCall.step, HandleCall.isOpen] using hle⟩
    simp only [HandleCall.step, Handles.flags]
    cases h.get? fh <;> nofun
  | hasHandles => exact ⟨nofun, by simpa [HandleCall.step, HandleCall.isOpen] using hle⟩

theorem run_le :
    ∀ (cs : List HandleCall) (h : Handles) (m : Nat), (∀ k ∈ h.keys, k ≤ m) →
      m + cs.countP HandleCall.isOpen < 2 ^ 64 →
        .error (.panic .overflow) ∉ (HandleCall.run h cs).1
  | [], _, _, _, _ => List.not_mem_nil _
  | c :: cs, h, m, hle, hm => by
    have hc : m + (if c.isOpen then 1 else 0) < 2 ^ 64 := by
      rw [List.countP_cons] at hm; split_ifs at hm ⊢ <;> omega
    obtain ⟨hne, hle'⟩ := step_le hle c hc
    simp only [HandleCall.run, List.mem_cons, not_or]
    refine ⟨Ne.symm hne, run_le cs _ _ hle' ?_⟩
    rw [List.countP_cons] at hm; split_ifs at hm ⊢ <;> omega

/-- **No overflow.**  From no open handle, no `open` panics on its `u64` addition before the
`2 ^ 64`-th: every open handle is at most the number of `open`s so far. -/
theorem run_no_overflow (cs : List HandleCall) (hn : cs.countP HandleCall.isOpen < 2 ^ 64) :
    .error (.panic .overflow) ∉ (HandleCall.run .empty cs).1 :=
  run_le cs .empty 0 (by simp) (by omega)

/-- Two handles opened, the first closed, another opened, and the first read. -/
theorem run_no_overflow_five :
    [HandleCall.open 0, .open 0x800, .release 1, .open 0, .read 1].countP HandleCall.isOpen <
        2 ^ 64 ∧
      .error (.panic .overflow) ∉
        (HandleCall.run .empty [.open 0, .open 0x800, .release 1, .open 0, .read 1]).1 :=
  ⟨by decide, run_no_overflow _ (by decide)⟩

end Handles

end SquashfsAsync
