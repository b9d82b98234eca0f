import SquashfsAsync.Equiv.Progress
import Mathlib.Logic.Hydra

/-!
# Every read ends

A `run` step ends its task or moves the task's program on, to a continuation or to a panic
(`Prog.Below`).  The one exception is the step where the task starts to wait for the producer
of an entry.  `Prog.Below` is well founded, since programs are trees.  Two things decrease
lexicographically at every `run` step (`load_run`): first the programs of the tasks, as a
multiset under `Relation.CutExpand Prog.Below`, then the number of tasks that do not wait.

* `acc_run`: from every reachable state, every schedule of `run` steps is finite, whatever the
  scheduler chooses.  So the tasks in flight stop after finitely many steps of their own.
* `run_all_end`: with `Ordered.progress`, some schedule of `run` steps ends all of them, each
  with its outcome recorded.
* `SquashFs.readTask_run_finite` and `SquashFs.readTask_all_end` state both for the reads of
  the filesystem adaptor, and `SquashFs.readTask_all_end_content` adds that each read of a
  readable file ends with the requested bytes of its content (`finished_of_reachable`).
-/

namespace SquashfsAsync

open Relation

namespace Prog

variable {α : Type}

/-- One command of a program leads to the first: a continuation, or a panic. -/
inductive Below : Prog α → Prog α → Prop
  | cont {c : Cmd} {k : c.Answer → Prog α} (a : c.Answer) : Below (k a) (.exec c k)
  | panic {c : Cmd} {k : c.Answer → Prog α} (e : Fault Error) : Below (.fail e) (.exec c k)

/-- Programs are trees: every path through one runs finitely many commands. -/
theorem below_wf : WellFounded (@Below α) := by
  refine ⟨fun p => ?_⟩
  induction p with
  | done a => exact ⟨_, fun _ h => nomatch h⟩
  | fail e => exact ⟨_, fun _ h => nomatch h⟩
  | exec c k ih =>
    refine ⟨_, fun p' h => ?_⟩
    cases h with
    | cont a => exact ih a
    | panic e => exact ⟨_, fun _ h => nomatch h⟩

end Prog

/-! ### Multisets of programs -/

section CutExpand

variable {β γ : Type} {r : γ → γ → Prop}

theorem coe_map_middle (F : β → γ) (l₁ l₂ : List β) (x : β) :
    (((l₁ ++ x :: l₂).map F : List γ) : Multiset γ) = F x ::ₘ ((l₁ ++ l₂).map F : List γ) :=
  Multiset.coe_eq_coe.mpr (by simpa only [List.map_append, List.map_cons] using List.perm_middle)

/-- Moving entries down, each by at most one step, leads below or to the same multiset. -/
theorem reflTransGen_map {l : List β} {f g : β → γ} (h : ∀ x ∈ l, f x = g x ∨ r (f x) (g x)) :
    ReflTransGen (CutExpand r) (l.map f : Multiset γ) (l.map g) := by
  induction l with
  | nil => exact .refl
  | cons x l ih =>
    simp only [List.map_cons, ← Multiset.cons_coe, ← Multiset.singleton_add]
    refine ((ih fun y hy => h y (.tail _ hy)).lift ({f x} + ·)
      fun _ _ => (cutExpand_add_left _).mpr).trans ?_
    rcases h x (.head _) with he | hr
    · rw [he]
    · exact .single ((cutExpand_add_right _).mpr (cutExpand_singleton_singleton hr))

end CutExpand

namespace System

variable {ι α : Type} {cached : Bool} {O : Oracle} {Q : ι → Except (Fault Error) α → Prop}
  {progs : ι → Prog α} {st st' : System ι α}

/-! ### The load of the tasks -/

/-- What the tasks have left to do: their programs, then how many of them do not wait. -/
def load (tasks : List (Task ι α)) : Multiset (Prog α) × Nat :=
  ((tasks.map Task.prog : List (Prog α)), tasks.countP fun t => t.waiting.isNone)

/-- The order in which the load decreases. -/
def LoadLt : Multiset (Prog α) × Nat → Multiset (Prog α) × Nat → Prop :=
  Prod.Lex (TransGen (CutExpand Prog.Below)) (· < ·)

theorem loadLt_wf : WellFounded (@LoadLt α) :=
  WellFounded.prod_lex Prog.below_wf.cutExpand.transGen Nat.lt_wfRel.wf

/-- `w` keeps each task's id and arguments, and leaves the task or moves its program on. -/
def MovesOn (w : Task ι α → Task ι α) : Prop :=
  ∀ u, (w u).id = u.id ∧ (w u).arg = u.arg ∧ (w u = u ∨ Prog.Below (w u).prog u.prog)

theorem movesOn_id : MovesOn (id : Task ι α → Task ι α) := fun _ => ⟨rfl, rfl, .inl rfl⟩

/-- A producer's publication hands the waiting tasks their answer. -/
theorem movesOn_wake (ino : Nat) (r : Except Error Bytes) :
    MovesOn (wake ino r : Task ι α → Task ι α) := fun u => by
  rcases wake_cases ino r u with he | ⟨_, _, _, hp, he⟩ <;> rw [he]
  · exact ⟨rfl, rfl, .inl rfl⟩
  · refine ⟨rfl, rfl, .inr ?_⟩
    rw [hp]
    exact .cont (c := .fileLock _) (FileAnswer.result r)

variable {l₁ l₂ : List (Task ι α)} {t t' : Task ι α}

theorem cutExpand_middle (hlt : Prog.Below t'.prog t.prog) :
    CutExpand Prog.Below (((l₁ ++ t' :: l₂).map Task.prog : List (Prog α)) : Multiset (Prog α))
      ((l₁ ++ t :: l₂).map Task.prog : List (Prog α)) := by
  rw [coe_map_middle, coe_map_middle, ← Multiset.singleton_add, ← Multiset.singleton_add]
  exact (cutExpand_add_right _).mpr (cutExpand_singleton_singleton hlt)

/-- A task moves on, and `f` moves other tasks on, or leaves them. -/
theorem load_moveOn (hlt : Prog.Below t'.prog t.prog) {f : Task ι α → Task ι α}
    (hf : MovesOn f) : LoadLt (load ((l₁ ++ t' :: l₂).map f)) (load (l₁ ++ t :: l₂)) := by
  refine Prod.Lex.left _ _ (TransGen.trans_right ?_ (.single (cutExpand_middle hlt)))
  rw [List.map_map]
  exact reflTransGen_map fun u _ => ((hf u).2.2).imp (congrArg Task.prog) id

/-- A task starts to wait. -/
theorem load_wait (hp : t'.prog = t.prog) (hw : t.waiting = none) (hw' : t'.waiting.isSome) :
    LoadLt (load (l₁ ++ t' :: l₂)) (load (l₁ ++ t :: l₂)) := by
  have hprogs : (((l₁ ++ t' :: l₂).map Task.prog : List (Prog α)) : Multiset (Prog α)) =
      ((l₁ ++ t :: l₂).map Task.prog : List (Prog α)) := by
    rw [coe_map_middle, coe_map_middle, hp]
  unfold load
  rw [hprogs]
  refine Prod.Lex.right _ ?_
  simp only [List.countP_append, List.countP_cons, hw, Option.isNone_none, ↓reduceIte,
    Option.isNone_iff_eq_none, ← Option.not_isSome_iff_eq_none, hw', not_true_eq_false]
  omega

/-- A task ends; `f` leaves the programs of the others as they are. -/
theorem load_finish {f : Task ι α → Task ι α} (hf : ∀ u, (f u).prog = u.prog) :
    LoadLt (load ((l₁ ++ l₂).map f)) (load (l₁ ++ t :: l₂)) := by
  refine Prod.Lex.left _ _ (.single ?_)
  rw [List.map_map, show Task.prog ∘ f = Task.prog from funext hf, coe_map_middle]
  exact ⟨0, t.prog, by simp, by rw [add_zero, add_comm, Multiset.singleton_add]⟩

/-! ### One step -/

/-- A task splits the list of tasks, which holds no other task of its id. -/
theorem Inv.split (hinv : Inv O cached Q st) (ht : t ∈ st.tasks) :
    ∃ l₁ l₂, st.tasks = l₁ ++ t :: l₂ ∧ ∀ u ∈ l₁ ++ l₂, u.id ≠ t.id := by
  obtain ⟨l₁, l₂, hl⟩ := List.append_of_mem ht
  have hnd := hinv.nodup
  rw [hl, List.map_append, List.map_cons, List.nodup_middle, List.nodup_cons,
    ← List.map_append] at hnd
  exact ⟨l₁, l₂, hl, fun u hu hid => hnd.1 (hid ▸ List.mem_map_of_mem _ hu)⟩

theorem tasks_setTask_split (hl : st.tasks = l₁ ++ t :: l₂) (hne : ∀ u ∈ l₁ ++ l₂, u.id ≠ t.id)
    (hid : t'.id = t.id) : (st.setTask t').tasks = l₁ ++ t' :: l₂ := by
  have hkeep : ∀ l : List (Task ι α), (∀ u ∈ l, u.id ≠ t.id) →
      l.map (fun u => if u.id = t'.id then t' else u) = l := fun l hl' =>
    (List.map_congr_left fun u hu => if_neg (hid ▸ hl' u hu)).trans (List.map_id _)
  show (st.tasks.map fun u => if u.id = t'.id then t' else u) = _
  rw [hl, List.map_append, List.map_cons, hkeep l₁ fun u hu => hne u (List.mem_append_left _ hu),
    hkeep l₂ fun u hu => hne u (List.mem_append_right _ hu), if_pos hid.symm]

theorem filter_split (hne : ∀ u ∈ l₁ ++ l₂, u.id ≠ t.id) :
    (l₁ ++ t :: l₂).filter (fun u => u.id ≠ t.id) = l₁ ++ l₂ := by
  rw [List.filter_append, List.filter_cons_of_neg (by simp),
    List.filter_eq_self.mpr fun u hu => by simpa using hne u (List.mem_append_left _ hu),
    List.filter_eq_self.mpr fun u hu => by simpa using hne u (List.mem_append_right _ hu)]

/-- **A command.**  It replaces its task by one with the same id and arguments that moves on,
or that starts to wait, and it may move on tasks waiting for it; the ended tasks stay. -/
theorem execCmd_tasks {c : Cmd} {k : c.Answer → Prog α} (hp : t.prog = .exec c k)
    (hc : st.execCmd t c k = some st') :
    st'.finished = st.finished ∧ ∃ t' w, st'.tasks = (st.setTask t').tasks.map w ∧ MovesOn w ∧
      t'.id = t.id ∧ t'.arg = t.arg ∧
      (Prog.Below t'.prog t.prog ∨ t'.prog = t.prog ∧ t'.waiting.isSome ∧ w = id) := by
  have hmove : ∀ a, Prog.Below (k a) t.prog := fun a => hp ▸ .cont a
  cases c with
  | fileLock ino =>
    simp only [System.execCmd] at hc
    split at hc <;> cases hc
    · exact ⟨rfl, _, id, (List.map_id _).symm, movesOn_id, rfl, rfl, .inl (hmove _)⟩
    · exact ⟨rfl, _, id, (List.map_id _).symm, movesOn_id, rfl, rfl, .inl (hmove _)⟩
    · exact ⟨rfl, _, id, (List.map_id _).symm, movesOn_id, rfl, rfl, .inr ⟨rfl, rfl, rfl⟩⟩
  | filePublish ino r =>
    simp only [System.execCmd, Option.some.injEq] at hc
    subst hc
    exact ⟨rfl, _, wake ino r, rfl, movesOn_wake ino r, rfl, rfl, .inl (hmove _)⟩
  | readersCheck f =>
    simp only [System.execCmd] at hc
    split_ifs at hc
    split at hc <;> cases hc <;>
      exact ⟨rfl, _, id, (List.map_id _).symm, movesOn_id, rfl, rfl, .inl (hmove _)⟩
  | readersInsert f =>
    simp only [System.execCmd] at hc
    split_ifs at hc
    cases hc
    exact ⟨rfl, _, id, (List.map_id _).symm, movesOn_id, rfl, rfl, .inl (hmove _)⟩
  | poolGet f =>
    simp only [System.execCmd] at hc
    split at hc
    · cases hc
      exact ⟨rfl, _, id, (List.map_id _).symm, movesOn_id, rfl, rfl, .inl (hp ▸ .panic _)⟩
    · split_ifs at hc
      cases hc
      exact ⟨rfl, _, id, (List.map_id _).symm, movesOn_id, rfl, rfl, .inl (hmove _)⟩
  | blockGet _ | blockInsert _ _ | decompressing _ | poolPut _ =>
    simp only [System.execCmd, Option.some.injEq] at hc
    subst hc
    exact ⟨rfl, _, id, (List.map_id _).symm, movesOn_id, rfl, rfl, .inl (hmove _)⟩

/-- **One step.**  Every `run` step lowers the load. -/
theorem load_run (hinv : Inv O cached Q st) {id : Nat}
    (hst : System.step progs st (.run id) = some st') :
    LoadLt (load st'.tasks) (load st.tasks) := by
  obtain ⟨t, ht, -, hw, hcase⟩ := step_run hst
  obtain ⟨l₁, l₂, hl, hne⟩ := hinv.split ht
  rcases hcase with ⟨a, -, rfl⟩ | ⟨e, -, rfl⟩ | ⟨c, k, hp, hc⟩
  · show LoadLt (load ((st.tasks.filter _).map _)) _
    rw [hl, filter_split hne]
    exact load_finish fun u => (foldr_retry_fields _ u).2.2.1
  · show LoadLt (load ((st.tasks.filter _).map _)) _
    rw [hl, filter_split hne]
    exact load_finish fun u => (foldr_retry_fields _ u).2.2.1
  · obtain ⟨-, t', w, htasks, hw', hid, -, hcase⟩ := execCmd_tasks hp hc
    rw [htasks, tasks_setTask_split hl hne hid, hl]
    rcases hcase with hlt | ⟨hprog, hwait, rfl⟩
    · exact load_moveOn hlt hw'
    · rw [List.map_id]
      exact load_wait hprog hw hwait

/-- A task that ends leaves the others in flight, and its outcome recorded. -/
theorem tracked_finish (hinv : Inv O cached Q st) (ht : t ∈ st.tasks)
    (r : Except (Fault Error) α) :
    st.finished <+: (st.finish t r).finished ∧ ∀ u ∈ st.tasks,
      (∃ u' ∈ (st.finish t r).tasks, u'.id = u.id ∧ u'.arg = u.arg) ∨
        ∃ r', (u.id, u.arg, r') ∈ (st.finish t r).finished := by
  refine ⟨List.prefix_append _ _, fun u hu => ?_⟩
  by_cases hid : u.id = t.id
  · obtain rfl := hinv.eq_of_id ht hu hid
    exact .inr ⟨r, by simp [finish]⟩
  · refine .inl ⟨t.producing.foldr retry u, ?_, (foldr_retry_fields _ u).1,
      (foldr_retry_fields _ u).2.1⟩
    simp only [finish, List.mem_map, List.mem_filter]
    exact ⟨u, ⟨hu, by simpa using hid⟩, rfl⟩

/-- A `run` step keeps every task in flight with its id and arguments, or records its outcome;
the record of ended tasks only grows. -/
theorem tracked_run (hinv : Inv O cached Q st) {id : Nat}
    (hst : System.step progs st (.run id) = some st') :
    st.finished <+: st'.finished ∧ ∀ u ∈ st.tasks,
      (∃ u' ∈ st'.tasks, u'.id = u.id ∧ u'.arg = u.arg) ∨ ∃ r, (u.id, u.arg, r) ∈ st'.finished := by
  obtain ⟨t, ht, -, -, hcase⟩ := step_run hst
  rcases hcase with ⟨a, -, rfl⟩ | ⟨e, -, rfl⟩ | ⟨c, k, hp, hc⟩
  · exact tracked_finish hinv ht _
  · exact tracked_finish hinv ht _
  obtain ⟨hfin, t', w, htasks, hw, hid, harg, -⟩ := execCmd_tasks hp hc
  obtain ⟨l₁, l₂, hl, hne⟩ := hinv.split ht
  have hpairs : st'.tasks.map (fun u => (u.id, u.arg)) = st.tasks.map fun u => (u.id, u.arg) := by
    have hw₁ : ∀ u, (w u).id = u.id := fun u => (hw u).1
    have hw₂ : ∀ u, (w u).arg = u.arg := fun u => (hw u).2.1
    rw [htasks, tasks_setTask_split hl hne hid, hl, List.map_map]
    simp [Function.comp_def, hw₁, hw₂, hid, harg]
  refine ⟨hfin ▸ List.prefix_refl _, fun u hu => .inl ?_⟩
  obtain ⟨u', hu', he⟩ := List.mem_map.mp (hpairs ▸ List.mem_map_of_mem _ hu)
  exact ⟨u', hu', (Prod.mk.inj he).1, (Prod.mk.inj he).2⟩

/-! ### Every run -/

/-- **Every schedule of `run` steps is finite.**  From a reachable state, whatever task the
scheduler runs at each step, the tasks in flight stop after finitely many steps. -/
theorem acc_run (hprogs : ∀ i, ∃ g l, (progs i).Guarded cached g l) {fs : SquashFs}
    (hst : Reachable progs (System.init fs) st) :
    Acc (fun st' st => ∃ id, System.step progs st (.run id) = some st') st := by
  refine (InvImage.wf (fun st : System ι α => load st.tasks) loadLt_wf).induction
    (C := fun st => Reachable progs (System.init fs) st → Acc _ st) st
    (fun st ih hst => ⟨_, fun st' ⟨_, hs⟩ => ?_⟩) hst
  exact ih st' (load_run (Inv.reachable_any hprogs hst) hs) (.step hst hs)

/-- **Every task can end.**  From a reachable state, when the programs take their reader last
and the pools lend a reader, some schedule of `run` steps ends every task in flight.  Each
one's outcome is recorded, after the outcomes recorded before. -/
theorem run_all_end (hprogs : ∀ i, (progs i).ReaderLast cached) {fs : SquashFs}
    (hn : 0 < fs.nReaders) (hst : Reachable progs (System.init fs) st) :
    ∃ ids : List Nat, ∃ st', runActions progs st (ids.map .run) = some st' ∧ st'.tasks = [] ∧
      st.finished <+: st'.finished ∧ ∀ t ∈ st.tasks, ∃ r, (t.id, t.arg, r) ∈ st'.finished := by
  have hg : ∀ i, ∃ g l, (progs i).Guarded cached g l := fun i => ⟨_, _, (hprogs i).guarded_true⟩
  induction acc_run hg hst with
  | intro st _ ih =>
    by_cases hbusy : st.tasks = []
    · exact ⟨[], st, rfl, hbusy, List.prefix_refl _, fun t ht => by simp [hbusy] at ht⟩
    have hinv := Inv.reachable_any hg hst
    obtain ⟨t, -, st₁, hs⟩ :=
      (Ordered.reachable hprogs hst).progress hinv (nReaders_reachable hst ▸ hn) hbusy
    obtain ⟨ids, st', hrun, hnil, hpre, hfin⟩ := ih st₁ ⟨t.id, hs⟩ (.step hst hs)
    obtain ⟨hpre₁, htrack⟩ := tracked_run hinv hs
    refine ⟨t.id :: ids, st', by simp [runActions, hs, hrun], hnil, hpre₁.trans hpre,
      fun u hu => ?_⟩
    rcases htrack u hu with ⟨u', hu', hid, harg⟩ | ⟨r, hr⟩
    · obtain ⟨r, hr⟩ := hfin u' hu'
      exact ⟨r, hid ▸ harg ▸ hr⟩
    · exact ⟨r, hpre.subset hr⟩

end System

namespace SquashFs

open System

/-- **Reads stop.**  From every state that any interleaving of the reads of the filesystem
adaptor reaches, every schedule of their steps is finite: the reads in flight stop after
finitely many steps, whichever the scheduler runs. -/
theorem readTask_run_finite (env : Env) (fs : SquashFs) {st : System ReadArgs Bytes}
    (hst : Reachable (fs.readTask env) (System.init fs) st) :
    Acc (fun st' st => ∃ id, System.step (fs.readTask env) st (.run id) = some st') st :=
  acc_run (fun a => ⟨_, _, (fs.readerLast_readFile env a.inode a.offset a.size a.flags _).guarded_true⟩)
    hst

theorem readTask_run_finite_oneBlock :
    Acc (fun st' st => ∃ id, System.step (oneBlock.readTask envCopy) st (.run id) = some st')
      ((runActions (oneBlock.readTask envCopy) (System.init oneBlock)
        [.spawn ⟨1, 0, 4, 0⟩]).getD (System.init oneBlock)) :=
  readTask_run_finite envCopy oneBlock (reachable_getD (by decide))

/-- **Reads end.**  From every state that any interleaving of the reads reaches, on a
filesystem whose pools lend a reader, some schedule of their steps ends every read in flight.
Each read's outcome is recorded, after the outcomes of the reads that ended before. -/
theorem readTask_all_end (env : Env) (fs : SquashFs) (hn : 0 < fs.nReaders)
    {st : System ReadArgs Bytes} (hst : Reachable (fs.readTask env) (System.init fs) st) :
    ∃ ids : List Nat, ∃ st', runActions (fs.readTask env) st (ids.map .run) = some st' ∧
      st'.tasks = [] ∧ st.finished <+: st'.finished ∧
      ∀ t ∈ st.tasks, ∃ r, (t.id, t.arg, r) ∈ st'.finished :=
  run_all_end (fun a => fs.readerLast_readFile env a.inode a.offset a.size a.flags _) hn hst

/-- Two reads of `oneBlock` in flight: its four bytes, and two bytes from offset 1. -/
def twoReads : System ReadArgs Bytes :=
  (runActions (oneBlock.readTask envCopy) (System.init oneBlock)
    [.spawn ⟨1, 0, 4, 0⟩, .spawn ⟨1, 1, 2, 0⟩]).getD (System.init oneBlock)

theorem readTask_all_end_oneBlock :
    ∃ ids : List Nat, ∃ st', runActions (oneBlock.readTask envCopy) twoReads (ids.map .run) =
        some st' ∧ st'.tasks = [] ∧ twoReads.finished <+: st'.finished ∧
      ∀ t ∈ twoReads.tasks, ∃ r, (t.id, t.arg, r) ∈ st'.finished :=
  readTask_all_end envCopy oneBlock (by decide) (reachable_getD (by decide))

/-- **Reads end with their bytes.**  From every state that any interleaving of the reads
reaches, on a filesystem whose block references agree and whose pools lend a reader, some
schedule of their steps ends every read in flight.  A read of a readable file records
`InvalidOffset` past the end of the file, and otherwise the requested bytes of its content. -/
theorem readTask_all_end_content (env : Env) (fs : SquashFs) (hagree : fs.BlocksAgree)
    (hn : 0 < fs.nReaders) {st : System ReadArgs Bytes}
    (hst : Reachable (fs.readTask env) (System.init fs) st) :
    ∃ ids : List Nat, ∃ st', runActions (fs.readTask env) st (ids.map .run) = some st' ∧
      st'.tasks = [] ∧ ∀ t ∈ st.tasks, ∀ file, fs.inodeTable.files.get? t.arg.inode = some file →
        fs.ReadableFile env file → ∀ w, fs.content env file = some w →
        (t.id, t.arg, if file.fileSize < t.arg.offset then .error (.error .invalidOffset)
          else .ok ((w.drop t.arg.offset).take (min t.arg.size (file.fileSize - t.arg.offset)))) ∈
          st'.finished := by
  obtain ⟨ids, st', hrun, hnil, -, hfin⟩ :=
    run_all_end (fun a : ReadArgs => fs.readerLast_readFile env a.inode a.offset a.size a.flags _)
      hn hst
  refine ⟨ids, st', hrun, hnil, fun t ht file hfile hf w hw => ?_⟩
  obtain ⟨r, hr⟩ := hfin t ht
  have hr' := fs.finished_of_reachable env hagree (reachable_of_runActions hst hrun) hr hfile hf hw
  dsimp only at hr'
  rwa [hr'] at hr

theorem readTask_all_end_content_oneBlock :
    ∃ ids : List Nat, ∃ st', runActions (oneBlock.readTask envCopy) twoReads (ids.map .run) =
        some st' ∧ st'.tasks = [] ∧ ∀ t ∈ twoReads.tasks, ∀ file,
        oneBlock.inodeTable.files.get? t.arg.inode = some file →
        oneBlock.ReadableFile envCopy file → ∀ w, oneBlock.content envCopy file = some w →
        (t.id, t.arg, if file.fileSize < t.arg.offset then .error (.error .invalidOffset)
          else .ok ((w.drop t.arg.offset).take (min t.arg.size (file.fileSize - t.arg.offset)))) ∈
          st'.finished :=
  readTask_all_end_content envCopy oneBlock blocksAgree_oneBlock (by decide)
    (reachable_getD (by decide))

end SquashFs

end SquashfsAsync
