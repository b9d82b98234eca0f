import SquashfsAsync.Equiv.System

/-!
# Decompressions follow misses

With the decoded-block cache on, `read_data_block` decompresses a block only on the miss branch
of its `cache.get`, and holds no lock from the lookup to the decompression.  So a task
decompresses a block only right after its own lookup of that block missed, and two tasks that
both miss one block before either inserts it both decompress it.

* `MissBefore id es`: in the events `es`, each decompression of a block by task `id` comes right
  after a lookup of it by `id` that missed;
* `TraceInv`: the events of every task satisfy it, and a task about to decompress a block has its
  miss as its last event;
* `TraceInv.step` and `TraceInv.reachable`: it holds in every reachable state.

The step lemma reads the next program of a task off its shape (`System.Shaped`): with the cache
on, a read task is about to decompress only after a lookup that missed
(`Shaped.decompressStart_next`).
-/

namespace SquashfsAsync

/-- The task an event belongs to. -/
def Event.task : Event → Nat
  | .lookup t _ _ => t
  | .decompress t _ => t

namespace Prog

variable {α : Type}

/-- The block a program decompresses next, if its next command is a decompression. -/
def decompressStart : Prog α → Option Nat
  | .exec (.decompressing s) _ => some s
  | _ => none

/-- With the cache on, a guarded program is not about to decompress. -/
theorem Guarded.decompressStart_eq_none {g l : Bool} {p : Prog α} (h : p.Guarded true g l) :
    p.decompressStart = none := by
  cases h with
  | decompressing h0 => cases h0
  | _ => rfl

end Prog

/-- The block after whose miss a command's continuation may decompress: the block a lookup
missed. -/
def Cmd.missOf : (c : Cmd) → c.Answer → Option Nat
  | .blockGet s, none => some s
  | _, _ => none

namespace System

variable {ι α : Type}

/-- With the cache on, the next program of a read task is about to decompress a block only
after a lookup of that block missed. -/
theorem Shaped.decompressStart_next {rd : ReadFlags → Option Nat} {c : Cmd}
    {k : c.Answer → Prog α} (h : Shaped true rd (.exec c k)) (r : c.Answer) {s : Nat}
    (hs : (k r).decompressStart = some s) : c.missOf r = some s := by
  have hnone : ∀ {g l : Bool} {p : Prog α}, p.Guarded true g l → p.decompressStart = some s →
      c.missOf r = some s := fun hg hp => by rw [hg.decompressStart_eq_none] at hp; cases hp
  rcases h with ⟨g, l, h⟩ | ⟨f, k', l, heq, -, hk⟩ | ⟨s', k', g, l, heq, hk⟩
  · cases h with
    | blockGet hk => exact hnone (hk r) hs
    | blockGetDecompress hk hnil _ =>
      cases r with
      | none => rw [hnil] at hs; exact hs
      | some d => exact hnone (hk d) hs
    | decompressing h0 => cases h0
    | blockInsert hk => exact hnone hk hs
    | fileLock hk => exact hnone (hk r) hs
    | filePublish hk => exact hnone hk hs
    | readersCheck htrue _ hk =>
      cases r with
      | true => rw [htrue] at hs; cases hs
      | false => exact hnone hk hs
    | readersInsert _ => cases hs
    | poolPut hk => exact hnone hk hs
  · cases heq
    exact hnone (hk r) hs
  · cases heq
    exact hnone hk hs

/-! ### Misses before decompressions -/

/-- In `es`, each decompression of a block by task `id` comes right after a lookup of that block
by `id` that missed. -/
def MissBefore (id : Nat) (es : List Event) : Prop :=
  ∀ pre s post, es = pre ++ .decompress id s :: post → pre.getLast? = some (.lookup id s false)

theorem missBefore_nil (id : Nat) : MissBefore id [] := fun pre _ _ h => by
  simp at h

/-- An event is appended: a decompression must follow the miss of its block. -/
theorem MissBefore.concat {id : Nat} {es : List Event} (h : MissBefore id es) {e : Event}
    (he : ∀ s, e = .decompress id s → es.getLast? = some (.lookup id s false)) :
    MissBefore id (es ++ [e]) := by
  intro pre s post heq
  rcases List.eq_nil_or_concat post with rfl | ⟨post', x, rfl⟩
  · rw [← List.concat_eq_append, ← List.concat_eq_append] at heq
    obtain ⟨rfl, rfl⟩ := List.concat_inj.mp heq
    exact he s rfl
  · have hes : es = pre ++ .decompress id s :: post' := by
      have := congrArg List.dropLast heq
      rwa [List.dropLast_concat, List.concat_eq_append, ← List.cons_append, ← List.append_assoc,
        List.dropLast_concat] at this
    exact h pre s post' hes

theorem filter_task_append_self {es : List Event} {id : Nat} (hes : ∀ e ∈ es, e.task = id)
    (tr : List Event) : (tr ++ es).filter (·.task = id) = tr.filter (·.task = id) ++ es := by
  have hself : es.filter (·.task = id) = es := List.filter_eq_self.mpr fun e he => by simp [hes e he]
  rw [List.filter_append, hself]

theorem filter_task_append_other {es : List Event} {id id' : Nat} (hes : ∀ e ∈ es, e.task = id)
    (hne : id' ≠ id) (tr : List Event) :
    (tr ++ es).filter (·.task = id') = tr.filter (·.task = id') := by
  have hnil : es.filter (·.task = id') = [] :=
    List.filter_eq_nil_iff.mpr fun e he => by simp [hes e he, Ne.symm hne]
  rw [List.filter_append, hnil, List.append_nil]

/-! ### The invariant -/

/-- What holds of the events in every reachable state, with the cache on. -/
structure TraceInv (st : System ι α) : Prop where
  /-- A task about to decompress a block has its miss as its last event. -/
  armed : ∀ t ∈ st.tasks, ∀ s, t.prog.decompressStart = some s →
    (st.trace.filter (·.task = t.id)).getLast? = some (.lookup t.id s false)
  /-- Each task's decompressions follow its misses. -/
  missBefore : ∀ id, MissBefore id (st.trace.filter (·.task = id))

theorem TraceInv.init (fs : SquashFs) : TraceInv (System.init fs : System ι α) :=
  ⟨nofun, fun id => missBefore_nil id⟩

theorem TraceInv.congr {st st' : System ι α} (h : TraceInv st) (htasks : st'.tasks = st.tasks)
    (htr : st'.trace = st.trace) : TraceInv st' :=
  ⟨htasks ▸ htr ▸ h.armed, htr ▸ h.missBefore⟩

/-- A task replaced by its next state, its events `es` appended to the trace. -/
theorem TraceInv.setTask {st : System ι α} (h : TraceInv st) {t : Task ι α} (t' : Task ι α)
    (hid : t'.id = t.id) (es : List Event) (hes : ∀ e ∈ es, e.task = t.id)
    (hmb : MissBefore t.id (st.trace.filter (·.task = t.id) ++ es))
    (harmed : ∀ s, t'.prog.decompressStart = some s →
      (st.trace.filter (·.task = t.id) ++ es).getLast? = some (.lookup t.id s false)) :
    TraceInv { st.setTask t' with trace := st.trace ++ es } where
  armed u hu s hs := by
    rcases mem_setTask hu with rfl | ⟨hu, hne⟩
    · rw [hid, filter_task_append_self hes]; exact harmed s hs
    · rw [filter_task_append_other hes (hid ▸ hne)]; exact h.armed u hu s hs
  missBefore id := by
    by_cases hne : id = t.id
    · rw [hne, filter_task_append_self hes]; exact hmb
    · rw [filter_task_append_other hes hne]; exact h.missBefore id

/-- A task replaced by its next state, no event recorded. -/
theorem TraceInv.setTask_nil {st : System ι α} (h : TraceInv st) {t : Task ι α} (t' : Task ι α)
    (hid : t'.id = t.id) (harmed : ∀ s, t'.prog.decompressStart ≠ some s) :
    TraceInv (st.setTask t') :=
  (h.setTask t' hid [] (by simp) (by simpa using h.missBefore t.id)
    fun s hs => absurd hs (harmed s)).congr rfl (List.append_nil _).symm

theorem TraceInv.finish {st : System ι α} (h : TraceInv st) (t : Task ι α)
    (r : Except (Fault Error) α) : TraceInv (st.finish t r) where
  armed u' hu' s hs := by
    obtain ⟨u, hu, -, rfl⟩ := mem_finish hu'
    obtain ⟨hid, -, hprog, -⟩ := foldr_retry_fields t.producing u
    rw [hprog] at hs
    rw [hid]
    exact h.armed u hu s hs
  missBefore := h.missBefore

/-- The tasks waiting for an entry are handed its result; none of them is then about to
decompress. -/
theorem TraceInv.wake {st : System ι α} (h : TraceInv st) (ino : Nat) (r : Except Error Bytes)
    (hnext : ∀ u ∈ st.tasks, u.waiting = some ino → ∀ ino' k, u.prog = .exec (.fileLock ino') k →
      ∀ a, (k a).decompressStart = none) (fl : Nat → FileSlot) :
    TraceInv { st with tasks := st.tasks.map (wake ino r), files := fl } where
  armed u' hu' s hs := by
    obtain ⟨u, hu, rfl⟩ := List.mem_map.mp hu'
    rcases wake_cases ino r u with he | ⟨ino', k, hw, hp, he⟩ <;> rw [he] at hs ⊢
    · exact h.armed u hu s hs
    · rw [hnext u hu hw ino' k hp] at hs
      cases hs
  missBefore := h.missBefore

section Step

variable {O : Oracle} {Q : ι → Except (Fault Error) α → Prop}

/-- **One command.**  With the cache on, a read task's command keeps the invariant. -/
theorem TraceInv.execCmd {st st' : System ι α} (h : TraceInv st) (hinv : Inv O true Q st)
    {t : Task ι α} (ht : t ∈ st.tasks) (hw : t.waiting = none) {c : Cmd} {k : c.Answer → Prog α}
    (hp : t.prog = .exec c k) (hst : st.execCmd t c k = some st') : TraceInv st' := by
  have hsh := hp ▸ hinv.shaped t ht
  -- the next program is about to decompress only after the miss `c.missOf` names
  have hnext : ∀ (r : c.Answer) {p : Prog α}, p = k r → c.missOf r = none →
      ∀ s, p.decompressStart ≠ some s := fun r p hpk hm s hs => by
    rw [hpk] at hs
    rw [hsh.decompressStart_next r hs] at hm
    cases hm
  cases c with
  | blockGet s =>
    simp only [System.execCmd, Option.some.injEq] at hst
    subst hst
    refine h.setTask { t with prog := k (st.blocks s) } rfl _ (by simp [Event.task])
      ((h.missBefore t.id).concat nofun) fun s' hs' => ?_
    have hmiss := hsh.decompressStart_next _ hs'
    cases hb : st.blocks s with
    | none =>
      rw [hb] at hmiss
      cases hmiss
      simp [hb]
    | some d => rw [hb] at hmiss; cases hmiss
  | decompressing s =>
    simp only [System.execCmd, Option.some.injEq] at hst
    subst hst
    have hlast := h.armed t ht s (by rw [hp]; rfl)
    exact h.setTask { t with prog := k () } rfl _ (by simp [Event.task])
      ((h.missBefore t.id).concat fun s' he => by cases he; exact hlast)
      fun s' hs' => absurd hs' (hnext () rfl rfl s')
  | blockInsert s d =>
    simp only [System.execCmd, Option.some.injEq] at hst
    subst hst
    exact (h.setTask_nil { t with prog := k () } rfl (hnext () rfl rfl)).congr rfl rfl
  | fileLock ino =>
    simp only [System.execCmd] at hst
    split at hst <;> cases hst
    · exact h.setTask_nil _ rfl (hnext _ rfl rfl)
    · exact (h.setTask_nil { t with prog := k .produce, producing := ino :: t.producing } rfl
        (hnext _ rfl rfl)).congr rfl rfl
    · exact h.setTask_nil _ rfl fun s => by rw [hp]; nofun
  | filePublish ino r =>
    simp only [System.execCmd, Option.some.injEq] at hst
    subst hst
    refine (h.setTask_nil { t with prog := k (), producing := t.producing.erase ino } rfl
      (hnext () rfl rfl)).wake ino r (fun u hu hwu ino' k' hp' a => ?_) _
    rcases mem_setTask hu with rfl | ⟨hu, -⟩
    · simp [hw] at hwu
    · cases hs : (k' a).decompressStart with
      | none => rfl
      | some s =>
        have := (hp' ▸ hinv.shaped u hu).decompressStart_next a hs
        cases this
  | readersCheck f =>
    simp only [System.execCmd] at hst
    split_ifs at hst
    split at hst <;> cases hst
    · exact h.setTask_nil _ rfl (hnext true rfl rfl)
    · exact h.setTask_nil _ rfl (hnext false rfl rfl)
  | readersInsert f =>
    simp only [System.execCmd] at hst
    split_ifs at hst
    cases hst
    exact (h.setTask_nil { t with prog := k (), writeLock := true } rfl
      (hnext () rfl rfl)).congr rfl rfl
  | poolGet f =>
    simp only [System.execCmd] at hst
    split at hst
    · cases hst
      exact h.setTask_nil _ rfl nofun
    · split_ifs at hst
      cases hst
      exact h.setTask_nil _ rfl (hnext _ rfl rfl)
  | poolPut p =>
    simp only [System.execCmd, Option.some.injEq] at hst
    subst hst
    exact h.setTask_nil _ rfl (hnext () rfl rfl)

variable {progs : ι → Prog α}

/-- **One step.**  With the cache on, every action the scheduler can take keeps the invariant,
when the programs it spawns are read tasks. -/
theorem TraceInv.step (hprogs : ∀ i, ∃ g l, (progs i).Guarded true g l) {st st' : System ι α}
    (h : TraceInv st) (hinv : Inv O true Q st) {a : Action ι}
    (hst : System.step progs st a = some st') : TraceInv st' := by
  cases a with
  | spawn i =>
    cases hst
    refine ⟨fun u hu s hs => ?_, h.missBefore⟩
    rcases List.mem_append.mp hu with hu | hu
    · exact h.armed u hu s hs
    · obtain ⟨g, l, hg⟩ := hprogs i
      rw [List.mem_singleton.mp hu, Task.new, hg.decompressStart_eq_none] at hs
      cases hs
  | run id =>
    obtain ⟨t, ht, -, hw, hcase⟩ := step_run hst
    rcases hcase with ⟨_, -, rfl⟩ | ⟨_, -, rfl⟩ | ⟨c, k, hp, hc⟩
    · exact h.finish t _
    · exact h.finish t _
    · exact h.execCmd hinv ht hw hp hc
  | evictBlock s =>
    cases hst
    exact h.congr rfl rfl
  | evictFile ino =>
    simp only [System.step] at hst
    split at hst <;> cases hst
    exact h.congr rfl rfl

/-- **Every run.**  With the cache on, the invariant holds in every reachable state. -/
theorem TraceInv.reachable (hprogs : ∀ i, ∃ g l, (progs i).Guarded true g l) {fs : SquashFs}
    {st : System ι α} (hst : Reachable progs (System.init fs) st) : TraceInv st := by
  induction hst with
  | init => exact TraceInv.init fs
  | step hr hs ih => exact ih.step hprogs (Inv.reachable_any hprogs hr) hs

end Step

end System

end SquashfsAsync
