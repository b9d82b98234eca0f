import SquashfsAsync.Equiv.Cache
import SquashfsAsync.System

/-!
# The invariant of concurrent reads

Whatever the scheduler does, the shared state and the tasks keep to an oracle `O` when every
program spawned keeps to it (`Prog.Sat`) and has the shape of a read task (`Prog.Guarded`):

* `System.Inv`: the caches hold only what `O` allows, each task still keeps to `O` and will end
  as `Q` says for its arguments, each finished task ended so, and the bookkeeping (distinct ids,
  producers of the slots being loaded, waiting tasks at their request) is consistent;
* `System.Inv.step` and `System.Inv.reachable`: it holds in every reachable state.

The step lemma goes through what one action can do (`step_run`, then one case per command).
-/

namespace SquashfsAsync

namespace System

variable {ι α : Type}

/-! ### What a step does -/

@[simp] theorem setTask_blocks (st : System ι α) (t : Task ι α) :
    (st.setTask t).blocks = st.blocks := rfl

@[simp] theorem setTask_files (st : System ι α) (t : Task ι α) :
    (st.setTask t).files = st.files := rfl

@[simp] theorem setTask_readers (st : System ι α) (t : Task ι α) :
    (st.setTask t).readers = st.readers := rfl

@[simp] theorem setTask_pools (st : System ι α) (t : Task ι α) :
    (st.setTask t).pools = st.pools := rfl

@[simp] theorem setTask_trace (st : System ι α) (t : Task ι α) :
    (st.setTask t).trace = st.trace := rfl

@[simp] theorem setTask_finished (st : System ι α) (t : Task ι α) :
    (st.setTask t).finished = st.finished := rfl

@[simp] theorem setTask_nextId (st : System ι α) (t : Task ι α) :
    (st.setTask t).nextId = st.nextId := rfl

@[simp] theorem setTask_nReaders (st : System ι α) (t : Task ι α) :
    (st.setTask t).nReaders = st.nReaders := rfl

theorem nReaders_execCmd {st st' : System ι α} {t : Task ι α} {c : Cmd} {k : c.Answer → Prog α}
    (h : st.execCmd t c k = some st') : st'.nReaders = st.nReaders := by
  cases c <;> simp only [execCmd] at h <;> (try split at h) <;> (try split at h) <;> cases h <;> rfl

theorem map_id_setTask (st : System ι α) (t : Task ι α) :
    (st.setTask t).tasks.map Task.id = st.tasks.map Task.id := by
  simp only [setTask, List.map_map]
  congr 1
  funext u
  by_cases h : u.id = t.id <;> simp [h]

theorem mem_setTask {st : System ι α} {t u : Task ι α} (h : u ∈ (st.setTask t).tasks) :
    u = t ∨ (u ∈ st.tasks ∧ u.id ≠ t.id) := by
  simp only [setTask, List.mem_map] at h
  obtain ⟨v, hv, rfl⟩ := h
  by_cases hid : v.id = t.id
  · simp [hid]
  · simp [hid, hv]

theorem mem_setTask_self {st : System ι α} {t t' : Task ι α} (ht : t ∈ st.tasks)
    (hid : t'.id = t.id) : t' ∈ (st.setTask t').tasks :=
  List.mem_map.mpr ⟨t, ht, by simp [hid]⟩

/-- A `run` step: the task it names, not waiting, ends or performs its command. -/
theorem step_run {progs : ι → Prog α} {st st' : System ι α} {id : Nat}
    (h : step progs st (.run id) = some st') :
    ∃ t ∈ st.tasks, t.id = id ∧ t.waiting = none ∧
      ((∃ a, t.prog = .done a ∧ st' = st.finish t (.ok a)) ∨
        (∃ e, t.prog = .fail e ∧ st' = st.finish t (.error e)) ∨
        ∃ (c : Cmd) (k : c.Answer → Prog α), t.prog = .exec c k ∧ st.execCmd t c k = some st') := by
  simp only [step] at h
  split at h
  · cases h
  · rename_i t ht
    refine ⟨t, List.mem_of_find?_eq_some ht, by simpa using List.find?_some ht, ?_⟩
    split_ifs at h with hw
    simp only [Option.not_isSome_iff_eq_none] at hw
    refine ⟨hw, ?_⟩
    split at h
    · exact .inl ⟨_, ‹_›, (Option.some.inj h).symm⟩
    · exact .inr (.inl ⟨_, ‹_›, (Option.some.inj h).symm⟩)
    · exact .inr (.inr ⟨_, _, ‹_›, h⟩)

theorem nReaders_step {progs : ι → Prog α} {st st' : System ι α} {a : Action ι}
    (h : step progs st a = some st') : st'.nReaders = st.nReaders := by
  cases a with
  | run id =>
    obtain ⟨t, -, -, -, ⟨_, -, rfl⟩ | ⟨_, -, rfl⟩ | ⟨_, _, -, hc⟩⟩ := step_run h
    · rfl
    · rfl
    · exact nReaders_execCmd hc
  | evictFile ino =>
    simp only [step] at h
    split at h <;> cases h
    rfl
  | _ => cases h; rfl

/-- The pools' bound on checked-out readers never changes. -/
theorem nReaders_reachable {progs : ι → Prog α} {fs : SquashFs} {st : System ι α}
    (hst : Reachable progs (System.init fs) st) : st.nReaders = fs.nReaders := by
  induction hst with
  | init => rfl
  | step _ hs ih => exact (nReaders_step hs).trans ih

/-- The state a schedule leads to, when each of its actions can be taken, is reachable. -/
theorem reachable_getD {progs : ι → Prog α} {s₀ : System ι α} {as : List (Action ι)}
    (h : (runActions progs s₀ as).isSome) : Reachable progs s₀ ((runActions progs s₀ as).getD s₀) := by
  obtain ⟨st, hst⟩ := Option.isSome_iff_exists.mp h
  rw [hst]
  exact reachable_of_runActions .init hst

theorem foldr_retry (l : List Nat) (u : Task ι α) :
    ∃ w, l.foldr retry u = { u with waiting := w } ∧ (w = u.waiting ∨ w = none) := by
  induction l with
  | nil => exact ⟨u.waiting, rfl, .inl rfl⟩
  | cons ino l ih =>
    obtain ⟨w, h, hw⟩ := ih
    rw [List.foldr_cons, h, retry]
    split_ifs
    · exact ⟨none, rfl, .inr rfl⟩
    · exact ⟨w, rfl, hw⟩

theorem wake_cases (ino : Nat) (r : Except Error Bytes) (u : Task ι α) :
    wake ino r u = u ∨ ∃ ino' k, u.waiting = some ino ∧ u.prog = .exec (.fileLock ino') k ∧
      wake ino r u = { u with prog := k (.result r), waiting := none } := by
  unfold wake
  split_ifs with hw
  · split
    · exact .inr ⟨_, _, hw, ‹_›, rfl⟩
    · exact .inl rfl
  · exact .inl rfl

/-! ### The shape of a task between its steps -/

variable {cached : Bool}

/-- The shape a read task keeps between its steps: a guarded program, the checkout that follows a
look at the map (the flags are then in the map), or the decompression that follows a miss. -/
def Shaped (cached : Bool) (readers : ReadFlags → Option Nat) (p : Prog α) : Prop :=
  (∃ g l, p.Guarded cached g l) ∨
    (∃ f k l, p = .exec (.poolGet f) k ∧ readers f ≠ none ∧ ∀ n, (k n).Guarded cached false l) ∨
    ∃ s k g l, p = .exec (.decompressing s) k ∧ (k ()).Guarded cached g l

theorem Shaped.mono {rd rd' : ReadFlags → Option Nat} (hrd : ∀ f, rd f ≠ none → rd' f ≠ none)
    {p : Prog α} (h : Shaped cached rd p) : Shaped cached rd' p := by
  rcases h with h | ⟨f, k, l, rfl, hf, hk⟩ | h
  · exact .inl h
  · exact .inr (.inl ⟨f, k, l, rfl, hrd f hf, hk⟩)
  · exact .inr (.inr h)

theorem Shaped.blockGet {rd : ReadFlags → Option Nat} {s : Nat} {k : Option Bytes → Prog α}
    (h : Shaped cached rd (.exec (.blockGet s) k)) (r : Option Bytes) : Shaped cached rd (k r) := by
  rcases h with ⟨g, l, h⟩ | ⟨_, _, _, h, -⟩ | ⟨_, _, _, _, h, -⟩
  · cases h with
    | blockGet hk => exact .inl ⟨g, l, hk r⟩
    | blockGetDecompress hk hnone hk' =>
      cases r with
      | some d => exact .inl ⟨g, l, hk d⟩
      | none => exact .inr (.inr ⟨s, _, g, l, hnone, hk'⟩)
  · cases h
  · cases h

theorem Shaped.blockInsert {rd : ReadFlags → Option Nat} {s : Nat} {d : Bytes}
    {k : Unit → Prog α} (h : Shaped cached rd (.exec (.blockInsert s d) k)) :
    Shaped cached rd (k ()) := by
  rcases h with ⟨g, l, h⟩ | ⟨_, _, _, h, -⟩ | ⟨_, _, _, _, h, -⟩
  · cases h with | blockInsert hk => exact .inl ⟨g, l, hk⟩
  · cases h
  · cases h

theorem Shaped.decompressing {rd : ReadFlags → Option Nat} {s : Nat} {k : Unit → Prog α}
    (h : Shaped cached rd (.exec (.decompressing s) k)) : Shaped cached rd (k ()) := by
  rcases h with ⟨g, l, h⟩ | ⟨_, _, _, h, -⟩ | ⟨_, _, g, l, h, hk⟩
  · cases h with | decompressing _ hk => exact .inl ⟨g, l, hk⟩
  · cases h
  · cases h
    exact .inl ⟨g, l, hk⟩

theorem Shaped.fileLock {rd rd' : ReadFlags → Option Nat} {ino : Nat} {k : FileAnswer → Prog α}
    (h : Shaped cached rd (.exec (.fileLock ino) k)) (r : FileAnswer) : Shaped cached rd' (k r) := by
  rcases h with ⟨g, l, h⟩ | ⟨_, _, _, h, -⟩ | ⟨_, _, _, _, h, -⟩
  · cases h with | fileLock hk => exact .inl ⟨g, false, hk r⟩
  · cases h
  · cases h

theorem Shaped.filePublish {rd : ReadFlags → Option Nat} {ino : Nat} {r : Except Error Bytes}
    {k : Unit → Prog α} (h : Shaped cached rd (.exec (.filePublish ino r) k)) :
    Shaped cached rd (k ()) := by
  rcases h with ⟨g, l, h⟩ | ⟨_, _, _, h, -⟩ | ⟨_, _, _, _, h, -⟩
  · cases h with | filePublish hk => exact .inl ⟨g, l, hk⟩
  · cases h
  · cases h

/-- After a look at the map: a hit leads to the checkout from the pool found. -/
theorem Shaped.readersCheck {rd : ReadFlags → Option Nat} {f : ReadFlags} {k : Bool → Prog α}
    (h : Shaped cached rd (.exec (.readersCheck f) k)) (b : Bool) (hb : b = true → rd f ≠ none) :
    Shaped cached rd (k b) := by
  rcases h with ⟨g, l, h⟩ | ⟨_, _, _, h, -⟩ | ⟨_, _, _, _, h, -⟩
  · cases h with
    | readersCheck htrue hk hfalse =>
      cases b
      · exact .inl ⟨_, _, hfalse⟩
      · exact .inr (.inl ⟨f, _, l, htrue, hb rfl, hk⟩)
  · cases h
  · cases h

/-- After an insertion into the map: the checkout from the new pool. -/
theorem Shaped.readersInsert {rd rd' : ReadFlags → Option Nat} {f : ReadFlags}
    {k : Unit → Prog α} (h : Shaped cached rd (.exec (.readersInsert f) k)) (hf : rd' f ≠ none) :
    Shaped cached rd' (k ()) := by
  rcases h with ⟨g, l, h⟩ | ⟨_, _, _, h, -⟩ | ⟨_, _, _, _, h, -⟩
  · cases h with | readersInsert hk => exact .inr (.inl ⟨f, _, l, rfl, hf, hk⟩)
  · cases h
  · cases h

/-- A checkout happens with the flags in the map. -/
theorem Shaped.poolGet {rd : ReadFlags → Option Nat} {f : ReadFlags} {k : Nat → Prog α}
    (h : Shaped cached rd (.exec (.poolGet f) k)) : rd f ≠ none ∧ ∀ n, Shaped cached rd (k n) := by
  rcases h with ⟨g, l, h⟩ | ⟨_, _, l, h, hf, hk⟩ | ⟨_, _, _, _, h, -⟩
  · cases h
  · cases h
    exact ⟨hf, fun n => .inl ⟨_, _, hk n⟩⟩
  · cases h

theorem Shaped.poolPut {rd : ReadFlags → Option Nat} {p : Nat} {k : Unit → Prog α}
    (h : Shaped cached rd (.exec (.poolPut p) k)) : Shaped cached rd (k ()) := by
  rcases h with ⟨g, l, h⟩ | ⟨_, _, _, h, -⟩ | ⟨_, _, _, _, h, -⟩
  · cases h with | poolPut hk => exact .inl ⟨g, l, hk⟩
  · cases h
  · cases h

/-! ### The invariant -/

section Invariant

variable (O : Oracle) (cached : Bool) (Q : ι → Except (Fault Error) α → Prop)

/-- What holds in every reachable state of a system whose spawned programs keep to `O`, end as
`Q` says for their arguments, and are read tasks. -/
structure Inv (st : System ι α) : Prop where
  /-- Task ids are distinct and below the next one. -/
  nodup : (st.tasks.map Task.id).Nodup
  lt : ∀ t ∈ st.tasks, t.id < st.nextId
  /-- The decoded-block cache keeps to the oracle. -/
  blocks : ∀ s d, st.blocks s = some d → O.block s d
  /-- So do the ready whole-file entries. -/
  files : ∀ ino d, st.files ino = .ready d → O.file ino (.ok d)
  /-- A slot being loaded has a live producer. -/
  loading : ∀ ino, st.files ino = .loading → ∃ t ∈ st.tasks, ino ∈ t.producing
  /-- Each task keeps to the oracle and ends as `Q` says for its arguments... -/
  sat : ∀ t ∈ st.tasks, t.prog.Sat O (Q t.arg)
  /-- ... and has the shape of a read task. -/
  shaped : ∀ t ∈ st.tasks, Shaped cached st.readers t.prog
  /-- A waiting task waits at its request for the entry. -/
  waiting : ∀ t ∈ st.tasks, ∀ ino, t.waiting = some ino → ∃ k, t.prog = .exec (.fileLock ino) k
  /-- Each finished task ended as `Q` says. -/
  finished : ∀ x ∈ st.finished, Q x.2.1 x.2.2

variable {O cached Q}

theorem Inv.init (fs : SquashFs) : Inv O cached Q (System.init fs : System ι α) where
  nodup := List.nodup_nil
  lt := nofun
  blocks := nofun
  files := nofun
  loading := nofun
  sat := nofun
  shaped := nofun
  waiting := nofun
  finished := nofun

theorem Inv.eq_of_id {st : System ι α} (h : Inv O cached Q st) {t u : Task ι α} (ht : t ∈ st.tasks)
    (hu : u ∈ st.tasks) (hid : u.id = t.id) : u = t :=
  List.inj_on_of_nodup_map h.nodup hu ht hid

/-- A task replaced by its next state, the shared state unchanged. -/
theorem Inv.setTask {st : System ι α} (h : Inv O cached Q st) {t : Task ι α} (ht : t ∈ st.tasks)
    (t' : Task ι α) (hid : t'.id = t.id) (harg : t'.arg = t.arg) (hsat : t'.prog.Sat O (Q t.arg))
    (hshaped : Shaped cached st.readers t'.prog)
    (hwait : ∀ ino, t'.waiting = some ino → ∃ k, t'.prog = .exec (.fileLock ino) k)
    (hprod : ∀ ino ∈ t.producing, ino ∈ t'.producing) : Inv O cached Q (st.setTask t') where
  nodup := by rw [map_id_setTask]; exact h.nodup
  lt u hu := by
    rcases mem_setTask hu with rfl | ⟨hu, -⟩
    · rw [hid]; exact h.lt t ht
    · exact h.lt u hu
  blocks := h.blocks
  files := h.files
  loading ino hl := by
    obtain ⟨u, hu, hino⟩ := h.loading ino hl
    by_cases hut : u.id = t.id
    · rw [h.eq_of_id ht hu hut] at hino
      exact ⟨t', mem_setTask_self ht hid, hprod ino hino⟩
    · exact ⟨u, List.mem_map.mpr ⟨u, hu, by simp [hid, hut]⟩, hino⟩
  sat u hu := by
    rcases mem_setTask hu with rfl | ⟨hu, -⟩
    · rw [harg]; exact hsat
    · exact h.sat u hu
  shaped u hu := by
    rcases mem_setTask hu with rfl | ⟨hu, -⟩
    · exact hshaped
    · exact h.shaped u hu
  waiting u hu := by
    rcases mem_setTask hu with rfl | ⟨hu, -⟩
    · exact hwait
    · exact h.waiting u hu
  finished := h.finished

theorem Inv.spawn {progs : ι → Prog α} {st : System ι α} (h : Inv O cached Q st) (i : ι)
    (hsat : (progs i).Sat O (Q i)) (hg : ∃ g l, (progs i).Guarded cached g l) :
    Inv O cached Q
      { st with tasks := st.tasks ++ [Task.new st.nextId i (progs i)], nextId := st.nextId + 1 } where
  nodup := by
    rw [List.map_append, List.nodup_append]
    refine ⟨h.nodup, List.nodup_singleton _, fun a ha hb => ?_⟩
    obtain ⟨u, hu, rfl⟩ := List.mem_map.mp ha
    simp only [List.map_cons, List.map_nil, List.mem_singleton, Task.new] at hb
    exact absurd (h.lt u hu) (by omega)
  lt u hu := by
    rcases List.mem_append.mp hu with hu | hu
    · exact Nat.lt_succ_of_lt (h.lt u hu)
    · rw [List.mem_singleton.mp hu]; exact Nat.lt_succ_self _
  blocks := h.blocks
  files := h.files
  loading ino hl := by
    obtain ⟨u, hu, hino⟩ := h.loading ino hl
    exact ⟨u, List.mem_append_left _ hu, hino⟩
  sat u hu := by
    rcases List.mem_append.mp hu with hu | hu
    · exact h.sat u hu
    · rw [List.mem_singleton.mp hu]; exact hsat
  shaped u hu := by
    rcases List.mem_append.mp hu with hu | hu
    · exact h.shaped u hu
    · rw [List.mem_singleton.mp hu]; exact .inl hg
  waiting u hu := by
    rcases List.mem_append.mp hu with hu | hu
    · exact h.waiting u hu
    · rw [List.mem_singleton.mp hu]; exact nofun
  finished := h.finished

theorem foldr_retry_fields (l : List Nat) (u : Task ι α) :
    (l.foldr retry u).id = u.id ∧ (l.foldr retry u).arg = u.arg ∧
      (l.foldr retry u).prog = u.prog ∧ (l.foldr retry u).producing = u.producing ∧
      ((l.foldr retry u).waiting = u.waiting ∨ (l.foldr retry u).waiting = none) := by
  obtain ⟨w, h, hw⟩ := foldr_retry l u
  rw [h]
  exact ⟨rfl, rfl, rfl, rfl, hw⟩

theorem mem_finish {st : System ι α} {t u' : Task ι α} {r : Except (Fault Error) α}
    (hu' : u' ∈ (st.finish t r).tasks) :
    ∃ u ∈ st.tasks, u.id ≠ t.id ∧ u' = t.producing.foldr retry u := by
  simp only [finish, List.mem_map, List.mem_filter, decide_eq_true_eq] at hu'
  obtain ⟨u, ⟨hu, hid⟩, rfl⟩ := hu'
  exact ⟨u, hu, hid, rfl⟩

/-- A task ends: it is removed, its slots freed, its outcome recorded. -/
theorem Inv.finish {st : System ι α} (h : Inv O cached Q st) {t : Task ι α} (ht : t ∈ st.tasks)
    {r : Except (Fault Error) α} (hr : Q t.arg r) : Inv O cached Q (st.finish t r) where
  nodup := by
    have hmap : ((st.tasks.filter fun u => u.id ≠ t.id).map fun u => t.producing.foldr retry u).map
        Task.id = (st.tasks.filter fun u => u.id ≠ t.id).map Task.id := by
      rw [List.map_map]
      exact List.map_congr_left fun u _ => (foldr_retry_fields _ u).1
    show (((st.tasks.filter _).map _).map Task.id).Nodup
    rw [hmap]
    exact h.nodup.sublist ((List.filter_sublist _).map _)
  lt u' hu' := by
    obtain ⟨u, hu, -, rfl⟩ := mem_finish hu'
    rw [(foldr_retry_fields _ u).1]
    exact h.lt u hu
  blocks := h.blocks
  files ino d hd := by
    simp only [System.finish] at hd
    split_ifs at hd
    exact h.files ino d hd
  loading ino hl := by
    simp only [System.finish] at hl
    split_ifs at hl with hino
    obtain ⟨u, hu, hinou⟩ := h.loading ino hl
    have hid : u.id ≠ t.id := fun hid => hino (h.eq_of_id ht hu hid ▸ hinou)
    refine ⟨_, List.mem_map.mpr ⟨u, List.mem_filter.mpr ⟨hu, by simpa using hid⟩, rfl⟩, ?_⟩
    rw [(foldr_retry_fields _ u).2.2.2.1]
    exact hinou
  sat u' hu' := by
    obtain ⟨u, hu, -, rfl⟩ := mem_finish hu'
    obtain ⟨-, harg, hprog, -⟩ := foldr_retry_fields t.producing u
    rw [harg, hprog]
    exact h.sat u hu
  shaped u' hu' := by
    obtain ⟨u, hu, -, rfl⟩ := mem_finish hu'
    rw [(foldr_retry_fields _ u).2.2.1]
    exact h.shaped u hu
  waiting u' hu' ino hw := by
    obtain ⟨u, hu, -, rfl⟩ := mem_finish hu'
    obtain ⟨-, -, hprog, -, hw'⟩ := foldr_retry_fields t.producing u
    rw [hprog]
    rcases hw' with hw' | hw' <;> rw [hw'] at hw
    · exact h.waiting u hu ino hw
    · cases hw
  finished x hx := by
    rcases List.mem_append.mp hx with hx | hx
    · exact h.finished x hx
    · rw [List.mem_singleton.mp hx]; exact hr

theorem Inv.with_trace {st : System ι α} (h : Inv O cached Q st) (tr : List Event) :
    Inv O cached Q { st with trace := tr } :=
  ⟨h.nodup, h.lt, h.blocks, h.files, h.loading, h.sat, h.shaped, h.waiting, h.finished⟩

theorem Inv.with_blocks {st : System ι α} (h : Inv O cached Q st) {bl : Nat → Option Bytes}
    (hbl : ∀ s d, bl s = some d → O.block s d) : Inv O cached Q { st with blocks := bl } :=
  ⟨h.nodup, h.lt, hbl, h.files, h.loading, h.sat, h.shaped, h.waiting, h.finished⟩

theorem Inv.with_readers {st : System ι α} (h : Inv O cached Q st) {rd : ReadFlags → Option Nat}
    (hrd : ∀ f, st.readers f ≠ none → rd f ≠ none) (ps : List ReadFlags) :
    Inv O cached Q { st with readers := rd, pools := ps } :=
  ⟨h.nodup, h.lt, h.blocks, h.files, h.loading, h.sat,
    fun t ht => (h.shaped t ht).mono hrd, h.waiting, h.finished⟩

/-- A task answered at its request for a whole-file entry. -/
theorem Inv.fileLock {st st' : System ι α} (h : Inv O cached Q st) {t : Task ι α}
    (ht : t ∈ st.tasks) (hw : t.waiting = none) {ino : Nat} {k : FileAnswer → Prog α}
    (hp : t.prog = .exec (.fileLock ino) k)
    (hst : st.execCmd t (.fileLock ino) k = some st') : Inv O cached Q st' := by
  obtain ⟨-, hk⟩ := (hp ▸ h.sat t ht).of_exec
  have hsh := hp ▸ h.shaped t ht
  simp only [execCmd] at hst
  split at hst <;> cases hst
  · rename_i d hd
    exact h.setTask ht _ rfl rfl (hk _ (h.files ino d hd)) (hsh.fileLock _)
      (fun _ hi => by simp only [hw] at hi; cases hi) fun _ => id
  · rename_i hd
    have h' := h.setTask ht { t with prog := k .produce, producing := ino :: t.producing }
      rfl rfl (hk _ trivial) (hsh.fileLock _) (fun _ hi => by simp only [hw] at hi; cases hi)
      fun _ => List.mem_cons_of_mem _
    refine ⟨h'.nodup, h'.lt, h'.blocks, fun i d hi => ?_, fun i hi => ?_, h'.sat, h'.shaped,
      h'.waiting, h'.finished⟩
    · dsimp only at hi
      split_ifs at hi
      exact h'.files i d hi
    · dsimp only at hi
      split_ifs at hi with hino
      · exact ⟨_, mem_setTask_self ht rfl, hino ▸ List.mem_cons_self _ _⟩
      · exact h'.loading i hi
  · exact h.setTask ht _ rfl rfl (hp ▸ h.sat t ht) (hp ▸ h.shaped t ht)
      (fun i hi => ⟨k, by cases hi; exact hp⟩) fun _ => id

/-- A waiting task handed a published result keeps to the oracle when the result does. -/
theorem wake_inv {rd : ReadFlags → Option Nat} {ino : Nat} {r : Except Error Bytes}
    (hr : O.file ino r) {u : Task ι α} (hsat : u.prog.Sat O (Q u.arg))
    (hsh : Shaped cached rd u.prog)
    (hwait : ∀ i, u.waiting = some i → ∃ k, u.prog = .exec (.fileLock i) k) :
    (wake ino r u).prog.Sat O (Q (wake ino r u).arg) ∧ Shaped cached rd (wake ino r u).prog ∧
      ∀ i, (wake ino r u).waiting = some i → ∃ k, (wake ino r u).prog = .exec (.fileLock i) k := by
  rcases wake_cases ino r u with he | ⟨ino', k, hw, hp, he⟩
  · rw [he]; exact ⟨hsat, hsh, hwait⟩
  · obtain ⟨k', hk'⟩ := hwait ino hw
    rw [hp] at hk' hsat hsh
    cases hk'
    rw [he]
    exact ⟨hsat.of_exec.2 _ hr, hsh.fileLock _, nofun⟩

theorem wake_fields (ino : Nat) (r : Except Error Bytes) (u : Task ι α) :
    (wake ino r u).id = u.id ∧ (wake ino r u).producing = u.producing := by
  rcases wake_cases ino r u with he | ⟨_, _, _, _, he⟩ <;> rw [he] <;> exact ⟨rfl, rfl⟩

/-- A producer publishes: the slot becomes ready (or free), the waiting tasks get the result. -/
theorem Inv.filePublish {st st' : System ι α} (h : Inv O cached Q st) {t : Task ι α}
    (ht : t ∈ st.tasks) (hw : t.waiting = none) {ino : Nat} {r : Except Error Bytes}
    {k : Unit → Prog α} (hp : t.prog = .exec (.filePublish ino r) k)
    (hst : st.execCmd t (.filePublish ino r) k = some st') : Inv O cached Q st' := by
  obtain ⟨hr, hk⟩ := (hp ▸ h.sat t ht).of_exec
  have hsh := hp ▸ h.shaped t ht
  simp only [execCmd, Option.some.injEq] at hst
  subst hst
  set t₁ : Task ι α := { t with prog := k (), producing := t.producing.erase ino }
  -- every task after the step is a woken task of `st.setTask t₁`
  have hmem : ∀ u' ∈ ((st.setTask t₁).tasks.map (wake ino r)), ∃ u, u' = wake ino r u ∧
      (u = t₁ ∨ (u ∈ st.tasks ∧ u.id ≠ t.id)) := by
    intro u' hu'
    obtain ⟨u, hu, rfl⟩ := List.mem_map.mp hu'
    exact ⟨u, rfl, mem_setTask hu⟩
  have hinv : ∀ u, (u = t₁ ∨ u ∈ st.tasks) → u.prog.Sat O (Q u.arg) ∧
      Shaped cached st.readers u.prog ∧
      ∀ i, u.waiting = some i → ∃ k, u.prog = .exec (.fileLock i) k := by
    rintro u (rfl | hu)
    · exact ⟨hk () trivial, hsh.filePublish, fun _ hi => by simp only [t₁, hw] at hi; cases hi⟩
    · exact ⟨h.sat u hu, h.shaped u hu, h.waiting u hu⟩
  refine ⟨?_, ?_, h.blocks, fun i d hi => ?_, fun i hi => ?_, ?_, ?_, ?_, h.finished⟩
  · rw [List.map_map]
    have : (Task.id ∘ wake ino r : Task ι α → Nat) = Task.id := funext fun u => (wake_fields ino r u).1
    rw [this, map_id_setTask]
    exact h.nodup
  · intro u' hu'
    obtain ⟨u, rfl, hu⟩ := hmem u' hu'
    rw [(wake_fields ino r u).1]
    rcases hu with rfl | ⟨hu, -⟩
    · exact h.lt t ht
    · exact h.lt u hu
  · dsimp only at hi
    split_ifs at hi with hino
    · subst hino
      cases r with
      | ok d' => cases hi; exact hr
      | error e => cases hi
    · exact h.files i d hi
  · dsimp only at hi
    split_ifs at hi with hino
    · cases r <;> cases hi
    · obtain ⟨u, hu, hiu⟩ := h.loading i hi
      by_cases hut : u.id = t.id
      · rw [h.eq_of_id ht hu hut] at hiu
        refine ⟨wake ino r t₁, List.mem_map.mpr ⟨t₁, mem_setTask_self ht rfl, rfl⟩, ?_⟩
        rw [(wake_fields ino r t₁).2]
        exact (List.mem_erase_of_ne hino).mpr hiu
      · refine ⟨wake ino r u, List.mem_map.mpr ⟨u, List.mem_map.mpr ⟨u, hu, by simp [t₁, hut]⟩,
          rfl⟩, ?_⟩
        rw [(wake_fields ino r u).2]
        exact hiu
  all_goals
    intro u' hu'
    obtain ⟨u, rfl, hu⟩ := hmem u' hu'
    have := wake_inv hr (hinv u (hu.imp_right And.left)).1 (hinv u (hu.imp_right And.left)).2.1
      (hinv u (hu.imp_right And.left)).2.2
  · exact this.1
  · exact this.2.1
  · exact this.2.2

/-- **One command.**  A task that performs its command keeps the invariant. -/
theorem Inv.execCmd {st st' : System ι α} (h : Inv O cached Q st) {t : Task ι α}
    (ht : t ∈ st.tasks) (hw : t.waiting = none) {c : Cmd} {k : c.Answer → Prog α}
    (hp : t.prog = .exec c k) (hst : st.execCmd t c k = some st') : Inv O cached Q st' := by
  obtain ⟨hob, hk⟩ := (hp ▸ h.sat t ht).of_exec
  have hsh := hp ▸ h.shaped t ht
  have hwait : ∀ {p : Prog α}, ∀ ino, ({ t with prog := p } : Task ι α).waiting = some ino →
      ∃ k, p = .exec (.fileLock ino) k := fun _ hi => by simp only [hw] at hi; cases hi
  cases c with
  | blockGet s =>
    simp only [System.execCmd, Option.some.injEq] at hst
    subst hst
    refine (h.setTask ht { t with prog := k (st.blocks s) } rfl rfl (hk _ ?_) (hsh.blockGet _) hwait
      fun _ => id).with_trace _
    cases hb : st.blocks s
    · trivial
    · exact h.blocks s _ hb
  | blockInsert s d =>
    simp only [System.execCmd, Option.some.injEq] at hst
    subst hst
    refine (h.setTask ht { t with prog := k () } rfl rfl (hk () trivial) hsh.blockInsert hwait
      fun _ => id).with_blocks fun s' d' hs' => ?_
    split_ifs at hs' with hs
    · cases hs'; rw [hs.1]; exact hob
    · exact h.blocks s' d' hs'
  | decompressing s =>
    simp only [System.execCmd, Option.some.injEq] at hst
    subst hst
    exact (h.setTask ht { t with prog := k () } rfl rfl (hk () trivial) hsh.decompressing hwait
      fun _ => id).with_trace _
  | fileLock ino => exact h.fileLock ht hw hp hst
  | filePublish ino r => exact h.filePublish ht hw hp hst
  | readersCheck f =>
    simp only [System.execCmd] at hst
    split_ifs at hst
    split at hst <;> cases hst
    · exact h.setTask ht _ rfl rfl (hk _ trivial) (hsh.readersCheck _ fun _ => by simp [*])
        hwait fun _ => id
    · exact h.setTask ht _ rfl rfl (hk _ trivial) (hsh.readersCheck _ nofun) hwait fun _ => id
  | readersInsert f =>
    simp only [System.execCmd] at hst
    split_ifs at hst
    cases hst
    have hrd : ∀ f', st.readers f' ≠ none →
        (fun f'' => if f'' = f then some st.pools.length else st.readers f'') f' ≠ none := by
      intro f' hf'
      dsimp only
      split_ifs <;> simp [hf']
    exact (h.with_readers hrd (st.pools ++ [f])).setTask ht { t with prog := k (), writeLock := true }
      rfl rfl (hk () trivial) (hsh.readersInsert (by simp)) hwait fun _ => id
  | poolGet f =>
    simp only [System.execCmd] at hst
    split at hst
    · exact absurd ‹_› (hsh.poolGet).1
    · split_ifs at hst
      cases hst
      exact h.setTask ht _ rfl rfl (hk _ trivial) ((hsh.poolGet).2 _) hwait fun _ => id
  | poolPut p =>
    simp only [System.execCmd, Option.some.injEq] at hst
    subst hst
    exact h.setTask ht _ rfl rfl (hk () trivial) hsh.poolPut hwait fun _ => id

variable {progs : ι → Prog α}

/-- **One step.**  Every action the scheduler can take keeps the invariant, when the programs it
spawns keep to the oracle and are read tasks. -/
theorem Inv.step (hprogs : ∀ i, (progs i).Sat O (Q i) ∧ ∃ g l, (progs i).Guarded cached g l)
    {st st' : System ι α} (h : Inv O cached Q st) {a : Action ι}
    (hst : System.step progs st a = some st') : Inv O cached Q st' := by
  cases a with
  | spawn i =>
    cases hst
    exact h.spawn i (hprogs i).1 (hprogs i).2
  | run id =>
    obtain ⟨t, ht, -, hw, hcase⟩ := step_run hst
    rcases hcase with ⟨a, hp, rfl⟩ | ⟨e, hp, rfl⟩ | ⟨c, k, hp, hc⟩
    · exact h.finish ht (Prog.Sat.of_done (hp ▸ h.sat t ht))
    · exact h.finish ht (Prog.Sat.of_fail (hp ▸ h.sat t ht))
    · exact h.execCmd ht hw hp hc
  | evictBlock s =>
    cases hst
    refine h.with_blocks fun s' d hs' => ?_
    split_ifs at hs'
    exact h.blocks s' d hs'
  | evictFile ino =>
    simp only [System.step] at hst
    split at hst <;> cases hst
    refine ⟨h.nodup, h.lt, h.blocks, fun i d hi => ?_, fun i hi => ?_, h.sat, h.shaped, h.waiting,
      h.finished⟩
    · dsimp only at hi
      split_ifs at hi
      exact h.files i d hi
    · dsimp only at hi
      split_ifs at hi
      exact h.loading i hi

/-- **Every run.**  The invariant holds in every state reachable from the initial one. -/
theorem Inv.reachable (hprogs : ∀ i, (progs i).Sat O (Q i) ∧ ∃ g l, (progs i).Guarded cached g l)
    {fs : SquashFs} {st : System ι α} (hst : Reachable progs (System.init fs) st) :
    Inv O cached Q st := by
  induction hst with
  | init => exact Inv.init fs
  | step _ hs ih => exact ih.step hprogs hs

/-- Read tasks keep the bookkeeping of the invariant, whatever they compute. -/
theorem Inv.reachable_any (hg : ∀ i, ∃ g l, (progs i).Guarded cached g l) {fs : SquashFs}
    {st : System ι α} (hst : Reachable progs (System.init fs) st) :
    Inv Oracle.any cached (fun _ _ => True) st :=
  Inv.reachable (fun i => ⟨Prog.Sat.any _, hg i⟩) hst

end Invariant

/-! ### A task alone -/

section Alone

variable {progs : ι → Prog α}

theorem tasks_setTask_alone {st : System ι α} {t t' : Task ι α} (htasks : st.tasks = [t])
    (hid : t'.id = t.id) : (st.setTask t').tasks = [t'] := by
  simp [setTask, htasks, hid]

/-- The run of a lone task reaches its end, with its outcome recorded. -/
def Ends (progs : ι → Prog α) (st : System ι α) (t : Task ι α) : Prop :=
  ∃ n r st', runActions progs st (List.replicate n (.run t.id)) = some st' ∧ st'.tasks = [] ∧
    st'.finished = st.finished ++ [(t.id, t.arg, r)]

/-- A lone task that performs its command and then runs to its end from the next state. -/
theorem Ends.of_exec {st st₁ : System ι α} {t : Task ι α} (htasks : st.tasks = [t])
    (hw : t.waiting = none) {c : Cmd} {k : c.Answer → Prog α} (hp : t.prog = .exec c k)
    (h : st.execCmd t c k = some st₁) (t₁ : Task ι α) (hid : t₁.id = t.id) (harg : t₁.arg = t.arg)
    (hfin : st₁.finished = st.finished) (he : Ends progs st₁ t₁) : Ends progs st t := by
  obtain ⟨n, r, st', hrun, htasks', hf⟩ := he
  refine ⟨n + 1, r, st', ?_, htasks', by rw [hf, hfin, hid, harg]⟩
  rw [hid] at hrun
  simpa [List.replicate_succ, runActions, step, htasks, hw, hp, h] using hrun

theorem Ends.finish {st : System ι α} {t : Task ι α} (htasks : st.tasks = [t])
    (hw : t.waiting = none) {r : Except (Fault Error) α}
    (hp : t.prog = match r with | .ok a => .done a | .error e => .fail e) : Ends progs st t := by
  refine ⟨1, r, st.finish t r, ?_, by simp [System.finish, htasks], rfl⟩
  cases r <;> simp [runActions, step, htasks, hw, hp]

theorem checkedOut_alone {st : System ι α} {t : Task ι α} (htasks : st.tasks = [t]) (p : Nat) :
    st.checkedOut p = t.held.count p := by
  simp [checkedOut, htasks]

theorem wake_of_waiting_none {ino : Nat} {r : Except Error Bytes} {u : Task ι α}
    (h : u.waiting = none) : wake ino r u = u := by
  simp [wake, h]

/-- **A task alone runs to its end.**  A task of the shape of a read task that is the only task,
waits for nothing and holds no lock, has no reader checked out while it may still check one out,
produces no entry while it may still ask for one, and sees no entry being loaded but its own,
ends, when a pool lends at least one reader. -/
theorem ends_alone {cached g l : Bool} {p : Prog α} (hg : p.Guarded cached g l) :
    ∀ {st : System ι α} {t : Task ι α}, t.prog = p → st.tasks = [t] → t.waiting = none →
      t.readLock = false → t.writeLock = false → (g = true → t.held = []) →
      (l = true → t.producing = []) → (∀ ino, st.files ino = .loading → ino ∈ t.producing) →
      0 < st.nReaders → Ends progs st t := by
  induction hg with
  | done a => exact fun hp htasks hw _ _ _ _ _ _ => Ends.finish (r := .ok a) htasks hw hp
  | fail e => exact fun hp htasks hw _ _ _ _ _ _ => Ends.finish (r := .error e) htasks hw hp
  | @blockGet _ _ s k _ ih =>
    intro st t hp htasks hw hrl hwl hheld hprod hload hn
    exact Ends.of_exec htasks hw hp rfl { t with prog := k (st.blocks s) } rfl rfl rfl
      (ih _ rfl (tasks_setTask_alone htasks rfl) hw hrl hwl hheld hprod hload hn)
  | @blockGetDecompress _ _ s k k' _ hk _ ih₁ ih₂ =>
    intro st t hp htasks hw hrl hwl hheld hprod hload hn
    refine Ends.of_exec htasks hw hp rfl { t with prog := k (st.blocks s) } rfl rfl rfl ?_
    cases hb : st.blocks s with
    | some d => exact ih₁ d rfl (tasks_setTask_alone htasks rfl) hw hrl hwl hheld hprod hload hn
    | none =>
      refine Ends.of_exec (tasks_setTask_alone htasks rfl) hw hk rfl { t with prog := k' () }
        rfl rfl rfl ?_
      exact ih₂ rfl (tasks_setTask_alone (tasks_setTask_alone htasks rfl) rfl) hw hrl hwl hheld
        hprod hload hn
  | @decompressing _ _ s k _ _ ih =>
    intro st t hp htasks hw hrl hwl hheld hprod hload hn
    exact Ends.of_exec htasks hw hp rfl { t with prog := k () } rfl rfl rfl
      (ih rfl (tasks_setTask_alone htasks rfl) hw hrl hwl hheld hprod hload hn)
  | @blockInsert _ _ s d k _ ih =>
    intro st t hp htasks hw hrl hwl hheld hprod hload hn
    exact Ends.of_exec htasks hw hp rfl { t with prog := k () } rfl rfl rfl
      (ih rfl (tasks_setTask_alone htasks rfl) hw hrl hwl hheld hprod hload hn)
  | @fileLock _ ino k _ ih =>
    intro st t hp htasks hw hrl hwl hheld hprod hload hn
    have hnone := hprod rfl
    cases hslot : st.files ino with
    | ready d =>
      have h₁ : st.execCmd t (.fileLock ino) k =
          some (st.setTask { t with prog := k (.result (.ok d)) }) := by
        simp only [execCmd, hslot]
      exact Ends.of_exec htasks hw hp h₁ { t with prog := k (.result (.ok d)) } rfl rfl rfl
        (ih _ rfl (tasks_setTask_alone htasks rfl) hw hrl hwl hheld nofun hload hn)
    | absent =>
      have h₁ : st.execCmd t (.fileLock ino) k = some
          { st.setTask { t with prog := k .produce, producing := ino :: t.producing } with
            files := fun i => if i = ino then .loading else st.files i } := by
        simp only [execCmd, hslot]
      refine Ends.of_exec htasks hw hp h₁
        { t with prog := k .produce, producing := ino :: t.producing } rfl rfl rfl
        (ih _ rfl (tasks_setTask_alone htasks rfl) hw hrl hwl hheld nofun (fun i hi => ?_) hn)
      dsimp only at hi
      split_ifs at hi with hino
      · exact hino ▸ List.mem_cons_self _ _
      · exact absurd (hload i hi) (by simp [hnone])
    | loading => exact absurd (hload ino hslot) (by simp [hnone])
  | @filePublish _ _ ino r k _ ih =>
    intro st t hp htasks hw hrl hwl hheld hprod hload hn
    refine Ends.of_exec htasks hw hp rfl { t with prog := k (), producing := t.producing.erase ino }
      rfl rfl rfl (ih rfl ?_ hw hrl hwl (fun hg => ?_) (fun hl => ?_) (fun i hi => ?_) hn)
    · simp [setTask, htasks, wake_of_waiting_none, hw]
    · exact hheld hg
    · simp [hprod hl]
    · dsimp only at hi
      split_ifs at hi with hino
      · cases r <;> cases hi
      · exact (List.mem_erase_of_ne hino).mpr (hload i hi)
  | @readersCheck l f k k' htrue _ _ ih₁ ih₂ =>
    intro st t hp htasks hw hrl hwl hheld hprod hload hn
    have hwl' : st.writeLocked = false := by simp [writeLocked, htasks, hwl]
    cases hf : st.readers f with
    | some q =>
      have h₁ : st.execCmd t (.readersCheck f) k =
          some (st.setTask { t with prog := k true, readLock := true }) := by
        simp [execCmd, hwl', hf]
      refine Ends.of_exec htasks hw hp h₁ { t with prog := k true, readLock := true } rfl rfl rfl ?_
      have htasks₁ := tasks_setTask_alone htasks
        (rfl : ({ t with prog := k true, readLock := true } : Task ι α).id = t.id)
      have h₂ : (st.setTask { t with prog := k true, readLock := true }).execCmd
          { t with prog := k true, readLock := true } (.poolGet f) k' = some
            ((st.setTask { t with prog := k true, readLock := true }).setTask
              { t with prog := k' q, held := q :: t.held, readLock := false, writeLock := false }) := by
        simp only [execCmd, setTask_readers, hf]
        rw [checkedOut_alone htasks₁, if_pos (by simp [hheld rfl, hn])]
      exact Ends.of_exec htasks₁ hw htrue h₂
        { t with prog := k' q, held := q :: t.held, readLock := false, writeLock := false }
        rfl rfl rfl (ih₁ q rfl (tasks_setTask_alone htasks₁ rfl) hw rfl rfl nofun hprod hload hn)
    | none =>
      have h₁ : st.execCmd t (.readersCheck f) k = some (st.setTask { t with prog := k false }) := by
        simp [execCmd, hwl', hf]
      exact Ends.of_exec htasks hw hp h₁ { t with prog := k false } rfl rfl rfl
        (ih₂ rfl (tasks_setTask_alone htasks rfl) hw hrl hwl hheld hprod hload hn)
  | @readersInsert l f k' _ ih =>
    intro st t hp htasks hw hrl hwl hheld hprod hload hn
    have hfree : (st.writeLocked ∨ st.readLocked) = False := by
      simp [writeLocked, readLocked, htasks, hwl, hrl]
    set t₁ : Task ι α := { t with prog := .exec (.poolGet f) k', writeLock := true }
    set st₁ : System ι α :=
      { st.setTask t₁ with
        pools := st.pools ++ [f]
        readers := fun f' => if f' = f then some st.pools.length else st.readers f' }
    have h₁ : st.execCmd t (.readersInsert f) (fun _ => .exec (.poolGet f) k') = some st₁ := by
      simp only [execCmd, hfree, if_false]
    refine Ends.of_exec htasks hw hp h₁ t₁ rfl rfl rfl ?_
    have htasks₁ : st₁.tasks = [t₁] := tasks_setTask_alone htasks rfl
    set t₂ : Task ι α :=
      { t with prog := k' st.pools.length, held := st.pools.length :: t.held, readLock := false,
               writeLock := false }
    have h₂ : st₁.execCmd t₁ (.poolGet f) k' = some (st₁.setTask t₂) := by
      have hr : st₁.readers f = some st.pools.length := by simp [st₁]
      simp only [execCmd, hr, ite_true]
      rw [checkedOut_alone htasks₁, if_pos (by simp [t₁, hheld rfl, hn])]
    exact Ends.of_exec htasks₁ hw rfl h₂ t₂ rfl rfl rfl
      (ih _ rfl (tasks_setTask_alone htasks₁ rfl) hw rfl rfl nofun hprod hload hn)
  | @poolPut _ _ q k _ ih =>
    intro st t hp htasks hw hrl hwl hheld hprod hload hn
    exact Ends.of_exec htasks hw hp rfl { t with prog := k (), held := t.held.erase q } rfl rfl rfl
      (ih rfl (tasks_setTask_alone htasks rfl) hw hrl hwl (fun hg => by simp [hheld hg]) hprod hload
        hn)

/-- **A read spawned on an idle system ends.**  From a state with no task and no entry being
loaded, a spawned read task, run alone, ends with its outcome recorded. -/
theorem ends_spawn {cached : Bool} {i : ι} (hg : (progs i).Guarded cached true true)
    {st : System ι α} (hidle : st.tasks = []) (hload : ∀ ino, st.files ino ≠ .loading)
    (hn : 0 < st.nReaders) :
    ∃ n r st', runActions progs st (.spawn i :: List.replicate n (.run st.nextId)) = some st' ∧
      st'.tasks = [] ∧ st'.finished = st.finished ++ [(st.nextId, i, r)] := by
  obtain ⟨n, r, st', hrun, htasks, hfin⟩ := ends_alone hg rfl
    (rfl : ({ st with tasks := [Task.new st.nextId i (progs i)], nextId := st.nextId + 1 } :
      System ι α).tasks = _) rfl rfl rfl (fun _ => rfl) (fun _ => rfl)
    (fun ino h => absurd h (hload ino)) hn
  exact ⟨n, r, st', by simpa [runActions, step, hidle] using hrun, htasks, hfin⟩

end Alone

end System

end SquashfsAsync
