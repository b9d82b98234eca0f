import SquashfsAsync.Equiv.Concurrent

/-!
# No deadlock among concurrent reads

A read task waits at four points: for the producer of a whole-file entry being loaded, for the
read lock of the map of pools while another task holds its write lock, for the write lock while
any task holds a lock, and for a reader while its pool has lent `n_readers`.  `read_file` takes
these in one order: the whole-file entry first (`Prog.ReaderLast`), then a lock, then a reader,
which drops the lock; with its reader it waits for nothing.  So however the scheduler interleaves
the reads, while one is in flight some read can take its next step (`readTask_progress`).

* `Stage`: where a task stands in that order, with the locks and readers it holds;
* `Ordered`: every task has a stage, the write lock excludes every other lock, its holder checks
  out from a pool none of whose readers is out, pools are numbered below their count, and a
  waiting task waits for an entry being loaded; it holds in every reachable state
  (`Ordered.reachable`);
* `Ordered.progress`: in such a state a task not waiting can go on, or else the task it waits
  for, or the holder of a lock, or a task holding a reader of the pool it waits for can.
-/

namespace SquashfsAsync

namespace System

variable {ι α : Type} {cached : Bool}

/-! ### Stages -/

/-- A program that asks for no whole-file entry, or that stands at the decompression following
a miss; it checks out a reader only if `g`. -/
def Calm (cached g : Bool) (p : Prog α) : Prop :=
  p.Guarded cached g false ∨ ∃ s k, p = .exec (.decompressing s) k ∧ (k ()).Guarded cached g false

namespace Calm

variable {g : Bool}

theorem blockGet {s : Nat} {k : Option Bytes → Prog α} (h : Calm cached g (.exec (.blockGet s) k))
    (r : Option Bytes) : Calm cached g (k r) := by
  rcases h with h | ⟨_, _, h, -⟩
  · cases h with
    | blockGet hk => exact .inl (hk r)
    | blockGetDecompress hk hnone hk' =>
      cases r with
      | some d => exact .inl (hk d)
      | none => exact .inr ⟨s, _, hnone, hk'⟩
  · cases h

theorem blockInsert {s : Nat} {d : Bytes} {k : Unit → Prog α}
    (h : Calm cached g (.exec (.blockInsert s d) k)) : Calm cached g (k ()) := by
  rcases h with h | ⟨_, _, h, -⟩
  · cases h with | blockInsert hk => exact .inl hk
  · cases h

theorem decompressing {s : Nat} {k : Unit → Prog α}
    (h : Calm cached g (.exec (.decompressing s) k)) : Calm cached g (k ()) := by
  rcases h with h | ⟨_, _, h, hk⟩
  · cases h with | decompressing _ hk => exact .inl hk
  · cases h
    exact .inl hk

theorem filePublish {ino : Nat} {r : Except Error Bytes} {k : Unit → Prog α}
    (h : Calm cached g (.exec (.filePublish ino r) k)) : Calm cached g (k ()) := by
  rcases h with h | ⟨_, _, h, -⟩
  · cases h with | filePublish hk => exact .inl hk
  · cases h

theorem poolPut {p : Nat} {k : Unit → Prog α} (h : Calm cached g (.exec (.poolPut p) k)) :
    Calm cached g (k ()) := by
  rcases h with h | ⟨_, _, h, -⟩
  · cases h with | poolPut hk => exact .inl hk
  · cases h

/-- A look at the map: on a hit the checkout follows, and nothing shared after it. -/
theorem readersCheck {f : ReadFlags} {k : Bool → Prog α}
    (h : Calm cached g (.exec (.readersCheck f) k)) :
    (∃ k', k true = .exec (.poolGet f) k' ∧ ∀ n, (k' n).Guarded cached false false) ∧
      (k false).Guarded cached g false := by
  rcases h with h | ⟨_, _, h, -⟩
  · cases h with | readersCheck htrue hk hfalse => exact ⟨⟨_, htrue, hk⟩, hfalse⟩
  · cases h

/-- An insertion into the map: the checkout from the new pool follows. -/
theorem readersInsert {f : ReadFlags} {k : Unit → Prog α}
    (h : Calm cached g (.exec (.readersInsert f) k)) :
    ∃ k', k () = .exec (.poolGet f) k' ∧ ∀ n, (k' n).Guarded cached false false := by
  rcases h with h | ⟨_, _, h, -⟩
  · cases h with | readersInsert hk => exact ⟨_, rfl, hk⟩
  · cases h

theorem not_fileLock {ino : Nat} {k : FileAnswer → Prog α}
    (h : Calm cached g (.exec (.fileLock ino) k)) : False := by
  rcases h with h | ⟨_, _, h, -⟩ <;> cases h

theorem not_poolGet {f : ReadFlags} {k : Nat → Prog α}
    (h : Calm cached g (.exec (.poolGet f) k)) : False := by
  rcases h with h | ⟨_, _, h, -⟩ <;> cases h

/-- After its checkout a task looks at the map no more. -/
theorem not_readers {c : Cmd} {k : c.Answer → Prog α} (h : Calm cached false (.exec c k))
    (hc : (∃ f, c = .readersCheck f) ∨ ∃ f, c = .readersInsert f) : False := by
  rcases hc with ⟨f, rfl⟩ | ⟨f, rfl⟩ <;> rcases h with h | ⟨_, _, h, -⟩ <;> cases h

end Calm

/-- Where a task stands in the order of its waits, with the locks and readers it holds. -/
inductive Stage (cached : Bool) (t : Task ι α) : Prop
  /-- At its request for the whole-file entry, which comes first, holding nothing; it may be
  waiting there. -/
  | atFileLock {ino : Nat} {k : FileAnswer → Prog α} :
      t.prog = .exec (.fileLock ino) k → (∀ r, (k r).Guarded cached true false) → t.held = [] →
      t.readLock = false → t.writeLock = false → t.producing = [] → Stage cached t
  /-- Running without a lock; before its reader (`g`) it holds none. -/
  | running {g : Bool} : Calm cached g t.prog → (g = true → t.held = []) → t.readLock = false →
      t.writeLock = false → t.waiting = none → Stage cached t
  /-- At its checkout, holding the read or the write lock and no reader. -/
  | atCheckout {f : ReadFlags} {k : Nat → Prog α} :
      t.prog = .exec (.poolGet f) k → (∀ n, (k n).Guarded cached false false) → t.held = [] →
      (t.readLock = true ∨ t.writeLock = true) → t.waiting = none → Stage cached t

/-- A task that holds a reader runs without a lock, past its checkout. -/
theorem Stage.of_held {t : Task ι α} (hs : Stage cached t) (hheld : t.held ≠ []) :
    Calm cached false t.prog ∧ t.waiting = none := by
  cases hs with
  | atFileLock _ _ hh => exact absurd hh hheld
  | atCheckout _ _ hh => exact absurd hh hheld
  | @running g hc hh _ _ hw =>
    cases g with
    | true => exact absurd (hh rfl) hheld
    | false => exact ⟨hc, hw⟩

/-- A task that holds a lock is at its checkout. -/
theorem Stage.of_lock {t : Task ι α} (hs : Stage cached t)
    (hl : t.readLock = true ∨ t.writeLock = true) :
    ∃ f k, t.prog = .exec (.poolGet f) k ∧ (∀ n, (k n).Guarded cached false false) ∧
      t.held = [] ∧ t.waiting = none := by
  cases hs with
  | atFileLock _ _ _ hr hw' => simp_all
  | running _ _ hr hw' => simp_all
  | atCheckout hp hk hh _ hw => exact ⟨_, _, hp, hk, hh, hw⟩

/-- A task that waits stands at its request for the entry. -/
theorem Stage.of_waiting {t : Task ι α} (hs : Stage cached t) {ino : Nat}
    (hw : t.waiting = some ino) : t.producing = [] := by
  cases hs with
  | atFileLock _ _ _ _ _ hp => exact hp
  | running _ _ _ _ hw' => simp_all
  | atCheckout _ _ _ _ hw' => simp_all

/-- A task of a running command: not at its request for an entry nor at its checkout, it runs
without a lock. -/
theorem Stage.running_of {t : Task ι α} (hs : Stage cached t) {c : Cmd} {k : c.Answer → Prog α}
    (hp : t.prog = .exec c k) (hfl : ∀ ino, c ≠ .fileLock ino) (hpg : ∀ f, c ≠ .poolGet f) :
    ∃ g, Calm cached g t.prog ∧ (g = true → t.held = []) ∧ t.readLock = false ∧
      t.writeLock = false ∧ t.waiting = none := by
  cases hs with
  | atFileLock hp' =>
    rw [hp] at hp'
    exact absurd (Prog.exec.inj hp').1 (hfl _)
  | running hc hh hr hw' hw => exact ⟨_, hc, hh, hr, hw', hw⟩
  | atCheckout hp' =>
    rw [hp] at hp'
    exact absurd (Prog.exec.inj hp').1 (hpg _)

theorem Stage.with_waiting {t : Task ι α} (hs : Stage cached t) {w : Option Nat}
    (hw : w = t.waiting ∨ w = none) : Stage cached { t with waiting := w } := by
  cases hs with
  | atFileLock hp hk hh hr hwl hpr => exact .atFileLock hp hk hh hr hwl hpr
  | running hc hh hr hwl hw' =>
    exact .running hc hh hr hwl (by rcases hw with rfl | rfl <;> simp_all)
  | atCheckout hp hk hh hl hw' =>
    exact .atCheckout hp hk hh hl (by rcases hw with rfl | rfl <;> simp_all)

/-- A task handed the result it waited for runs on, before its reader. -/
theorem Stage.wake {t : Task ι α} (hs : Stage cached t) (ino : Nat) (r : Except Error Bytes) :
    Stage cached (wake ino r t) := by
  rcases wake_cases ino r t with he | ⟨ino', k, hw, hp, he⟩
  · rw [he]; exact hs
  · rw [he]
    cases hs with
    | atFileLock hp' hk hh hr hwl =>
      rw [hp] at hp'
      obtain ⟨-, hkk⟩ := Prog.exec.inj hp'
      cases hkk
      exact .running (g := true) (.inl (hk _)) (fun _ => hh) hr hwl rfl
    | running _ _ _ _ hw' => simp_all
    | atCheckout _ _ _ _ hw' => simp_all

/-! ### The order over the whole system -/

/-- The order of waits, over all tasks. -/
structure Ordered (cached : Bool) (st : System ι α) : Prop where
  stage : ∀ t ∈ st.tasks, Stage cached t
  /-- The write lock excludes every other lock. -/
  exclusive : ∀ t ∈ st.tasks, t.writeLock = true → ∀ u ∈ st.tasks, u.id ≠ t.id →
    u.readLock = false ∧ u.writeLock = false
  /-- Its holder checks out from a pool none of whose readers is out. -/
  fresh : ∀ t ∈ st.tasks, t.writeLock = true → ∀ f k, t.prog = .exec (.poolGet f) k →
    ∃ p, st.readers f = some p ∧ ∀ u ∈ st.tasks, p ∉ u.held
  /-- Pools are numbered below their count. -/
  held_lt : ∀ t ∈ st.tasks, ∀ p ∈ t.held, p < st.pools.length
  readers_lt : ∀ f p, st.readers f = some p → p < st.pools.length
  /-- A waiting task waits for an entry being loaded. -/
  waiting : ∀ t ∈ st.tasks, ∀ ino, t.waiting = some ino → st.files ino = .loading

theorem Ordered.init (fs : SquashFs) : Ordered cached (System.init fs : System ι α) where
  stage := nofun
  exclusive := nofun
  fresh := nofun
  held_lt := nofun
  readers_lt f p hp := by
    simp only [System.init] at hp ⊢
    split_ifs at hp <;> cases hp <;> simp
  waiting := nofun

/-- Only the tasks, the map of pools and the slots being loaded matter. -/
theorem Ordered.congr {st st' : System ι α} (h : Ordered cached st) (htasks : st'.tasks = st.tasks)
    (hrd : st'.readers = st.readers) (hpools : st'.pools = st.pools)
    (hfiles : ∀ i, st.files i = .loading → st'.files i = .loading) : Ordered cached st' where
  stage := htasks ▸ h.stage
  exclusive := htasks ▸ h.exclusive
  fresh := htasks ▸ hrd ▸ h.fresh
  held_lt := htasks ▸ hpools ▸ h.held_lt
  readers_lt := hrd ▸ hpools ▸ h.readers_lt
  waiting t ht ino hw := hfiles ino (h.waiting t (htasks ▸ ht) ino hw)

/-- A task replaced by one that holds no lock and no other reader keeps the order. -/
theorem Ordered.setTask_free {st : System ι α} (h : Ordered cached st) {t t' : Task ι α}
    (ht : t ∈ st.tasks) (hid : t'.id = t.id) (hs : Stage cached t') (hrl : t'.readLock = false)
    (hwl : t'.writeLock = false) (hheld : ∀ p ∈ t'.held, p ∈ t.held)
    (hwait : ∀ ino, t'.waiting = some ino → st.files ino = .loading) :
    Ordered cached (st.setTask t') where
  stage u hu := by
    rcases mem_setTask hu with rfl | ⟨hu, -⟩
    · exact hs
    · exact h.stage u hu
  exclusive w hw hwl' u hu hid' := by
    rcases mem_setTask hw with rfl | ⟨hw, -⟩
    · simp_all
    rcases mem_setTask hu with rfl | ⟨hu, -⟩
    · exact ⟨hrl, hwl⟩
    · exact h.exclusive w hw hwl' u hu hid'
  fresh w hw hwl' f k hp := by
    rcases mem_setTask hw with rfl | ⟨hw, -⟩
    · simp_all
    obtain ⟨p, hf, hfree⟩ := h.fresh w hw hwl' f k hp
    refine ⟨p, hf, fun u hu hpu => ?_⟩
    rcases mem_setTask hu with rfl | ⟨hu, -⟩
    · exact hfree t ht (hheld p hpu)
    · exact hfree u hu hpu
  held_lt u hu p hp := by
    rcases mem_setTask hu with rfl | ⟨hu, -⟩
    · exact h.held_lt t ht p (hheld p hp)
    · exact h.held_lt u hu p hp
  readers_lt := h.readers_lt
  waiting u hu := by
    rcases mem_setTask hu with rfl | ⟨hu, -⟩
    · exact hwait
    · exact h.waiting u hu

/-- A task replaced by one at its checkout, or past it, when no other task holds the write
lock. -/
theorem Ordered.setTask_noWriter {st : System ι α} (h : Ordered cached st) {t' : Task ι α}
    (hs : Stage cached t') (hwl : t'.writeLock = false)
    (hnone : ∀ u ∈ st.tasks, u.id ≠ t'.id → u.writeLock = false)
    (hheld : ∀ p ∈ t'.held, p < st.pools.length)
    (hwait : ∀ ino, t'.waiting = some ino → st.files ino = .loading) :
    Ordered cached (st.setTask t') where
  stage u hu := by
    rcases mem_setTask hu with rfl | ⟨hu, -⟩
    · exact hs
    · exact h.stage u hu
  exclusive w hw hwl' := by
    rcases mem_setTask hw with rfl | ⟨hw, hid⟩ <;> simp_all
  fresh w hw hwl' := by
    rcases mem_setTask hw with rfl | ⟨hw, hid⟩ <;> simp_all
  held_lt u hu := by
    rcases mem_setTask hu with rfl | ⟨hu, -⟩
    · exact hheld
    · exact h.held_lt u hu
  readers_lt := h.readers_lt
  waiting u hu := by
    rcases mem_setTask hu with rfl | ⟨hu, -⟩
    · exact hwait
    · exact h.waiting u hu

/-- A task without a lock goes on to `p'`. -/
theorem Ordered.run_calm {st : System ι α} (h : Ordered cached st) {t : Task ι α}
    (ht : t ∈ st.tasks) (hw : t.waiting = none) {g : Bool} {p' : Prog α} (hc : Calm cached g p')
    (hheld : g = true → t.held = []) (hrl : t.readLock = false) (hwl : t.writeLock = false) :
    Ordered cached (st.setTask { t with prog := p' }) :=
  h.setTask_free ht rfl (.running hc hheld hrl hwl hw) hrl hwl (fun _ => id) (by simp [hw])

theorem Stage.atFileLock_of {t : Task ι α} (hs : Stage cached t) {ino : Nat}
    {k : FileAnswer → Prog α} (hp : t.prog = .exec (.fileLock ino) k) :
    (∀ r, (k r).Guarded cached true false) ∧ t.held = [] ∧ t.readLock = false ∧
      t.writeLock = false ∧ t.producing = [] := by
  cases hs with
  | atFileLock hp' hk hh hr hwl hpr =>
    rw [hp] at hp'
    obtain ⟨-, hkk⟩ := Prog.exec.inj hp'
    cases hkk
    exact ⟨hk, hh, hr, hwl, hpr⟩
  | running hc => rw [hp] at hc; exact hc.not_fileLock.elim
  | atCheckout hp' => rw [hp] at hp'; cases hp'

theorem Stage.atPoolGet_of {t : Task ι α} (hs : Stage cached t) {f : ReadFlags}
    {k : Nat → Prog α} (hp : t.prog = .exec (.poolGet f) k) :
    (∀ n, (k n).Guarded cached false false) ∧ t.held = [] ∧
      (t.readLock = true ∨ t.writeLock = true) := by
  cases hs with
  | atFileLock hp' => rw [hp] at hp'; cases hp'
  | running hc => rw [hp] at hc; exact hc.not_poolGet.elim
  | atCheckout hp' hk hh hl =>
    rw [hp] at hp'
    obtain ⟨-, hkk⟩ := Prog.exec.inj hp'
    cases hkk
    exact ⟨hk, hh, hl⟩

theorem writeLock_of_not_writeLocked {st : System ι α} (h : ¬st.writeLocked = true)
    {u : Task ι α} (hu : u ∈ st.tasks) : u.writeLock = false := by
  simp only [writeLocked, List.any_eq_true, not_exists, not_and] at h
  simpa using h u hu

theorem readLock_of_not_readLocked {st : System ι α} (h : ¬st.readLocked = true)
    {u : Task ι α} (hu : u ∈ st.tasks) : u.readLock = false := by
  simp only [readLocked, List.any_eq_true, not_exists, not_and] at h
  simpa using h u hu

/-- A waiting task's wait is over once the entry it waits for is published. -/
theorem wake_waiting {u : Task ι α} (hwait : ∀ i, u.waiting = some i → ∃ k, u.prog = .exec (.fileLock i) k)
    {ino i : Nat} {r : Except Error Bytes} (h : (wake ino r u).waiting = some i) :
    u.waiting = some i ∧ i ≠ ino := by
  unfold wake at h
  split_ifs at h with h₁
  · obtain ⟨k, hk⟩ := hwait ino h₁
    rw [hk] at h
    cases h
  · exact ⟨h, fun hi => h₁ (hi ▸ h)⟩

theorem wake_locks (ino : Nat) (r : Except Error Bytes) (u : Task ι α) :
    (wake ino r u).readLock = u.readLock ∧ (wake ino r u).writeLock = u.writeLock ∧
      (wake ino r u).held = u.held ∧ (wake ino r u).id = u.id := by
  rcases wake_cases ino r u with he | ⟨_, _, _, _, he⟩ <;> rw [he] <;> exact ⟨rfl, rfl, rfl, rfl⟩

/-- The tasks waiting for an entry get its result. -/
theorem Ordered.wake {st : System ι α} (h : Ordered cached st)
    (hwait : ∀ u ∈ st.tasks, ∀ i, u.waiting = some i → ∃ k, u.prog = .exec (.fileLock i) k)
    (ino : Nat) (r : Except Error Bytes) {files : Nat → FileSlot}
    (hfiles : ∀ i, i ≠ ino → files i = st.files i) :
    Ordered cached { st with tasks := st.tasks.map (wake ino r), files := files } where
  stage v hv := by
    obtain ⟨u, hu, rfl⟩ := List.mem_map.mp hv
    exact (h.stage u hu).wake ino r
  exclusive w' hw' hwl' v hv hid := by
    obtain ⟨w, hw, rfl⟩ := List.mem_map.mp hw'
    obtain ⟨u, hu, rfl⟩ := List.mem_map.mp hv
    obtain ⟨-, hwl, -, hwid⟩ := wake_locks ino r w
    obtain ⟨hurl, huwl, -, huid⟩ := wake_locks ino r u
    rw [hurl, huwl]
    exact h.exclusive w hw (hwl ▸ hwl') u hu (by rw [← hwid, ← huid]; exact hid)
  fresh w' hw' hwl' f k hp := by
    obtain ⟨w, hw, rfl⟩ := List.mem_map.mp hw'
    rw [(wake_locks ino r w).2.1] at hwl'
    obtain ⟨-, -, -, -, -, hnw⟩ := (h.stage w hw).of_lock (.inr hwl')
    rw [wake_of_waiting_none hnw] at hp
    obtain ⟨p, hf, hfree⟩ := h.fresh w hw hwl' f k hp
    refine ⟨p, hf, fun v hv => ?_⟩
    obtain ⟨u, hu, rfl⟩ := List.mem_map.mp hv
    rw [(wake_locks ino r u).2.2.1]
    exact hfree u hu
  held_lt v hv := by
    obtain ⟨u, hu, rfl⟩ := List.mem_map.mp hv
    rw [(wake_locks ino r u).2.2.1]
    exact h.held_lt u hu
  readers_lt := h.readers_lt
  waiting v hv i hi := by
    obtain ⟨u, hu, rfl⟩ := List.mem_map.mp hv
    obtain ⟨hwu, hne⟩ := wake_waiting (hwait u hu) hi
    show files i = _
    rw [hfiles i hne]
    exact h.waiting u hu i hwu

/-- After retries the tasks still waiting wait for entries the ended task did not produce. -/
theorem foldr_retry_waiting : ∀ (l : List Nat) (u : Task ι α) {i : Nat},
    (l.foldr retry u).waiting = some i → u.waiting = some i ∧ i ∉ l
  | [], _, _, h => ⟨h, List.not_mem_nil _⟩
  | ino :: l, u, i, h => by
    rw [List.foldr_cons, retry] at h
    -- a retry for `ino` leaves no task waiting for it
    split_ifs at h with h₁
    obtain ⟨hu, hl⟩ := foldr_retry_waiting l u h
    exact ⟨hu, List.not_mem_cons_of_ne_of_not_mem (fun he => h₁ (he ▸ h)) hl⟩

/-- A task ends: it is removed with what it holds. -/
theorem Ordered.finish {st : System ι α} (h : Ordered cached st) (t : Task ι α)
    (r : Except (Fault Error) α) : Ordered cached (st.finish t r) := by
  have hmem : ∀ v ∈ (st.finish t r).tasks, ∃ u ∈ st.tasks, ∃ w, v = { u with waiting := w } ∧
      (w = u.waiting ∨ w = none) := by
    intro v hv
    obtain ⟨u, hu, -, rfl⟩ := mem_finish hv
    obtain ⟨w, he, hw⟩ := foldr_retry t.producing u
    exact ⟨u, hu, w, he, hw⟩
  refine ⟨fun v hv => ?_, fun w' hw' hwl' v hv hid => ?_, fun w' hw' hwl' f k hp => ?_,
    fun v hv => ?_, h.readers_lt, fun v hv i hi => ?_⟩
  · obtain ⟨u, hu, w, rfl, hw⟩ := hmem v hv
    exact (h.stage u hu).with_waiting hw
  · obtain ⟨w, hw, _, rfl, -⟩ := hmem w' hw'
    obtain ⟨u, hu, _, rfl, -⟩ := hmem v hv
    exact h.exclusive w hw hwl' u hu hid
  · obtain ⟨w, hw, _, rfl, -⟩ := hmem w' hw'
    obtain ⟨p, hf, hfree⟩ := h.fresh w hw hwl' f k hp
    refine ⟨p, hf, fun v hv => ?_⟩
    obtain ⟨u, hu, _, rfl, -⟩ := hmem v hv
    exact hfree u hu
  · obtain ⟨u, hu, _, rfl, -⟩ := hmem v hv
    exact h.held_lt u hu
  · obtain ⟨u, hu, -, rfl⟩ := mem_finish hv
    obtain ⟨hwu, hnot⟩ := foldr_retry_waiting t.producing u hi
    simp only [System.finish, if_neg hnot]
    exact h.waiting u hu i hwu

/-- A fresh task starts at its request for the entry, or before its reader. -/
theorem Stage.new {p : Prog α} (hp : p.ReaderLast cached) (id : Nat) (i : ι) :
    Stage cached (Task.new id i p) := by
  cases hp with
  | guarded hg => exact .running (g := true) (.inl hg) (fun _ => rfl) rfl rfl rfl
  | fileLock hk => exact .atFileLock rfl hk rfl rfl rfl rfl

theorem Ordered.spawn {st : System ι α} (h : Ordered cached st) {p : Prog α}
    (hp : p.ReaderLast cached) (i : ι) :
    Ordered cached
      { st with tasks := st.tasks ++ [Task.new st.nextId i p], nextId := st.nextId + 1 } := by
  have hmem : ∀ v ∈ st.tasks ++ [Task.new st.nextId i p], v ∈ st.tasks ∨ v = Task.new st.nextId i p :=
    fun v hv => (List.mem_append.mp hv).imp_right List.mem_singleton.mp
  refine ⟨fun v hv => ?_, fun w hw hwl v hv hid => ?_, fun w hw hwl f k hpw => ?_,
    fun v hv => ?_, h.readers_lt, fun v hv => ?_⟩
  · rcases hmem v hv with hv | rfl
    · exact h.stage v hv
    · exact .new hp _ _
  · rcases hmem w hw with hw | rfl
    · rcases hmem v hv with hv | rfl
      · exact h.exclusive w hw hwl v hv hid
      · exact ⟨rfl, rfl⟩
    · cases hwl
  · rcases hmem w hw with hw | rfl
    · obtain ⟨q, hf, hfree⟩ := h.fresh w hw hwl f k hpw
      refine ⟨q, hf, fun v hv => ?_⟩
      rcases hmem v hv with hv | rfl
      · exact hfree v hv
      · exact List.not_mem_nil _
    · cases hwl
  · rcases hmem v hv with hv | rfl
    · exact h.held_lt v hv
    · exact nofun
  · rcases hmem v hv with hv | rfl
    · exact h.waiting v hv
    · exact nofun

section Step

variable {O : Oracle} {Q : ι → Except (Fault Error) α → Prop}

/-- A look at the map: on a hit the task takes the read lock, which no writer holds. -/
theorem Ordered.readersCheck {st st' : System ι α} (h : Ordered cached st) {t : Task ι α}
    (ht : t ∈ st.tasks) (hw : t.waiting = none) {f : ReadFlags} {k : Bool → Prog α}
    (hp : t.prog = .exec (.readersCheck f) k) (hst : st.execCmd t (.readersCheck f) k = some st') :
    Ordered cached st' := by
  obtain ⟨g, hc, hheld, hrl, hwl, -⟩ :=
    (h.stage t ht).running_of hp (fun _ => nofun) (fun _ => nofun)
  rw [hp] at hc
  cases g with
  | false => exact (hc.not_readers (.inl ⟨f, rfl⟩)).elim
  | true =>
    obtain ⟨⟨k', hk', hg'⟩, hfalse⟩ := hc.readersCheck
    simp only [execCmd] at hst
    split_ifs at hst with hlocked
    split at hst <;> cases hst
    · -- a hit: the read lock, then the checkout
      exact h.setTask_noWriter (.atCheckout hk' hg' (hheld rfl) (.inl rfl) hw) hwl
        (fun u hu _ => writeLock_of_not_writeLocked hlocked hu) (h.held_lt t ht) (by simp [hw])
    · exact h.run_calm ht hw (.inl hfalse) hheld hrl hwl

/-- An insertion into the map: the task takes the write lock, which excludes every other lock,
and checks out next from the new pool, whose readers are all in. -/
theorem Ordered.readersInsert {st st' : System ι α} (h : Ordered cached st) {t : Task ι α}
    (ht : t ∈ st.tasks) (hw : t.waiting = none) {f : ReadFlags} {k : Unit → Prog α}
    (hp : t.prog = .exec (.readersInsert f) k)
    (hst : st.execCmd t (.readersInsert f) k = some st') : Ordered cached st' := by
  obtain ⟨g, hc, hheld, -, -, -⟩ :=
    (h.stage t ht).running_of hp (fun _ => nofun) (fun _ => nofun)
  rw [hp] at hc
  obtain ⟨k', hk', hg'⟩ := hc.readersInsert
  cases g with
  | false => exact (hc.not_readers (.inr ⟨f, rfl⟩)).elim
  | true =>
    simp only [execCmd] at hst
    split_ifs at hst with hlocked
    cases hst
    obtain ⟨hnw, hnr⟩ := not_or.mp hlocked
    have hmem := fun v (hv : v ∈ (st.setTask { t with prog := k (), writeLock := true }).tasks) =>
      mem_setTask hv
    refine ⟨fun v hv => ?_, fun w hw' hwl' v hv hid => ?_, fun w hw' hwl' f₀ k₀ hp₀ => ?_,
      fun v hv q hq => ?_, fun f' q hf' => ?_, fun v hv => ?_⟩
    · rcases hmem v hv with rfl | ⟨hv, -⟩
      · exact .atCheckout hk' hg' (hheld rfl) (.inr rfl) hw
      · exact h.stage v hv
    · rcases hmem w hw' with rfl | ⟨hw', -⟩
      · rcases hmem v hv with rfl | ⟨hv, -⟩
        · exact absurd rfl hid
        · exact ⟨readLock_of_not_readLocked hnr hv, writeLock_of_not_writeLocked hnw hv⟩
      · simp [writeLock_of_not_writeLocked hnw hw'] at hwl'
    · rcases hmem w hw' with rfl | ⟨hw', -⟩
      · obtain ⟨hc₀, -⟩ := Prog.exec.inj (hk'.symm.trans hp₀)
        cases hc₀
        refine ⟨st.pools.length, if_pos rfl, fun v hv hq => ?_⟩
        rcases hmem v hv with rfl | ⟨hv, -⟩
        · simp [hheld rfl] at hq
        · exact Nat.lt_irrefl _ (h.held_lt v hv _ hq)
      · simp [writeLock_of_not_writeLocked hnw hw'] at hwl'
    · rcases hmem v hv with rfl | ⟨hv, -⟩
      · simp [hheld rfl] at hq
      · exact (h.held_lt v hv q hq).trans (by simp)
    · dsimp only at hf'
      split_ifs at hf'
      · cases hf'
        simp
      · exact (h.readers_lt f' q hf').trans (by simp)
    · rcases hmem v hv with rfl | ⟨hv, -⟩
      · simp [hw]
      · exact h.waiting v hv

/-- A checkout: the task gets its reader and drops its lock. -/
theorem Ordered.poolGet {st st' : System ι α} (h : Ordered cached st) (hinv : Inv O cached Q st)
    {t : Task ι α} (ht : t ∈ st.tasks) {f : ReadFlags} {k : Nat → Prog α}
    (hp : t.prog = .exec (.poolGet f) k) (hst : st.execCmd t (.poolGet f) k = some st') :
    Ordered cached st' := by
  obtain ⟨hk, hheld, hl⟩ := (h.stage t ht).atPoolGet_of hp
  obtain ⟨-, -, -, -, -, hw⟩ := (h.stage t ht).of_lock hl
  have hsh := hinv.shaped t ht
  rw [hp] at hsh
  -- `t` holds a lock, so no other task holds the write lock
  have hnone : ∀ u ∈ st.tasks, u.id ≠ t.id → u.writeLock = false := by
    intro u hu hid
    by_contra hwu
    have := h.exclusive u hu (by simpa using hwu) t ht (Ne.symm hid)
    rcases hl with hl | hl <;> simp_all
  simp only [execCmd] at hst
  split at hst
  · exact absurd ‹_› hsh.poolGet.1
  · rename_i p hrp
    split_ifs at hst
    cases hst
    refine h.setTask_noWriter (.running (g := false) (.inl (hk p)) nofun rfl rfl hw) rfl hnone
      (fun q hq => ?_) (by simp [hw])
    rw [hheld, List.mem_singleton] at hq
    exact hq ▸ h.readers_lt f p hrp

/-- A producer publishes; the tasks waiting for its entry get the result. -/
theorem Ordered.filePublish {st st' : System ι α} (h : Ordered cached st)
    (hinv : Inv O cached Q st) {t : Task ι α} (ht : t ∈ st.tasks) (hw : t.waiting = none)
    {ino : Nat} {r : Except Error Bytes} {k : Unit → Prog α}
    (hp : t.prog = .exec (.filePublish ino r) k)
    (hst : st.execCmd t (.filePublish ino r) k = some st') : Ordered cached st' := by
  obtain ⟨g, hc, hheld, hrl, hwl, -⟩ :=
    (h.stage t ht).running_of hp (fun _ => nofun) (fun _ => nofun)
  rw [hp] at hc
  simp only [execCmd, Option.some.injEq] at hst
  subst hst
  have h₁ : Ordered cached (st.setTask { t with prog := k (), producing := t.producing.erase ino }) :=
    h.setTask_free ht rfl (.running hc.filePublish hheld hrl hwl hw) hrl hwl (fun _ => id)
      (by simp [hw])
  refine h₁.wake (fun u hu i hi => ?_) ino r fun i hi => if_neg hi
  rcases mem_setTask hu with rfl | ⟨hu, -⟩
  · simp [hw] at hi
  · exact hinv.waiting u hu i hi

/-- **One command.**  A task that performs its command keeps the order. -/
theorem Ordered.execCmd {st st' : System ι α} (h : Ordered cached st) (hinv : Inv O cached Q st)
    {t : Task ι α} (ht : t ∈ st.tasks) (hw : t.waiting = none) {c : Cmd} {k : c.Answer → Prog α}
    (hp : t.prog = .exec c k) (hst : st.execCmd t c k = some st') : Ordered cached st' := by
  cases c with
  | fileLock ino =>
    obtain ⟨hk, hheld, hrl, hwl, hpr⟩ := (h.stage t ht).atFileLock_of hp
    simp only [System.execCmd] at hst
    split at hst <;> cases hst
    · exact h.run_calm ht hw (g := true) (.inl (hk _)) (fun _ => hheld) hrl hwl
    · -- the producer's role: the slot is being loaded
      have h₁ : Ordered cached
          (st.setTask { t with prog := k .produce, producing := ino :: t.producing }) :=
        h.setTask_free ht rfl (.running (g := true) (.inl (hk _)) (fun _ => hheld) hrl hwl hw)
          hrl hwl (fun _ => id) (by simp [hw])
      refine h₁.congr rfl rfl rfl fun i hi => ?_
      dsimp only
      split_ifs
      · rfl
      · exact hi
    · -- another task loads the slot: wait
      rename_i hload
      exact h.setTask_free ht rfl (.atFileLock hp hk hheld hrl hwl hpr) hrl hwl (fun _ => id)
        fun i hi => by cases hi; exact hload
  | poolGet f => exact h.poolGet hinv ht hp hst
  | readersCheck f => exact h.readersCheck ht hw hp hst
  | readersInsert f => exact h.readersInsert ht hw hp hst
  | filePublish ino r => exact h.filePublish hinv ht hw hp hst
  | poolPut q =>
    obtain ⟨g, hc, hheld, hrl, hwl, -⟩ :=
      (h.stage t ht).running_of hp (fun _ => nofun) (fun _ => nofun)
    rw [hp] at hc
    simp only [System.execCmd, Option.some.injEq] at hst
    subst hst
    exact h.setTask_free ht rfl (.running hc.poolPut (fun hg => by simp [hheld hg]) hrl hwl hw)
      hrl hwl (fun _ => List.mem_of_mem_erase) (by simp [hw])
  | blockGet s | blockInsert s _ | decompressing s =>
    obtain ⟨g, hc, hheld, hrl, hwl, -⟩ :=
      (h.stage t ht).running_of hp (fun _ => nofun) (fun _ => nofun)
    rw [hp] at hc
    simp only [System.execCmd, Option.some.injEq] at hst
    subst hst
    first
      | exact (h.run_calm ht hw (hc.blockGet _) hheld hrl hwl).congr rfl rfl rfl fun _ => id
      | exact (h.run_calm ht hw hc.blockInsert hheld hrl hwl).congr rfl rfl rfl fun _ => id
      | exact (h.run_calm ht hw hc.decompressing hheld hrl hwl).congr rfl rfl rfl fun _ => id

variable {progs : ι → Prog α}

/-- **One step.**  Every action keeps the order when the programs spawned take their reader
last. -/
theorem Ordered.step (hprogs : ∀ i, (progs i).ReaderLast cached) {st st' : System ι α}
    (h : Ordered cached st) (hinv : Inv O cached Q st) {a : Action ι}
    (hst : System.step progs st a = some st') : Ordered cached st' := by
  cases a with
  | spawn i =>
    cases hst
    exact h.spawn (hprogs i) i
  | run id =>
    obtain ⟨t, ht, -, hw, hcase⟩ := step_run hst
    rcases hcase with ⟨a, -, rfl⟩ | ⟨e, -, rfl⟩ | ⟨c, k, hp, hc⟩
    · exact h.finish t _
    · exact h.finish t _
    · exact h.execCmd hinv ht hw hp hc
  | evictBlock s =>
    cases hst
    exact h.congr rfl rfl rfl fun _ => id
  | evictFile ino =>
    simp only [System.step] at hst
    split at hst <;> cases hst
    rename_i hready
    refine h.congr rfl rfl rfl fun i hi => ?_
    dsimp only
    split_ifs with hino
    · rw [hino, hready] at hi
      cases hi
    · exact hi

/-- **Every run.**  The order holds in every reachable state. -/
theorem Ordered.reachable (hprogs : ∀ i, (progs i).ReaderLast cached) {fs : SquashFs}
    {st : System ι α} (hst : Reachable progs (System.init fs) st) : Ordered cached st := by
  induction hst with
  | init => exact .init fs
  | step hr hs ih =>
    exact ih.step hprogs (Inv.reachable_any (fun i => ⟨_, _, (hprogs i).guarded_true⟩) hr) hs

end Step

/-! ### Progress -/

section Progress

variable {O : Oracle} {Q : ι → Except (Fault Error) α → Prop} {progs : ι → Prog α}
  {st : System ι α}

/-- The step of a task not waiting: it ends, or performs its command. -/
theorem step_run_eq (hinv : Inv O cached Q st) {t : Task ι α} (ht : t ∈ st.tasks)
    (hw : t.waiting = none) :
    System.step progs st (.run t.id) = match t.prog with
      | .done a => some (st.finish t (.ok a))
      | .fail e => some (st.finish t (.error e))
      | .exec c k => st.execCmd t c k := by
  have hfind : st.tasks.find? (fun u => decide (u.id = t.id)) = some t := by
    have hsome : (st.tasks.find? fun u => decide (u.id = t.id)).isSome :=
      List.find?_isSome.mpr ⟨t, ht, by simp⟩
    obtain ⟨u, hu⟩ := Option.isSome_iff_exists.mp hsome
    have hid : u.id = t.id := by simpa using List.find?_some hu
    rw [hu, hinv.eq_of_id ht (List.mem_of_find?_eq_some hu) hid]
  cases hp : t.prog <;>
    simp only [System.step, hfind, hw, hp, Option.isSome_none, Bool.false_eq_true, ↓reduceIte]

/-- Only a look at the map, an insertion into it and a checkout can block. -/
theorem execCmd_isSome {t : Task ι α} {c : Cmd} {k : c.Answer → Prog α}
    (hc : ∀ f, c ≠ .readersCheck f ∧ c ≠ .readersInsert f ∧ c ≠ .poolGet f) :
    (st.execCmd t c k).isSome := by
  cases c with
  | fileLock ino =>
    simp only [execCmd]
    split <;> rfl
  | readersCheck f => exact absurd rfl (hc f).1
  | readersInsert f => exact absurd rfl (hc f).2.1
  | poolGet f => exact absurd rfl (hc f).2.2
  | _ => rfl

theorem runs_of_execCmd (hinv : Inv O cached Q st) {t : Task ι α} (ht : t ∈ st.tasks)
    (hw : t.waiting = none) (hc : ∀ c k, t.prog = .exec c k → (st.execCmd t c k).isSome) :
    ∃ st', System.step progs st (.run t.id) = some st' := by
  rw [step_run_eq hinv ht hw]
  split
  · exact ⟨_, rfl⟩
  · exact ⟨_, rfl⟩
  · exact Option.isSome_iff_exists.mp (hc _ _ ‹_›)

theorem checkedOut_eq_zero {p : Nat} : st.checkedOut p = 0 ↔ ∀ u ∈ st.tasks, p ∉ u.held := by
  simp [checkedOut, List.sum_eq_zero_iff, List.count_eq_zero]

/-- A task holding a reader goes on: past its checkout it waits for nothing. -/
theorem Ordered.holder_runs (h : Ordered cached st) (hinv : Inv O cached Q st) {u : Task ι α}
    (hu : u ∈ st.tasks) (hheld : u.held ≠ []) :
    ∃ st', System.step progs st (.run u.id) = some st' := by
  obtain ⟨hc, hw⟩ := (h.stage u hu).of_held hheld
  refine runs_of_execCmd hinv hu hw fun c k hp => execCmd_isSome fun f => ⟨?_, ?_, ?_⟩ <;>
    rintro rfl <;> rw [hp] at hc
  · exact hc.not_readers (.inl ⟨f, rfl⟩)
  · exact hc.not_readers (.inr ⟨f, rfl⟩)
  · exact hc.not_poolGet

/-- A checkout goes on, or else some holder of a reader of its pool does. -/
theorem Ordered.checkout_live (h : Ordered cached st) (hinv : Inv O cached Q st)
    (hn : 0 < st.nReaders) {u : Task ι α} (hu : u ∈ st.tasks) (hw : u.waiting = none)
    {f : ReadFlags} {k : Nat → Prog α} (hp : u.prog = .exec (.poolGet f) k) :
    ∃ v ∈ st.tasks, ∃ st', System.step progs st (.run v.id) = some st' := by
  have hrun : System.step progs st (.run u.id) = _ := step_run_eq hinv hu hw
  rw [hp] at hrun
  cases hrd : st.readers f with
  | none => exact ⟨u, hu, by simp [hrun, System.execCmd, hrd]⟩
  | some p =>
    by_cases hlt : st.checkedOut p < st.nReaders
    · exact ⟨u, hu, by simp [hrun, System.execCmd, hrd, hlt]⟩
    · -- the pool has lent all its readers, so some task holds one
      obtain ⟨v, hv, hpv⟩ : ∃ v ∈ st.tasks, p ∈ v.held := by
        by_contra hno
        push_neg at hno
        rw [checkedOut_eq_zero.mpr hno] at hlt
        exact hlt hn
      exact ⟨v, hv, h.holder_runs hinv hv (List.ne_nil_of_mem hpv)⟩

/-- A task that waits for nothing goes on, or else a holder of a lock or of a reader does. -/
theorem Ordered.free_live (h : Ordered cached st) (hinv : Inv O cached Q st)
    (hn : 0 < st.nReaders) {u : Task ι α} (hu : u ∈ st.tasks) (hw : u.waiting = none) :
    ∃ v ∈ st.tasks, ∃ st', System.step progs st (.run v.id) = some st' := by
  by_cases hl : ∃ w ∈ st.tasks, w.readLock = true ∨ w.writeLock = true
  · -- a holder of a lock stands at its checkout
    obtain ⟨w, hw', hl⟩ := hl
    obtain ⟨f, k, hp, -, -, hww⟩ := (h.stage w hw').of_lock hl
    exact h.checkout_live hinv hn hw' hww hp
  push_neg at hl
  have hwl : st.writeLocked = false := by simpa [writeLocked] using fun w hw => (hl w hw).2
  have hrl : st.readLocked = false := by simpa [readLocked] using fun w hw => (hl w hw).1
  by_cases hpg : ∃ f k, u.prog = .exec (.poolGet f) k
  · obtain ⟨f, k, hp⟩ := hpg
    exact h.checkout_live hinv hn hu hw hp
  refine ⟨u, hu, runs_of_execCmd hinv hu hw fun c k hp => ?_⟩
  cases c with
  | readersCheck f =>
    simp only [System.execCmd, hwl, Bool.false_eq_true, ↓reduceIte]
    split <;> rfl
  | readersInsert f => simp [System.execCmd, hwl, hrl]
  | poolGet f => exact absurd ⟨f, k, hp⟩ hpg
  | fileLock | blockGet | blockInsert | decompressing | filePublish | poolPut =>
    exact execCmd_isSome fun _ => ⟨nofun, nofun, nofun⟩

/-- **No deadlock.**  In an ordered state with tasks, some task can take its next step: a
waiting task waits for a producer, which waits for nothing. -/
theorem Ordered.progress (h : Ordered cached st) (hinv : Inv O cached Q st)
    (hn : 0 < st.nReaders) (hbusy : st.tasks ≠ []) :
    ∃ t ∈ st.tasks, ∃ st', System.step progs st (.run t.id) = some st' := by
  obtain ⟨u, hu⟩ := List.exists_mem_of_ne_nil _ hbusy
  cases hw : u.waiting with
  | none => exact h.free_live hinv hn hu hw
  | some ino =>
    obtain ⟨w, hw', hprod⟩ := hinv.loading ino (h.waiting u hu ino hw)
    refine h.free_live hinv hn hw' ?_
    cases hww : w.waiting with
    | none => rfl
    | some _ => simp [(h.stage w hw').of_waiting hww] at hprod

end Progress

end System

namespace SquashFs

open System

/-- **No deadlock among reads.**  However the scheduler has interleaved the reads of the
filesystem adaptor, while one is in flight some read can take its next step. -/
theorem readTask_progress (env : Env) (fs : SquashFs) (hn : 0 < fs.nReaders)
    {st : System ReadArgs Bytes} (hst : Reachable (fs.readTask env) (System.init fs) st)
    (hbusy : st.tasks ≠ []) :
    ∃ t ∈ st.tasks, ∃ st', System.step (fs.readTask env) st (.run t.id) = some st' := by
  have hprogs : ∀ a, (fs.readTask env a).ReaderLast fs.cache := fun a =>
    fs.readerLast_readFile env a.inode a.offset a.size a.flags _
  exact (Ordered.reachable hprogs hst).progress
    (Inv.reachable_any (fun a => ⟨_, _, (hprogs a).guarded_true⟩) hst)
    (nReaders_reachable hst ▸ hn) hbusy

theorem readTask_progress_oneBlock :
    ∃ t ∈ ((runActions (oneBlock.readTask envCopy) (System.init oneBlock)
        [.spawn ⟨1, 0, 4, 0⟩]).getD (System.init oneBlock)).tasks,
      ∃ st', System.step (oneBlock.readTask envCopy)
        ((runActions (oneBlock.readTask envCopy) (System.init oneBlock)
          [.spawn ⟨1, 0, 4, 0⟩]).getD (System.init oneBlock)) (.run t.id) = some st' :=
  readTask_progress envCopy oneBlock (by decide) (reachable_getD (by decide))
    (List.ne_nil_of_length_pos (by decide))

end SquashFs

end SquashfsAsync
