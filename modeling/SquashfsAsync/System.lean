import SquashfsAsync.Read

/-!
# Concurrent reads

Any number of tasks run concurrently over one `SquashFs`; a task runs until its next operation
on shared state, and the scheduler picks which task goes next.  The shared state is:

* the decoded-block cache, a map from block start to a buffer, which may evict any entry at any
  time (`Action.evictBlock`);
* the whole-small-file cache, with one slot per inode: absent, being produced (the producer's
  task holds it, other tasks wait), or ready; a ready entry may be evicted (`Action.evictFile`);
* the `RwLock` over the map from flag sets to reader pools, held by the tasks in `readLock` and
  `writeLock`, and the pools, numbered in creation order, each lending at most `n_readers`
  readers (`held` lists the pools of a task's readers).

`System.step` performs one action; `Reachable` closes the initial state under steps.  A task
that ends drops what it holds (its readers and locks); a producer that ends without publishing
(a panic) frees its slot, and the tasks waiting on it ask again.  The trace records each lookup
of the decoded-block cache, hit or miss, and each decompression, with the task that made it.
-/

namespace SquashfsAsync

/-- The slot of an inode in the whole-small-file cache. -/
inductive FileSlot
  | absent
  | loading
  | ready (d : Bytes)
  deriving DecidableEq, Repr

/-- An event of a run. -/
inductive Event
  | lookup (task s : Nat) (hit : Bool)
  | decompress (task s : Nat)
  deriving DecidableEq, Repr

/-- A running task and what it holds. -/
structure Task (ι α : Type) where
  id : Nat
  /-- The arguments the task was started with. -/
  arg : ι
  prog : Prog α
  /-- The inode whose producer the task waits for. -/
  waiting : Option Nat
  readLock : Bool
  writeLock : Bool
  /-- The pools of the readers the task has checked out. -/
  held : List Nat
  /-- The inodes whose producer the task runs. -/
  producing : List Nat

/-- A fresh task. -/
def Task.new {ι α : Type} (id : Nat) (i : ι) (p : Prog α) : Task ι α :=
  ⟨id, i, p, none, false, false, [], []⟩

/-- The shared state and the tasks. -/
structure System (ι α : Type) where
  nReaders : Nat
  blocks : Nat → Option Bytes
  files : Nat → FileSlot
  readers : ReadFlags → Option Nat
  /-- The flag set each pool was created for, by pool number. -/
  pools : List ReadFlags
  tasks : List (Task ι α)
  nextId : Nat
  trace : List Event
  /-- Each task that ended, with its arguments and its outcome. -/
  finished : List (Nat × ι × Except (Fault Error) α)

/-- What the scheduler can do. -/
inductive Action (ι : Type)
  /-- Start a task with the arguments `i`. -/
  | spawn (i : ι)
  /-- Let a task take its next step. -/
  | run (id : Nat)
  | evictBlock (s : Nat)
  | evictFile (ino : Nat)

namespace System

variable {α ι : Type}

/-- The state `SquashFs::from_reader` leaves: empty caches, and the pools for the flag sets
`0` and `O_NONBLOCK`. -/
def init (fs : SquashFs) : System ι α where
  nReaders := fs.nReaders
  blocks := fun _ => none
  files := fun _ => .absent
  readers := fun f => if f = 0 then some 0 else if f = oNonblock then some 1 else none
  pools := [0, oNonblock]
  tasks := []
  nextId := 0
  trace := []
  finished := []

/-- Some task holds the write lock. -/
def writeLocked (st : System ι α) : Bool := st.tasks.any (·.writeLock)

/-- Some task holds the read lock. -/
def readLocked (st : System ι α) : Bool := st.tasks.any (·.readLock)

/-- The readers of pool `p` checked out. -/
def checkedOut (st : System ι α) (p : Nat) : Nat := (st.tasks.map fun t => t.held.count p).sum

/-- Replace the task with the id of `t` by `t`. -/
def setTask (st : System ι α) (t : Task ι α) : System ι α :=
  { st with tasks := st.tasks.map fun u => if u.id = t.id then t else u }

/-- Hand the result of inode `ino`'s producer to the tasks waiting for it. -/
def wake (ino : Nat) (r : Except Error Bytes) (u : Task ι α) : Task ι α :=
  if u.waiting = some ino then
    match u.prog with
    | .exec (.fileLock _) k => { u with prog := k (.result r), waiting := none }
    | _ => u
  else u

/-- Let the tasks waiting for inode `ino` ask again. -/
def retry (ino : Nat) (u : Task ι α) : Task ι α :=
  if u.waiting = some ino then { u with waiting := none } else u

/-- A task ends with outcome `r`: it is removed with what it holds, and the slots it was
producing are freed. -/
def finish (st : System ι α) (t : Task ι α) (r : Except (Fault Error) α) : System ι α :=
  { st with
    tasks := (st.tasks.filter fun u => u.id ≠ t.id).map fun u =>
      t.producing.foldr retry u
    files := fun ino => if ino ∈ t.producing then .absent else st.files ino
    finished := st.finished ++ [(t.id, t.arg, r)] }

/-- The task `t` performs the command `c` and continues with `k`, if it can now. -/
def execCmd (st : System ι α) (t : Task ι α) :
    (c : Cmd) → (c.Answer → Prog α) → Option (System ι α)
  | .blockGet s, k =>
    some { st.setTask { t with prog := k (st.blocks s) } with
      trace := st.trace ++ [.lookup t.id s (st.blocks s).isSome] }
  | .blockInsert s d, k =>
    some { st.setTask { t with prog := k () } with
      blocks := fun s' => if s' = s ∧ st.blocks s = none then some d else st.blocks s' }
  | .decompressing s, k =>
    some { st.setTask { t with prog := k () } with trace := st.trace ++ [.decompress t.id s] }
  | .fileLock ino, k =>
    match st.files ino with
    | .ready d => some (st.setTask { t with prog := k (.result (.ok d)) })
    | .absent =>
      some { st.setTask { t with prog := k .produce, producing := ino :: t.producing } with
        files := fun i => if i = ino then .loading else st.files i }
    | .loading => some (st.setTask { t with waiting := some ino })
  | .filePublish ino r, k =>
    let st' := st.setTask { t with prog := k (), producing := t.producing.erase ino }
    some { st' with
      tasks := st'.tasks.map (wake ino r)
      files := fun i => if i = ino then
        (match r with
          | .ok d => .ready d
          | .error _ => .absent) else st.files i }
  | .readersCheck f, k =>
    if st.writeLocked then none
    else match st.readers f with
      | some _ => some (st.setTask { t with prog := k true, readLock := true })
      | none => some (st.setTask { t with prog := k false })
  | .readersInsert f, k =>
    if st.writeLocked ∨ st.readLocked then none
    else some { st.setTask { t with prog := k (), writeLock := true } with
      pools := st.pools ++ [f]
      readers := fun f' => if f' = f then some st.pools.length else st.readers f' }
  | .poolGet f, k =>
    match st.readers f with
    | none => some (st.setTask { t with prog := .fail (.panic .unwrapNone) })
    | some p =>
      if st.checkedOut p < st.nReaders then
        some (st.setTask { t with
          prog := k p
          held := p :: t.held
          readLock := false
          writeLock := false })
      else none
  | .poolPut p, k => some (st.setTask { t with prog := k (), held := t.held.erase p })

/-- One step of the run, if the action can be taken now; `progs` gives the task each spawn
starts. -/
def step (progs : ι → Prog α) (st : System ι α) : Action ι → Option (System ι α)
  | .spawn i =>
    some { st with tasks := st.tasks ++ [Task.new st.nextId i (progs i)], nextId := st.nextId + 1 }
  | .run id =>
    match st.tasks.find? (·.id = id) with
    | none => none
    | some t =>
      if t.waiting.isSome then none
      else match t.prog with
        | .done a => some (st.finish t (.ok a))
        | .fail e => some (st.finish t (.error e))
        | .exec c k => st.execCmd t c k
  | .evictBlock s => some { st with blocks := fun s' => if s' = s then none else st.blocks s' }
  | .evictFile ino =>
    match st.files ino with
    | .ready _ => some { st with files := fun i => if i = ino then .absent else st.files i }
    | _ => none

/-- The states a run reaches from `s₀`. -/
inductive Reachable (progs : ι → Prog α) (s₀ : System ι α) : System ι α → Prop
  | init : Reachable progs s₀ s₀
  | step {st st' : System ι α} {a : Action ι} :
      Reachable progs s₀ st → step progs st a = some st' → Reachable progs s₀ st'

/-- The state after a schedule of actions, if each can be taken in turn. -/
def runActions (progs : ι → Prog α) (st : System ι α) : List (Action ι) → Option (System ι α)
  | [] => some st
  | a :: as => (step progs st a).bind fun st' => runActions progs st' as

theorem reachable_of_runActions {progs : ι → Prog α} {s₀ st : System ι α} :
    ∀ {as : List (Action ι)} {st' : System ι α}, Reachable progs s₀ st →
      runActions progs st as = some st' → Reachable progs s₀ st'
  | [], _, h, he => by cases he; exact h
  | a :: as, st', h, he => by
    simp only [runActions, Option.bind_eq_some] at he
    obtain ⟨s₁, h₁, h₂⟩ := he
    exact reachable_of_runActions (.step h h₁) h₂

end System

/-- The arguments of a read the filesystem adaptor makes (`squashfuse.rs`, `read`): the inode,
the offset and size, and the flags of the file handle. -/
structure ReadArgs where
  inode : Nat
  offset : Nat
  size : Nat
  flags : ReadFlags
  deriving DecidableEq, Repr

/-- The task of one read of the adaptor: `read_file` with the superblock's compression. -/
def SquashFs.readTask (env : Env) (fs : SquashFs) (a : ReadArgs) : Prog Bytes :=
  fs.readFile env a.inode a.offset a.size a.flags fs.superblock.compression

end SquashfsAsync
