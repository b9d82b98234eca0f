import SquashfsAsync.Image

/-!
# Read tasks as programs over the shared state

A read task touches state shared with the other tasks at a few points only: the decoded-block
cache (`get`, `insert_lock`), the whole-small-file cache (`insert_lock`, whose producer is
single-flight), the `RwLock` over the map of reader pools, and the pools themselves.  Between
those points it computes on its own data.  `Prog α` is a task as an interaction tree: it ends
with a value or a fault, or it issues a command `Cmd` and continues with its answer.  The
concurrent semantics (`System`) answers the commands from the shared state; `Prog.uncached`
answers them as a cache that never hits.

Two predicates describe programs whatever the interleaving:

* `Prog.Sat O Q p`: every insertion and publication `p` makes satisfies the oracle `O`, and, when
  every answer it receives does, its outcome satisfies `Q`.  `Sat.bind` composes it, and
  `Prog.Transparent O p` is the case where `p` returns what it returns without hits
  (`Transparent.bind`).
* `Prog.Guarded cached g l p`: `p` announces a decompression only right after a lookup of the
  same block missed (when `cached`), asks a pool for a reader only right after it saw the pool's
  flags in the map or put them there, and checks out at most one reader and asks at most once
  for a whole-file entry (so that it runs to its end when it runs alone).
-/

namespace SquashfsAsync

/-- The answer of the whole-small-file cache's `insert_lock`: run the producer, or the entry
(a hit, or the result of another task's producer). -/
inductive FileAnswer
  | produce
  | result (r : Except Error Bytes)
  deriving DecidableEq, Repr

/-- The operations on shared state. -/
inductive Cmd
  /-- `cache.get(start)` on the decoded-block cache. -/
  | blockGet (s : Nat)
  /-- `cache.insert_lock(start, async { Ok(data) })`. -/
  | blockInsert (s : Nat) (d : Bytes)
  /-- The call of `decompress` in `read_data_block`, as an event. -/
  | decompressing (s : Nat)
  /-- `small_files_cache.insert_lock(inode, ..)`: wait for the entry or become its producer. -/
  | fileLock (ino : Nat)
  /-- The end of the producer: its result goes to the entry and to the waiting tasks. -/
  | filePublish (ino : Nat) (r : Except Error Bytes)
  /-- `self.readers.read().await` and `contains_key(&flags)`; the read lock is kept on a hit. -/
  | readersCheck (f : ReadFlags)
  /-- `self.readers.write().await` and `insert(flags, Pool::builder(..).build())`. -/
  | readersInsert (f : ReadFlags)
  /-- `readers.get(&flags).unwrap().get().await`, then the lock guard is dropped. -/
  | poolGet (f : ReadFlags)
  /-- Dropping a reader: it goes back to its pool. -/
  | poolPut (p : Nat)

/-- What a command answers: a hit or a miss, the producer's role or the entry, whether the map
has the flags, the pool a reader comes from. -/
@[reducible] def Cmd.Answer : Cmd → Type
  | .blockGet _ => Option Bytes
  | .fileLock _ => FileAnswer
  | .readersCheck _ => Bool
  | .poolGet _ => Nat
  | .blockInsert _ _ | .decompressing _ | .filePublish _ _ | .readersInsert _ | .poolPut _ => Unit

/-- The answer a cache that never hits gives: a miss, the producer's role, a pool found. -/
def Cmd.uncachedAnswer : (c : Cmd) → c.Answer
  | .blockGet _ => none
  | .blockInsert _ _ => ()
  | .decompressing _ => ()
  | .fileLock _ => .produce
  | .filePublish _ _ => ()
  | .readersCheck _ => true
  | .readersInsert _ => ()
  | .poolGet _ => 0
  | .poolPut _ => ()

/-- What the shared state may tell a task, and what a task may put into it. -/
structure Oracle where
  /-- The entries the decoded-block cache may hold under a start. -/
  block : Nat → Bytes → Prop
  /-- The results the producer of an inode's whole-file entry may deliver. -/
  file : Nat → Except Error Bytes → Prop

/-- The oracle that allows every entry. -/
def Oracle.any : Oracle := ⟨fun _ _ => True, fun _ _ => True⟩

/-- What a task must respect when it issues a command. -/
def Cmd.Obliged (O : Oracle) : Cmd → Prop
  | .blockInsert s d => O.block s d
  | .filePublish ino r => O.file ino r
  | _ => True

/-- What a task may assume of an answer. -/
def Cmd.Expect (O : Oracle) : (c : Cmd) → c.Answer → Prop
  | .blockGet s, some d => O.block s d
  | .fileLock ino, .result r => O.file ino r
  | _, _ => True

/-- A task: a value, a fault, or a command and what to do with its answer. -/
inductive Prog (α : Type) where
  | done (a : α)
  | fail (f : Fault Error)
  | exec (c : Cmd) (k : c.Answer → Prog α)

namespace Prog

variable {α β γ : Type}

/-- Sequencing. -/
def bind : Prog α → (α → Prog β) → Prog β
  | done a, f => f a
  | fail e, _ => fail e
  | exec c k, f => exec c fun r => (k r).bind f

instance : Monad Prog where
  pure := done
  bind := bind

@[simp] theorem bind_done (a : α) (f : α → Prog β) : (done a >>= f) = f a := rfl

@[simp] theorem bind_fail (e : Fault Error) (f : α → Prog β) : (fail e >>= f) = fail e := rfl

@[simp] theorem bind_exec (c : Cmd) (k : c.Answer → Prog α) (f : α → Prog β) :
    (exec c k >>= f) = exec c fun r => k r >>= f := rfl

@[simp] theorem pure_eq (a : α) : (pure a : Prog α) = done a := rfl

/-- Issue one command. -/
def cmd (c : Cmd) : Prog c.Answer := exec c done

@[simp] theorem cmd_bind (c : Cmd) (f : c.Answer → Prog α) : (cmd c >>= f) = exec c f := rfl

/-- The outcome of a function that does not touch shared state. -/
def lift : Except (Fault Error) α → Prog α
  | .ok a => done a
  | .error e => fail e

@[simp] theorem lift_ok (a : α) : lift (.ok a) = done a := rfl

@[simp] theorem lift_error (e : Fault Error) : (lift (.error e) : Prog α) = fail e := rfl

/-- The errors of a program as values; panics stay panics (the producer of an `insert_lock`
returns its `Result`, while a panic unwinds through it). -/
def catchErr : Prog α → Prog (Except Error α)
  | done a => done (.ok a)
  | fail (.error e) => done (.error e)
  | fail (.panic p) => fail (.panic p)
  | exec c k => exec c fun r => catchErr (k r)

/-! ### Running without hits -/

/-- The outcome of a program whose commands are answered by `Cmd.uncachedAnswer`. -/
def uncached : Prog α → Except (Fault Error) α
  | done a => .ok a
  | fail e => .error e
  | exec c k => uncached (k c.uncachedAnswer)

@[simp] theorem uncached_done (a : α) : (done a).uncached = .ok a := rfl

@[simp] theorem uncached_fail (e : Fault Error) : (fail e : Prog α).uncached = .error e := rfl

@[simp] theorem uncached_exec (c : Cmd) (k : c.Answer → Prog α) :
    (exec c k).uncached = (k c.uncachedAnswer).uncached := rfl

@[simp] theorem uncached_lift (x : Except (Fault Error) α) : (lift x).uncached = x := by
  cases x <;> rfl

theorem uncached_bind (p : Prog α) (f : α → Prog β) :
    (p >>= f).uncached = match p.uncached with
      | .ok a => (f a).uncached
      | .error e => .error e := by
  induction p with
  | done a => rfl
  | fail e => rfl
  | exec c k ih => exact ih _

/-- The outcome of `catchErr p` from that of `p`. -/
def catchOutcome : Except (Fault Error) α → Except (Fault Error) (Except Error α)
  | .ok a => .ok (.ok a)
  | .error (.error e) => .ok (.error e)
  | .error (.panic q) => .error (.panic q)

theorem uncached_bind_eq_ok {p : Prog α} {f : α → Prog β} {b : β} :
    (p >>= f).uncached = .ok b ↔ ∃ a, p.uncached = .ok a ∧ (f a).uncached = .ok b := by
  rw [uncached_bind]
  cases p.uncached <;> simp

theorem uncached_catchErr (p : Prog α) : (catchErr p).uncached = catchOutcome p.uncached := by
  induction p with
  | done a => rfl
  | fail e => cases e <;> rfl
  | exec c k ih => exact ih _

/-! ### Specifications -/

/-- `p` respects `O`, and its outcome satisfies `Q` when the answers it gets respect `O`. -/
inductive Sat (O : Oracle) (Q : Except (Fault Error) α → Prop) : Prog α → Prop
  | done {a : α} : Q (.ok a) → Sat O Q (done a)
  | fail {e : Fault Error} : Q (.error e) → Sat O Q (fail e)
  | exec {c : Cmd} {k : c.Answer → Prog α} :
      c.Obliged O → (∀ r, c.Expect O r → Sat O Q (k r)) → Sat O Q (exec c k)

theorem Sat.of_done {O : Oracle} {Q : Except (Fault Error) α → Prop} {a : α}
    (h : Sat O Q (Prog.done a)) : Q (.ok a) := by
  cases h; assumption

theorem Sat.of_fail {O : Oracle} {Q : Except (Fault Error) α → Prop} {e : Fault Error}
    (h : Sat O Q (Prog.fail e)) : Q (.error e) := by
  cases h; assumption

theorem Sat.of_exec {O : Oracle} {Q : Except (Fault Error) α → Prop} {c : Cmd}
    {k : c.Answer → Prog α} (h : Sat O Q (Prog.exec c k)) :
    c.Obliged O ∧ ∀ r, c.Expect O r → Sat O Q (k r) := by
  cases h; exact ⟨‹_›, ‹_›⟩

theorem Sat.mono {O : Oracle} {Q Q' : Except (Fault Error) α → Prop} {p : Prog α}
    (h : Sat O Q p) (hQ : ∀ r, Q r → Q' r) : Sat O Q' p := by
  induction h with
  | done ha => exact .done (hQ _ ha)
  | fail he => exact .fail (hQ _ he)
  | exec hc _ ih => exact .exec hc ih

/-- **Sequencing.**  A value `p` may end with continues in `f`; a fault of `p` is the whole
program's. -/
theorem Sat.bind {O : Oracle} {Q₁ : Except (Fault Error) α → Prop}
    {Q : Except (Fault Error) β → Prop} {p : Prog α} {f : α → Prog β} (hp : Sat O Q₁ p)
    (hf : ∀ a, Q₁ (.ok a) → Sat O Q (f a)) (he : ∀ e, Q₁ (.error e) → Q (.error e)) :
    Sat O Q (p >>= f) := by
  induction hp with
  | done ha => exact hf _ ha
  | fail h => exact .fail (he _ h)
  | exec hc _ ih => exact .exec hc ih

/-- Every program keeps to the oracle that allows everything. -/
theorem Sat.any (p : Prog α) : Sat Oracle.any (fun _ => True) p := by
  induction p with
  | done a => exact .done trivial
  | fail e => exact .fail trivial
  | exec c k ih => exact .exec (by cases c <;> trivial) fun r _ => ih r

theorem Sat.lift {O : Oracle} {Q : Except (Fault Error) α → Prop} {x : Except (Fault Error) α}
    (h : Q x) : Sat O Q (Prog.lift x) := by
  cases x with
  | ok a => exact .done h
  | error e => exact .fail h

theorem Sat.catchErr {O : Oracle} {Q : Except (Fault Error) α → Prop} {p : Prog α}
    (h : Sat O Q p) : Sat O (fun x => ∃ y, Q y ∧ x = catchOutcome y) (catchErr p) := by
  induction h with
  | done ha => exact .done ⟨_, ha, rfl⟩
  | @fail e he =>
    cases e with
    | error e => exact .done ⟨_, he, rfl⟩
    | panic q => exact .fail ⟨_, he, rfl⟩
  | exec hc _ ih => exact .exec hc ih

/-! ### Programs that hits do not change -/

/-- `p` respects `O`, and returns what it returns without hits whenever the answers it gets
respect `O`. -/
def Transparent (O : Oracle) (p : Prog α) : Prop := Sat O (· = p.uncached) p

section Transparent

variable {O : Oracle}

theorem Transparent.sat {p : Prog α} {v : Except (Fault Error) α} (h : Transparent O p)
    (hv : p.uncached = v) : Sat O (· = v) p := hv ▸ h

theorem Transparent.done (a : α) : Transparent O (Prog.done a) := Sat.done rfl

theorem Transparent.fail (e : Fault Error) : Transparent O (Prog.fail e : Prog α) := Sat.fail rfl

theorem Transparent.lift (x : Except (Fault Error) α) : Transparent O (Prog.lift x) :=
  Sat.lift (Q := (· = (Prog.lift x).uncached)) (by cases x <;> rfl)

/-- **Sequencing.**  The continuation need only be transparent after the value `p` returns
without hits. -/
theorem Transparent.bind {p : Prog α} {f : α → Prog β} (hp : Transparent O p)
    (hf : ∀ a, p.uncached = .ok a → Transparent O (f a)) : Transparent O (p >>= f) :=
  Sat.bind hp (fun a ha => (hf a ha.symm).sat (by rw [uncached_bind, ← ha]))
    (fun e he => by rw [uncached_bind, ← he])

/-- A command whose every allowed answer leads where the answer without hits leads. -/
theorem Transparent.exec {c : Cmd} {k : c.Answer → Prog α} (hc : c.Obliged O)
    (hk : ∀ r, c.Expect O r → (k r).uncached = (k c.uncachedAnswer).uncached ∧ Transparent O (k r)) :
    Transparent O (exec c k) :=
  Sat.exec hc fun r hr => (hk r hr).2.sat (hk r hr).1

/-- A command with a single answer. -/
theorem Transparent.exec_unit {c : Cmd} {k : c.Answer → Prog α} (hc : c.Obliged O)
    (hu : ∀ r : c.Answer, r = c.uncachedAnswer) (hk : Transparent O (k c.uncachedAnswer)) :
    Transparent O (Prog.exec c k) :=
  Sat.exec hc fun r _ => hu r ▸ hk

theorem Transparent.catchErr {p : Prog α} (h : Transparent O p) : Transparent O (catchErr p) :=
  (Sat.catchErr h).mono (by rintro _ ⟨y, rfl, rfl⟩; exact (uncached_catchErr p).symm)

end Transparent

/-! ### The shape of the read programs -/

/-- Decompressions follow misses when the decoded-block cache is on (`cached`); reader checkouts
follow a look at the map of pools; at most one reader is checked out (while `g`) and at most one
whole-file entry is asked for (while `l`). -/
inductive Guarded (cached : Bool) : Bool → Bool → Prog α → Prop
  | done {g l : Bool} (a : α) : Guarded cached g l (done a)
  | fail {g l : Bool} (e : Fault Error) : Guarded cached g l (fail e)
  /-- A lookup whose miss leads on to a lookup-free step. -/
  | blockGet {g l : Bool} {s : Nat} {k : Option Bytes → Prog α} :
      (∀ r, Guarded cached g l (k r)) → Guarded cached g l (exec (.blockGet s) k)
  /-- A lookup whose miss is followed at once by the decompression of the same block. -/
  | blockGetDecompress {g l : Bool} {s : Nat} {k : Option Bytes → Prog α} {k' : Unit → Prog α} :
      (∀ d, Guarded cached g l (k (some d))) → k none = exec (.decompressing s) k' →
      Guarded cached g l (k' ()) → Guarded cached g l (exec (.blockGet s) k)
  /-- Without the cache a decompression follows no lookup. -/
  | decompressing {g l : Bool} {s : Nat} {k : Unit → Prog α} :
      cached = false → Guarded cached g l (k ()) → Guarded cached g l (exec (.decompressing s) k)
  | blockInsert {g l : Bool} {s : Nat} {d : Bytes} {k : Unit → Prog α} :
      Guarded cached g l (k ()) → Guarded cached g l (exec (.blockInsert s d) k)
  /-- The one request for a whole-file entry. -/
  | fileLock {g : Bool} {ino : Nat} {k : FileAnswer → Prog α} :
      (∀ r, Guarded cached g false (k r)) → Guarded cached g true (exec (.fileLock ino) k)
  | filePublish {g l : Bool} {ino : Nat} {r : Except Error Bytes} {k : Unit → Prog α} :
      Guarded cached g l (k ()) → Guarded cached g l (exec (.filePublish ino r) k)
  /-- A look at the map, followed on a hit by the one checkout, from that pool. -/
  | readersCheck {l : Bool} {f : ReadFlags} {k : Bool → Prog α} {k' : Nat → Prog α} :
      k true = exec (.poolGet f) k' → (∀ p, Guarded cached false l (k' p)) →
      Guarded cached true l (k false) → Guarded cached true l (exec (.readersCheck f) k)
  /-- An insertion into the map, followed by the one checkout, from the new pool. -/
  | readersInsert {l : Bool} {f : ReadFlags} {k' : Nat → Prog α} :
      (∀ p, Guarded cached false l (k' p)) →
      Guarded cached true l (exec (.readersInsert f) fun _ => exec (.poolGet f) k')
  | poolPut {g l : Bool} {p : Nat} {k : Unit → Prog α} :
      Guarded cached g l (k ()) → Guarded cached g l (exec (.poolPut p) k)

section Guarded

variable {cached : Bool}

theorem Guarded.weaken {p : Prog α} (h : Guarded cached false false p) (g l : Bool) :
    Guarded cached g l p := by
  suffices ∀ {g₀ l₀ : Bool} {q : Prog α}, Guarded cached g₀ l₀ q → g₀ = false → l₀ = false →
      Guarded cached g l q from this h rfl rfl
  intro g₀ l₀ q h
  induction h with
  | done => exact fun _ _ => .done _
  | fail => exact fun _ _ => .fail _
  | blockGet _ ih => exact fun hg hl => .blockGet fun r => ih r hg hl
  | blockGetDecompress _ hk _ ih₁ ih₂ =>
    exact fun hg hl => .blockGetDecompress (fun d => ih₁ d hg hl) hk (ih₂ hg hl)
  | decompressing hc _ ih => exact fun hg hl => .decompressing hc (ih hg hl)
  | blockInsert _ ih => exact fun hg hl => .blockInsert (ih hg hl)
  | fileLock => exact fun _ => nofun
  | filePublish _ ih => exact fun hg hl => .filePublish (ih hg hl)
  | readersCheck => exact nofun
  | readersInsert => exact nofun
  | poolPut _ ih => exact fun hg hl => .poolPut (ih hg hl)

/-- A continuation that checks out nothing and asks for no entry. -/
theorem Guarded.bind {g l : Bool} {p : Prog α} {f : α → Prog β} (hp : Guarded cached g l p)
    (hf : ∀ a, Guarded cached false false (f a)) : Guarded cached g l (p >>= f) := by
  induction hp with
  | done a => exact (hf a).weaken _ _
  | fail e => exact .fail e
  | blockGet _ ih => exact .blockGet ih
  | blockGetDecompress _ hk _ ih₁ ih₂ =>
    exact .blockGetDecompress ih₁ (by simp only [hk, bind_exec]; rfl) ih₂
  | decompressing hc _ ih => exact .decompressing hc ih
  | blockInsert _ ih => exact .blockInsert ih
  | fileLock _ ih => exact .fileLock ih
  | filePublish _ ih => exact .filePublish ih
  | readersCheck hk _ _ ih₁ ih₂ => exact .readersCheck (by simp only [hk, bind_exec]; rfl) ih₁ ih₂
  | readersInsert _ ih => exact .readersInsert ih
  | poolPut _ ih => exact .poolPut ih

theorem Guarded.lift {g l : Bool} (x : Except (Fault Error) α) :
    Guarded cached g l (Prog.lift x) := by
  cases x with
  | ok a => exact .done a
  | error e => exact .fail e

theorem Guarded.catchErr {g l : Bool} {p : Prog α} (h : Guarded cached g l p) :
    Guarded cached g l (catchErr p) := by
  induction h with
  | done a => exact .done _
  | fail e => cases e <;> first | exact .done _ | exact .fail _
  | blockGet _ ih => exact .blockGet ih
  | blockGetDecompress _ hk _ ih₁ ih₂ =>
    exact .blockGetDecompress ih₁ (by simp only [hk]; rfl) ih₂
  | decompressing hc _ ih => exact .decompressing hc ih
  | blockInsert _ ih => exact .blockInsert ih
  | fileLock _ ih => exact .fileLock ih
  | filePublish _ ih => exact .filePublish ih
  | readersCheck hk _ _ ih₁ ih₂ => exact .readersCheck (by simp only [hk]; rfl) ih₁ ih₂
  | readersInsert _ ih => exact .readersInsert ih
  | poolPut _ ih => exact .poolPut ih

/-- A program that asks for no whole-file entry may be counted among those that may. -/
theorem Guarded.allowFileLock {g : Bool} {p : Prog α} (h : Guarded cached g false p) :
    Guarded cached g true p := by
  suffices ∀ {g₀ l₀ : Bool} {q : Prog α}, Guarded cached g₀ l₀ q → l₀ = false →
      Guarded cached g₀ true q from this h rfl
  intro g₀ l₀ q h
  induction h with
  | done => exact fun _ => .done _
  | fail => exact fun _ => .fail _
  | blockGet _ ih => exact fun hl => .blockGet fun r => ih r hl
  | blockGetDecompress _ hk _ ih₁ ih₂ =>
    exact fun hl => .blockGetDecompress (fun d => ih₁ d hl) hk (ih₂ hl)
  | decompressing hc _ ih => exact fun hl => .decompressing hc (ih hl)
  | blockInsert _ ih => exact fun hl => .blockInsert (ih hl)
  | fileLock => exact nofun
  | filePublish _ ih => exact fun hl => .filePublish (ih hl)
  | readersCheck hk _ _ ih₁ ih₂ => exact fun hl => .readersCheck hk (fun p => ih₁ p hl) (ih₂ hl)
  | readersInsert _ ih => exact fun hl => .readersInsert fun p => ih p hl
  | poolPut _ ih => exact fun hl => .poolPut (ih hl)

end Guarded

/-- A read task takes its whole-file entry, when it asks for one, before anything else, so that
it never asks for one while it holds a reader: either it asks for no entry, or its first command
is that request and what follows asks for no other. -/
inductive ReaderLast (cached : Bool) : Prog α → Prop
  | guarded {p : Prog α} : Guarded cached true false p → ReaderLast cached p
  | fileLock {ino : Nat} {k : FileAnswer → Prog α} :
      (∀ r, Guarded cached true false (k r)) → ReaderLast cached (exec (.fileLock ino) k)

theorem ReaderLast.guarded_true {cached : Bool} {p : Prog α} :
    ReaderLast cached p → Guarded cached true true p
  | .guarded h => h.allowFileLock
  | .fileLock hk => .fileLock hk

theorem ReaderLast.lift_bind {cached : Bool} {x : Except (Fault Error) β} {f : β → Prog α}
    (hf : ∀ b, ReaderLast cached (f b)) : ReaderLast cached (lift x >>= f) := by
  cases x with
  | ok b => exact hf b
  | error e => exact .guarded (.fail e)

end Prog

end SquashfsAsync
