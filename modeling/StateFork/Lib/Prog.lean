import Mathlib.Tactic.Common

/-!
# Programs over a shared state

A `Prog` is the code of one thread, cut into the steps at which other threads can interfere: an
atomic access to the shared state, and the acquisition or release of a lock. It ends with a value
or with an exception. An atomic step carries the events an observer sees when it is taken.

`run` executes a program alone. Locks and events play no role there, so `run` is an ordinary state
transformer, and the lemmas `run_*` compute it: they make up the simp set with which a program is
executed symbolically. Interleaved executions are in `StateFork.Lib.Pool`.
-/

namespace Conc

/-- A thread's program over states `σ`, locks `L`, events `ε` and exceptions `χ`. -/
inductive Prog (σ L ε χ α : Type) where
  | ret (a : α)
  | throw (e : χ)
  /-- One indivisible access; the rest of the program sees the state before it. -/
  | atomic (events : σ → List ε) (act : σ → σ) (next : σ → Prog σ L ε χ α)
  | acquire (l : L) (next : Prog σ L ε χ α)
  | release (l : L) (next : Prog σ L ε χ α)

namespace Prog

variable {σ L ε χ α β γ : Type}

/-- Continues with the outcome of `p`, be it a value or an exception. -/
def andThen : Prog σ L ε χ α → (Except χ α → Prog σ L ε χ β) → Prog σ L ε χ β
  | ret a, k => k (.ok a)
  | throw e, k => k (.error e)
  | atomic ev act next, k => atomic ev act fun s => (next s).andThen k
  | acquire l next, k => acquire l (next.andThen k)
  | release l next, k => release l (next.andThen k)

/-- The program that ends with a given outcome. -/
def ofExcept : Except χ α → Prog σ L ε χ α
  | .ok a => ret a
  | .error e => throw e

/-- An exception skips the continuation. -/
def afterValue (f : α → Prog σ L ε χ β) : Except χ α → Prog σ L ε χ β
  | .ok a => f a
  | .error e => throw e

instance : Monad (Prog σ L ε χ) where
  pure := ret
  bind p f := p.andThen (afterValue f)

/-- `try p except e: h e`. -/
def tryCatch (p : Prog σ L ε χ α) (h : χ → Prog σ L ε χ α) : Prog σ L ε χ α :=
  p.andThen fun
    | .ok a => ret a
    | .error e => h e

/-- `try p`, with the outcome as a value. -/
def attempt (p : Prog σ L ε χ α) : Prog σ L ε χ (Except χ α) := p.andThen ret

/-- `with l: p`: the lock is released on both exits. -/
def withLock (l : L) (p : Prog σ L ε χ α) : Prog σ L ε χ α :=
  acquire l (p.andThen fun r => release l (ofExcept r))

/-- An atomic step that reads and updates the shared state. -/
def access (f : σ → α × σ) : Prog σ L ε χ α :=
  atomic (fun _ => []) (fun s => (f s).2) fun s => ret (f s).1

/-- An atomic step that only reads. -/
def read (f : σ → α) : Prog σ L ε χ α := access fun s => (f s, s)

/-- An atomic step that may fail. -/
def attemptAccess (f : σ → Except χ α × σ) : Prog σ L ε χ α :=
  atomic (fun _ => []) (fun s => (f s).2) fun s => ofExcept (f s).1

/-- A visible step that leaves the state alone. -/
def emit (events : σ → List ε) : Prog σ L ε χ Unit :=
  atomic events id fun _ => ret ()

/-- Runs a program for each element, in order. -/
def each : List α → (α → Prog σ L ε χ Unit) → Prog σ L ε χ Unit
  | [], _ => ret ()
  | a :: l, f => f a >>= fun _ => each l f

/-- Collects the results of a program for each element, in order. -/
def collect : List α → (α → Prog σ L ε χ β) → Prog σ L ε χ (List β)
  | [], _ => ret []
  | a :: l, f => f a >>= fun b => collect l f >>= fun bs => ret (b :: bs)

/-! ### Laws -/

theorem andThen_assoc (p : Prog σ L ε χ α) (k : Except χ α → Prog σ L ε χ β)
    (k' : Except χ β → Prog σ L ε χ γ) :
    (p.andThen k).andThen k' = p.andThen fun r => (k r).andThen k' := by
  induction p with
  | ret a => rfl
  | throw e => rfl
  | atomic ev act next ih => simp only [andThen, ih]
  | acquire l next ih => simp only [andThen, ih]
  | release l next ih => simp only [andThen, ih]

theorem andThen_ofExcept (p : Prog σ L ε χ α) : p.andThen ofExcept = p := by
  induction p with
  | ret a => rfl
  | throw e => rfl
  | atomic ev act next ih => simp only [andThen, ih]
  | acquire l next ih => simp only [andThen, ih]
  | release l next ih => simp only [andThen, ih]

theorem afterValue_ret : afterValue (ret : α → Prog σ L ε χ α) = ofExcept := by
  funext r
  cases r <;> rfl

instance : LawfulMonad (Prog σ L ε χ) := by
  refine LawfulMonad.mk' _ (fun p => ?_) (fun _ _ => rfl) fun p f g => ?_
  · show p.andThen (afterValue ret) = p
    rw [afterValue_ret, andThen_ofExcept]
  · show (p.andThen (afterValue f)).andThen (afterValue g) = p.andThen (afterValue fun a => f a >>= g)
    rw [andThen_assoc]
    congr 1
    funext r
    cases r <;> rfl

/-! ### Running a program alone -/

/-- The outcome and the final state of a program that runs without interference. -/
def run : Prog σ L ε χ α → σ → Except χ α × σ
  | ret a, s => (.ok a, s)
  | throw e, s => (.error e, s)
  | atomic _ act next, s => (next s).run (act s)
  | acquire _ next, s => next.run s
  | release _ next, s => next.run s

@[simp] theorem run_ret (a : α) (s : σ) : (ret a : Prog σ L ε χ α).run s = (.ok a, s) := rfl

@[simp] theorem run_pure (a : α) (s : σ) : (pure a : Prog σ L ε χ α).run s = (.ok a, s) := rfl

@[simp] theorem run_throw (e : χ) (s : σ) : (throw e : Prog σ L ε χ α).run s = (.error e, s) := rfl

@[simp] theorem run_atomic (ev : σ → List ε) (act : σ → σ) (next : σ → Prog σ L ε χ α) (s : σ) :
    (atomic ev act next).run s = (next s).run (act s) := rfl

@[simp] theorem run_acquire (l : L) (p : Prog σ L ε χ α) (s : σ) :
    (acquire l p).run s = p.run s := rfl

@[simp] theorem run_release (l : L) (p : Prog σ L ε χ α) (s : σ) :
    (release l p).run s = p.run s := rfl

@[simp] theorem run_ofExcept (r : Except χ α) (s : σ) :
    (ofExcept r : Prog σ L ε χ α).run s = (r, s) := by
  cases r <;> rfl

theorem run_andThen (p : Prog σ L ε χ α) (k : Except χ α → Prog σ L ε χ β) (s : σ) :
    (p.andThen k).run s = (k (p.run s).1).run (p.run s).2 := by
  induction p generalizing s with
  | ret a => rfl
  | throw e => rfl
  | atomic ev act next ih => exact ih s (act s)
  | acquire l next ih => exact ih s
  | release l next ih => exact ih s

theorem run_bind (p : Prog σ L ε χ α) (f : α → Prog σ L ε χ β) (s : σ) :
    (p >>= f).run s = (afterValue f (p.run s).1).run (p.run s).2 :=
  run_andThen p _ s

theorem run_bind_ok {p : Prog σ L ε χ α} {s s' : σ} {a : α} (h : p.run s = (.ok a, s'))
    (f : α → Prog σ L ε χ β) : (p >>= f).run s = (f a).run s' := by
  rw [run_bind, h]
  rfl

theorem run_bind_error {p : Prog σ L ε χ α} {s s' : σ} {e : χ} (h : p.run s = (.error e, s'))
    (f : α → Prog σ L ε χ β) : (p >>= f).run s = (.error e, s') := by
  rw [run_bind, h]
  rfl

@[simp] theorem run_afterValue_ok (f : α → Prog σ L ε χ β) (a : α) (s : σ) :
    (afterValue f (.ok a)).run s = (f a).run s := rfl

@[simp] theorem run_afterValue_error (f : α → Prog σ L ε χ β) (e : χ) (s : σ) :
    (afterValue f (.error e)).run s = (.error e, s) := rfl

@[simp] theorem run_withLock (l : L) (p : Prog σ L ε χ α) (s : σ) :
    (withLock l p).run s = p.run s := by
  simp only [withLock, run_acquire, run_andThen, run_release, run_ofExcept]

@[simp] theorem run_access (f : σ → α × σ) (s : σ) :
    (access f : Prog σ L ε χ α).run s = (.ok (f s).1, (f s).2) := rfl

@[simp] theorem run_read (f : σ → α) (s : σ) :
    (read f : Prog σ L ε χ α).run s = (.ok (f s), s) := rfl

@[simp] theorem run_attemptAccess (f : σ → Except χ α × σ) (s : σ) :
    (attemptAccess f : Prog σ L ε χ α).run s = f s := by
  simp only [attemptAccess, run_atomic, run_ofExcept]

@[simp] theorem run_emit (ev : σ → List ε) (s : σ) :
    (emit ev : Prog σ L ε χ Unit).run s = (.ok (), s) := rfl

@[simp] theorem run_attempt (p : Prog σ L ε χ α) (s : σ) :
    p.attempt.run s = (.ok (p.run s).1, (p.run s).2) := by
  simp only [attempt, run_andThen, run_ret]

/-- The bind of two programs, given the outcome of the first. -/
theorem run_bind_eq (p : Prog σ L ε χ α) (f : α → Prog σ L ε χ β) (s : σ) :
    (p >>= f).run s =
      match (p.run s).1 with
      | .ok a => (f a).run (p.run s).2
      | .error e => (.error e, (p.run s).2) := by
  rw [run_bind]
  cases (p.run s).1 <;> rfl

@[simp] theorem run_map (f : α → β) (p : Prog σ L ε χ α) (s : σ) :
    (f <$> p).run s = ((p.run s).1.map f, (p.run s).2) := by
  show (p >>= fun a => pure (f a)).run s = _
  rw [run_bind_eq]
  cases (p.run s).1 <;> rfl

theorem run_each_cons (a : α) (l : List α) (f : α → Prog σ L ε χ Unit) (s : σ) :
    (each (a :: l) f).run s = (f a >>= fun _ => each l f).run s := rfl

end Prog

end Conc
