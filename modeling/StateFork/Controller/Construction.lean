import StateFork.Controller.Frame

/-!
# Constructors that raise

An exception in a constructor leaves an object behind, and Python runs its `__del__`. The base constructor clears
`is_cleaned_up`, so that from there on the fallback runs `_core_cleanup` on the attributes that have been assigned, and
destroys the environment to which the manager was about to attach. `LeavesAlone` says that this does not happen.
-/

namespace StateFork

open Conc Conc.Prog

/-- What a manager does to the host. -/
inductive Action where
  | command (argv : List String)
  /-- The arguments of a call of the `waypoint` binary. -/
  | waypoint (args : List String)
  | kill (pid : Int)
  | rmtree (path : String)
  deriving DecidableEq

/-- The actions that destroy an environment or its files. -/
def Action.destroys : Action → Bool
  | command argv => argv.tail.take 2 = ["rm", "-f"] || argv.tail.take 1 = ["rmi"]
  | waypoint args => args.take 1 = ["cleanup"]
  | kill _ => true
  | rmtree _ => true

/-- The world of an object under construction. -/
structure Attaching (W : Type) where
  issued : List Action := []
  /-- `self.app_pid`, once it is assigned. -/
  appPid : Option Int := none
  host : W

namespace Attaching

variable {W α : Type}

def logged (a : Action) (f : W → α × W) (w : Attaching W) : α × Attaching W :=
  ((f w.host).1, { w with issued := w.issued ++ [a], host := (f w.host).2 })

def unlogged (f : W → α × W) (w : Attaching W) : α × Attaching W := ((f w.host).1, { w with host := (f w.host).2 })

/-- `f` does to the host what `g` does, and assigns nothing. -/
structure Follows (f : Attaching W → α × Attaching W) (g : W → α × W) : Prop where
  answer : ∀ w, (f w).1 = (g w.host).1
  host : ∀ w, (f w).2.host = (g w.host).2
  appPid : ∀ w, (f w).2.appPid = w.appPid

theorem follows_unlogged (f : W → α × W) : Follows (unlogged f) f := ⟨fun _ => rfl, fun _ => rfl, fun _ => rfl⟩

/-- Nothing has been destroyed. -/
def Unharmed (w : Attaching W) : Prop := ∀ a ∈ w.issued, a.destroys = false

end Attaching

namespace EnvironmentManager

variable {W : Type}

/-- `cleanup`, which needs only one of the hooks. -/
def cleanupWith (coreCleanup : M W (Option Bool)) : M W Bool :=
  withLock .lifecycle do
    let ok ← coreCleanup
    poke fun m => { m with isCleanedUp := true }
    return ok ≠ some false

theorem cleanup_eq (H : Hooks W) : cleanup H = cleanupWith H.coreCleanup := rfl

/-- `__del__`, of an object with the attribute `is_cleaned_up`. -/
def del (coreCleanup : M W (Option Bool)) : M W Unit := do
  let done ← peek (·.isCleanedUp)
  if done then return ()
  else
    let _ ← cleanupWith coreCleanup
    return ()

theorem world_del (coreCleanup : M W (Option Bool)) (s : Sys W) :
    ((del coreCleanup).run s).2.world = if s.mgr.isCleanedUp then s.world else (coreCleanup.run s).2.world := by
  unfold del cleanupWith
  rw [run_bind, run_peek, run_afterValue_ok]
  cases s.mgr.isCleanedUp with
  | true => rfl
  | false =>
    simp only [Bool.false_eq_true, if_false, run_bind, run_withLock]
    rcases coreCleanup.run s with ⟨_ | ok, s'⟩
    · rfl
    · rfl

end EnvironmentManager

open EnvironmentManager

variable {W : Type}

/-- A constructor from the base constructor on, and the hook that its destructor runs. -/
structure Construction (W : Type) where
  init : M (Attaching W) Unit
  coreCleanup : M (Attaching W) (Option Bool)

/-- The constructor is called; if it raises, the object is deleted. An error in place of the construction is raised
before the base constructor, which assigns `is_cleaned_up`. -/
def construct (c : Except PyError (Construction W)) (host : W) : Except PyError Unit × Attaching W :=
  match c with
  | .error e => (.error e, { host })
  | .ok c =>
    match c.init.run ⟨Manager.init, { host }⟩ with
    | (.ok (), s) => (.ok (), s.world)
    | (.error e, s) => (.error e, ((del c.coreCleanup).run s).2.world)

/-- If the constructor raises, then nothing is destroyed. -/
def LeavesAlone (c : Except PyError (Construction W)) (host : W) : Prop :=
  ∀ e, (construct c host).1 = .error e → (construct c host).2.Unharmed

section

variable {c : Construction W} {host : W} {e : PyError} {s : Sys (Attaching W)}

theorem leavesAlone_error (e : PyError) (host : W) : LeavesAlone (.error e) host :=
  fun _ _ _ ha => absurd ha List.not_mem_nil

theorem leavesAlone_of_ok (h : (c.init.run ⟨Manager.init, { host }⟩).1 = .ok ()) : LeavesAlone (.ok c) host := by
  intro e he
  unfold construct at he
  rcases hr : c.init.run ⟨Manager.init, { host }⟩ with ⟨_ | _, s⟩
  · rw [hr] at h
    cases h
  · simp only [hr] at he
    cases he

/-- What decides when the constructor raises. -/
theorem leavesAlone_iff_of_error (h : c.init.run ⟨Manager.init, { host }⟩ = (.error e, s)) :
    LeavesAlone (.ok c) host ↔ ((del c.coreCleanup).run s).2.world.Unharmed := by
  unfold LeavesAlone construct
  simp only [h]
  exact ⟨fun hall => hall e rfl, fun hall _ _ => hall⟩

/-- The fallback destroys something. -/
theorem not_leavesAlone {a : Action} (h : c.init.run ⟨Manager.init, { host }⟩ = (.error e, s))
    (hflag : s.mgr.isCleanedUp = false) (ha : a ∈ (c.coreCleanup.run s).2.world.issued) (hdestroys : a.destroys = true) :
    ¬ LeavesAlone (.ok c) host := by
  rw [leavesAlone_iff_of_error h, world_del, hflag]
  intro hall
  rw [hall a ha] at hdestroys
  cases hdestroys

/-- An action that a program issues first is in the log, if the rest of it only appends. -/
theorem mem_issued_bind {α β : Type} {a : Action} {f : W → Except PyError α × W} {rest : α → M (Attaching W) β}
    (hrest : ∀ x, Keeps (fun s => a ∈ s.world.issued) (rest x)) (s : Sys (Attaching W)) :
    a ∈ (((tryWorld (Attaching.logged a f) fun _ => []) >>= rest).run s).2.world.issued := by
  have hfirst : Hoare (fun _ => True) (tryWorld (Attaching.logged a f) fun _ => [] : M (Attaching W) α)
      fun _ s => a ∈ s.world.issued := by
    intro s _
    rw [run_tryWorld]
    exact List.mem_append_right _ (List.mem_singleton_self a)
  exact hoare_bind hfirst hrest (fun _ _ h => h) s trivial

/-- Nothing is taken from the log. -/
theorem keeps_logged {α : Type} {a b : Action} {f : W → Except PyError α × W} :
    Keeps (fun s => a ∈ s.world.issued) (tryWorld (Attaching.logged b f) fun _ => [] : M (Attaching W) α) :=
  keeps_tryWorld _ fun _ h => List.mem_append_left _ h

end

end StateFork
