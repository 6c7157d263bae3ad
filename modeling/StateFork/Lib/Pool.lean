import Mathlib.Data.List.Infix
import Mathlib.Data.List.Induction
import Mathlib.Logic.Function.Basic
import Mathlib.Logic.Relation
import StateFork.Lib.Prog

/-!
# Pools of threads

Any number of threads share one state and a set of locks. An idle thread may start any program of a
menu; a running thread takes the steps of its program one at a time, in any order with those of the
others. A lock is granted to a thread if no other thread owns it and, unless it is reentrant, the
thread does not own it either. A thread keeps the list of the locks it holds, once for each
acquisition, and the events of the program it is running.
-/

namespace Conc

structure Thread (σ L ε χ α : Type) where
  code : Option (Prog σ L ε χ α) := none
  held : List L := []
  log : List ε := []

structure Config (σ L ε χ α : Type) where
  state : σ
  thread : Nat → Thread σ L ε χ α := fun _ => {}
  owner : L → Option Nat := fun _ => none
  trace : List (Nat × ε) := []

/-- A state together with the events so far. -/
structure View (σ ε : Type) where
  state : σ
  events : List ε

/-- The view after a step with the given events. -/
def View.step {σ ε : Type} (v : View σ ε) (ev : List ε) (s : σ) : View σ ε := ⟨s, v.events ++ ev⟩

@[simp] theorem View.step_nil {σ ε : Type} (v : View σ ε) : v.step [] v.state = v := by
  simp [View.step]

/-! ### Histories -/

section History

variable {ε : Type} {t tr : List ε} {e f : ε}

/-- An event of a longer history is the last one or one of the shorter history. -/
theorem snoc_prefix_snoc : t ++ [e] <+: tr ++ [f] ↔ (t = tr ∧ e = f) ∨ t ++ [e] <+: tr := by
  rw [List.prefix_concat_iff]
  simp

/-- An event that is not new happened before. -/
theorem snoc_prefix_append {ev : List ε} (he : e ∉ ev) : t ++ [e] <+: tr ++ ev ↔ t ++ [e] <+: tr := by
  induction ev using List.reverseRecOn with
  | nil => rw [List.append_nil]
  | append_singleton ev f ih =>
    rw [List.mem_append, List.mem_singleton, not_or] at he
    rw [← List.append_assoc, snoc_prefix_snoc, ih he.1]
    simp [he.2]

end History

/-! ### Configurations -/

namespace Config

variable {σ L ε χ α : Type}

/-- What an observer has seen. -/
def view (c : Config σ L ε χ α) : View σ ε := ⟨c.state, c.trace.map Prod.snd⟩

variable [DecidableEq L]

/-- Thread `t` goes on as `th`. -/
def setThread (c : Config σ L ε χ α) (t : Nat) (th : Thread σ L ε χ α) : Config σ L ε χ α :=
  { c with thread := Function.update c.thread t th }

/-- The lock would be granted to thread `t`. -/
def available (reentrant : L → Bool) (c : Config σ L ε χ α) (t : Nat) (l : L) : Bool :=
  match c.owner l with
  | none => true
  | some t' => t' = t && reentrant l

/-- The next step of thread `t`, unless it is idle or has to wait. -/
def stepThread (reentrant : L → Bool) (c : Config σ L ε χ α) (t : Nat) : Option (Config σ L ε χ α) :=
  let th := c.thread t
  match th.code with
  | none => none
  | some (.ret _) => some (c.setThread t { th with code := none, log := [] })
  | some (.throw _) => some (c.setThread t { th with code := none, log := [] })
  | some (.atomic events act next) =>
    some
      { (c.setThread t { th with code := some (next c.state), log := th.log ++ events c.state }) with
        state := act c.state
        trace := c.trace ++ (events c.state).map fun e => (t, e) }
  | some (.acquire l next) =>
    if c.available reentrant t l then
      some
        { (c.setThread t { th with code := some next, held := l :: th.held }) with
          owner := Function.update c.owner l (some t) }
    else none
  | some (.release l next) =>
    let held := th.held.erase l
    some
      { (c.setThread t { th with code := some next, held }) with
        owner := Function.update c.owner l (if l ∈ held then some t else none) }

/-- A step changes no other thread. -/
theorem thread_stepThread {reentrant : L → Bool} {c c' : Config σ L ε χ α} {t : Nat}
    (h : c.stepThread reentrant t = some c') : ∃ th, c'.thread = Function.update c.thread t th := by
  unfold stepThread at h
  dsimp only at h
  split at h
  · cases h
  · cases h
    exact ⟨_, rfl⟩
  · cases h
    exact ⟨_, rfl⟩
  · cases h
    exact ⟨_, rfl⟩
  · split_ifs at h
    cases h
    exact ⟨_, rfl⟩
  · cases h
    exact ⟨_, rfl⟩

/-- A step of the pool. -/
inductive Step (menu : Prog σ L ε χ α → Prop) (reentrant : L → Bool) :
    Config σ L ε χ α → Config σ L ε χ α → Prop
  | start {c : Config σ L ε χ α} {t : Nat} {p : Prog σ L ε χ α} (idle : (c.thread t).code = none)
      (offered : menu p) :
      Step menu reentrant c (c.setThread t { c.thread t with code := some p })
  | run {c c' : Config σ L ε χ α} {t : Nat} (taken : c.stepThread reentrant t = some c') :
      Step menu reentrant c c'

/-- The configurations that some schedule reaches from an idle pool. -/
def Reach (menu : Prog σ L ε χ α → Prop) (reentrant : L → Bool) (s : σ) : Config σ L ε χ α → Prop :=
  Relation.ReflTransGen (Step menu reentrant) { state := s }

/-- Thread `t` is about to acquire `l`. -/
def Requests (c : Config σ L ε χ α) (t : Nat) (l : L) : Prop :=
  ∃ next, (c.thread t).code = some (.acquire l next)

/-- The lock that thread `t` is about to acquire. -/
def request (c : Config σ L ε χ α) (t : Nat) : Option L :=
  match (c.thread t).code with
  | some (.acquire l _) => some l
  | _ => none

omit [DecidableEq L] in
theorem requests_iff {c : Config σ L ε χ α} {t : Nat} {l : L} : c.Requests t l ↔ c.request t = some l := by
  unfold Requests request
  constructor
  · rintro ⟨next, hcode⟩
    rw [hcode]
  · intro h
    split at h
    · next next hcode =>
      cases h
      exact ⟨next, hcode⟩
    · cases h

/-- The events of the step that thread `t` is about to take. -/
def emits (c : Config σ L ε χ α) (t : Nat) : List ε :=
  match (c.thread t).code with
  | some (.atomic events _ _) => events c.state
  | _ => []

/-- Every thread of the set waits for a lock that a thread of the set owns. -/
def Deadlocked (reentrant : L → Bool) (c : Config σ L ε χ α) (S : Set Nat) : Prop :=
  S.Nonempty ∧ ∀ t ∈ S, ∃ l, c.Requests t l ∧ c.available reentrant t l = false ∧
    ∃ t' ∈ S, c.owner l = some t'

/-! ### Schedules -/

/-- A scheduler's move: an idle thread starts a program, or a thread takes its next step. -/
inductive Move (σ L ε χ α : Type) where
  | start (t : Nat) (p : Prog σ L ε χ α)
  | run (t : Nat)

/-- The configuration after a schedule, if all its moves are possible. -/
def play (reentrant : L → Bool) : List (Move σ L ε χ α) → Config σ L ε χ α → Option (Config σ L ε χ α)
  | [], c => some c
  | .start t p :: moves, c =>
    match (c.thread t).code with
    | none => play reentrant moves (c.setThread t { c.thread t with code := some p })
    | some _ => none
  | .run t :: moves, c =>
    match c.stepThread reentrant t with
    | none => none
    | some c' => play reentrant moves c'

/-- What a schedule plays is reachable, if the menu offers what it starts. -/
theorem reach_of_play {menu : Prog σ L ε χ α → Prop} {reentrant : L → Bool}
    {moves : List (Move σ L ε χ α)} (hmenu : ∀ t p, Move.start t p ∈ moves → menu p)
    {c c' : Config σ L ε χ α} (h : play reentrant moves c = some c') :
    Relation.ReflTransGen (Step menu reentrant) c c' := by
  induction moves generalizing c with
  | nil =>
    obtain rfl : c = c' := Option.some.inj h
    exact .refl
  | cons move moves ih =>
    have hrest : ∀ t p, Move.start t p ∈ moves → menu p :=
      fun t p hp => hmenu t p (List.mem_cons_of_mem _ hp)
    cases move with
    | start t p =>
      unfold play at h
      split at h
      · next idle => exact .head (.start idle (hmenu t p (List.mem_cons_self ..))) (ih hrest h)
      · exact absurd h (by simp)
    | run t =>
      unfold play at h
      split at h
      · exact absurd h (by simp)
      · next c₁ taken => exact .head (.run taken) (ih hrest h)

/-- A property of the configuration that a schedule leads to. -/
theorem exists_reach_of_play {menu : Prog σ L ε χ α → Prop} {reentrant : L → Bool}
    {moves : List (Move σ L ε χ α)} (hmenu : ∀ t p, Move.start t p ∈ moves → menu p) {s : σ}
    {q : Config σ L ε χ α → Bool} (h : (play reentrant moves { state := s }).any q = true) :
    ∃ c, Reach menu reentrant s c ∧ q c = true := by
  obtain ⟨c, hc, hq⟩ := (Option.any_eq_true _ _).mp h
  exact ⟨c, reach_of_play hmenu hc, hq⟩

/-- A schedule leaves the threads that it does not name as they are. -/
theorem thread_of_play {reentrant : L → Bool} {moves : List (Move σ L ε χ α)} {t : Nat}
    (hstart : ∀ p, Move.start t p ∉ moves) (hrun : Move.run t ∉ moves) {c c' : Config σ L ε χ α}
    (h : play reentrant moves c = some c') : c'.thread t = c.thread t := by
  induction moves generalizing c with
  | nil =>
    obtain rfl : c = c' := Option.some.inj h
    rfl
  | cons move moves ih =>
    have hstart' : ∀ p, Move.start t p ∉ moves := fun p hp => hstart p (List.mem_cons_of_mem _ hp)
    have hrun' : Move.run t ∉ moves := fun ht => hrun (List.mem_cons_of_mem _ ht)
    cases move with
    | start t' p =>
      have ht : t ≠ t' := fun he => hstart p (he ▸ List.mem_cons_self ..)
      unfold play at h
      split at h
      · exact (ih hstart' hrun' h).trans (Function.update_of_ne ht ..)
      · cases h
    | run t' =>
      have ht : t ≠ t' := fun he => hrun (he ▸ List.mem_cons_self ..)
      unfold play at h
      split at h
      · cases h
      · next c₁ taken =>
        obtain ⟨th, hth⟩ := thread_stepThread taken
        rw [ih hstart' hrun' h, hth, Function.update_of_ne ht]

end Config

end Conc
