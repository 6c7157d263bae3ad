import Mathlib.Data.Option.Basic
import StateFork.Lib.Pool

/-!
# Twin programs

A program that acts on a test it made in an earlier step is right as long as nobody changes what it tested in between.
Its twin takes the same steps, but acts only if the test still holds. While no step of another thread is a hazard for
what a thread is about to do, the two do the same, so that whatever the pool of the twins cannot reach, the pool of the
programs cannot reach without a hazard (`Config.CarefulReach.twin`).
-/

namespace Conc

variable {σ L ε χ α β : Type}

namespace Prog

/-- The next thing that a program does to the state. -/
def pending : Prog σ L ε χ α → Option (σ → σ)
  | ret _ => none
  | throw _ => none
  | atomic _ act _ => some act
  | acquire _ next => next.pending
  | release _ next => next.pending

theorem pending_andThen {p : Prog σ L ε χ α} {act : σ → σ} (h : p.pending = some act)
    (k : Except χ α → Prog σ L ε χ β) : (p.andThen k).pending = some act := by
  induction p with
  | ret a => cases h
  | throw e => cases h
  | atomic ev act next => exact h
  | acquire l next ih => exact ih h
  | release l next ih => exact ih h

variable (hazard : (σ → σ) → σ → σ → Prop)

/-- The change of the state is no hazard for what the program is about to do. -/
def Calm (p : Prog σ L ε χ α) (s s' : σ) : Prop := ∀ act, p.pending = some act → ¬ hazard act s s'

/-- The programs take the same steps from the state on, whatever happens in between that is no hazard. -/
def Twin : Prog σ L ε χ α → Prog σ L ε χ α → σ → Prop
  | ret a, p', _ => p' = ret a
  | throw e, p', _ => p' = throw e
  | atomic ev act next, p', s => ∃ act' next', p' = atomic ev act' next' ∧
      ∀ s', Relation.ReflTransGen (Calm hazard (atomic ev act next)) s s' →
        act' s' = act s' ∧ Twin (next s') (next' s') (act s')
  | acquire l next, p', s => ∃ next', p' = acquire l next' ∧
      ∀ s', Relation.ReflTransGen (Calm hazard next) s s' → Twin next next' s'
  | release l next, p', s => ∃ next', p' = release l next' ∧
      ∀ s', Relation.ReflTransGen (Calm hazard next) s s' → Twin next next' s'

variable {hazard}

/-- A program is its own twin. -/
theorem Twin.refl (p : Prog σ L ε χ α) (s : σ) : Twin hazard p p s := by
  induction p generalizing s with
  | ret a => rfl
  | throw e => rfl
  | atomic ev act next ih => exact ⟨act, next, rfl, fun s' _ => ⟨rfl, ih s' (act s')⟩⟩
  | acquire l next ih => exact ⟨next, rfl, fun s' _ => ih s'⟩
  | release l next ih => exact ⟨next, rfl, fun s' _ => ih s'⟩

theorem Twin.calm {p p' : Prog σ L ε χ α} {s s' : σ} (h : Twin hazard p p' s) (hs : Calm hazard p s s') :
    Twin hazard p p' s' := by
  cases p with
  | ret a => exact h
  | throw e => exact h
  | atomic ev act next =>
    obtain ⟨act', next', rfl, hnext⟩ := h
    exact ⟨act', next', rfl, fun s'' hs'' => hnext s'' (.head hs hs'')⟩
  | acquire l next =>
    obtain ⟨next', rfl, hnext⟩ := h
    exact ⟨next', rfl, fun s'' hs'' => hnext s'' (.head hs hs'')⟩
  | release l next =>
    obtain ⟨next', rfl, hnext⟩ := h
    exact ⟨next', rfl, fun s'' hs'' => hnext s'' (.head hs hs'')⟩

theorem Calm.of_andThen {p : Prog σ L ε χ α} {k : Except χ α → Prog σ L ε χ β} {s s' : σ}
    (h : Calm hazard (p.andThen k) s s') : Calm hazard p s s' :=
  fun act hact => h act (pending_andThen hact k)

theorem Twin.andThen {p p' : Prog σ L ε χ α} {k k' : Except χ α → Prog σ L ε χ β} {s : σ}
    (h : Twin hazard p p' s) (hk : ∀ r s', Twin hazard (k r) (k' r) s') :
    Twin hazard (p.andThen k) (p'.andThen k') s := by
  induction p generalizing p' s with
  | ret a =>
    obtain rfl : p' = .ret a := h
    exact hk _ s
  | throw e =>
    obtain rfl : p' = .throw e := h
    exact hk _ s
  | atomic ev act next ih =>
    obtain ⟨act', next', rfl, hnext⟩ := h
    refine ⟨act', _, rfl, fun s' hs' => ?_⟩
    obtain ⟨hact, htwin⟩ := hnext s' hs'
    exact ⟨hact, ih s' htwin⟩
  | acquire l next ih =>
    obtain ⟨next', rfl, hnext⟩ := h
    exact ⟨_, rfl, fun s' hs' => ih (hnext s' (Relation.ReflTransGen.mono (fun _ _ => Calm.of_andThen) _ _ hs'))⟩
  | release l next ih =>
    obtain ⟨next', rfl, hnext⟩ := h
    exact ⟨_, rfl, fun s' hs' => ih (hnext s' (Relation.ReflTransGen.mono (fun _ _ => Calm.of_andThen) _ _ hs'))⟩

theorem Twin.bind {p p' : Prog σ L ε χ α} {f f' : α → Prog σ L ε χ β} {s : σ} (h : Twin hazard p p' s)
    (hf : ∀ a s', Twin hazard (f a) (f' a) s') : Twin hazard (p >>= f) (p' >>= f') s := by
  refine h.andThen ?_
  rintro (e | a) s'
  · rfl
  · exact hf a s'

theorem Twin.withLock {l : L} {p p' : Prog σ L ε χ α} (h : ∀ s, Twin hazard p p' s) (s : σ) :
    Twin hazard (withLock l p) (withLock l p') s :=
  ⟨_, rfl, fun s' _ => (h s').andThen fun _ => .refl _⟩

theorem Twin.attempt {p p' : Prog σ L ε χ α} {s : σ} (h : Twin hazard p p' s) :
    Twin hazard p.attempt p'.attempt s :=
  h.andThen fun _ => .refl _

theorem Twin.each {l : List β} {f f' : β → Prog σ L ε χ Unit} (h : ∀ b s, Twin hazard (f b) (f' b) s) (s : σ) :
    Twin hazard (each l f) (each l f') s := by
  induction l generalizing s with
  | nil => exact .refl _ s
  | cons b l ih => exact (h b s).bind fun _ => ih

end Prog

open Prog

namespace Config

variable {hazard : (σ → σ) → σ → σ → Prop} {menu menu' : Prog σ L ε χ α → Prop} {reentrant : L → Bool}

/-- A step that is no hazard for what any thread is about to do. -/
def CarefulStep [DecidableEq L] (hazard : (σ → σ) → σ → σ → Prop) (menu : Prog σ L ε χ α → Prop) (reentrant : L → Bool)
    (c c' : Config σ L ε χ α) : Prop :=
  Step menu reentrant c c' ∧ ∀ t p, (c.thread t).code = some p → Calm hazard p c.state c'.state

/-- The configurations that careful schedules reach. -/
def CarefulReach [DecidableEq L] (hazard : (σ → σ) → σ → σ → Prop) (menu : Prog σ L ε χ α → Prop) (reentrant : L → Bool) (s : σ) :
    Config σ L ε χ α → Prop :=
  Relation.ReflTransGen (CarefulStep hazard menu reentrant) { state := s }

/-- The threads of `d` run the twins of what the threads of `c` run. -/
structure Twins (hazard : (σ → σ) → σ → σ → Prop) (c d : Config σ L ε χ α) : Prop where
  state : d.state = c.state
  owner : d.owner = c.owner
  held : ∀ t, (d.thread t).held = (c.thread t).held
  code : ∀ t, Option.Rel (fun p p' => Twin hazard p p' c.state) (c.thread t).code (d.thread t).code

namespace Twins

variable {c d c' : Config σ L ε χ α}

/-- After a step of thread `t` that changed the state to `s`, both sides of thread `t` are given again. -/
theorem update (h : Twins hazard c d) {s : σ} {owner : L → Option Nat} {t : Nat} {th th' : Thread σ L ε χ α}
    {trace trace' : List (Nat × ε)} (hcalm : ∀ t p, (c.thread t).code = some p → Calm hazard p c.state s)
    (hheld : th'.held = th.held) (hcode : Option.Rel (fun p p' => Twin hazard p p' s) th.code th'.code) :
    Twins hazard { state := s, thread := Function.update c.thread t th, owner, trace }
      { state := s, thread := Function.update d.thread t th', owner, trace := trace' } where
  state := rfl
  owner := rfl
  held t' := by
    dsimp only
    by_cases ht : t' = t
    · subst ht
      rw [Function.update_self, Function.update_self, hheld]
    · rw [Function.update_of_ne ht, Function.update_of_ne ht, h.held]
  code t' := by
    dsimp only
    by_cases ht : t' = t
    · subst ht
      rw [Function.update_self, Function.update_self]
      exact hcode
    · rw [Function.update_of_ne ht, Function.update_of_ne ht]
      have hold := h.code t'
      cases hp : (c.thread t').code with
      | none =>
        rw [hp] at hold
        cases hd : (d.thread t').code with
        | none => exact .none
        | some p' =>
          rw [hd] at hold
          cases hold
      | some p =>
        rw [hp] at hold
        cases hd : (d.thread t').code with
        | none =>
          rw [hd] at hold
          cases hold
        | some p' =>
          rw [hd] at hold
          cases hold with
          | some htwin => exact .some (htwin.calm (hcalm t' p hp))

variable [DecidableEq L]

/-- A thread and its twin can take the same step. -/
theorem stepThread (h : Twins hazard c d) {t : Nat} (hstep : c.stepThread reentrant t = some c')
    (hcalm : ∀ t p, (c.thread t).code = some p → Calm hazard p c.state c'.state) :
    ∃ d', d.stepThread reentrant t = some d' ∧ Twins hazard c' d' := by
  have hheld := h.held t
  have hcode := h.code t
  unfold Config.stepThread at hstep ⊢
  dsimp only at hstep ⊢
  cases hp : (c.thread t).code with
  | none =>
    rw [hp] at hstep
    cases hstep
  | some p =>
    rw [hp] at hcode hstep
    cases hd : (d.thread t).code with
    | none =>
      rw [hd] at hcode
      cases hcode
    | some p' =>
      rw [hd] at hcode
      cases hcode with
      | some htwin =>
        cases p with
        | ret a =>
          obtain rfl : p' = .ret a := htwin
          cases hstep
          refine ⟨_, rfl, ?_⟩
          rw [Config.setThread, Config.setThread, h.state, h.owner]
          exact h.update hcalm hheld .none
        | throw e =>
          obtain rfl : p' = .throw e := htwin
          cases hstep
          refine ⟨_, rfl, ?_⟩
          rw [Config.setThread, Config.setThread, h.state, h.owner]
          exact h.update hcalm hheld .none
        | atomic ev act next =>
          obtain ⟨act', next', rfl, hnext⟩ := htwin
          obtain ⟨hact, hnext⟩ := hnext c.state .refl
          cases hstep
          refine ⟨_, rfl, ?_⟩
          rw [Config.setThread, Config.setThread, h.state, h.owner, hact]
          exact h.update hcalm hheld (.some hnext)
        | acquire l next =>
          obtain ⟨next', rfl, hnext⟩ := htwin
          have havailable : d.available reentrant t l = c.available reentrant t l := by
            unfold available
            rw [h.owner]
          dsimp only at hstep ⊢
          rw [havailable]
          split_ifs at hstep ⊢ with hfree
          cases hstep
          refine ⟨_, rfl, ?_⟩
          rw [Config.setThread, Config.setThread, h.state, h.owner]
          exact h.update hcalm (congrArg (l :: ·) hheld) (.some (hnext c.state .refl))
        | release l next =>
          obtain ⟨next', rfl, hnext⟩ := htwin
          cases hstep
          refine ⟨_, rfl, ?_⟩
          rw [Config.setThread, Config.setThread, h.state, h.owner, hheld]
          exact h.update hcalm rfl (.some (hnext c.state .refl))

/-- Every program of the menu has a twin on the other menu. -/
theorem step (hmenu : ∀ p, menu p → ∃ p', menu' p' ∧ ∀ s, Twin hazard p p' s) (h : Twins hazard c d)
    (hstep : CarefulStep hazard menu reentrant c c') : ∃ d', Step menu' reentrant d d' ∧ Twins hazard c' d' := by
  obtain ⟨hstep, hcalm⟩ := hstep
  cases hstep with
  | @start t p idle offered =>
    obtain ⟨p', offered', htwin⟩ := hmenu p offered
    have idle' : (d.thread t).code = none := by
      have hcode := h.code t
      rw [idle] at hcode
      cases hd : (d.thread t).code with
      | none => rfl
      | some q =>
        rw [hd] at hcode
        cases hcode
    refine ⟨_, .start idle' offered', ?_⟩
    rw [Config.setThread, Config.setThread, h.state, h.owner]
    exact h.update hcalm (h.held t) (.some (htwin c.state))
  | run taken =>
    obtain ⟨d', taken', htwins⟩ := h.stepThread taken hcalm
    exact ⟨d', .run taken', htwins⟩

end Twins

/-- What careful schedules reach, the pool of the twins reaches with the same state. -/
theorem CarefulReach.twin [DecidableEq L] (hmenu : ∀ p, menu p → ∃ p', menu' p' ∧ ∀ s, Twin hazard p p' s) {s : σ}
    {c : Config σ L ε χ α} (h : CarefulReach hazard menu reentrant s c) :
    ∃ d, Reach menu' reentrant s d ∧ d.state = c.state := by
  suffices htwins : ∃ d, Reach menu' reentrant s d ∧ Twins hazard c d by
    obtain ⟨d, hd, htwins⟩ := htwins
    exact ⟨d, hd, htwins.state⟩
  induction h with
  | refl => exact ⟨_, .refl, rfl, rfl, fun _ => rfl, fun _ => .none⟩
  | tail _ hstep ih =>
    obtain ⟨d, hd, htwins⟩ := ih
    obtain ⟨d', hstep', htwins'⟩ := htwins.step hmenu hstep
    exact ⟨d', hd.tail hstep', htwins'⟩

/-! ### Schedules without a hazard -/

section Play

/-- None of the threads from the `n`-th on is running. -/
def Few (n : Nat) (c : Config σ L ε χ α) : Prop := ∀ t, n ≤ t → (c.thread t).code = none

theorem Few.setThread {n t : Nat} {c : Config σ L ε χ α} (h : Few n c) (ht : t < n) (th : Thread σ L ε χ α) :
    Few n (c.setThread t th) := by
  intro t' ht'
  unfold Config.setThread
  dsimp only
  rw [Function.update_of_ne (by omega)]
  exact h t' ht'

variable {n : Nat} {c c' : Config σ L ε χ α}

/-- The change of the state passes a test against what each of the first `n` threads is about to do. -/
def passes (test : (σ → σ) → σ → σ → Bool) (n : Nat) (c c' : Config σ L ε χ α) : Bool :=
  (List.range n).all fun t => match (c.thread t).code.bind pending with
    | none => true
    | some act => test act c.state c'.state

theorem calm_of_passes {test : (σ → σ) → σ → σ → Bool} (htest : ∀ act s s', test act s s' = true → ¬ hazard act s s')
    (hfew : Few n c) (h : passes test n c c' = true) (t : Nat) (p : Prog σ L ε χ α) (hp : (c.thread t).code = some p) :
    Calm hazard p c.state c'.state := by
  have ht : t < n := by
    by_contra ht
    rw [hfew t (not_lt.mp ht)] at hp
    cases hp
  intro act hact
  have hpassed := List.all_eq_true.mp h t (List.mem_range.mpr ht)
  rw [hp, Option.bind_some, hact] at hpassed
  exact htest act _ _ hpassed

variable [DecidableEq L]

/-- Only a thread that is running can take a step. -/
theorem Few.stepThread {t : Nat} (h : Few n c) (hstep : c.stepThread reentrant t = some c') : Few n c' := by
  obtain ⟨th, hth⟩ := thread_stepThread hstep
  intro t' ht'
  have hne : t' ≠ t := by
    rintro rfl
    unfold Config.stepThread at hstep
    dsimp only at hstep
    rw [h t' ht'] at hstep
    cases hstep
  rw [hth, Function.update_of_ne hne]
  exact h t' ht'

/-- What a schedule of the first `n` threads plays, if all its steps pass the test. -/
def playTested (test : (σ → σ) → σ → σ → Bool) (n : Nat) (reentrant : L → Bool) :
    List (Move σ L ε χ α) → Config σ L ε χ α → Option (Config σ L ε χ α)
  | [], c => some c
  | .start t p :: moves, c =>
    if t < n ∧ (c.thread t).code.isNone then
      playTested test n reentrant moves (c.setThread t { c.thread t with code := some p })
    else none
  | .run t :: moves, c =>
    match c.stepThread reentrant t with
    | none => none
    | some c' => if passes test n c c' then playTested test n reentrant moves c' else none

/-- A schedule that passes a test for hazards is a careful one. -/
theorem careful_of_playTested {test : (σ → σ) → σ → σ → Bool} {moves : List (Move σ L ε χ α)}
    (htest : ∀ act s s', test act s s' = true → ¬ hazard act s s') (hstay : ∀ act s, ¬ hazard act s s)
    (hmenu : ∀ t p, Move.start t p ∈ moves → menu p) (hfew : Few n c)
    (h : playTested test n reentrant moves c = some c') :
    Relation.ReflTransGen (CarefulStep hazard menu reentrant) c c' := by
  induction moves generalizing c with
  | nil =>
    obtain rfl : c = c' := Option.some.inj h
    exact .refl
  | cons move moves ih =>
    have hmenu' : ∀ t p, Move.start t p ∈ moves → menu p := fun t p hp => hmenu t p (List.mem_cons_of_mem _ hp)
    cases move with
    | start t p =>
      unfold playTested at h
      split_ifs at h with hidle
      have hstart : CarefulStep hazard menu reentrant c (c.setThread t { c.thread t with code := some p }) :=
        ⟨.start (Option.isNone_iff_eq_none.mp hidle.2) (hmenu t p (List.mem_cons_self ..)),
          fun _ _ _ act _ => hstay act c.state⟩
      exact .head hstart (ih hmenu' (hfew.setThread hidle.1 _) h)
    | run t =>
      unfold playTested at h
      split at h
      · cases h
      · next c₁ taken =>
        split_ifs at h with hpasses
        exact .head ⟨.run taken, calm_of_passes htest hfew hpasses⟩ (ih hmenu' (hfew.stepThread taken) h)

end Play

end Config

end Conc
