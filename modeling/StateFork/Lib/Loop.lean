import Mathlib.Data.Nat.Basic

/-!
# Loops

A loop is given by what one iteration does in a state. `run` bounds the number of iterations, `Ends` does not. What
holds of a result follows from an invariant (`Ends.rule`).
-/

namespace Loop

variable {σ ρ : Type*}

/-- What one iteration does. -/
inductive Iteration (σ ρ : Type*) where
  | again (s : σ)
  | ends (r : ρ)
  deriving DecidableEq

/-- The result of a loop that ends within a number of iterations. -/
def run (body : σ → Iteration σ ρ) : Nat → σ → Option ρ
  | 0, _ => none
  | n + 1, s =>
    match body s with
    | .again s' => run body n s'
    | .ends r => some r

/-- The loop ends with a result. -/
def Ends (body : σ → Iteration σ ρ) (s : σ) (r : ρ) : Prop := ∃ n, run body n s = some r

variable {body : σ → Iteration σ ρ} {s s' : σ} {r r' : ρ} {n : Nat}

theorem run_again (h : body s = .again s') : run body (n + 1) s = run body n s' := by rw [run, h]

theorem run_ends (h : body s = .ends r) : run body (n + 1) s = some r := by rw [run, h]

theorem run_succ (h : run body n s = some r) : run body (n + 1) s = some r := by
  induction n generalizing s with
  | zero => cases h
  | succ n ih =>
    cases hbody : body s with
    | again s' => rw [run_again hbody] at h ⊢; exact ih h
    | ends r' => rw [run_ends hbody] at h ⊢; exact h

theorem run_of_le {m : Nat} (hle : n ≤ m) (h : run body n s = some r) : run body m s = some r := by
  induction hle with
  | refl => exact h
  | step _ ih => exact run_succ ih

theorem Ends.of_ends (h : body s = .ends r) : Ends body s r := ⟨1, run_ends h⟩

theorem ends_again_iff (h : body s = .again s') : Ends body s r ↔ Ends body s' r := by
  constructor
  · rintro ⟨_ | n, hrun⟩
    · cases hrun
    · exact ⟨n, by rwa [run_again h] at hrun⟩
  · rintro ⟨n, hrun⟩
    exact ⟨n + 1, by rwa [run_again h]⟩

theorem Ends.unique (h : Ends body s r) (h' : Ends body s r') : r = r' := by
  obtain ⟨n, h⟩ := h
  obtain ⟨m, h'⟩ := h'
  have hn := run_of_le (Nat.le_max_left n m) h
  rw [run_of_le (Nat.le_max_right n m) h'] at hn
  exact (Option.some.inj hn).symm

/-- A loop whose states are known up to its end. -/
theorem ends_of_again {states : Nat → σ} {k : Nat} (h : ∀ n < k, body (states n) = .again (states (n + 1)))
    (hend : body (states k) = .ends r) : Ends body (states 0) r := by
  have hback : ∀ n ≤ k, Ends body (states (k - n)) r := by
    intro n
    induction n with
    | zero => exact fun _ => .of_ends hend
    | succ n ih =>
      intro hn
      have hnext := h (k - (n + 1)) (by omega)
      rw [show k - (n + 1) + 1 = k - n by omega] at hnext
      exact (ends_again_iff hnext).mpr (ih (by omega))
  have hfirst := hback k (Nat.le_refl _)
  rwa [Nat.sub_self] at hfirst

/-- A loop that goes on from every one of its states. -/
theorem not_ends_of_again {states : Nat → σ} (h : ∀ n, body (states n) = .again (states (n + 1))) :
    ¬ Ends body (states 0) r := by
  rintro ⟨n, hrun⟩
  have hnone : ∀ n k, run body n (states k) = none := by
    intro n
    induction n with
    | zero => exact fun _ => rfl
    | succ n ih => exact fun k => (run_again (h k)).trans (ih (k + 1))
  rw [hnone n 0] at hrun
  cases hrun

/-- What an invariant gives of the state in which the loop ends. -/
theorem Ends.rule {I : σ → Prop} {Q : ρ → Prop} (hagain : ∀ s s', I s → body s = .again s' → I s')
    (hends : ∀ s r, I s → body s = .ends r → Q r) (hI : I s) (h : Ends body s r) : Q r := by
  obtain ⟨n, h⟩ := h
  induction n generalizing s with
  | zero => cases h
  | succ n ih =>
    cases hbody : body s with
    | again s' => exact ih (hagain s s' hI hbody) (by rwa [run_again hbody] at h)
    | ends r' =>
      rw [run_ends hbody] at h
      exact Option.some.inj h ▸ hends s r' hI hbody

end Loop
