import Mathlib.Tactic.Common

/-!
# Separated steps

The steps of a system belong to owners, each of which has a view of the state. The steps are `Separated` if a step
answers and changes the view of its owner as that view tells it, and changes no other view. Then a step answers the
same, and leaves the same view behind, after a step of another owner (`Separated.after`);
and in every interleaving an owner gets the answers, and ends with the view, of its own steps run alone
(`Separated.run_filter`).
-/

namespace Separation

variable {σ ω ρ ι ν : Type}

/-- Runs steps one after the other, and keeps their answers. -/
def run (step : ω → σ → ρ × σ) : List ω → σ → List (ω × ρ) × σ
  | [], s => ([], s)
  | op :: ops, s => ((op, (step op s).1) :: (run step ops (step op s).2).1, (run step ops (step op s).2).2)

/-- The steps that are offered, in the states that satisfy the invariant. -/
structure Separated (inv : σ → Prop) (offered : ω → Prop) (owner : ω → ι) (view : σ → ι → ν)
    (step : ω → σ → ρ × σ) : Prop where
  keeps : ∀ op s, offered op → inv s → inv (step op s).2
  frame : ∀ op s i, offered op → inv s → i ≠ owner op → view (step op s).2 i = view s i
  determined : ∀ op s s', offered op → inv s → inv s' → view s (owner op) = view s' (owner op) →
    (step op s).1 = (step op s').1 ∧ view (step op s).2 (owner op) = view (step op s').2 (owner op)

namespace Separated

variable {inv : σ → Prop} {offered : ω → Prop} {owner : ω → ι} {view : σ → ι → ν} {step : ω → σ → ρ × σ}
  (h : Separated inv offered owner view step) {op op' : ω} {s s' : σ}

include h

/-- A step of another owner changes neither the answer of a step nor the view that the step leaves behind. -/
theorem after (ho : offered op) (ho' : offered op') (hs : inv s) (hne : owner op ≠ owner op') :
    (step op (step op' s).2).1 = (step op s).1 ∧
      view (step op (step op' s).2).2 (owner op) = view (step op s).2 (owner op) :=
  h.determined op _ s ho (h.keeps op' s ho' hs) hs (h.frame op' s _ ho' hs hne)

variable [DecidableEq ι]

/-- In an interleaving every owner gets the answers, and ends with the view, of its own steps alone. -/
theorem run_filter (i : ι) {ops : List ω} (hops : ∀ op ∈ ops, offered op) (hs : inv s) (hs' : inv s')
    (hview : view s i = view s' i) :
    (run step ops s).1.filter (owner ·.1 = i) = (run step (ops.filter (owner · = i)) s').1 ∧
      view (run step ops s).2 i = view (run step (ops.filter (owner · = i)) s').2 i := by
  induction ops generalizing s s' with
  | nil => exact ⟨rfl, hview⟩
  | cons op ops ih =>
    have ho := hops op (List.mem_cons_self ..)
    have hrest : ∀ op ∈ ops, offered op := fun op' hop' => hops op' (List.mem_cons_of_mem _ hop')
    by_cases hi : owner op = i
    · subst hi
      obtain ⟨hanswer, hafter⟩ := h.determined op s s' ho hs hs' hview
      obtain ⟨hanswers, hends⟩ := ih hrest (h.keeps op s ho hs) (h.keeps op s' ho hs') hafter
      rw [List.filter_cons_of_pos (by simp)]
      simp only [run]
      rw [List.filter_cons_of_pos (by simp), hanswers, hanswer]
      exact ⟨rfl, hends⟩
    · have hframe := h.frame op s i ho hs (Ne.symm hi)
      obtain ⟨hanswers, hends⟩ := ih hrest (h.keeps op s ho hs) hs' (hframe.trans hview)
      rw [List.filter_cons_of_neg (by simpa using hi)]
      simp only [run]
      rw [List.filter_cons_of_neg (by simpa using hi)]
      exact ⟨hanswers, hends⟩

end Separated

end Separation
