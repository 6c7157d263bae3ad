import StateFork.Lib.Pool

/-!
# Programs that move the state by a relation

A program moves by a relation if each of its steps does, from every state (`Moves`). The steps of different programs
then do not have to know of each other: whatever the schedule, a pool of such programs moves by the reflexive and
transitive closure of the relation (`moves_of_reach`).
-/

namespace Conc

variable {σ L ε χ α β : Type}

namespace Prog

variable (R : σ → σ → Prop)

/-- Every step of the program goes from any state to a related one. -/
def Moves : Prog σ L ε χ α → Prop
  | ret _ => True
  | throw _ => True
  | atomic _ act next => (∀ s, R s (act s)) ∧ ∀ s, Moves (next s)
  | acquire _ next => Moves next
  | release _ next => Moves next

variable {R}

end Prog

namespace Config

variable [DecidableEq L] {R : σ → σ → Prop} {menu : Prog σ L ε χ α → Prop} {reentrant : L → Bool}
  {c c' : Config σ L ε χ α}

/-- What every thread has yet to do moves by the relation. -/
def Moves (R : σ → σ → Prop) (c : Config σ L ε χ α) : Prop := ∀ t p, (c.thread t).code = some p → p.Moves R

omit [DecidableEq L] in
theorem Moves.setThread (h : c.Moves R) {t : Nat} {th : Thread σ L ε χ α} (hth : ∀ p, th.code = some p → p.Moves R) :
    (c.setThread t th).Moves R := by
  intro t' p hp
  have hthread : (c.setThread t th).thread t' = if t' = t then th else c.thread t' := Function.update_apply ..
  rw [hthread] at hp
  split_ifs at hp
  · exact hth p hp
  · exact h t' p hp

theorem Moves.step (h : c.Moves R) (hmenu : ∀ p, menu p → p.Moves R) (hstep : Step menu reentrant c c') :
    c'.Moves R ∧ Relation.ReflTransGen R c.state c'.state := by
  cases hstep with
  | @start t p idle offered =>
    refine ⟨h.setThread fun q hq => ?_, .refl⟩
    cases hq
    exact hmenu _ offered
  | @run _ t taken =>
    unfold stepThread at taken
    dsimp only at taken
    split at taken
    · cases taken
    · cases taken
      exact ⟨h.setThread fun q hq => (by cases hq), .refl⟩
    · cases taken
      exact ⟨h.setThread fun q hq => (by cases hq), .refl⟩
    · next ev act next hcode =>
      cases taken
      obtain ⟨hact, hnext⟩ := h t _ hcode
      refine ⟨h.setThread fun q hq => ?_, .single (hact _)⟩
      cases hq
      exact hnext _
    · next l next hcode =>
      have hrest : (Prog.acquire l next).Moves R := h t _ hcode
      split_ifs at taken
      cases taken
      refine ⟨h.setThread fun q hq => ?_, .refl⟩
      cases hq
      exact hrest
    · next l next hcode =>
      have hrest : (Prog.release l next).Moves R := h t _ hcode
      cases taken
      refine ⟨h.setThread fun q hq => ?_, .refl⟩
      cases hq
      exact hrest

theorem Moves.steps (h : c.Moves R) (hmenu : ∀ p, menu p → p.Moves R)
    (hsteps : Relation.ReflTransGen (Step menu reentrant) c c') :
    c'.Moves R ∧ Relation.ReflTransGen R c.state c'.state := by
  induction hsteps with
  | refl => exact ⟨h, .refl⟩
  | tail _ hstep ih =>
    obtain ⟨hmoves, hpath⟩ := ih
    obtain ⟨hmoves', hpath'⟩ := hmoves.step hmenu hstep
    exact ⟨hmoves', hpath.trans hpath'⟩

end Config

end Conc
