import Mathlib.Data.List.Basic

/-!
# Runs of operations

A machine takes a step for every operation of a list. `Throughout` says that a property holds in every state of the
run, and `EachStep` that every operation meets a condition in the state in which it starts. If a property survives a
step exactly when the step meets the condition, then it holds throughout a run exactly if each step does
(`throughout_iff`).
-/

namespace Run

variable {S Op : Type*} (step : S → Op → S)

/-- `P` holds in every state of the run. -/
def Throughout (P : S → Prop) (ops : List Op) (s : S) : Prop :=
  ∀ before after, ops = before ++ after → P (before.foldl step s)

/-- `C` holds of every operation of the run and the state in which it starts. -/
def EachStep (C : Op → S → Prop) : List Op → S → Prop
  | [], _ => True
  | op :: ops, s => C op s ∧ EachStep C ops (step s op)

variable {step} {P I : S → Prop} {C C' : Op → S → Prop} {ops : List Op} {s : S}

theorem throughout_nil : Throughout step P [] s ↔ P s := by
  constructor
  · intro h
    exact h [] [] rfl
  · intro h before after he
    obtain ⟨rfl, -⟩ := List.append_eq_nil_iff.mp he.symm
    exact h

theorem throughout_cons (op : Op) (ops : List Op) :
    Throughout step P (op :: ops) s ↔ P s ∧ Throughout step P ops (step s op) := by
  constructor
  · intro h
    exact ⟨h [] (op :: ops) rfl, fun before after he => h (op :: before) after (congrArg (op :: ·) he)⟩
  · rintro ⟨hnow, hlater⟩ before after he
    rcases List.cons_eq_append_iff.mp he with ⟨rfl, -⟩ | ⟨before, rfl, hrest⟩
    · exact hnow
    · exact hlater before after hrest

theorem Throughout.start (h : Throughout step P ops s) : P s := h [] ops rfl

/-- The property that only the steps with `C` keep. -/
theorem throughout_iff (hI : I s) (hkeep : ∀ s op, I s → I (step s op))
    (hstep : ∀ op ∈ ops, ∀ s, I s → P s → (P (step s op) ↔ C op s)) (h : P s) :
    Throughout step P ops s ↔ EachStep step C ops s := by
  induction ops generalizing s with
  | nil => exact throughout_nil.trans (iff_of_true h trivial)
  | cons op ops ih =>
    have hfirst := hstep op (List.mem_cons_self ..) s hI h
    have hrest : P (step s op) → (Throughout step P ops (step s op) ↔ EachStep step C ops (step s op)) :=
      ih (hkeep s op hI) fun op' hop' => hstep op' (List.mem_cons_of_mem _ hop')
    rw [throughout_cons, and_iff_right h]
    constructor
    · intro hrun
      exact ⟨hfirst.mp hrun.start, (hrest hrun.start).mp hrun⟩
    · rintro ⟨hC, hsteps⟩
      exact (hrest (hfirst.mpr hC)).mpr hsteps

/-- A property that the steps with `C` keep. -/
theorem throughout_of_eachStep (hI : I s) (hkeep : ∀ s op, I s → I (step s op))
    (hstep : ∀ op ∈ ops, ∀ s, I s → P s → C op s → P (step s op)) (h : P s) (hsteps : EachStep step C ops s) :
    Throughout step P ops s := by
  induction ops generalizing s with
  | nil => exact throughout_nil.mpr h
  | cons op ops ih =>
    refine (throughout_cons op ops).mpr ⟨h, ?_⟩
    exact ih (hkeep s op hI) (fun op' hop' => hstep op' (List.mem_cons_of_mem _ hop'))
      (hstep op (List.mem_cons_self ..) s hI h hsteps.1) hsteps.2

theorem eachStep_append {ops ops' : List Op} :
    EachStep step C (ops ++ ops') s ↔ EachStep step C ops s ∧ EachStep step C ops' (ops.foldl step s) := by
  induction ops generalizing s with
  | nil => exact (iff_of_eq (true_and _)).symm
  | cons op ops ih => exact (and_congr_right fun _ => ih).trans and_assoc.symm

/-- The condition holds of every operation that the run reaches. -/
theorem eachStep_of_forall (h : ∀ before op after, ops = before ++ op :: after → C op (before.foldl step s)) :
    EachStep step C ops s := by
  induction ops generalizing s with
  | nil => exact trivial
  | cons op ops ih =>
    refine ⟨h [] op ops rfl, ih fun before op' after he => ?_⟩
    exact h (op :: before) op' after (congrArg (op :: ·) he)

/-- A preorder that the steps with `C` follow relates the end of a run to its start. -/
theorem related_of_eachStep {R : S → S → Prop} (hrefl : ∀ s, R s s) (htrans : ∀ {s s' s''}, R s s' → R s' s'' → R s s'')
    (hstep : ∀ op s, I s → C op s → I (step s op) ∧ R s (step s op)) (hI : I s) (hsteps : EachStep step C ops s) :
    I (ops.foldl step s) ∧ R s (ops.foldl step s) := by
  induction ops generalizing s with
  | nil => exact ⟨hI, hrefl s⟩
  | cons op ops ih =>
    obtain ⟨hI', hR⟩ := hstep op s hI hsteps.1
    obtain ⟨hend, hlater⟩ := ih hI' hsteps.2
    exact ⟨hend, htrans hR hlater⟩

/-- Two conditions that agree under an invariant, which the steps that meet them keep. -/
theorem eachStep_iff (hI : I s) (h : ∀ op s, I s → (C op s ↔ C' op s)) (hkeep : ∀ op s, I s → C op s → I (step s op)) :
    EachStep step C ops s ↔ EachStep step C' ops s := by
  induction ops generalizing s with
  | nil => exact Iff.rfl
  | cons op ops ih =>
    constructor
    · rintro ⟨hfirst, hrest⟩
      exact ⟨(h op s hI).mp hfirst, (ih (hkeep op s hI hfirst)).mp hrest⟩
    · rintro ⟨hfirst, hrest⟩
      have hfirst' := (h op s hI).mpr hfirst
      exact ⟨hfirst', (ih (hkeep op s hI hfirst')).mpr hrest⟩

theorem eachStep_congr (hI : I s) (hkeep : ∀ s op, I s → I (step s op)) (h : ∀ op s, I s → (C op s ↔ C' op s)) :
    EachStep step C ops s ↔ EachStep step C' ops s :=
  eachStep_iff hI h fun op s hI _ => hkeep s op hI

end Run
