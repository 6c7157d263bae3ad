import StateFork.Lib.Prog

/-!
# Triples of programs that run alone

`Hoare P p Q`: from a state in `P` the program `p`, run without interference, ends with an outcome and in a
state that satisfy `Q`. `Keeps P p` is the triple of an invariant. The rules follow the structure of a
program, so that a proof about one reads like the program.
-/

namespace Conc.Prog

variable {σ L ε χ α β : Type} {P P' : σ → Prop} {Q Q' : Except χ α → σ → Prop} {R : Except χ β → σ → Prop}

def Hoare (P : σ → Prop) (p : Prog σ L ε χ α) (Q : Except χ α → σ → Prop) : Prop :=
  ∀ s, P s → Q (p.run s).1 (p.run s).2

/-- The program keeps `P`, whatever its outcome. -/
abbrev Keeps (P : σ → Prop) (p : Prog σ L ε χ α) : Prop := Hoare P p fun _ => P

theorem Hoare.weaken {p : Prog σ L ε χ α} (hp : Hoare P p Q) (hP : ∀ s, P' s → P s)
    (hQ : ∀ r s, Q r s → Q' r s) : Hoare P' p Q' :=
  fun s hs => hQ _ _ (hp s (hP s hs))

theorem hoare_ret {a : α} (h : ∀ s, P s → Q (.ok a) s) : Hoare P (ret a : Prog σ L ε χ α) Q := h

theorem hoare_throw {e : χ} (h : ∀ s, P s → Q (.error e) s) : Hoare P (throw e : Prog σ L ε χ α) Q := h

theorem keeps_ret (a : α) : Keeps P (ret a : Prog σ L ε χ α) := fun _ hs => hs

theorem hoare_andThen {p : Prog σ L ε χ α} {k : Except χ α → Prog σ L ε χ β} (hp : Hoare P p Q)
    (hk : ∀ r, Hoare (Q r) (k r) R) : Hoare P (p.andThen k) R := by
  intro s hs
  rw [run_andThen]
  exact hk _ _ (hp s hs)

/-- Sequencing of two programs, of which the first one may raise. -/
theorem hoare_bind {p : Prog σ L ε χ α} {f : α → Prog σ L ε χ β} (hp : Hoare P p Q)
    (hf : ∀ a, Hoare (Q (.ok a)) (f a) R) (he : ∀ e s, Q (.error e) s → R (.error e) s) :
    Hoare P (p >>= f) R := by
  refine hoare_andThen hp ?_
  rintro (e | a)
  · exact hoare_throw (he e)
  · exact hf a

/-- The first program keeps the precondition of the second one. -/
theorem Keeps.bind {p : Prog σ L ε χ α} {f : α → Prog σ L ε χ β} (hp : Keeps P p)
    (hf : ∀ a, Hoare P (f a) R) (he : ∀ e s, P s → R (.error e) s) : Hoare P (p >>= f) R :=
  hoare_bind hp hf he

theorem keeps_bind {p : Prog σ L ε χ α} {f : α → Prog σ L ε χ β} (hp : Keeps P p) (hf : ∀ a, Keeps P (f a)) :
    Keeps P (p >>= f) :=
  hp.bind hf fun _ _ h => h

theorem keeps_andThen {p : Prog σ L ε χ α} {k : Except χ α → Prog σ L ε χ β} (hp : Keeps P p)
    (hk : ∀ r, Keeps P (k r)) : Keeps P (p.andThen k) :=
  hoare_andThen hp hk

theorem keeps_map {p : Prog σ L ε χ α} (f : α → β) (hp : Keeps P p) : Keeps P (f <$> p) :=
  keeps_bind hp fun _ => keeps_ret _

theorem hoare_withLock {l : L} {p : Prog σ L ε χ α} (hp : Hoare P p Q) : Hoare P (withLock l p) Q := by
  intro s hs
  rw [run_withLock]
  exact hp s hs

theorem keeps_attempt {p : Prog σ L ε χ α} (hp : Keeps P p) : Keeps P p.attempt :=
  keeps_andThen hp fun _ => keeps_ret _

theorem keeps_tryCatch {p : Prog σ L ε χ α} {h : χ → Prog σ L ε χ α} (hp : Keeps P p) (hh : ∀ e, Keeps P (h e)) :
    Keeps P (p.tryCatch h) := by
  refine keeps_andThen hp ?_
  rintro (e | a)
  · exact hh e
  · exact keeps_ret a

theorem keeps_each {f : α → Prog σ L ε χ Unit} (hf : ∀ a, Keeps P (f a)) (l : List α) : Keeps P (each l f) := by
  induction l with
  | nil => exact keeps_ret ()
  | cons a l ih => exact keeps_bind (hf a) fun _ => ih

theorem keeps_collect {f : α → Prog σ L ε χ β} (hf : ∀ a, Keeps P (f a)) (l : List α) : Keeps P (collect l f) := by
  induction l with
  | nil => exact keeps_ret []
  | cons a l ih => exact keeps_bind (hf a) fun _ => keeps_bind ih fun _ => keeps_ret _

end Conc.Prog
