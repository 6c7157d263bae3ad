import StateFork.Lib.Pool

/-!
# Lock orders

If threads only request locks above those they hold, nobody waits in a circle. The order here may be
broken in one way: a thread that holds the lock `gate` may request a further lock of the same rank. A
circle would have to stay at one rank and to consist of such requests, but only one thread holds
the gate.
-/

namespace Conc

variable {σ L ε χ α : Type}

/-- A thread that holds `H` may request `l`. -/
def Ordered (rank : L → Nat) (gate : L) (reentrant : L → Bool) (H : List L) (l : L) : Prop :=
  (l ∈ H ∧ reentrant l = true) ∨
    (l ∉ H ∧ ∀ h ∈ H, rank h < rank l ∨ (gate ∈ H ∧ rank h = rank l))

namespace Config

variable {rank : L → Nat} {gate : L} {reentrant : L → Bool} {c : Config σ L ε χ α} {S : Set Nat}

/-- A member of a deadlocked set waits for a lock it does not hold, and the owner in the set waits for
one of at least that rank; if the ranks are the same, the owner holds the gate. -/
theorem Deadlocked.next (howner : ∀ t l, c.owner l = some t ↔ l ∈ (c.thread t).held)
    (hord : ∀ t l, c.Requests t l → Ordered rank gate reentrant (c.thread t).held l)
    (h : c.Deadlocked reentrant S) {t : Nat} {l : L} (ht : t ∈ S) (hl : c.Requests t l) :
    ∃ t' ∈ S, ∃ l', c.Requests t' l' ∧ t' ≠ t ∧
      (rank l < rank l' ∨ (gate ∈ (c.thread t').held ∧ rank l = rank l')) := by
  obtain ⟨l₀, hl₀, hwait, t', ht', hown⟩ := h.2 t ht
  obtain rfl : l = l₀ := by
    obtain ⟨next, hcode⟩ := hl
    obtain ⟨next₀, hcode₀⟩ := hl₀
    rw [hcode] at hcode₀
    cases hcode₀
    rfl
  have hne : t' ≠ t := by
    rintro rfl
    rcases hord t' l hl with ⟨-, hre⟩ | ⟨hnot, -⟩
    · unfold available at hwait
      rw [hown, hre] at hwait
      exact absurd hwait (by simp)
    · exact hnot ((howner t' l).mp hown)
  obtain ⟨l', hl', hwait', t'', -, hown'⟩ := h.2 t' ht'
  refine ⟨t', ht', l', hl', hne, ?_⟩
  rcases hord t' l' hl' with ⟨hmem, hre⟩ | ⟨-, hrank⟩
  · -- a reentrant lock that the thread holds would be granted
    have hself := (howner t' l').mpr hmem
    unfold available at hwait'
    rw [hself, hre] at hwait'
    exact absurd hwait' (by simp)
  · exact hrank l ((howner t' l).mp hown)

/-- No deadlock: the ranks along a circle of waiting threads cannot grow for ever, and two gated
requests in a row would need two owners of the gate. -/
theorem not_deadlocked (howner : ∀ t l, c.owner l = some t ↔ l ∈ (c.thread t).held)
    (hord : ∀ t l, c.Requests t l → Ordered rank gate reentrant (c.thread t).held l) {bound : Nat}
    (hbound : ∀ l, rank l ≤ bound) (S : Set Nat) : ¬ c.Deadlocked reentrant S := by
  intro h
  -- no member of the set can wait for a lock within `n` of the bound
  have hclimb : ∀ n t l, t ∈ S → c.Requests t l → rank l + n = bound → False := by
    intro n
    induction n using Nat.strongRecOn with
    | ind n ih =>
      intro t l ht hl hn
      obtain ⟨t', ht', l', hl', hne, hstep⟩ := h.next howner hord ht hl
      rcases hstep with hlt | ⟨hgate, heq⟩
      · have hle := hbound l'
        exact ih (bound - rank l') (by omega) t' l' ht' hl' (by omega)
      · obtain ⟨t'', ht'', l'', hl'', hne', hstep'⟩ := h.next howner hord ht' hl'
        rcases hstep' with hlt | ⟨hgate', -⟩
        · have hle := hbound l''
          exact ih (bound - rank l'') (by omega) t'' l'' ht'' hl'' (by omega)
        · have hown := (howner t' gate).mpr hgate
          rw [(howner t'' gate).mpr hgate'] at hown
          exact hne' (Option.some.inj hown)
  obtain ⟨t, ht⟩ := h.1
  obtain ⟨l, hl, -⟩ := h.2 t ht
  have hle := hbound l
  exact hclimb (bound - rank l) t l ht hl (by omega)

end Config

end Conc
