import Mathlib.Algebra.BigOperators.Group.List.Basic
import StateFork.Controller.State

/-!
# The time of a branch's commands

Every execution is entered in the log with its elapsed time, and `cumulative_exec_time` is the running total that the
decider sees. `spent` is what the log says: the sum over the exec entries of a branch since its last physical snapshot,
or since it was forked.
-/

namespace StateFork

/-- A physical snapshot of the branch, or the fork that started it. -/
def BenchmarkEntry.opens (branchId : String) (e : BenchmarkEntry) : Bool :=
  e.branchId = branchId && (e.operation = "snapshot" || e.operation = "fork")

/-- The exec entries of a branch since its last physical snapshot, or since it was forked; the last one first. -/
def execsSince (branchId : String) (log : List BenchmarkEntry) : List BenchmarkEntry :=
  (log.reverse.takeWhile fun e => !e.opens branchId).filter fun e => e.branchId = branchId && e.operation = "exec"

/-- The elapsed times of these entries. -/
def spent (branchId : String) (log : List BenchmarkEntry) : ℚ :=
  ((execsSince branchId log).map BenchmarkEntry.elapsedTime).sum

variable {m : Manager} {operation target b b' : String} {elapsed : ℚ}

theorem spent_addEntry_exec (m : Manager) (target : String) (elapsed : ℚ) (b : String) :
    spent b (m.addEntry "exec" target elapsed b).stats.log = elapsed + spent b m.stats.log := by
  show spent b (m.stats.log ++ [_]) = _
  simp [spent, execsSince, BenchmarkEntry.opens]

/-- A physical snapshot or a fork leaves nothing spent. -/
theorem spent_addEntry_opens (hop : operation = "snapshot" ∨ operation = "fork") :
    spent b (m.addEntry operation target elapsed b).stats.log = 0 := by
  show spent b (m.stats.log ++ [_]) = _
  rcases hop with rfl | rfl
  · simp [spent, execsSince, BenchmarkEntry.opens]
  · simp [spent, execsSince, BenchmarkEntry.opens]

/-- The entries of other branches and of other operations do not count. -/
theorem spent_addEntry_other
    (hother : b ≠ b' ∨ (operation ≠ "exec" ∧ operation ≠ "snapshot" ∧ operation ≠ "fork")) :
    spent b (m.addEntry operation target elapsed b').stats.log = spent b m.stats.log := by
  show spent b (m.stats.log ++ [_]) = _
  rcases hother with hb | ⟨hexec, hsnapshot, hfork⟩
  · simp [spent, execsSince, BenchmarkEntry.opens, hb.symm]
  · simp [spent, execsSince, BenchmarkEntry.opens, hexec, hsnapshot, hfork]

end StateFork
