import StateFork.Controller.Accounts
import StateFork.Sequential.Tape

/-!
# What the decider is shown

A command that returns adds its time to `cumulative_exec_time`, and one that makes `_core_exec` raise adds nothing,
though both are logged and entered in the benchmark. So the counter shows the time spent since the last physical
snapshot as long as no raising command takes time (`accounted_throughout_iff`).
-/

namespace StateFork

variable {W : Type} (B : SequentialBackend W)

/-- The counter of the branch is the time spent since its last physical snapshot. -/
def MainAccounted (s : Sys W) : Prop :=
  s.mgr.main.cumulativeExecTime = spent defaultBranchId s.mgr.stats.log

/-- A command that raises takes no time. -/
def RaisesAtOnce (op : SeqOp) (s : Sys W) : Prop :=
  ∀ c timeout, op = .exec c timeout → ∀ e, (B.timedExec c timeout s.world).1 = .error e →
    (B.timedExec c timeout s.world).2.1 = 0

variable {B} {s : Sys W}

theorem mainAccounted_exec (h : MainAccounted s) (c : Command) (timeout : Option ℚ) :
    MainAccounted (B.afterExec c timeout s) ↔ RaisesAtOnce B (.exec c timeout) s := by
  have hcounter : (B.afterExec c timeout s).mgr.main.cumulativeExecTime =
      s.mgr.main.cumulativeExecTime +
        countedTime (B.timedExec c timeout s.world).1 (B.timedExec c timeout s.world).2.1 := by
    rw [SequentialBackend.afterExec, Manager.main_logExec]
  have hspent : spent defaultBranchId (B.afterExec c timeout s).mgr.stats.log =
      (B.timedExec c timeout s.world).2.1 + spent defaultBranchId s.mgr.stats.log :=
    spent_addEntry_exec _ _ _ _
  unfold MainAccounted
  rw [hcounter, hspent, h, add_comm, add_left_inj]
  constructor
  · rintro hcounted c' timeout' he e herror
    cases he
    rw [herror] at hcounted
    exact hcounted.symm
  · intro hraises
    cases hresult : (B.timedExec c timeout s.world).1 with
    | ok r => rfl
    | error e => exact (hraises c timeout rfl e hresult).symm

theorem mainAccounted_snapshot (h : MainAccounted s) : MainAccounted (SeqOp.snapshot.effect B s) := by
  show MainAccounted (B.snapshotEffect s).2
  have hcase := B.snapshotEffect_cases s
  generalize B.snapshotEffect s = r at hcase ⊢
  cases hcase with
  | raised => exact h
  | failed => exact h
  | @physical _ w' snapshotId resource elapsed =>
    have hcounter : (SequentialBackend.afterPhysical s.mgr snapshotId resource elapsed).main.cumulativeExecTime = 0 := by
      rw [SequentialBackend.afterPhysical, Manager.main_advance]
      rfl
    have hspent : spent defaultBranchId
        (SequentialBackend.afterPhysical s.mgr snapshotId resource elapsed).stats.log = 0 :=
      spent_addEntry_opens (m := s.mgr.registerSnapshotResource snapshotId resource) (.inl rfl)
    exact hcounter.trans hspent.symm
  | @virtual _ w' hex =>
    have hcounter : (SequentialBackend.afterVirtual s.mgr ("v" ++ (hex.take 7).toString)).main.cumulativeExecTime =
        s.mgr.main.cumulativeExecTime := by
      rw [SequentialBackend.afterVirtual, Manager.main_advance]
      rfl
    exact hcounter.trans h

/-- In every state of a run without restore the counter shows the time spent, exactly if every command of the run that
raises does so in no time. -/
theorem accounted_throughout_iff (B : SequentialBackend W) (root resource : String) (w : W) {ops : List SeqOp}
    (hops : ∀ id, .restore id ∉ ops) :
    Throughout B MainAccounted ops (Sys.startedAt root resource w) ↔
      EachStep B (RaisesAtOnce B) ops (Sys.startedAt root resource w) := by
  refine throughout_iff (Sys.startedAt_solo root resource w) (fun op hop s _ h => ?_) rfl
  cases op with
  | exec c timeout => exact mainAccounted_exec h c timeout
  | snapshot => exact iff_of_true (mainAccounted_snapshot h) fun c timeout he => by cases he
  | restore id => exact absurd hop (hops id)

end StateFork
