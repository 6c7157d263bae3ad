import StateFork.Lib.Run
import StateFork.Controller.Teardown
import StateFork.Forkable.Views
import StateFork.Forkable.Effects
import StateFork.Sequential.Tape

/-!
# When the destructor may skip the cleanup

`Tracked` follows a run and keeps in mind whether there is anything to release: a teardown that succeeded leaves
nothing, and a restore or a fork that succeeded starts an environment. `Upshot.Moves` says what the templates do to
`is_cleaned_up` in each case, and from it follows, step by step and then for runs, when the flag is `Honest`.
-/

namespace StateFork

open Conc Conc.Prog

variable {V W : Type}

/-- What an operation did about the environments of its manager. -/
inductive Upshot where
  /-- A teardown succeeded. -/
  | released
  /-- A teardown answered `False`. -/
  | refused
  /-- A teardown raised. -/
  | raised
  /-- A restore or a fork succeeded. -/
  | started
  | other
  deriving DecidableEq

namespace Upshot

/-- The most recent teardown succeeded, and no environment was started since. -/
def after : Upshot → Bool → Bool
  | released, _ => true
  | refused, _ => false
  | raised, _ => false
  | started, _ => false
  | other, nothingLeft => nothingLeft

/-- What happens to the flag. -/
def Moves : Upshot → Bool → Bool → Prop
  | released, _, flag' => flag' = true
  | refused, _, flag' => flag' = true
  | raised, flag, flag' => flag' = flag
  | started, flag, flag' => flag' = flag
  | other, flag, flag' => flag' = true → flag = true

/-- No teardown fails, or it raises while the flag is clear, and nothing is started while the flag is set. -/
def Sound : Upshot → Bool → Prop
  | refused, _ => False
  | raised, flag => flag = false
  | started, flag => flag = false
  | _, _ => True

theorem honest_iff (d : Upshot) {flag flag' nothingLeft : Bool} (hmoves : d.Moves flag flag')
    (h : flag = true → nothingLeft = true) : (flag' = true → d.after nothingLeft = true) ↔ d.Sound flag := by
  cases d with
  | released => exact iff_of_true (fun _ => rfl) trivial
  | refused =>
    obtain rfl : flag' = true := hmoves
    exact iff_of_false (fun hsafe => nomatch hsafe rfl) id
  | raised =>
    obtain rfl : flag' = flag := hmoves
    cases flag' with
    | true => exact iff_of_false (fun hsafe => nomatch hsafe rfl) (fun hclear => nomatch hclear)
    | false => exact iff_of_true (fun hset => nomatch hset) rfl
  | started =>
    obtain rfl : flag' = flag := hmoves
    cases flag' with
    | true => exact iff_of_false (fun hsafe => nomatch hsafe rfl) (fun hclear => nomatch hclear)
    | false => exact iff_of_true (fun hset => nomatch hset) rfl
  | other => exact iff_of_true (fun hset => h (hmoves hset)) trivial

end Upshot

/-! ### Runs -/

section Runs

variable {Op : Type} (prog : Op → M W Outcome) (upshot : Op → Except PyError Outcome → Upshot)

/-- A system, and whether anything is left to release. -/
structure Tracked (W : Type) where
  sys : Sys W
  nothingLeft : Bool := false

namespace Tracked

def step (x : Tracked W) (op : Op) : Tracked W :=
  let r := (prog op).run x.sys
  ⟨r.2, (upshot op r.1).after x.nothingLeft⟩

/-- `__del__` skips the cleanup only when nothing is left to release. -/
def Honest (x : Tracked W) : Prop := x.sys.mgr.isCleanedUp = true → x.nothingLeft = true

/-- What the operation does leaves the flag honest. -/
def Sound (op : Op) (x : Tracked W) : Prop := (upshot op ((prog op).run x.sys).1).Sound x.sys.mgr.isCleanedUp

variable {prog upshot}

theorem honest_throughout_iff
    (hmoves : ∀ op (s : Sys W),
      (upshot op ((prog op).run s).1).Moves s.mgr.isCleanedUp ((prog op).run s).2.mgr.isCleanedUp)
    {x : Tracked W} (hx : x.Honest) (ops : List Op) :
    Run.Throughout (step prog upshot) Honest ops x ↔ Run.EachStep (step prog upshot) (Sound prog upshot) ops x :=
  Run.throughout_iff (I := fun _ => True) trivial (fun _ _ _ => trivial)
    (fun op _ x _ hx => (upshot op ((prog op).run x.sys).1).honest_iff (hmoves op x.sys) hx) hx

end Tracked

end Runs

/-! ### Managers with one environment -/

/-- The operations of a manager of the base class. -/
inductive BaseOp where
  | execCommand (command : Command) (timeout : Option ℚ)
  | copyIn (hostSrc path : String)
  | copyOut (path hostDst : String)
  | snapshot
  | restore (snapshotId : String)
  | cleanup
  deriving DecidableEq

namespace BaseOp

open EnvironmentManager

def prog (H : Hooks W) : BaseOp → M W Outcome
  | execCommand c t => (fun r => .exec r.1 r.2.1 r.2.2) <$> EnvironmentManager.execCommand H c t
  | copyIn src path => Outcome.flag <$> EnvironmentManager.copyIn H src path
  | copyOut path dst => Outcome.flag <$> EnvironmentManager.copyOut H path dst
  | snapshot => Outcome.snapshotId <$> EnvironmentManager.snapshot H
  | restore id => Outcome.flag <$> EnvironmentManager.restore H id
  | cleanup => Outcome.flag <$> EnvironmentManager.cleanup H

end BaseOp

/-- What came of a teardown. -/
def Upshot.ofCleanup : Except PyError Outcome → Upshot
  | .ok (.flag true) => .released
  | .ok _ => .refused
  | .error _ => .raised

/-- What came of an operation that starts an environment. -/
def Upshot.ofStart : Except PyError Outcome → Upshot
  | .ok (.flag true) => .started
  | .ok (.branches (_ :: _)) => .started
  | _ => .other

def BaseOp.upshot : BaseOp → Except PyError Outcome → Upshot
  | .cleanup, r => .ofCleanup r
  | .restore _, r => .ofStart r
  | _, _ => .other

def PublicOp.upshot : PublicOp → Except PyError Outcome → Upshot
  | .cleanup, r => .ofCleanup r
  | .restore _, r => .ofStart r
  | .fork .., r => .ofStart r
  | _, _ => .other

namespace Upshot

open EnvironmentManager

variable {H : Hooks W} {s : Sys W}

theorem moves_cleanup (hH : H.LeaveFlag) (s : Sys W) :
    (ofCleanup ((Outcome.flag <$> cleanup H).run s).1).Moves s.mgr.isCleanedUp
      ((Outcome.flag <$> cleanup H).run s).2.mgr.isCleanedUp := by
  have hflag := hH.cleanup s
  simp only [run_map, cleanup, run_withLock, run_bind]
  rcases hrun : H.coreCleanup.run s with ⟨e | ok, s'⟩
  · rw [hrun] at hflag
    exact hflag
  · simp only [run_afterValue_ok, run_bind, run_poke, run_pure, Except.map]
    by_cases hok : ok = some false
    · subst hok
      rfl
    · simp only [ne_eq, hok, not_false_eq_true, decide_true]
      rfl

/-- An operation that tears nothing down and leaves the flag. -/
theorem moves_self {d : Upshot} {flag : Bool} (hd : d = started ∨ d = other) : d.Moves flag flag := by
  rcases hd with rfl | rfl
  · rfl
  · exact id

theorem ofStart_cases (r : Except PyError Outcome) : ofStart r = started ∨ ofStart r = other := by
  unfold ofStart
  split
  · exact .inl rfl
  · exact .inl rfl
  · exact .inr rfl

theorem moves_start {p : M W Outcome} (hp : ∀ P, KeepsFlag P p) (s : Sys W) :
    (ofStart (p.run s).1).Moves s.mgr.isCleanedUp (p.run s).2.mgr.isCleanedUp := by
  rw [leavesView_of_keeps hp s]
  exact moves_self (ofStart_cases _)

theorem moves_other {p : M W Outcome} (hp : ∀ P : Bool → Prop, P false → KeepsFlag P p) (s : Sys W) :
    other.Moves s.mgr.isCleanedUp (p.run s).2.mgr.isCleanedUp :=
  hp (fun flag => flag = true → s.mgr.isCleanedUp = true) (fun h => nomatch h) s id

end Upshot

open EnvironmentManager ForkableEnvironmentManager

theorem PublicOp.upshot_plain {op : PublicOp} (hop : PublicOp.plain op = true) (r : Except PyError Outcome) :
    op.upshot r = .started ∨ op.upshot r = .other := by
  cases op with
  | cleanup => exact absurd hop (by decide)
  | restore id => exact Upshot.ofStart_cases r
  | fork id n ids => exact Upshot.ofStart_cases r
  | _ => exact .inr rfl

theorem BaseOp.moves {H : Hooks W} (hH : H.LeaveFlag) (op : BaseOp) (s : Sys W) :
    (op.upshot ((op.prog H).run s).1).Moves s.mgr.isCleanedUp ((op.prog H).run s).2.mgr.isCleanedUp := by
  have hleave := hH.toLeave
  have hcopy (hostPath envPath : String) (into : Bool) {P : Bool → Prop} :
      KeepsFlag P (withLock .currentBranch
        (getCurrentBranchId >>= fun b => EnvironmentManager.copyBranch H b hostPath envPath into)) :=
    keepsView_current fun b => keepsView_copyBranch inert_isCleanedUp hleave b hostPath envPath into
  cases op with
  | execCommand c t =>
    exact Upshot.moves_other (fun _ _ => keeps_map _ (keepsView_execCommand inert_isCleanedUp hleave c t)) s
  | copyIn src path => exact Upshot.moves_other (fun _ _ => keeps_map _ (hcopy src path true)) s
  | copyOut path dst => exact Upshot.moves_other (fun _ _ => keeps_map _ (hcopy dst path false)) s
  | snapshot => exact Upshot.moves_other (fun _ hclear => keeps_map _ (keepsFlag_snapshot hH hclear)) s
  | restore id => exact Upshot.moves_start (fun _ => keeps_map _ (keepsView_restore inert_isCleanedUp hleave id)) s
  | cleanup => exact Upshot.moves_cleanup hH s

theorem PublicOp.moves {F : ForkHooks W} (hF : F.LeaveFlag) (op : PublicOp) (s : Sys W) :
    (op.upshot ((PublicOp.prog F op).run s).1).Moves s.mgr.isCleanedUp ((PublicOp.prog F op).run s).2.mgr.isCleanedUp := by
  have hH := leaveFlag_toHooks hF
  by_cases hplain : PublicOp.plain op = true
  · -- a plain operation leaves the flag, so that it does not matter whether it started something
    have hflag := leavesView_of_keeps (fun P => keepsView_prog (P := P) inert_isCleanedUp hF.toLeave hplain) s
    rw [hflag]
    exact Upshot.moves_self (PublicOp.upshot_plain hplain _)
  · cases op with
    | snapshot => exact Upshot.moves_other (fun _ hclear => keeps_map _ (keepsFlag_snapshot hH hclear)) s
    | snapshotBranch b park =>
      cases park with
      | true => exact Upshot.moves_other (fun _ _ => keeps_map _ (keepsFlag_parkBranch hF b)) s
      | false =>
        exact Upshot.moves_other (fun _ hclear => keeps_map _ (keepsView_named (keepsFlag_snapshotBranch hH hclear b true))) s
    | parkBranch b => exact Upshot.moves_other (fun _ _ => keeps_map _ (keepsFlag_parkBranch hF b)) s
    | cleanup => exact Upshot.moves_cleanup hH s
    | _ => exact absurd rfl hplain

theorem SequentialBackend.hooks_leaveFlag (B : SequentialBackend W) : B.hooks.LeaveFlag where
  snapshot b := by
    refine leavesView_of_keeps fun P => keeps_bind (leaves_tryWorld _ _).leavesView.keeps fun answer => ?_
    obtain ⟨_ | ⟨id, resource⟩, elapsed⟩ := answer
    · exact keeps_ret _
    · exact keeps_bind (keepsView_updateState fun _ => rfl) fun _ => keeps_ret _
  restore id b := by
    refine leavesView_of_keeps fun P => keeps_bind (reads_readState _).keeps fun resource => ?_
    cases resource with
    | none => exact keeps_ret _
    | some resource => exact (leaves_tryWorld _ _).leavesView.keeps
  cleanup := (leaves_tryWorld _ fun _ => []).leavesView
  exec _ _ _ := (leaves_tryWorld _ fun _ => []).leavesView
  copy _ _ _ _ := (leaves_tryWorld _ fun _ => []).leavesView
  afterSnapshot _ _ := LeavesManager.leavesView fun _ => rfl
  decide _ := (leaves_world _).leavesView
  time := (leaves_world _).leavesView
  uuid4Hex := (leaves_world _).leavesView

theorem ForkableBackend.hooks_leaveFlag (B : ForkableBackend W) : B.hooks.LeaveFlag where
  toLeave := B.hooks_leave
  snapshot b := by
    refine leavesView_of_keeps fun P => keeps_bind (leaves_tryWorld _ _).leavesView.keeps fun captured => ?_
    refine keeps_bind (ForkableBackend.keepsView_register (fun _ _ _ => rfl) captured) fun answer => ?_
    dsimp only
    split
    · exact keeps_bind (B.keepsView_refresh inert_isCleanedUp) fun _ => keeps_ret _
    · exact keeps_ret _
  cleanup := (leaves_tryWorld _ fun _ => []).leavesView
  park b := leavesView_of_keeps fun P =>
    keeps_bind (leaves_tryWorld _ _).leavesView.keeps fun captured => ForkableBackend.keepsView_register (fun _ _ _ => rfl) captured
  uuid4Hex := (leaves_world _).leavesView

/-- In every state of a run the flag is set only when nothing is left to release, exactly if no teardown of the run
fails (it may raise while the flag is clear), and no restore or fork succeeds while the flag is set: for a manager of
the base class with hooks `H`, and for a forkable one with hooks `F`. -/
theorem cleanedUp_honest_iff (H : Hooks V) (hH : H.LeaveFlag) (F : ForkHooks W) (hF : F.LeaveFlag)
    (s : Sys V) (hs : s.mgr.isCleanedUp = false) (t : Sys W) (ht : t.mgr.isCleanedUp = false)
    (ops : List BaseOp) (ops' : List PublicOp) :
    (Run.Throughout (Tracked.step (BaseOp.prog H) BaseOp.upshot) Tracked.Honest ops ⟨s, false⟩ ↔
        Run.EachStep (Tracked.step (BaseOp.prog H) BaseOp.upshot) (Tracked.Sound (BaseOp.prog H) BaseOp.upshot) ops
          ⟨s, false⟩) ∧
      (Run.Throughout (Tracked.step (PublicOp.prog F) PublicOp.upshot) Tracked.Honest ops' ⟨t, false⟩ ↔
        Run.EachStep (Tracked.step (PublicOp.prog F) PublicOp.upshot) (Tracked.Sound (PublicOp.prog F) PublicOp.upshot) ops'
          ⟨t, false⟩) := by
  refine ⟨Tracked.honest_throughout_iff (BaseOp.moves hH) ?_ ops, Tracked.honest_throughout_iff (PublicOp.moves hF) ?_ ops'⟩
  · intro hset
    exact absurd (hs.symm.trans hset) (by decide)
  · intro hset
    exact absurd (ht.symm.trans hset) (by decide)

/-- Both managers are used and torn down at the end. -/
theorem cleanedUp_honest_tornDown :
    Run.Throughout (Tracked.step (BaseOp.prog Tape.backend.hooks) BaseOp.upshot) Tracked.Honest
        [.execCommand (.line "make") none, .snapshot, .restore "base", .cleanup]
        ⟨Sys.startedAt "base" "base" (Tape.start ["3f2a"] [] []), false⟩ ∧
      Run.Throughout (Tracked.step (PublicOp.prog (Fleet.sole true).hooks) PublicOp.upshot) Tracked.Honest
        [.fork "base" 1 none, .discardBranch "3f2a", .cleanup] ⟨Fleet.start ["3f2a"] [], false⟩ := by
  have h := cleanedUp_honest_iff Tape.backend.hooks Tape.backend.hooks_leaveFlag (Fleet.sole true).hooks
    (Fleet.sole true).hooks_leaveFlag (Sys.startedAt "base" "base" (Tape.start ["3f2a"] [] [])) rfl
    (Fleet.start ["3f2a"] []) rfl [.execCommand (.line "make") none, .snapshot, .restore "base", .cleanup]
    [.fork "base" 1 none, .discardBranch "3f2a", .cleanup]
  exact ⟨h.1.mpr ⟨trivial, trivial, rfl, trivial, trivial⟩, h.2.mpr ⟨rfl, trivial, trivial, trivial⟩⟩

/-- The teardown fails every time. -/
def Tape.stuck : SequentialBackend Tape := { Tape.backend with cleanup := fun w => (.ok (some false), w) }

/-- A cleanup that fails and returns `False` sets the flag all the same; and a restore after a cleanup that succeeded
starts an environment that the destructor will forget. -/
theorem not_cleanedUp_honest_stuck :
    let start := Sys.startedAt "base" "base" (Tape.start [] [] [])
    let stuck := Tracked.step (BaseOp.prog Tape.stuck.hooks) BaseOp.upshot ⟨start, false⟩ .cleanup
    let revived := [BaseOp.cleanup, .restore "base"].foldl
      (Tracked.step (BaseOp.prog Tape.backend.hooks) BaseOp.upshot) ⟨start, false⟩
    (¬ stuck.Honest ∧ ((BaseOp.cleanup.prog Tape.stuck.hooks).run start).1 = .ok (.flag false)) ∧
      ¬ revived.Honest ∧ revived.sys.mgr.isCleanedUp = true := by
  refine ⟨⟨fun h => ?_, rfl⟩, fun h => ?_, rfl⟩
  · exact absurd (h rfl) (by decide +kernel)
  · exact absurd (h rfl) (by decide +kernel)

end StateFork
