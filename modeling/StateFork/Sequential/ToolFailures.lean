import StateFork.Sequential.Firecracker
import StateFork.Sequential.Tools

/-!
# Failures of the tools

For each sequential manager, when its hooks tell of a command that fails (`failures_surface_iff`): gVisor's do so for
every exit status, those of the container managers for none, and CRIU and Firecracker take some failures for successes.
-/

namespace StateFork

variable {W : Type}

namespace CRIUAttachManager

variable {self : CRIUAttachManager} {T : ToolHost W}

theorem restore_tells_iff (snapshotId snapshotPath : String) (w : W) :
    RestoreTells (self.backend T) (self.commands T) snapshotId snapshotPath w ↔
      snapshotPath = "" ∨ self.Reinstates T snapshotPath w := by
  unfold RestoreTells
  dsimp only [backend, commands]
  unfold coreRestore Reinstates
  by_cases hpath : snapshotPath = ""
  · simp [hpath]
  · rw [if_neg hpath]
    rcases T.kill self.appPid (1 / 100) w with ⟨_ | _, w₁⟩
    · simp [hpath]
    · dsimp only
      rcases T.popen (reinstate snapshotPath) (T.time w₁).2 with ⟨_ | status, w₂⟩
      · simp [hpath]
      · simp [hpath]

end CRIUAttachManager

namespace FireAttachManager

variable {H : FireHost W}

/-- The create request of a snapshot is issued, and answered 204. -/
def Creates (H : FireHost W) (w : FireWorld W) : Prop :=
  ∃ snapshotId start w₁, prepare H w = (.ok (snapshotId, start), w₁) ∧ answers (send H .pause w₁).1 "204" = true ∧
    answers (send H (.create snapshotId) (send H .pause w₁).2).1 "204" = true

/-- The world in which the load request is issued, if it is. -/
def beforeLoad (H : FireHost W) (snapshotName : String) (w : FireWorld W) : Option (FireWorld W) :=
  if snapshotName = "" then none
  else
    match onHost (H.connect w.vm) w with
    | (.error _, _) => none
    | (.ok (), w) =>
      match onMachine H.relaunch (onHost H.time w).2 with
      | (.error _, _) => none
      | (.ok (), w) => some w

/-- The answers to the create and the load request. -/
def commands (H : FireHost W) : Commands (FireWorld W) where
  captured := Creates H
  restored snapshotId snapshotName w :=
    ∃ w₁, beforeLoad H snapshotName w = some w₁ ∧ answers (send H (.load snapshotId) w₁).1 "204" = true

/-- The directory of a snapshot is created, and a create request that is rejected is answered 400, or not followed by a
successful resume. -/
def SnapshotAnswered (H : FireHost W) (w : FireWorld W) : Prop :=
  ∃ snapshotId start w₁, prepare H w = (.ok (snapshotId, start), w₁) ∧ (answers (send H .pause w₁).1 "204" = true →
    let creating := send H (.create snapshotId) (send H .pause w₁).2
    answers creating.1 "204" = true ∨ answers creating.1 "400" = true ∨ answers (send H .resume creating.2).1 "204" = false)

/-- The load request is reached, and answered 204 or 400. -/
def LoadAnswered (H : FireHost W) (snapshotId snapshotName : String) (w : FireWorld W) : Prop :=
  snapshotName = "" ∨ ∃ w₁, beforeLoad H snapshotName w = some w₁ ∧
    (answers (send H (.load snapshotId) w₁).1 "204" = true ∨ answers (send H (.load snapshotId) w₁).1 "400" = true)

theorem creates_iff {w w₁ : FireWorld W} {snapshotId : String} {start : ℚ}
    (prepared : prepare H w = (.ok (snapshotId, start), w₁)) :
    Creates H w ↔ answers (send H .pause w₁).1 "204" = true ∧
      answers (send H (.create snapshotId) (send H .pause w₁).2).1 "204" = true := by
  constructor
  · rintro ⟨id, start', w', prepared', h⟩
    rw [prepared] at prepared'
    cases prepared'
    exact h
  · intro h
    exact ⟨snapshotId, start, w₁, prepared, h⟩

theorem snapshotAnswered_iff {w w₁ : FireWorld W} {snapshotId : String} {start : ℚ}
    (prepared : prepare H w = (.ok (snapshotId, start), w₁)) :
    SnapshotAnswered H w ↔ (answers (send H .pause w₁).1 "204" = true →
      answers (send H (.create snapshotId) (send H .pause w₁).2).1 "204" = true ∨
        answers (send H (.create snapshotId) (send H .pause w₁).2).1 "400" = true ∨
          answers (send H .resume (send H (.create snapshotId) (send H .pause w₁).2).2).1 "204" = false) := by
  constructor
  · rintro ⟨id, start', w', prepared', h⟩
    rw [prepared] at prepared'
    cases prepared'
    exact h
  · intro h
    exact ⟨snapshotId, start, w₁, prepared, h⟩

theorem snapshot_tells_iff (w : FireWorld W) : SnapshotTells (backend H) (commands H) w ↔ SnapshotAnswered H w := by
  unfold SnapshotTells
  dsimp only [backend, commands]
  rcases prepared : prepare H w with ⟨e | ⟨snapshotId, start⟩, w₁⟩
  · rw [coreSnapshot_raises prepared]
    refine iff_of_false ?_ ?_
    · rintro ⟨-, hnone⟩
      have hunissued : ¬ Creates H w := by
        rintro ⟨id, start, w', prepared', -⟩
        rw [prepared] at prepared'
        cases prepared'
      obtain ⟨elapsed, he⟩ := hnone hunissued
      cases he
    · rintro ⟨id, start, w', prepared', -⟩
      rw [prepared] at prepared'
      cases prepared'
  · rw [creates_iff prepared, snapshotAnswered_iff prepared]
    have hcase := coreSnapshot_cases prepared
    generalize coreSnapshot H w = r at hcase ⊢
    cases hcase with
    | notPaused pause => simp [pause]
    | notCreated pause paused create =>
      subst paused
      simp [pause, create]
    | notResumed pause paused create created resume =>
      subst paused created
      simp [pause, create, resume]
    | captured pause paused create created resume =>
      subst paused created
      simp [pause, create, resume]

theorem restore_tells_iff (snapshotId snapshotName : String) (w : FireWorld W) :
    RestoreTells (backend H) (commands H) snapshotId snapshotName w ↔ LoadAnswered H snapshotId snapshotName w := by
  unfold RestoreTells LoadAnswered
  dsimp only [backend, commands]
  unfold coreRestore beforeLoad
  by_cases hname : snapshotName = ""
  · simp [hname]
  · simp only [hname, if_false, false_or]
    rcases onHost (H.connect w.vm) w with ⟨_ | _, w₁⟩
    · simp
    · dsimp only
      rcases onMachine H.relaunch (onHost H.time w₁).2 with ⟨_ | _, w₂⟩
      · simp
      · dsimp only
        cases hload : answers (send H (.load snapshotId) w₂).1 "204" with
        | true =>
          have hcode : answers (send H (.load snapshotId) w₂).1 "400" = false :=
            Bool.eq_false_of_not_eq_true fun hcode => absurd (answers_code hload hcode) (by decide)
          simp [hload, hcode]
        | false =>
          cases hcode : answers (send H (.load snapshotId) w₂).1 "400" with
          | true => simp [hload, hcode]
          | false => simp [hload, hcode]

end FireAttachManager

/-- A resource that is not empty is restored. -/
def Commands.Restores (C : Commands W) (snapshotId resource : String) (w : W) : Prop :=
  resource = "" ∨ C.restored snapshotId resource w

/-- The directory of a snapshot is created, and `criu dump` launched. -/
def CRIUAttachManager.Dumps (self : CRIUAttachManager) (T : ToolHost W) (w : W) : Prop :=
  T.captureStatus (fun snapshotId => T.makedirs (self.snapshotPath snapshotId)) self.dump w ≠ none

/-- With a handler, every exit status is told. -/
theorem captured_or_launched_iff {status : Option Int} : status = some 0 ∨ (true = true ∧ status ≠ none) ↔ status ≠ none := by
  constructor
  · rintro (rfl | ⟨-, hlaunched⟩)
    · exact Option.some_ne_none 0
    · exact hlaunched
  · exact fun hlaunched => .inr ⟨rfl, hlaunched⟩

theorem CRIUAttachManager.snapshot_tells_iff (self : CRIUAttachManager) (T : ToolHost W) (w : W) :
    SnapshotTells (self.backend T) (self.commands T) w ↔ self.Dumps T w := by
  rw [captureWith_tells_iff (fun _ => rfl) (fun _ => Iff.rfl)]
  exact captured_or_launched_iff

/-- `docker checkpoint` is launched. -/
def GvisorAttachManager.Checkpoints (self : GvisorAttachManager) (T : ToolHost W) (w : W) : Prop :=
  T.captureStatus (fun _ w => (.ok (), w)) self.checkpoint w ≠ none

/-- `docker stop` and `docker start` are launched. -/
def GvisorAttachManager.Starts (self : GvisorAttachManager) (T : ToolHost W) (snapshotId : String) (w : W) : Prop :=
  T.restoreStatus self.halt (self.start snapshotId) snapshotId w ≠ none

theorem GvisorAttachManager.snapshot_tells_iff (self : GvisorAttachManager) (T : ToolHost W) (w : W) :
    SnapshotTells (self.backend T) (self.commands T) w ↔ self.Checkpoints T w := by
  rw [captureWith_tells_iff (fun _ => rfl) (fun _ => Iff.rfl)]
  exact captured_or_launched_iff

theorem GvisorAttachManager.restore_tells_iff (self : GvisorAttachManager) (T : ToolHost W) (id snapshotId : String) (w : W) :
    RestoreTells (self.backend T) (self.commands T) id snapshotId w ↔ snapshotId = "" ∨ self.Starts T snapshotId w := by
  rw [restoreWith_tells_iff (fun _ => rfl) (fun _ => Iff.rfl)]
  exact or_congr_right captured_or_launched_iff

/-- When the templates of the sequential managers surface the failures of the tools. -/
theorem failures_surface_iff {W : Type} (T : ToolHost W) (H : FireHost W) (root resource : String) (ops : List SeqOp)
    (w : W) (vm : FireWorld W) :
    (∀ self : ContainerAttachManager,
      FailuresSurface (self.backend T) (self.commands T) ops (.startedAt root resource w) ↔
        EachHook (self.backend T) (self.commands T).captured (self.commands T).Restores ops (.startedAt root resource w)) ∧
    (∀ self : HybridAttachManager,
      FailuresSurface (self.backend T) (self.commands T) ops (.startedAt root resource w) ↔
        EachHook (self.backend T) (self.commands T).captured (self.commands T).Restores ops (.startedAt root resource w)) ∧
    (∀ self : CRIUAttachManager,
      FailuresSurface (self.backend T) (self.commands T) ops (.startedAt root resource w) ↔
        EachHook (self.backend T) (self.Dumps T) (fun _ path w => path = "" ∨ self.Reinstates T path w) ops
          (.startedAt root resource w)) ∧
    (∀ self : GvisorAttachManager,
      FailuresSurface (self.backend T) (self.commands T) ops (.startedAt root resource w) ↔
        EachHook (self.backend T) (self.Checkpoints T) (fun _ id w => id = "" ∨ self.Starts T id w) ops
          (.startedAt root resource w)) ∧
    (FailuresSurface (FireAttachManager.backend H) (FireAttachManager.commands H) ops (.startedAt root resource vm) ↔
      EachHook (FireAttachManager.backend H) (FireAttachManager.SnapshotAnswered H) (FireAttachManager.LoadAnswered H) ops
        (.startedAt root resource vm)) := by
  have hs := Sys.startedAt_solo root resource w
  refine ⟨fun self => ?_, fun self => ?_, fun self => ?_, fun self => ?_, ?_⟩
  · refine failuresSurface_iff (fun w => ?_) (fun id imageName w => ?_) hs ops
    · rw [captureWith_tells_iff (fun _ => rfl) (fun _ => Iff.rfl)]
      simp [ContainerAttachManager.commands]
    · rw [restoreWith_tells_iff (fun _ => rfl) (fun _ => Iff.rfl)]
      simp [ContainerAttachManager.commands, Commands.Restores]
  · refine failuresSurface_iff (fun w => ?_) (fun id exportPath w => ?_) hs ops
    · rw [captureWith_tells_iff (fun _ => rfl) (fun _ => Iff.rfl)]
      simp [HybridAttachManager.commands]
    · rw [restoreWith_tells_iff (fun _ => rfl) (fun _ => Iff.rfl)]
      simp [HybridAttachManager.commands, Commands.Restores]
  · exact failuresSurface_iff (self.snapshot_tells_iff T) CRIUAttachManager.restore_tells_iff hs ops
  · exact failuresSurface_iff (self.snapshot_tells_iff T) (self.restore_tells_iff T) hs ops
  · exact failuresSurface_iff FireAttachManager.snapshot_tells_iff FireAttachManager.restore_tells_iff
      (Sys.startedAt_solo root resource vm) ops

/-- The exit statuses of the commands to come. -/
structure ToolScript where
  statuses : List Int
  hexes : List String := ["16fd2706"]

def ToolHost.scripted : ToolHost ToolScript where
  run _ w := (.ok (w.statuses.headD 0), { w with statuses := w.statuses.tail })
  describe argv status := "Command '" ++ toString argv ++ "' returned non-zero exit status " ++ toString status ++ "."
  capture _ _ w := (.ok (w.statuses.headD 0, "", ""), { w with statuses := w.statuses.tail })
  popen _ w := (.ok (w.statuses.headD 0), { w with statuses := w.statuses.tail })
  makedirs _ w := (.ok (), w)
  kill _ _ w := (.ok (), w)
  teardown w := (.ok none, w)
  decide _ w := (true, w)
  time w := (0, w)
  uuid4Hex w := (w.hexes.headD "", { w with hexes := w.hexes.tail })

def ContainerAttachManager.web : ContainerAttachManager := ⟨"docker", "web", "statefork", []⟩

def CRIUAttachManager.attached : CRIUAttachManager := ⟨4711, "/tmp/statefork_criu"⟩

/-- A commit that fails raises out of `snapshot`, a `criu restore` that fails is a success for `restore`, and so is a
snapshot that Firecracker could not load. -/
theorem not_failures_surface :
    ¬ FailuresSurface (ContainerAttachManager.web.backend .scripted) (ContainerAttachManager.web.commands .scripted)
        [.snapshot] (.startedAt "base" "statefork:base" ⟨[1], ["16fd2706"]⟩) ∧
      ¬ FailuresSurface (CRIUAttachManager.attached.backend .scripted) (CRIUAttachManager.attached.commands .scripted)
        [.restore "6fa459ea"] (.startedAt "6fa459ea" "/tmp/statefork_criu/6fa459ea" ⟨[1], []⟩) ∧
      ¬ FailuresSurface (FireAttachManager.backend .scripted) (FireAttachManager.commands .scripted) [.restore "6fa459ea"]
        (.startedAt "6fa459ea" "6fa459ea" ⟨.running, [], ⟨["500"], []⟩⟩) := by
  have walk (resource : String) : (Manager.startedAt "6fa459ea" resource).physicalAncestor "6fa459ea" =
      .ok (⟨"6fa459ea", none, [], false, []⟩, []) := rfl
  refine ⟨?_, ?_, ?_⟩
  · rintro ⟨h, -⟩
    have hfailed : ToolHost.scripted.captureStatus (fun _ w => (.ok (), w)) ContainerAttachManager.web.commit
        ⟨[1], ["16fd2706"]⟩ ≠ some 0 := by decide +kernel
    exact absurd ((h (by decide +kernel)).2.1 hfailed) (by decide +kernel)
  · rintro ⟨h, -⟩
    have hfailed : ¬ Restored (CRIUAttachManager.attached.commands .scripted) "6fa459ea"
        (.startedAt "6fa459ea" "/tmp/statefork_criu/6fa459ea" ⟨[1], []⟩) := by
      rw [restored_iff (walk _) rfl]
      rintro ⟨-, -, hstatus⟩
      exact absurd hstatus (by decide +kernel)
    exact absurd (h.2.1 hfailed) (by decide +kernel)
  · rintro ⟨h, -⟩
    have hfailed : ¬ Restored (FireAttachManager.commands .scripted) "6fa459ea"
        (.startedAt "6fa459ea" "6fa459ea" ⟨.running, [], ⟨["500"], []⟩⟩) := by
      rw [restored_iff (walk _) rfl]
      rintro ⟨w₁, hload, hcode⟩
      obtain rfl := Option.some.inj hload
      exact absurd hcode (by decide +kernel)
    exact absurd (h.2.1 hfailed) (by decide +kernel)

end StateFork
