import StateFork.Sequential.Surface

/-!
# Managers that run command-line tools

`ContainerAttachManager`, `HybridAttachManager`, `CRIUAttachManager` and `GvisorAttachManager` on a `ToolHost`, for any
exit statuses. Their hooks have two shapes, `captureWith` and `restoreWith`, and differ in what they make of a command
that fails: with `check=True` and no handler the `CalledProcessError` leaves the hook.
-/

namespace StateFork

/-- The host on which the tools run. -/
structure ToolHost (W : Type) where
  /-- `subprocess.run` of a command whose output is not read: its exit status, unless it cannot be launched. -/
  run (argv : List String) : W → Except PyError Int × W
  /-- The text of a `CalledProcessError`. -/
  describe (argv : List String) (status : Int) : String
  /-- `subprocess.run` with captured output and a timeout. -/
  capture (argv : List String) (timeout : Option ℚ) : W → Except PyError (Int × String × String) × W
  /-- `subprocess.Popen`: the exit status with which the process will end, unless it cannot be launched. -/
  popen (argv : List String) : W → Except PyError Int × W
  makedirs (path : String) : W → Except PyError Unit × W
  /-- `proc.kill` and `proc.wait` -/
  kill (pid : Int) (hardTimeout : ℚ) : W → Except PyError Unit × W
  /-- `_core_cleanup`, which no operation of a run calls. -/
  teardown : W → Except PyError (Option Bool) × W
  decide (context : DecisionContext) : W → Bool × W
  time : W → ℚ × W
  uuid4Hex : W → String × W

/-- `os.path.join(path, name)`, for a relative name. -/
def joinPath (path name : String) : String := if path = "" ∨ path.endsWith "/" then path ++ name else path ++ "/" ++ name

namespace ToolHost

variable {W : Type} (T : ToolHost W)

/-- A snapshot by one command with `check=True`; with `handled` a `CalledProcessError` is caught. -/
def captureWith (prepare : String → W → Except PyError Unit × W) (argv : String → List String) (resource : String → String)
    (handled : Bool) (w : W) : Except PyError (Option (String × String) × ℚ) × W :=
  let (hex, w) := T.uuid4Hex w
  let snapshotId := (hex.take 8).toString
  match prepare snapshotId w with
  | (.error e, w) => (.error e, w)
  | (.ok (), w) =>
    let (start, w) := T.time w
    match T.run (argv snapshotId) w with
    | (.error e, w) => (.error e, w)
    | (.ok status, w) =>
      if status ≠ 0 then
        (if handled then .ok (none, 0) else .error ⟨.other, T.describe (argv snapshotId) status⟩, w)
      else
        let (stop, w) := T.time w
        (.ok (some (snapshotId, resource snapshotId), stop - start), w)

/-- A restore by one command with `check=True`, after another one has stopped the environment. -/
def restoreWith (halt argv : List String) (handled : Bool) (resource : String) (w : W) : Except PyError (Bool × ℚ) × W :=
  if resource = "" then (.ok (false, 0), w)
  else
    match T.run halt w with
    | (.error e, w) => (.error e, w)
    | (.ok _, w) =>
      let (start, w) := T.time w
      match T.run argv w with
      | (.error e, w) => (.error e, w)
      | (.ok status, w) =>
        if status ≠ 0 then (if handled then .ok (false, 0) else .error ⟨.other, T.describe argv status⟩, w)
        else
          let (stop, w) := T.time w
          (.ok (true, stop - start), w)

/-- The arguments behind `exec`. -/
def execArgs : Command → List String
  | .argv words => words
  | .line text => ["bash", "-c", text]

/-- The exit status of the command of a snapshot, if it is launched. -/
def captureStatus (prepare : String → W → Except PyError Unit × W) (argv : String → List String) (w : W) : Option Int :=
  let (hex, w) := T.uuid4Hex w
  let snapshotId := (hex.take 8).toString
  match prepare snapshotId w with
  | (.error _, _) => none
  | (.ok (), w) => (T.run (argv snapshotId) (T.time w).2).1.toOption

/-- The exit status of the command of a restore, if it is launched. -/
def restoreStatus (halt argv : List String) (resource : String) (w : W) : Option Int :=
  if resource = "" then none
  else
    match T.run halt w with
    | (.error _, _) => none
    | (.ok _, w) => (T.run argv (T.time w).2).1.toOption

end ToolHost

/-- The fields of a `ContainerAttachManager`. -/
structure ContainerAttachManager where
  backendCmd : String
  containerName : String
  imagePrefix : String
  extraArgs : List String := []

namespace ContainerAttachManager

variable {W : Type} (self : ContainerAttachManager) (T : ToolHost W)

def imageName (snapshotId : String) : String := self.imagePrefix ++ ":" ++ snapshotId

def commit (snapshotId : String) : List String :=
  [self.backendCmd, "commit", self.containerName, self.imageName snapshotId]

def removal : List String := [self.backendCmd, "rm", "-f", self.containerName]

def launch (imageName : String) : List String :=
  [self.backendCmd, "run", "-d", "--rm", "--name", self.containerName] ++ self.extraArgs ++ [imageName]

def backend : SequentialBackend W where
  snapshot _ := T.captureWith (fun _ w => (.ok (), w)) self.commit self.imageName false
  restore _ imageName _ := T.restoreWith self.removal (self.launch imageName) false imageName
  exec command timeout _ := T.capture ([self.backendCmd, "exec", self.containerName] ++ ToolHost.execArgs command) timeout
  copy _ _ _ _ w := (.ok (false, "Not implemented."), w)
  cleanup := T.teardown
  decide := T.decide
  time := T.time
  uuid4Hex := T.uuid4Hex

/-- The exit statuses of `commit` and `run`. -/
def commands : Commands W where
  captured w := T.captureStatus (fun _ w => (.ok (), w)) self.commit w = some 0
  restored _ imageName w := T.restoreStatus self.removal (self.launch imageName) imageName w = some 0

end ContainerAttachManager

/-- The fields of a `HybridAttachManager`. -/
structure HybridAttachManager where
  containerName : String
  exportDir : String

namespace HybridAttachManager

variable {W : Type} (self : HybridAttachManager) (T : ToolHost W)

def exportPath (sid : String) : String := joinPath self.exportDir (sid ++ ".tar.zstd")

def checkpoint (sid : String) : List String :=
  ["podman", "container", "checkpoint", self.containerName, "-e", self.exportPath sid, "--leave-running"]

def removal : List String := ["podman", "rm", "-f", self.containerName]

def reinstate (exportPath : String) : List String :=
  ["podman", "container", "restore", "-i", exportPath, "-n", self.containerName]

def backend : SequentialBackend W where
  snapshot _ := T.captureWith (fun _ w => (.ok (), w)) self.checkpoint self.exportPath false
  restore _ exportPath _ := T.restoreWith self.removal (self.reinstate exportPath) false exportPath
  exec command timeout _ := T.capture (["podman", "exec", self.containerName] ++ ToolHost.execArgs command) timeout
  copy _ _ _ _ w := (.ok (false, "Not implemented."), w)
  cleanup := T.teardown
  decide := T.decide
  time := T.time
  uuid4Hex := T.uuid4Hex

/-- The exit statuses of `checkpoint` and `restore`. -/
def commands : Commands W where
  captured w := T.captureStatus (fun _ w => (.ok (), w)) self.checkpoint w = some 0
  restored _ exportPath w := T.restoreStatus self.removal (self.reinstate exportPath) exportPath w = some 0

end HybridAttachManager

/-- The fields of a `GvisorAttachManager`. -/
structure GvisorAttachManager where
  containerName : String

namespace GvisorAttachManager

variable {W : Type} (self : GvisorAttachManager) (T : ToolHost W)

def checkpoint (snapshotId : String) : List String :=
  ["docker", "checkpoint", "create", "--leave-running", self.containerName, snapshotId]

def halt : List String := ["docker", "stop", self.containerName]

def start (snapshotId : String) : List String := ["docker", "start", "--checkpoint", snapshotId, self.containerName]

/-- `_core_snapshot` also sets the current snapshot, to the id to which the template then sets it. -/
def backend : SequentialBackend W where
  snapshot _ := T.captureWith (fun _ w => (.ok (), w)) self.checkpoint id true
  restore _ snapshotId _ := T.restoreWith self.halt (self.start snapshotId) true snapshotId
  exec command timeout _ := T.capture (["docker", "exec", self.containerName] ++ ToolHost.execArgs command) timeout
  copy _ _ _ _ w := (.ok (false, "Not implemented."), w)
  cleanup := T.teardown
  decide := T.decide
  time := T.time
  uuid4Hex := T.uuid4Hex

/-- The exit statuses of `checkpoint create` and `start`. -/
def commands : Commands W where
  captured w := T.captureStatus (fun _ w => (.ok (), w)) self.checkpoint w = some 0
  restored _ snapshotId w := T.restoreStatus self.halt (self.start snapshotId) snapshotId w = some 0

end GvisorAttachManager

/-- The fields of a `CRIUAttachManager`. -/
structure CRIUAttachManager where
  appPid : Int
  workDir : String

namespace CRIUAttachManager

variable {W : Type} (self : CRIUAttachManager) (T : ToolHost W)

def snapshotPath (snapshotId : String) : String := joinPath self.workDir snapshotId

def dump (snapshotId : String) : List String :=
  ["criu", "dump", "-t", toString self.appPid, "--images-dir", self.snapshotPath snapshotId, "--tcp-established",
    "--shell-job", "--leave-running"]

def reinstate (snapshotPath : String) : List String :=
  ["criu", "restore", "--images-dir", snapshotPath, "--tcp-established", "--shell-job"]

/-- `_core_restore`; the process is not waited for, so that the handler of `CalledProcessError` is dead code. -/
def coreRestore (snapshotPath : String) (w : W) : Except PyError (Bool × ℚ) × W :=
  if snapshotPath = "" then (.ok (false, 0), w)
  else
    match T.kill self.appPid (1 / 100) w with
    | (.error e, w) => (.error e, w)
    | (.ok (), w) =>
      let (start, w) := T.time w
      match T.popen (reinstate snapshotPath) w with
      | (.error e, w) => (.error e, w)
      | (.ok _, w) =>
        let (stop, w) := T.time w
        (.ok (true, stop - start), w)

def backend : SequentialBackend W where
  snapshot _ := T.captureWith (fun snapshotId => T.makedirs (self.snapshotPath snapshotId)) self.dump self.snapshotPath true
  restore _ snapshotPath _ := self.coreRestore T snapshotPath
  exec _ _ _ w := (.ok (-1, "", "Not implemented."), w)
  copy _ _ _ _ w := (.ok (false, "Not implemented."), w)
  cleanup := T.teardown
  decide := T.decide
  time := T.time
  uuid4Hex := T.uuid4Hex

/-- The target is killed, and `criu restore` ends well. -/
def Reinstates (snapshotPath : String) (w : W) : Prop :=
  (T.kill self.appPid (1 / 100) w).1 = .ok () ∧
    (T.popen (reinstate snapshotPath) (T.time (T.kill self.appPid (1 / 100) w).2).2).1 = .ok 0

/-- The exit statuses of `dump` and `restore`. -/
def commands : Commands W where
  captured w := T.captureStatus (fun snapshotId => T.makedirs (self.snapshotPath snapshotId)) self.dump w = some 0
  restored _ snapshotPath w := snapshotPath ≠ "" ∧ self.Reinstates T snapshotPath w

end CRIUAttachManager

/-! ### What the hooks tell -/

variable {W : Type} {T : ToolHost W} {B : SequentialBackend W} {C : Commands W}

theorem captureWith_tells_iff {prepare : String → W → Except PyError Unit × W} {argv : String → List String}
    {resource : String → String} {handled : Bool} (hB : ∀ b, B.snapshot b = T.captureWith prepare argv resource handled)
    (hC : ∀ w, C.captured w ↔ T.captureStatus prepare argv w = some 0) (w : W) :
    SnapshotTells B C w ↔
      T.captureStatus prepare argv w = some 0 ∨ (handled = true ∧ T.captureStatus prepare argv w ≠ none) := by
  unfold SnapshotTells
  rw [hB, hC]
  unfold ToolHost.captureWith ToolHost.captureStatus
  dsimp only
  rcases prepare ((T.uuid4Hex w).1.take 8).toString (T.uuid4Hex w).2 with ⟨_ | _, w₁⟩
  · simp
  · dsimp only
    rcases T.run (argv ((T.uuid4Hex w).1.take 8).toString) (T.time w₁).2 with ⟨_ | status, w₂⟩
    · simp [Except.toOption]
    · by_cases hstatus : status = 0
      · simp [Except.toOption, hstatus]
      · cases handled with
        | false => simp [Except.toOption, hstatus]
        | true => simp [Except.toOption, hstatus]

theorem restoreWith_tells_iff {halt argv : List String} {handled : Bool} {snapshotId resource : String}
    (hB : ∀ b, B.restore snapshotId resource b = T.restoreWith halt argv handled resource)
    (hC : ∀ w, C.restored snapshotId resource w ↔ T.restoreStatus halt argv resource w = some 0) (w : W) :
    RestoreTells B C snapshotId resource w ↔ resource = "" ∨ T.restoreStatus halt argv resource w = some 0 ∨
      (handled = true ∧ T.restoreStatus halt argv resource w ≠ none) := by
  unfold RestoreTells
  rw [hB, hC]
  unfold ToolHost.restoreWith ToolHost.restoreStatus
  by_cases hresource : resource = ""
  · simp [hresource]
  · rw [if_neg hresource, if_neg hresource]
    rcases T.run halt w with ⟨_ | _, w₁⟩
    · simp [hresource]
    · dsimp only
      rcases T.run argv (T.time w₁).2 with ⟨_ | status, w₂⟩
      · simp [Except.toOption, hresource]
      · by_cases hstatus : status = 0
        · simp [Except.toOption, hstatus]
        · cases handled with
          | false => simp [Except.toOption, hresource, hstatus]
          | true => simp [Except.toOption, hstatus]

end StateFork
