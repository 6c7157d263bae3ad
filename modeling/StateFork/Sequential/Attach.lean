import Mathlib.Data.List.TakeWhile
import StateFork.Lib.Text
import StateFork.Controller.Construction
import StateFork.Sequential.Tools

/-!
# Attaching to an environment

The constructors and `_core_cleanup` of the managers that attach by command-line tools, on an `AttachHost`. Each has a
predicate, `Spares`, of the calls and hosts for which the constructor ends well or raises before its object can destroy
anything: the container managers from the base constructor on, CRIU's manager from the assignment of `app_pid` on.
-/

namespace StateFork

open Conc Conc.Prog EnvironmentManager

/-- The host on which constructors run. -/
structure AttachHost (W : Type) extends ToolHost W where
  /-- `psutil.pid_exists`; `psutil.Process` raises `NoSuchProcess` if it does not. -/
  pidExists (pid : Int) : W → Bool × W
  /-- `SIGTERM`, and `SIGKILL` if the process goes on running for the soft timeout. -/
  terminate (pid : Int) (softTimeout hardTimeout : ℚ) : W → Except PyError Unit × W
  /-- `shutil.rmtree` with `ignore_errors`. -/
  rmtree (path : String) : W → Except PyError Unit × W

/-- The tools as an object under construction uses them. -/
def AttachHost.traced {W : Type} (T : AttachHost W) : ToolHost (Attaching W) where
  run argv := Attaching.logged (.command argv) (T.run argv)
  describe := T.describe
  capture argv timeout := Attaching.logged (.command argv) (T.capture argv timeout)
  popen argv := Attaching.logged (.command argv) (T.popen argv)
  makedirs path := Attaching.unlogged (T.makedirs path)
  kill pid hardTimeout := Attaching.logged (.kill pid) (T.kill pid hardTimeout)
  teardown := Attaching.unlogged T.teardown
  decide context := Attaching.unlogged (T.decide context)
  time := Attaching.unlogged T.time
  uuid4Hex := Attaching.unlogged T.uuid4Hex

section

variable {W : Type} (T : AttachHost W) (w : Attaching W)

@[simp] theorem traced_run (argv : List String) :
    T.traced.run argv w =
      ((T.run argv w.host).1, { w with issued := w.issued ++ [.command argv], host := (T.run argv w.host).2 }) := rfl

@[simp] theorem traced_time : T.traced.time w = ((T.time w.host).1, { w with host := (T.time w.host).2 }) := rfl

@[simp] theorem traced_uuid4Hex :
    T.traced.uuid4Hex w = ((T.uuid4Hex w.host).1, { w with host := (T.uuid4Hex w.host).2 }) := rfl

@[simp] theorem traced_makedirs (path : String) :
    T.traced.makedirs path w = ((T.makedirs path w.host).1, { w with host := (T.makedirs path w.host).2 }) := rfl

@[simp] theorem traced_capture (argv : List String) (timeout : Option ℚ) :
    T.traced.capture argv timeout w =
      ((T.capture argv timeout w.host).1,
        { w with issued := w.issued ++ [.command argv], host := (T.capture argv timeout w.host).2 }) := rfl

@[simp] theorem traced_describe (argv : List String) (status : Int) :
    T.traced.describe argv status = T.describe argv status := rfl

end

namespace EnvironmentManager

variable {W : Type}

/-- An assignment to the record of the current branch. -/
def assign (f : BranchState → BranchState) : M W Unit :=
  tryState fun m =>
    match m.getBranchState none with
    | .error e => (.error e, m)
    | .ok state => (.ok (), m.modifyRecord state f)

def setCurrentSnapshotId (snapshotId : Option String) : M W Unit :=
  assign fun r => { r with currentSnapshotId := snapshotId }

def setLastSnapshotId (snapshotId : Option String) : M W Unit := assign fun r => { r with lastSnapshotId := snapshotId }

/-- The tree graph of a manager that starts at a snapshot. -/
def initTree (snapshotId : String) : M W Unit := do
  recordSnapshotNode { snapshotId, parentId := none }
  setCurrentSnapshotId (some snapshotId)
  setLastSnapshotId (some snapshotId)

/-- The initial snapshot of a constructor. -/
def takeInitialSnapshot (B : SequentialBackend W) : M W Unit := do
  let current ← getCurrentBranchId
  let (snapshotId, _) ← B.hooks.coreSnapshot current
  match snapshotId with
  | none => throw ⟨.runtimeError, "Failed to create initial snapshot."⟩
  | some snapshotId => initTree snapshotId

theorem run_assign {s : Sys W} (h : Solo s.mgr) (f : BranchState → BranchState) :
    (assign f).run s = (.ok (), { s with mgr := s.mgr.modifyRecord mainRef f }) := by
  simp only [assign, run_tryState, h.getBranchState_current]

theorem run_initTree (root resource : String) (w : W) :
    (initTree root).run ⟨Manager.init.registerSnapshotResource root resource, w⟩ =
      (.ok (), ⟨Manager.startedAt root resource, w⟩) := by
  let m := (Manager.init.registerSnapshotResource root resource).recordSnapshotNode { snapshotId := root, parentId := none }
  have hm : Solo m := ⟨rfl, rfl, rfl⟩
  have hcurrent : Solo (m.modifyRecord mainRef fun r => { r with currentSnapshotId := some root }) :=
    hm.modifyRecord _ hm.active
  unfold initTree recordSnapshotNode setCurrentSnapshotId setLastSnapshotId
  rw [run_bind, run_updateState, run_afterValue_ok, run_bind, run_assign hm, run_afterValue_ok, run_assign hcurrent]
  have htwice := Heap.modify_modify m.records mainRef.addr (fun r => { r with currentSnapshotId := some root })
    fun r => { r with lastSnapshotId := some root }
  unfold Manager.modifyRecord
  rw [htwice]
  rfl

/-- The snapshot hook has answered with a snapshot. -/
def Captured (r : Except PyError (Option (String × String) × ℚ)) : Prop :=
  ∃ snapshotId resource elapsed, r = .ok (some (snapshotId, resource), elapsed)

/-- The first snapshot starts the manager, or the constructor raises. -/
theorem takeInitialSnapshot_cases (B : SequentialBackend W) (w : W) :
    (Captured (B.snapshot defaultBranchId w).1 ∧ ∃ root resource,
      (takeInitialSnapshot B).run ⟨Manager.init, w⟩ =
        (.ok (), ⟨Manager.startedAt root resource, (B.snapshot defaultBranchId w).2⟩)) ∨
    (¬ Captured (B.snapshot defaultBranchId w).1 ∧ ∃ e,
      (takeInitialSnapshot B).run ⟨Manager.init, w⟩ = (.error e, ⟨Manager.init, (B.snapshot defaultBranchId w).2⟩)) := by
  have hcurrent : (Manager.init).currentBranchId = defaultBranchId := rfl
  simp only [takeInitialSnapshot, getCurrentBranchId, run_bind, run_readState, run_afterValue_ok, hcurrent,
    SequentialBackend.hooks, run_tryWorld]
  rcases B.snapshot defaultBranchId w with ⟨e | ⟨_ | ⟨root, resource⟩, elapsed⟩, w'⟩
  · refine .inr ⟨?_, e, rfl⟩
    rintro ⟨_, _, _, h⟩
    cases h
  · refine .inr ⟨?_, _, rfl⟩
    rintro ⟨_, _, _, h⟩
    cases h
  · refine .inl ⟨⟨root, resource, elapsed, rfl⟩, root, resource, ?_⟩
    simp only [run_afterValue_ok, run_bind, registerSnapshotResource, run_updateState, run_pure]
    exact run_initTree root resource w'

end EnvironmentManager

namespace ToolHost

variable {W : Type} {T : ToolHost W} {prepare : String → W → Except PyError Unit × W} {argv : String → List String}
  {resource : String → String} {handled : Bool}

/-- A capture answers with a snapshot exactly if its command exits 0. -/
theorem captured_iff (w : W) :
    Captured (T.captureWith prepare argv resource handled w).1 ↔ T.captureStatus prepare argv w = some 0 := by
  unfold Captured captureWith captureStatus
  dsimp only
  rcases prepare ((T.uuid4Hex w).1.take 8).toString (T.uuid4Hex w).2 with ⟨_ | _, w₁⟩
  · simp
  · dsimp only
    rcases T.run (argv ((T.uuid4Hex w).1.take 8).toString) (T.time w₁).2 with ⟨_ | status, w₂⟩
    · simp [Except.toOption]
    · by_cases hstatus : status = 0
      · simp [Except.toOption, hstatus]
      · cases handled with
        | false => simp [Except.toOption, hstatus]
        | true => simp [Except.toOption, hstatus]

end ToolHost

section

variable {W : Type} {T : AttachHost W} {prepare : String → W → Except PyError Unit × W}
  {prepare' : String → Attaching W → Except PyError Unit × Attaching W} {argv : String → List String}
  {resource : String → String} {handled : Bool}

/-- The object under construction captures as the tools do. -/
theorem follows_captureWith (h : ∀ snapshotId, Attaching.Follows (prepare' snapshotId) (prepare snapshotId)) :
    Attaching.Follows (T.traced.captureWith prepare' argv resource handled)
      (T.captureWith prepare argv resource handled) := by
  have hall (w : Attaching W) :
      (T.traced.captureWith prepare' argv resource handled w).1 = (T.captureWith prepare argv resource handled w.host).1 ∧
        (T.traced.captureWith prepare' argv resource handled w).2.host =
          (T.captureWith prepare argv resource handled w.host).2 ∧
        (T.traced.captureWith prepare' argv resource handled w).2.appPid = w.appPid := by
    have hprepare := h ((T.uuid4Hex w.host).1.take 8).toString
    have hout := hprepare.answer { w with host := (T.uuid4Hex w.host).2 }
    have hhost := hprepare.host { w with host := (T.uuid4Hex w.host).2 }
    have hpid := hprepare.appPid { w with host := (T.uuid4Hex w.host).2 }
    simp only [ToolHost.captureWith, traced_run, traced_time, traced_uuid4Hex, traced_describe]
    rcases hw' : prepare' ((T.uuid4Hex w.host).1.take 8).toString { w with host := (T.uuid4Hex w.host).2 } with ⟨e | _, w'⟩
    · rw [hw'] at hout hhost hpid
      rcases hw : prepare ((T.uuid4Hex w.host).1.take 8).toString (T.uuid4Hex w.host).2 with ⟨_ | _, w₁⟩
      · rw [hw] at hout hhost
        exact ⟨congrArg Except.error (Except.error.inj hout), hhost, hpid⟩
      · rw [hw] at hout
        cases hout
    · rw [hw'] at hout hhost hpid
      rcases hw : prepare ((T.uuid4Hex w.host).1.take 8).toString (T.uuid4Hex w.host).2 with ⟨_ | _, w₁⟩
      · rw [hw] at hout
        cases hout
      · rw [hw] at hhost
        dsimp only at hhost hpid ⊢
        rw [← hhost]
        rcases T.run (argv ((T.uuid4Hex w.host).1.take 8).toString) (T.time w'.host).2 with ⟨_ | status, w₂⟩
        · exact ⟨rfl, rfl, hpid⟩
        · dsimp only
          split_ifs
          · exact ⟨rfl, rfl, hpid⟩
          · exact ⟨rfl, rfl, hpid⟩
          · exact ⟨rfl, rfl, hpid⟩
  exact ⟨fun w => (hall w).1, fun w => (hall w).2.1, fun w => (hall w).2.2⟩

theorem follows_answer {α : Type} (x : α) : Attaching.Follows (fun w => (x, w)) (fun w : W => (x, w)) :=
  ⟨fun _ => rfl, fun _ => rfl, fun _ => rfl⟩

/-- The initial snapshot is taken exactly if its command exits 0. -/
theorem traced_takeInitialSnapshot {B : SequentialBackend (Attaching W)}
    (hB : ∀ b, B.snapshot b = T.traced.captureWith prepare' argv resource handled)
    (h : ∀ snapshotId, Attaching.Follows (prepare' snapshotId) (prepare snapshotId)) (w : Attaching W) :
    ∃ w', w'.host = (T.captureWith prepare argv resource handled w.host).2 ∧ w'.appPid = w.appPid ∧
      ((T.captureStatus prepare argv w.host = some 0 ∧ ∃ root resource,
          (takeInitialSnapshot B).run ⟨Manager.init, w⟩ = (.ok (), ⟨Manager.startedAt root resource, w'⟩)) ∨
        (T.captureStatus prepare argv w.host ≠ some 0 ∧ ∃ e,
          (takeInitialSnapshot B).run ⟨Manager.init, w⟩ = (.error e, ⟨Manager.init, w'⟩))) := by
  have hfollows : Attaching.Follows (T.traced.captureWith prepare' argv resource handled)
      (T.captureWith prepare argv resource handled) := follows_captureWith h
  have hcases := takeInitialSnapshot_cases B w
  rw [hB, hfollows.answer, ToolHost.captured_iff] at hcases
  exact ⟨_, hfollows.host w, hfollows.appPid w, hcases⟩

end

variable {W : Type} (T : AttachHost W)

/-! ### Containers -/

/-- `get_backend_tool`: the command and the name of a backend. -/
def getBackendTool (backend : String) : Except PyError (String × String) :=
  if backend = "Docker" then .ok ("docker", "Docker")
  else if backend = "Podman" then .ok ("podman", "Podman")
  else .error ⟨.valueError, "Unsupported backend: " ++ backend⟩

/-- `text.split(sep, 1)`, unpacked into two. -/
def splitOnce (sep : Char) (text : String) : Except PyError (String × String) :=
  match text.toList.dropWhile (· ≠ sep) with
  | [] => .error ⟨.valueError, "not enough values to unpack (expected 2, got 1)"⟩
  | _ :: rest => .ok (String.ofList (text.toList.takeWhile (· ≠ sep)), String.ofList rest)

namespace ContainerAttachManager

/-- `ContainerAttachManager.__init__`, after the base constructor. -/
def init (baseImage : String) : M (Attaching W) Unit :=
  match splitOnce ':' baseImage with
  | .error e => throw e
  | .ok _ => do
    registerSnapshotResource "base" baseImage
    initTree "base"

/-- `_core_cleanup`, which does not read the image prefix. -/
def coreCleanup (self : ContainerAttachManager) : M (Attaching W) (Option Bool) := do
  let _ ← tryWorld (T.traced.run self.removal) fun _ => []
  let items ← readState fun m => m.snapshots.entries
  each items fun item => do
    let _ ← tryWorld (T.traced.run [self.backendCmd, "rmi", item.2]) fun _ => []
    updateState fun m => { m with snapshots := m.snapshots.erase item.1 }
  return none

def construction (backend containerName baseImage : String) (extraArgs : List String) :
    Except PyError (Construction W) :=
  match getBackendTool backend with
  | .error e => .error e
  | .ok (backendCmd, _) =>
    let self : ContainerAttachManager := { backendCmd, containerName, imagePrefix := "", extraArgs }
    .ok { init := init baseImage, coreCleanup := self.coreCleanup T }

/-- The backend is rejected before the base constructor, or the image has a tag. -/
def Spares (backend baseImage : String) : Prop := (backend ≠ "Docker" ∧ backend ≠ "Podman") ∨ ':' ∈ baseImage.toList

end ContainerAttachManager

/-! ### Podman with CRIU -/

namespace HybridAttachManager

variable (self : HybridAttachManager)

def processes : List String := ["podman", "ps", "-q", "-f", "name=" ++ self.containerName]

def notRunning : PyError :=
  ⟨.runtimeError, "Container '" ++ self.containerName ++ "' is not running. Please start it before using this manager."⟩

def ensureContainerRunning : M (Attaching W) Unit := do
  let (_, stdout, _) ← tryWorld (T.traced.capture self.processes none) fun _ => []
  if Text.strip stdout.toList = [] then throw self.notRunning

/-- `HybridAttachManager.__init__`, after the base constructor. -/
def init : M (Attaching W) Unit := do
  tryWorld (T.traced.makedirs self.exportDir) fun _ => []
  self.ensureContainerRunning T
  takeInitialSnapshot (self.backend T.traced)

def coreCleanup : M (Attaching W) (Option Bool) := do
  let _ ← tryWorld (T.traced.run self.removal) fun _ => []
  tryWorld (Attaching.logged (.rmtree self.exportDir) (T.rmtree self.exportDir)) fun _ => []
  return none

def construction : Except PyError (Construction W) := .ok { init := self.init T, coreCleanup := self.coreCleanup T }

/-- The directory exists, the container runs, and its checkpoint is taken. -/
def Spares (host : W) : Prop :=
  match T.makedirs self.exportDir host with
  | (.error _, _) => False
  | (.ok (), w) =>
    match T.capture self.processes none w with
    | (.error _, _) => False
    | (.ok (_, stdout, _), w) =>
      Text.strip stdout.toList ≠ [] ∧ T.captureStatus (fun _ w => (.ok (), w)) self.checkpoint w = some 0

end HybridAttachManager

/-! ### CRIU -/

namespace CRIUAttachManager

variable (self : CRIUAttachManager)

def noTarget : PyError :=
  ⟨.valueError, "Target PID " ++ toString self.appPid ++ " does not exist or is not running."⟩

def ensureTarget : M (Attaching W) Unit := do
  let alive ← world (Attaching.unlogged (T.pidExists self.appPid))
  if !alive then throw self.noTarget

/-- `CRIUAttachManager.__init__`, after the base constructor. -/
def init : M (Attaching W) Unit := do
  tryWorld (T.traced.makedirs self.workDir) fun _ => []
  self.ensureTarget T
  access fun s => ((), { s with world := { s.world with appPid := some self.appPid } })
  takeInitialSnapshot (self.backend T.traced)

/-- `__kill_original_process` -/
def killOriginalProcess (pid : Int) (softTimeout hardTimeout : ℚ) : M (Attaching W) Unit := do
  let alive ← world (Attaching.unlogged (T.pidExists pid))
  if alive then tryWorld (Attaching.logged (.kill pid) (T.terminate pid softTimeout hardTimeout)) fun _ => []

def coreCleanup : M (Attaching W) (Option Bool) := do
  let appPid ← read fun s => s.world.appPid
  match appPid with
  | none => throw ⟨.other, "'CRIUAttachManager' object has no attribute 'app_pid'"⟩
  | some pid =>
    killOriginalProcess T pid 2 2
    tryWorld (Attaching.logged (.rmtree self.workDir) (T.rmtree self.workDir)) fun _ => []
    return none

def construction : Except PyError (Construction W) := .ok { init := self.init T, coreCleanup := self.coreCleanup T }

/-- The directory cannot be created, there is no such process, or its image is dumped. -/
def Spares (host : W) : Prop :=
  match T.makedirs self.workDir host with
  | (.error _, _) => True
  | (.ok (), w) =>
    match T.pidExists self.appPid w with
    | (false, _) => True
    | (true, w) => T.captureStatus (fun snapshotId => T.makedirs (self.snapshotPath snapshotId)) self.dump w = some 0

end CRIUAttachManager

/-! ### gVisor -/

namespace GvisorAttachManager

variable (self : GvisorAttachManager)

/-- `subprocess.check_output`; a `CalledProcessError` becomes what `GvisorCalculator` raises. -/
def checkOutput (argv : List String) : M (Attaching W) String := do
  let (status, stdout, _) ← tryWorld (T.traced.capture argv none) fun _ => []
  if status ≠ 0 then
    throw ⟨.runtimeError, "Failed to initialize GvisorCalculator due to Docker command failure."⟩
  else return stdout

def dockerInfo : List String := ["docker", "info", "--format", "\x7b\x7b.DockerRootDir\x7d\x7d"]

def dockerInspect : List String := ["docker", "inspect", self.containerName, "--format", "\x7b\x7b.Id\x7d\x7d"]

/-- `GvisorCalculator.__init__` -/
def initCalculator : M (Attaching W) Unit := do
  let _ ← checkOutput T dockerInfo
  let _ ← checkOutput T self.dockerInspect
  return ()

/-- `GvisorAttachManager.__init__`, after the base constructor. -/
def init : M (Attaching W) Unit := do
  takeInitialSnapshot (self.backend T.traced)
  self.initCalculator T

def removal : List String := ["docker", "rm", "-f", self.containerName]

def coreCleanup (baseImage : String) : M (Attaching W) (Option Bool) := do
  let _ ← tryWorld (T.traced.run self.removal) fun _ => []
  let _ ← tryWorld (T.traced.run ["docker", "rmi", "-f", baseImage]) fun _ => []
  return none

def construction (baseImage : String) : Except PyError (Construction W) :=
  .ok { init := self.init T, coreCleanup := self.coreCleanup T baseImage }

/-- The command is launched and exits 0. -/
def Answers (argv : List String) (w : W) : Prop := ∃ stdout stderr, (T.capture argv none w).1 = .ok (0, stdout, stderr)

/-- The checkpoint is taken, and docker answers to `info` and `inspect`. -/
def Spares (host : W) : Prop :=
  T.captureStatus (fun _ w => (.ok (), w)) self.checkpoint host = some 0 ∧
    let w := (T.captureWith (fun _ w => (.ok (), w)) self.checkpoint id true host).2
    Answers T dockerInfo w ∧ Answers T self.dockerInspect (T.capture dockerInfo none w).2

end GvisorAttachManager

/-! ### When the environment is left alone -/

theorem splitOnce_ok_iff {sep : Char} {text : String} : (∃ parts, splitOnce sep text = .ok parts) ↔ sep ∈ text.toList := by
  unfold splitOnce
  rcases hrest : text.toList.dropWhile (· ≠ sep) with _ | ⟨c, rest⟩
  · have hall := List.dropWhile_eq_nil_iff.mp hrest
    simp only [reduceCtorEq, exists_false, false_iff]
    intro hsep
    simpa using hall sep hsep
  · have hne : text.toList.dropWhile (· ≠ sep) ≠ [] := by
      rw [hrest]
      exact List.cons_ne_nil c rest
    simp only [Except.ok.injEq, exists_eq', true_iff]
    by_contra hsep
    refine hne (List.dropWhile_eq_nil_iff.mpr fun x hx => decide_eq_true ?_)
    rintro rfl
    exact hsep hx

namespace ContainerAttachManager

theorem run_init_ok {baseImage : String} (h : ':' ∈ baseImage.toList) (w : Attaching W) :
    (init baseImage).run ⟨Manager.init, w⟩ = (.ok (), ⟨Manager.startedAt "base" baseImage, w⟩) := by
  obtain ⟨parts, hparts⟩ := splitOnce_ok_iff.mpr h
  unfold init
  rw [hparts]
  simp only [registerSnapshotResource, run_bind, run_updateState, run_afterValue_ok]
  exact run_initTree "base" baseImage w

theorem run_init_error {baseImage : String} (h : ':' ∉ baseImage.toList) (w : Attaching W) :
    ∃ e, (init baseImage).run ⟨Manager.init, w⟩ = (.error e, ⟨Manager.init, w⟩) := by
  unfold init
  rcases hparts : splitOnce ':' baseImage with e | parts
  · exact ⟨e, rfl⟩
  · exact absurd (splitOnce_ok_iff.mp ⟨parts, hparts⟩) h

/-- The fallback removes the container first of all. -/
theorem mem_coreCleanup (self : ContainerAttachManager) (s : Sys (Attaching W)) :
    .command self.removal ∈ ((self.coreCleanup T).run s).2.world.issued := by
  unfold coreCleanup
  refine mem_issued_bind (fun _ => keeps_bind (reads_readState _).keeps fun items => ?_) s
  refine keeps_bind (keeps_each (fun item => keeps_bind keeps_logged fun _ => ?_) items) fun _ => keeps_ret _
  intro s hs
  rw [run_updateState]
  exact hs

theorem leavesAlone_iff (backend containerName baseImage : String) (extraArgs : List String) (host : W) :
    LeavesAlone (construction T backend containerName baseImage extraArgs) host ↔ Spares backend baseImage := by
  unfold construction Spares
  rcases hbackend : getBackendTool backend with e | ⟨backendCmd, name⟩
  · refine iff_of_true (leavesAlone_error e host) (.inl ?_)
    unfold getBackendTool at hbackend
    split_ifs at hbackend with hdocker hpodman
    exact ⟨hdocker, hpodman⟩
  · have hknown : ¬ (backend ≠ "Docker" ∧ backend ≠ "Podman") := by
      rintro ⟨hdocker, hpodman⟩
      unfold getBackendTool at hbackend
      rw [if_neg hdocker, if_neg hpodman] at hbackend
      cases hbackend
    rw [or_iff_right hknown]
    by_cases hcolon : ':' ∈ baseImage.toList
    · refine iff_of_true (leavesAlone_of_ok ?_) hcolon
      exact congrArg Prod.fst (run_init_ok hcolon _)
    · refine iff_of_false ?_ hcolon
      obtain ⟨e, hrun⟩ := run_init_error hcolon { host }
      exact not_leavesAlone hrun rfl (mem_coreCleanup T _ _) rfl

end ContainerAttachManager

namespace HybridAttachManager

variable (self : HybridAttachManager)

theorem mem_coreCleanup (s : Sys (Attaching W)) : .command self.removal ∈ ((self.coreCleanup T).run s).2.world.issued :=
  mem_issued_bind (fun _ => keeps_bind keeps_logged fun _ => keeps_ret _) s

theorem snapshot_traced (b : String) : (self.backend T.traced).snapshot b =
    T.traced.captureWith (fun _ w => (.ok (), w)) self.checkpoint self.exportPath false := rfl

theorem run_ensureContainerRunning (s : Sys (Attaching W)) :
    (self.ensureContainerRunning T).run s =
      (match (T.capture self.processes none s.world.host).1 with
        | .error e => .error e
        | .ok (_, stdout, _) => if Text.strip stdout.toList = [] then .error self.notRunning else .ok (),
        { s with world := (T.traced.capture self.processes none s.world).2 }) := by
  unfold ensureContainerRunning
  rw [run_bind, run_tryWorld, traced_capture]
  rcases T.capture self.processes none s.world.host with ⟨e | ⟨status, stdout, stderr⟩, w⟩
  · rfl
  · dsimp only
    rw [run_afterValue_ok]
    split_ifs
    · rfl
    · rfl

theorem leavesAlone_iff (host : W) : LeavesAlone (self.construction T) host ↔ self.Spares T host := by
  have hraises {e : PyError} {w : Attaching W}
      (hrun : (self.init T).run ⟨Manager.init, { host }⟩ = (.error e, ⟨Manager.init, w⟩)) :
      ¬ LeavesAlone (self.construction T) host :=
    not_leavesAlone hrun rfl (self.mem_coreCleanup T _) rfl
  unfold Spares
  rcases hdir : T.makedirs self.exportDir host with ⟨e | _, w₁⟩
  · refine iff_of_false (hraises (e := e) (w := { host := w₁ }) ?_) not_false
    rw [init, run_bind, run_tryWorld, traced_makedirs, hdir]
    rfl
  · have hfirst : (self.init T).run ⟨Manager.init, { host }⟩ =
        (self.ensureContainerRunning T >>= fun _ => takeInitialSnapshot (self.backend T.traced)).run
          ⟨Manager.init, { host := w₁ }⟩ := by
      rw [init, run_bind, run_tryWorld, traced_makedirs, hdir]
      rfl
    dsimp only
    rw [run_bind, run_ensureContainerRunning] at hfirst
    rcases hps : T.capture self.processes none w₁ with ⟨e | ⟨status, stdout, stderr⟩, w₂⟩
    · rw [hps] at hfirst
      exact iff_of_false (hraises hfirst) not_false
    · rw [hps] at hfirst
      dsimp only at hfirst ⊢
      by_cases hblank : Text.strip stdout.toList = []
      · rw [if_pos hblank] at hfirst
        exact iff_of_false (hraises hfirst) fun h => h.1 hblank
      · rw [if_neg hblank, run_afterValue_ok] at hfirst
        rw [and_iff_right hblank]
        obtain ⟨w', -, -, hcases⟩ := traced_takeInitialSnapshot (self.snapshot_traced T) (fun _ => follows_answer _)
          (T.traced.capture self.processes none { host := w₁ }).2
        rw [show (T.traced.capture self.processes none { host := w₁ }).2.host = w₂ from congrArg Prod.snd hps] at hcases
        rcases hcases with ⟨hstatus, root, resource, hrun⟩ | ⟨hstatus, e, hrun⟩
        · refine iff_of_true (leavesAlone_of_ok ?_) hstatus
          exact congrArg Prod.fst (hfirst.trans hrun)
        · exact iff_of_false (hraises (hfirst.trans hrun)) hstatus

end HybridAttachManager

namespace CRIUAttachManager

variable (self : CRIUAttachManager)

theorem snapshot_traced (b : String) : (self.backend T.traced).snapshot b =
    T.traced.captureWith (fun snapshotId => T.traced.makedirs (self.snapshotPath snapshotId)) self.dump self.snapshotPath
      true := rfl

/-- Without `app_pid` the fallback raises at once. -/
theorem run_coreCleanup_unassigned {s : Sys (Attaching W)} (h : s.world.appPid = none) :
    ((self.coreCleanup T).run s).2 = s := by
  unfold coreCleanup
  rw [run_bind, run_read, run_afterValue_ok, h]
  rfl

/-- With it, it kills the process or at least removes the directory. -/
theorem coreCleanup_destroys {s : Sys (Attaching W)} {pid : Int} (h : s.world.appPid = some pid) :
    ∃ a ∈ ((self.coreCleanup T).run s).2.world.issued, a.destroys = true := by
  let s' : Sys (Attaching W) := { s with world := { s.world with host := (T.pidExists pid s.world.host).2 } }
  have hread : (self.coreCleanup T).run s =
      ((if (T.pidExists pid s.world.host).1 then
        tryWorld (Attaching.logged (.kill pid) (T.terminate pid 2 2)) fun _ => [] else pure ()) >>= fun _ => do
      tryWorld (Attaching.logged (.rmtree self.workDir) (T.rmtree self.workDir)) fun _ => []
      return none : M (Attaching W) (Option Bool)).run s' := by
    unfold coreCleanup killOriginalProcess
    rw [run_bind, run_read, run_afterValue_ok, h]
    rfl
  rw [hread]
  rcases (T.pidExists pid s.world.host).1 with _ | _
  · refine ⟨.rmtree self.workDir, ?_, rfl⟩
    exact mem_issued_bind (fun _ => keeps_ret _) s'
  · refine ⟨.kill pid, ?_, rfl⟩
    exact mem_issued_bind (fun _ => keeps_bind keeps_logged fun _ => keeps_ret _) s'

theorem leavesAlone_unassigned {host : W} {e : PyError} {w : W}
    (hrun : (self.init T).run ⟨Manager.init, { host }⟩ = (.error e, ⟨Manager.init, { host := w }⟩)) :
    LeavesAlone (self.construction T) host := by
  unfold construction
  rw [leavesAlone_iff_of_error hrun, world_del]
  rw [self.run_coreCleanup_unassigned T rfl]
  intro a ha
  cases ha

theorem run_ensureTarget (s : Sys (Attaching W)) :
    (self.ensureTarget T).run s =
      (if (T.pidExists self.appPid s.world.host).1 then .ok () else .error self.noTarget,
        { s with world := { s.world with host := (T.pidExists self.appPid s.world.host).2 } }) := by
  unfold ensureTarget
  rw [run_bind, run_world, run_afterValue_ok, Attaching.unlogged]
  rcases T.pidExists self.appPid s.world.host with ⟨_ | _, w⟩
  · rfl
  · rfl

theorem leavesAlone_iff (host : W) : LeavesAlone (self.construction T) host ↔ self.Spares T host := by
  unfold Spares
  rcases hdir : T.makedirs self.workDir host with ⟨e | _, w₁⟩
  · refine iff_of_true (self.leavesAlone_unassigned T (e := e) (w := w₁) ?_) trivial
    rw [init, run_bind, run_tryWorld, traced_makedirs, hdir]
    rfl
  · dsimp only
    rcases hpid : T.pidExists self.appPid w₁ with ⟨_ | _, w₂⟩
    · refine iff_of_true (self.leavesAlone_unassigned T (e := self.noTarget) (w := w₂) ?_) trivial
      rw [init, run_bind, run_tryWorld, traced_makedirs, hdir, run_afterValue_ok, run_bind, run_ensureTarget]
      dsimp only
      rw [hpid]
      rfl
    · have hinit : (self.init T).run ⟨Manager.init, { host }⟩ =
          (takeInitialSnapshot (self.backend T.traced)).run ⟨Manager.init, { appPid := some self.appPid, host := w₂ }⟩ := by
        rw [init, run_bind, run_tryWorld, traced_makedirs, hdir, run_afterValue_ok, run_bind, run_ensureTarget]
        dsimp only
        rw [hpid]
        rfl
      obtain ⟨w', -, hassigned, ⟨hstatus, root, resource, hrun⟩ | ⟨hstatus, e, hrun⟩⟩ :=
        traced_takeInitialSnapshot (self.snapshot_traced T) (fun _ => Attaching.follows_unlogged _)
          { appPid := some self.appPid, host := w₂ }
      · refine iff_of_true (leavesAlone_of_ok ?_) hstatus
        exact congrArg Prod.fst (hinit.trans hrun)
      · refine iff_of_false ?_ hstatus
        obtain ⟨a, ha, hdestroys⟩ := self.coreCleanup_destroys T (s := ⟨Manager.init, w'⟩) hassigned
        exact not_leavesAlone (hinit.trans hrun) rfl ha hdestroys

end CRIUAttachManager

namespace GvisorAttachManager

variable (self : GvisorAttachManager)

theorem snapshot_traced (b : String) : (self.backend T.traced).snapshot b =
    T.traced.captureWith (fun _ w => (.ok (), w)) self.checkpoint id true := rfl

theorem mem_coreCleanup (baseImage : String) (s : Sys (Attaching W)) :
    .command self.removal ∈ ((self.coreCleanup T baseImage).run s).2.world.issued :=
  mem_issued_bind (fun _ => keeps_bind keeps_logged fun _ => keeps_ret _) s

theorem checkOutput_cases (argv : List String) (m : Manager) (w : Attaching W) :
    (Answers T argv w.host ∧ ∃ stdout, (checkOutput T argv).run ⟨m, w⟩ = (.ok stdout, ⟨m, (T.traced.capture argv none w).2⟩)) ∨
    (¬ Answers T argv w.host ∧ ∃ e, (checkOutput T argv).run ⟨m, w⟩ = (.error e, ⟨m, (T.traced.capture argv none w).2⟩)) := by
  unfold checkOutput Answers
  rw [run_bind, run_tryWorld, traced_capture]
  rcases T.capture argv none w.host with ⟨e | ⟨status, stdout, stderr⟩, w'⟩
  · refine .inr ⟨?_, e, rfl⟩
    rintro ⟨_, _, h⟩
    cases h
  · dsimp only
    rw [run_afterValue_ok]
    by_cases hstatus : status = 0
    · subst hstatus
      exact .inl ⟨⟨stdout, stderr, rfl⟩, stdout, rfl⟩
    · refine .inr ⟨?_, _, by rw [if_pos hstatus]; rfl⟩
      rintro ⟨_, _, h⟩
      exact hstatus (Prod.mk.inj (Except.ok.inj h)).1

theorem leavesAlone_iff (baseImage : String) (host : W) :
    LeavesAlone (self.construction T baseImage) host ↔ self.Spares T host := by
  have hraises {e : PyError} {m : Manager} {w : Attaching W}
      (hrun : (self.init T).run ⟨Manager.init, { host }⟩ = (.error e, ⟨m, w⟩)) (hflag : m.isCleanedUp = false) :
      ¬ LeavesAlone (self.construction T baseImage) host :=
    not_leavesAlone hrun hflag (self.mem_coreCleanup T baseImage _) rfl
  unfold Spares
  obtain ⟨w, hhost, -, ⟨hstatus, root, resource, hrun⟩ | ⟨hstatus, e, hrun⟩⟩ :=
    traced_takeInitialSnapshot (self.snapshot_traced T) (fun _ => follows_answer _) { host }
  · rw [and_iff_right hstatus, ← hhost]
    have hinit := run_bind_ok hrun fun _ => self.initCalculator T
    unfold initCalculator at hinit
    rcases checkOutput_cases T dockerInfo (.startedAt root resource) w with ⟨hinfo, _, hrun₁⟩ | ⟨hinfo, e, hrun₁⟩
    · rw [run_bind_ok hrun₁] at hinit
      rcases checkOutput_cases T self.dockerInspect (.startedAt root resource) (T.traced.capture dockerInfo none w).2 with
        ⟨hinspect, _, hrun₂⟩ | ⟨hinspect, e, hrun₂⟩
      · rw [run_bind_ok hrun₂] at hinit
        exact iff_of_true (leavesAlone_of_ok (congrArg Prod.fst hinit)) ⟨hinfo, hinspect⟩
      · rw [run_bind_error hrun₂] at hinit
        exact iff_of_false (hraises hinit rfl) fun h => hinspect h.2
    · rw [run_bind_error hrun₁] at hinit
      exact iff_of_false (hraises hinit rfl) fun h => hinfo h.1
  · have hinit := run_bind_error hrun fun _ => self.initCalculator T
    exact iff_of_false (hraises hinit rfl) fun h => hstatus h.1

end GvisorAttachManager

end StateFork
