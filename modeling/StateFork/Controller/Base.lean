import StateFork.Controller.State
import StateFork.Lib.Prog

/-!
# `EnvironmentManager`

The template methods of the base class, as programs over the manager and the backend's world `W`.
A backend supplies the `_core_*` hooks (`Hooks`). Every `with lock` of the source is a `withLock`;
the body of a `_state_lock` section is one atomic step.
-/

namespace StateFork

open Conc Conc.Prog

/-- A manager together with the world its backend acts on. -/
structure Sys (W : Type) where
  mgr : Manager
  world : W

/-- Controller code. -/
abbrev M (W α : Type) := Prog (Sys W) Lock Event PyError α

section Access

variable {W α : Type}

/-- `with self._state_lock`, for a section that reads and updates the manager. -/
def withState (f : Manager → α × Manager) : M W α :=
  withLock .state (access fun s => ((f s.mgr).1, { s with mgr := (f s.mgr).2 }))

/-- A section that may raise. -/
def tryState (f : Manager → Except PyError α × Manager) : M W α :=
  withLock .state (attemptAccess fun s => ((f s.mgr).1, { s with mgr := (f s.mgr).2 }))

/-- A section that only reads. -/
def readState (f : Manager → α) : M W α := withState fun m => (f m, m)

/-- A section that only updates. -/
def updateState (f : Manager → Manager) : M W Unit := withState fun m => ((), f m)

/-- An update that an observer sees. -/
def updateStateEmit (events : List Event) (f : Manager → Manager) : M W Unit :=
  withLock .state (atomic (fun _ => events) (fun s => { s with mgr := f s.mgr }) fun _ => ret ())

/-- An attribute read outside any critical section. -/
def peek (f : Manager → α) : M W α := read fun s => f s.mgr

/-- An attribute write outside any critical section. -/
def poke (f : Manager → Manager) : M W Unit := access fun s => ((), { s with mgr := f s.mgr })

/-- A backend action. -/
def world (f : W → α × W) : M W α := access fun s => ((f s.world).1, { s with world := (f s.world).2 })

/-- A backend action that may raise, with the events an observer sees. -/
def tryWorld (f : W → Except PyError α × W) (events : Except PyError α → List Event) : M W α :=
  atomic (fun s => events (f s.world).1) (fun s => { s with world := (f s.world).2 }) fun s =>
    ofExcept (f s.world).1

/-- A visible step. -/
def announce (e : Event) : M W Unit := emit fun _ => [e]

@[simp] theorem run_withState (f : Manager → α × Manager) (s : Sys W) :
    (withState f).run s = (.ok (f s.mgr).1, { s with mgr := (f s.mgr).2 }) := by
  simp only [withState, run_withLock, run_access]

@[simp] theorem run_tryState (f : Manager → Except PyError α × Manager) (s : Sys W) :
    (tryState f).run s = ((f s.mgr).1, { s with mgr := (f s.mgr).2 }) := by
  simp only [tryState, run_withLock, run_attemptAccess]

@[simp] theorem run_readState (f : Manager → α) (s : Sys W) :
    (readState f).run s = (.ok (f s.mgr), s) := by
  simp only [readState, run_withState]

@[simp] theorem run_updateState (f : Manager → Manager) (s : Sys W) :
    (updateState f).run s = (.ok (), { s with mgr := f s.mgr }) := by
  simp only [updateState, run_withState]

@[simp] theorem run_updateStateEmit (events : List Event) (f : Manager → Manager) (s : Sys W) :
    (updateStateEmit events f).run s = (.ok (), { s with mgr := f s.mgr }) := by
  simp only [updateStateEmit, run_withLock, run_atomic, run_ret]

@[simp] theorem run_peek (f : Manager → α) (s : Sys W) :
    (peek f).run s = (.ok (f s.mgr), s) := rfl

@[simp] theorem run_poke (f : Manager → Manager) (s : Sys W) :
    (poke f).run s = (.ok (), { s with mgr := f s.mgr }) := rfl

@[simp] theorem run_world (f : W → α × W) (s : Sys W) :
    (world f).run s = (.ok (f s.world).1, { s with world := (f s.world).2 }) := rfl

@[simp] theorem run_tryWorld (f : W → Except PyError α × W) (events : Except PyError α → List Event)
    (s : Sys W) : (tryWorld f events).run s = ((f s.world).1, { s with world := (f s.world).2 }) := by
  simp only [tryWorld, run_atomic, run_ofExcept]

@[simp] theorem run_announce (e : Event) (s : Sys W) : (announce e).run s = (.ok (), s) := rfl

end Access

structure DecisionContext where
  cumulativeExecTime : ℚ

/-- The `_core_*` hooks of a backend, with the decider, the clock and the id source the templates
consult. -/
structure Hooks (W : Type) where
  coreSnapshot (branchId : String) : M W (Option String × ℚ)
  coreRestore (snapshotId branchId : String) : M W (Bool × ℚ)
  coreCleanup : M W (Option Bool)
  coreExec (command : Command) (timeout : Option ℚ) (branchId : String) : M W (Int × String × String)
  coreCopy (branchId hostPath envPath : String) (into : Bool) : M W (Bool × String)
  afterSnapshot (branchId snapshotId : String) : M W Unit
  decide (context : DecisionContext) : M W Bool
  time : M W ℚ
  /-- `uuid.uuid4().hex` -/
  uuid4Hex : M W String

namespace EnvironmentManager

variable {W : Type}

/-! ### Branch-state helpers -/

def getCurrentBranchId : M W String := readState (·.currentBranchId)

def getBranchState (branchId : Option String) : M W Ref :=
  tryState fun m => (m.getBranchState branchId, m)

def registerBranch (branchId : String) (base : Option String) : M W Ref :=
  withState fun m => m.registerBranch branchId base

def removeBranch (branchId : String) : M W Unit := updateState (·.removeBranch branchId)

def setCurrentBranch (branchId : String) : M W Unit :=
  withLock .currentBranch (tryState fun m => m.setCurrentBranch branchId)

def setBranchPosition (branchId : String) (snapshotId : Option String) : M W Unit := do
  let state ← registerBranch branchId snapshotId
  updateStateEmit [.positioned branchId snapshotId] fun m =>
    m.modifyRecord state fun _ => .positionedAt snapshotId

/-! ### Snapshot registry helpers -/

def registerSnapshotResource (snapshotId resourceId : String) : M W Unit :=
  updateState (·.registerSnapshotResource snapshotId resourceId)

def snapshotResource (snapshotId : String) : M W (Option String) :=
  readState (·.snapshots.get? snapshotId)

def recordSnapshotNode (node : SnapshotNode) : M W Unit := updateState (·.recordSnapshotNode node)

/-- `self._stats.add_entry` -/
def addEntry (operation targetId : String) (elapsed : ℚ) (branchId : String) : M W Unit :=
  withLock .stats
    (access fun s => ((), { s with mgr := s.mgr.addEntry operation targetId elapsed branchId }))

@[simp] theorem run_addEntry (operation targetId : String) (elapsed : ℚ) (branchId : String)
    (s : Sys W) :
    (addEntry operation targetId elapsed branchId).run s =
      (.ok (), { s with mgr := s.mgr.addEntry operation targetId elapsed branchId }) := by
  simp only [addEntry, run_withLock, run_access]

variable (H : Hooks W)

/-! ### Snapshot template -/

/-- The physical branch of `_snapshot_branch`. -/
def capturePhysical (branchId : String) (state : Ref) (parentId : Option String) :
    M W (Option SnapshotNode) := do
  announce (.call .snapshot state)
  let (snapshotId, elapsed) ← H.coreSnapshot branchId
  match snapshotId with
  | none => return none
  | some snapshotId =>
    addEntry "snapshot" snapshotId elapsed branchId
    return some { snapshotId, parentId }

/-- The virtual branch of `_snapshot_branch`. -/
def captureVirtual (parentId : Option String) (replayCommands : List Command) :
    M W (Option SnapshotNode) := do
  let hex ← H.uuid4Hex
  return some
    { snapshotId := "v" ++ (hex.take 7).toString, parentId, isVirtual := true, replayCommands }

/-- The bookkeeping after either branch of `_snapshot_branch`. -/
def commitSnapshot (branchId : String) (state : Ref) (takePhysical : Bool) (node : SnapshotNode) :
    M W (Option String) := do
  recordSnapshotNode node
  updateStateEmit [.advanced branchId node.snapshotId node.parentId] fun m =>
    m.modifyRecord state fun r =>
      { r with
        currentSnapshotId := some node.snapshotId
        lastSnapshotId := some node.snapshotId
        commandLog := []
        cumulativeExecTime := if takePhysical then 0 else r.cumulativeExecTime }
  H.afterSnapshot branchId node.snapshotId
  poke fun m => { m with isCleanedUp := false }
  return some node.snapshotId

/-- `_snapshot_branch` -/
def snapshotBranch (branchId : String) (forcePhysical : Bool) : M W (Option String) := do
  let state ← getBranchState (some branchId)
  announce (.lookedUp state)
  withLock (.operation state) do
    let seen ← readState fun m =>
      let r := m.record state
      if r.active then some (r.lastSnapshotId, r.cumulativeExecTime, r.commandLog) else none
    match seen with
    | none => return none
    | some (parentId, cumulativeExecTime, replayCommands) =>
      let takePhysical ← if forcePhysical then pure true else H.decide ⟨cumulativeExecTime⟩
      let node ←
        if takePhysical then capturePhysical H branchId state parentId
        else captureVirtual H parentId replayCommands
      match node with
      | none => return none
      | some node => commitSnapshot H branchId state takePhysical node

def snapshot : M W (Option String) :=
  withLock .currentBranch do
    let branchId ← getCurrentBranchId
    snapshotBranch H branchId false

/-! ### Execution -/

/-- What both exits of `_core_exec` record: the command, and the time of a call that returned. -/
def logCommand (branchId : String) (state : Ref) (command : Command) (elapsed counted : ℚ) :
    M W Unit := do
  let target ← withState fun m =>
    ((m.record state).targetSnapshot,
      m.modifyRecord state fun r =>
        { r with
          cumulativeExecTime := r.cumulativeExecTime + counted
          commandLog := r.commandLog ++ [command] })
  addEntry "exec" target elapsed branchId

/-- `_exec_branch` -/
def execBranch (branchId : String) (command : Command) (timeout : Option ℚ) :
    M W (Int × String × String) := do
  let state ← getBranchState (some branchId)
  announce (.lookedUp state)
  withLock (.operation state) do
    let active ← readState fun m => (m.record state).active
    if active then
      let start ← H.time
      announce (.call .exec state)
      let result ← (H.coreExec command timeout branchId).attempt
      let stop ← H.time
      match result with
      | .error e =>
        logCommand branchId state command (stop - start) 0
        return (-1, "", e.text)
      | .ok (returncode, stdout, stderr) =>
        logCommand branchId state command (stop - start) (stop - start)
        return (returncode, stdout, stderr)
    else return (-1, "", "Branch " ++ branchId ++ " is no longer active.")

def execCommand (command : Command) (timeout : Option ℚ) : M W (Int × String × String) :=
  withLock .currentBranch do
    let branchId ← getCurrentBranchId
    execBranch H branchId command timeout

/-! ### Restore template -/

/-- The replay loop; a failing command does not stop it. -/
def replay (commands : List Command) : M W Unit :=
  each commands fun command => do
    let _ ← execCommand H command none
    return ()

/-- What follows a successful `_core_restore`. -/
def finishRestore (snapshotId physicalAncestorId : String) (replayCommands : List Command)
    (elapsed : ℚ) : M W Bool := do
  let activeBranchId ← getCurrentBranchId
  addEntry "restore" physicalAncestorId elapsed activeBranchId
  replay H replayCommands
  setBranchPosition activeBranchId (some snapshotId)
  return true

/-- `_restore_current_branch` -/
def restoreCurrentBranch (snapshotId : String) : M W Bool := do
  let departing ← getBranchState none
  withLock (.operation departing) do
    let walk ← readState (·.physicalAncestor snapshotId)
    match walk with
    | .error _ => return false
    | .ok (physicalAncestor, replayCommands) =>
      let (success, elapsed) ← H.coreRestore physicalAncestor.snapshotId departing.id
      if success then
        finishRestore H snapshotId physicalAncestor.snapshotId replayCommands elapsed
      else return false

def restore (snapshotId : String) : M W Bool :=
  withLock .currentBranch (restoreCurrentBranch H snapshotId)

/-! ### The remaining template methods -/

def cleanup : M W Bool :=
  withLock .lifecycle do
    let ok ← H.coreCleanup
    poke fun m => { m with isCleanedUp := true }
    return ok ≠ some false

/-- `_copy_branch` -/
def copyBranch (branchId hostPath envPath : String) (into : Bool) : M W Bool := do
  let state ← getBranchState (some branchId)
  announce (.lookedUp state)
  withLock (.operation state) do
    let target ← readState fun m =>
      let r := m.record state
      if r.active then some r.targetSnapshot else none
    match target with
    | none => return false
    | some target =>
      let start ← H.time
      announce (.call .copy state)
      let result ← (H.coreCopy branchId hostPath envPath into).attempt
      match result with
      | .error _ => return false
      | .ok (ok, _) =>
        let stop ← H.time
        addEntry "copy" target (stop - start) branchId
        return ok

def copyIn (hostSrc path : String) : M W Bool :=
  withLock .currentBranch do
    let branchId ← getCurrentBranchId
    copyBranch H branchId hostSrc path true

def copyOut (path hostDst : String) : M W Bool :=
  withLock .currentBranch do
    let branchId ← getCurrentBranchId
    copyBranch H branchId hostDst path false

def listSnapshots : M W (List String) := readState (·.snapshots.keys)

/-- `print_snapshot_tree`, under a limit on the depth of the recursion. -/
def printSnapshotTree (recursionLimit : Nat) : M W String :=
  tryState fun m => (m.printSnapshotTree recursionLimit, m)

/-- The `current_snapshot` property; both sections of it nest. -/
def currentSnapshot : M W (Option String) :=
  withLock .state do
    let state ← getBranchState none
    peek fun m => (m.record state).currentSnapshotId

/-- The copy of the log that every statistics query starts from. -/
def statsLog : M W (List BenchmarkEntry) := withLock .stats (peek (·.stats.log))

end EnvironmentManager

end StateFork
