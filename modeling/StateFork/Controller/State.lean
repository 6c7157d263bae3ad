import Mathlib.Algebra.Order.Ring.Rat
import StateFork.Lib.Store

/-!
# The state of an environment manager

The mutable fields of `EnvironmentManager` and `ForkableEnvironmentManager`, and the bodies of their
`_state_lock` critical sections as functions on them.

Branch records and live-branch objects are Python objects that threads keep references to after a
dictionary has dropped them, so they live on heaps and the dictionaries hold references. The id of
either object never changes, so it is part of the reference. The operation lock of a record is named
by its reference.
-/

namespace StateFork

/-- Sequential managers have exactly this one branch. -/
def defaultBranchId : String := "main"

/-- A command: a shell line or an argument vector. -/
inductive Command where
  | line (text : String)
  | argv (words : List String)
  deriving DecidableEq, Repr

structure SnapshotNode where
  snapshotId : String
  parentId : Option String
  children : List String := []
  isVirtual : Bool := false
  /-- Commands needed to reach this snapshot from its parent. -/
  replayCommands : List Command := []
  deriving DecidableEq, Repr

/-- The mutable part of a branch record. -/
structure BranchState where
  currentSnapshotId : Option String := none
  lastSnapshotId : Option String := none
  commandLog : List Command := []
  cumulativeExecTime : ℚ := 0
  active : Bool := true
  deriving DecidableEq

/-- The description of a live branch that a backend hands out. -/
structure EnvironmentBranch where
  id : String
  baseSnapshotId : String
  status : String := "running"
  deriving DecidableEq, Repr

/-- A reference to a branch record or to a live-branch object. -/
structure Ref where
  id : String
  addr : Nat
  deriving DecidableEq, Repr

structure BenchmarkEntry where
  sequence : Nat
  operation : String
  targetId : String
  elapsedTime : ℚ
  branchId : String
  deriving DecidableEq

structure BenchmarkStats where
  sequenceCounter : Nat := 0
  log : List BenchmarkEntry := []
  deriving DecidableEq

def BenchmarkStats.addEntry (s : BenchmarkStats) (operation targetId : String) (elapsedTime : ℚ)
    (branchId : String) : BenchmarkStats where
  sequenceCounter := s.sequenceCounter + 1
  log := s.log ++ [⟨s.sequenceCounter + 1, operation, targetId, elapsedTime, branchId⟩]

structure Manager where
  /-- Snapshot id to backend resource id. -/
  snapshots : Dict String String
  snapshotGraph : Dict String SnapshotNode
  stats : BenchmarkStats
  records : Heap BranchState
  branches : Dict String Ref
  currentBranchId : String
  isCleanedUp : Bool
  /-- The two fields that `ForkableEnvironmentManager` adds; sequential managers leave them empty. -/
  liveObjects : Heap EnvironmentBranch
  liveBranches : Dict String Ref

/-- What the handlers of the controller distinguish about an exception. -/
inductive ErrorKind where
  | keyError
  | valueError
  | runtimeError
  | osError
  | other
  deriving DecidableEq, Repr

structure PyError where
  kind : ErrorKind
  text : String
  deriving DecidableEq, Repr

/-- The locks of a manager. -/
inductive Lock where
  | lifecycle
  | currentBranch
  | operation (branch : Ref)
  | branchRegistry
  | state
  | stats
  deriving DecidableEq, Repr

/-- The public operations of a forkable manager. -/
inductive PublicOp where
  | snapshot
  | restore (snapshotId : String)
  | execCommand (command : Command) (timeout : Option ℚ)
  | copyIn (hostSrc path : String)
  | copyOut (path hostDst : String)
  | cleanup
  | listSnapshots
  | printSnapshotTree (recursionLimit : Nat)
  | currentSnapshot
  | currentBranchId
  | statsLog
  | snapshotBranch (branchId : String) (park : Bool)
  | execOnBranch (branchId : String) (command : Command) (timeout : Option ℚ)
  | copyInBranch (branchId hostSrc path : String)
  | copyOutBranch (branchId path hostDst : String)
  | fork (snapshotId : String) (n : Int) (ids : Option (List String))
  | discardBranch (branchId : String)
  | parkBranch (branchId : String)
  | listBranches
  | liveBranches
  deriving DecidableEq

/-- What a public operation returns or raises. -/
inductive Outcome where
  | snapshotId (id : Option String)
  | flag (ok : Bool)
  | exec (returncode : Int) (stdout stderr : String)
  | branches (l : List EnvironmentBranch)
  | strings (l : List String)
  | text (t : String)
  | entries (l : List BenchmarkEntry)
  | raised (e : PyError)
  deriving DecidableEq

/-- The hooks that work on one live branch. -/
inductive Hook where
  | exec
  | copy
  | snapshot
  | park
  | discard
  deriving DecidableEq, Repr

/-- What an observer sees of a running manager. -/
inductive Event where
  /-- An operation looked up the record it is going to work on. -/
  | lookedUp (branch : Ref)
  /-- A template starts a hook for the branch of a record. -/
  | call (hook : Hook) (branch : Ref)
  /-- The backend captured a branch. -/
  | captured (branchId snapshotId : String)
  /-- The snapshot template moved a branch to the snapshot it took and recorded under a parent. -/
  | advanced (branchId snapshotId : String) (parentId : Option String)
  /-- A listing was fetched from the backend. -/
  | fetched
  /-- `_set_branch_position` moved a branch. -/
  | positioned (branchId : String) (snapshotId : Option String)
  /-- The backend materialized a branch. -/
  | materialized (branchId : String)
  /-- The backend destroyed a branch, because it was discarded or parked. -/
  | retired (branchId : String)
  /-- A public operation returned. -/
  | returned (op : PublicOp) (outcome : Outcome)
  deriving DecidableEq

namespace Manager

/-- `EnvironmentManager.__init__`: one record, for the default branch. -/
def init : Manager where
  snapshots := .empty
  snapshotGraph := .empty
  stats := {}
  records := ⟨1, fun _ => {}⟩
  branches := Dict.empty.set defaultBranchId ⟨defaultBranchId, 0⟩
  currentBranchId := defaultBranchId
  isCleanedUp := false
  liveObjects := ⟨0, fun _ => ⟨"", "", ""⟩⟩
  liveBranches := .empty

variable (m : Manager)

/-! ### Branch-state helpers -/

/-- The fields of a branch record. -/
def record (r : Ref) : BranchState := m.records.cell r.addr

def modifyRecord (r : Ref) (f : BranchState → BranchState) : Manager :=
  { m with records := m.records.modify r.addr f }

def getBranchState (branchId : Option String) : Except PyError Ref :=
  let target := branchId.getD m.currentBranchId
  match m.branches.get? target with
  | some r => .ok r
  | none => .error ⟨.keyError, "Branch '" ++ target ++ "' is not registered."⟩

/-- Returns the record that exists under the id, or a new one at `base`. -/
def registerBranch (branchId : String) (base : Option String) : Ref × Manager :=
  match m.branches.get? branchId with
  | some r => (r, m)
  | none =>
    let r : Ref := ⟨branchId, m.records.next⟩
    (r, { m with
      records := m.records.alloc { currentSnapshotId := base, lastSnapshotId := base }
      branches := m.branches.set branchId r })

def removeBranch (branchId : String) : Manager :=
  match m.branches.get? branchId with
  | some r =>
    { m.modifyRecord r fun s => { s with active := false } with branches := m.branches.erase branchId }
  | none => m

def setCurrentBranch (branchId : String) : Except PyError Unit × Manager :=
  match m.branches.get? branchId with
  | some _ => (.ok (), { m with currentBranchId := branchId })
  | none => (.error ⟨.keyError, "Branch '" ++ branchId ++ "' is not registered."⟩, m)

end Manager

/-- The record after `_set_branch_position`. -/
def BranchState.positionedAt (snapshotId : Option String) : BranchState where
  currentSnapshotId := snapshotId
  lastSnapshotId := snapshotId
  commandLog := []
  cumulativeExecTime := 0
  active := true

/-- `state.current_snapshot_id or "<none>"` -/
def BranchState.targetSnapshot (r : BranchState) : String :=
  match r.currentSnapshotId with
  | none => "<none>"
  | some s => if s = "" then "<none>" else s

namespace Manager

variable (m : Manager)

/-! ### Snapshot registry helpers -/

def registerSnapshotResource (snapshotId resourceId : String) : Manager :=
  { m with snapshots := m.snapshots.set snapshotId resourceId }

/-- The graph with `node` in it, and `node` among the children of its parent when the graph knows
the parent. An empty parent id counts as no parent here. -/
def recordNode (graph : Dict String SnapshotNode) (node : SnapshotNode) : Dict String SnapshotNode :=
  let graph := graph.set node.snapshotId node
  match node.parentId with
  | none => graph
  | some p =>
    if p = "" then graph
    else
      match graph.get? p with
      | none => graph
      | some parent =>
        if node.snapshotId ∈ parent.children then graph
        else graph.set p { parent with children := parent.children ++ [node.snapshotId] }

def recordSnapshotNode (node : SnapshotNode) : Manager :=
  { m with snapshotGraph := recordNode m.snapshotGraph node }

/-! ### The ancestor walk of `restore` -/

/-- The exits of the walk that make `restore` return `False`. -/
inductive WalkError where
  | notFound
  | cycle
  | noPhysicalAncestor
  | missingParent
  /-- Not an exit of the source; `walkFrom_ne_outOfFuel` excludes it. -/
  | outOfFuel
  deriving DecidableEq, Repr

/-- The loop `while physical_ancestor.is_virtual`. -/
def walkFrom (graph : Dict String SnapshotNode) :
    Nat → SnapshotNode → List String → List Command → Except WalkError (SnapshotNode × List Command)
  | 0, _, _, _ => .error .outOfFuel
  | fuel + 1, node, visited, replayCommands =>
    if node.isVirtual = false then .ok (node, replayCommands)
    else if node.snapshotId ∈ visited then .error .cycle
    else
      match node.parentId with
      | none => .error .noPhysicalAncestor
      | some p =>
        match graph.get? p with
        | none => .error .missingParent
        | some parent =>
          walkFrom graph fuel parent (node.snapshotId :: visited) (node.replayCommands ++ replayCommands)

/-- The nearest physical ancestor of a snapshot and the commands that lead from it to the
snapshot. -/
def physicalAncestor (snapshotId : String) : Except WalkError (SnapshotNode × List Command) :=
  match m.snapshotGraph.get? snapshotId with
  | none => .error .notFound
  | some node => walkFrom m.snapshotGraph (m.snapshotGraph.entries.length + 2) node [] []

/-! ### The printed tree -/

/-- The branches whose record satisfies `p`, sorted. -/
def branchesWhere (p : BranchState → Bool) : List String :=
  ((m.branches.entries.filter fun e => p (m.record e.2)).map Prod.fst).mergeSort (· ≤ ·)

/-- The markers behind a snapshot's line. -/
def markers (snapshot : String) : String :=
  let current := m.branchesWhere fun r => r.currentSnapshotId = some snapshot
  let last := m.branchesWhere fun r =>
    r.lastSnapshotId = some snapshot ∧ r.lastSnapshotId ≠ r.currentSnapshotId
  let marks :=
    (if current = [] then [] else ["current: " ++ ", ".intercalate current]) ++
      (if last = [] then [] else ["last: " ++ ", ".intercalate last])
  if snapshot = "" ∨ marks = [] then "" else " (" ++ "; ".intercalate marks ++ ")"

/-- The lines of a subtree. -/
def treeLines : Nat → String → String → Except PyError (List String)
  | 0, _, _ => .error ⟨.runtimeError, "maximum recursion depth exceeded"⟩
  | limit + 1, snapshot, indent =>
    match m.snapshotGraph.get? snapshot with
    | none => .error ⟨.keyError, snapshot⟩
    | some node => do
      let below ← node.children.mapM fun child => treeLines limit child (indent ++ "  ")
      return (indent ++ "- " ++ snapshot ++ m.markers snapshot) :: below.flatten

def printSnapshotTree (recursionLimit : Nat) : Except PyError String := do
  let roots := (m.snapshotGraph.entries.filter fun e => e.2.parentId = none).map Prod.fst
  if roots = [] then return "No snapshot tree available.\n"
  else
    let below ← roots.mapM fun root => m.treeLines recursionLimit root " "
    return "\n".intercalate ("Snapshot Tree:" :: below.flatten) ++ "\n"

/-! ### Live branches -/

/-- The live-branch object behind a reference. -/
def liveObject (r : Ref) : EnvironmentBranch := m.liveObjects.cell r.addr

/-- A new live-branch object, as a hook creates it. -/
def newLiveObject (branch : EnvironmentBranch) : Ref × Manager :=
  (⟨branch.id, m.liveObjects.next⟩, { m with liveObjects := m.liveObjects.alloc branch })

/-- `_after_snapshot` of a forkable manager. -/
def advanceLiveBase (branchId snapshotId : String) : Manager :=
  match m.liveBranches.get? branchId with
  | none => m
  | some r =>
    { m with liveObjects := m.liveObjects.modify r.addr fun o => { o with baseSnapshotId := snapshotId } }

def addEntry (operation targetId : String) (elapsedTime : ℚ) (branchId : String) : Manager :=
  { m with stats := m.stats.addEntry operation targetId elapsedTime branchId }

end Manager

end StateFork
