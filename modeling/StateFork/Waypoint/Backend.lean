import StateFork.Forkable.Effects

/-!
# `WaypointAttachManager`

What the Waypoint manager adds to a forkable one: the listing of a session's checkpoints, from which
`sync_snapshot_tree` hydrates the snapshot tree, and the constructor, which attaches to a session that may have a
history already.
-/

namespace StateFork

open Conc Conc.Prog

/-- An entry of the checkpoints that `waypoint list --json` reports. -/
structure Checkpoint where
  id : String
  parentId : Option String
  deriving DecidableEq, Repr

/-- `entry.get("parent_id") or None` -/
def Checkpoint.parent (c : Checkpoint) : Option String := if c.parentId = some "" then none else c.parentId

structure WaypointBackend (W : Type) extends ForkableBackend W where
  /-- The checkpoints of `waypoint list --json`, unless the command fails or its output is not JSON. -/
  checkpoints : W → Except PyError (Option (List Checkpoint)) × W

namespace Manager

variable (m : Manager)

/-- The body of the first pass of `sync_snapshot_tree`. -/
def hydrate (entry : Checkpoint) : Manager :=
  let m := m.registerSnapshotResource entry.id entry.id
  if entry.id ∈ m.snapshotGraph.keys then m
  else m.recordSnapshotNode { snapshotId := entry.id, parentId := entry.parent }

/-- The body of the second pass. -/
def linkEntry (graph : Dict String SnapshotNode) (id : String) : Except PyError (Dict String SnapshotNode) :=
  match graph.get? id with
  | none => .error ⟨.keyError, id⟩
  | some node =>
    match node.parentId with
    | none => .ok graph
    | some p =>
      if p = "" then .ok graph
      else
        match graph.get? p with
        | none => .ok graph
        | some parent =>
          if node.snapshotId ∈ parent.children then .ok graph
          else .ok (graph.set p { parent with children := parent.children ++ [node.snapshotId] })

/-- The second pass; an entry that raises leaves the links before it. -/
def linkEntries : List String → Dict String SnapshotNode → Except PyError Unit × Dict String SnapshotNode
  | [], graph => (.ok (), graph)
  | id :: ids, graph =>
    match linkEntry graph id with
    | .error e => (.error e, graph)
    | .ok graph => linkEntries ids graph

def linkChildren (ids : List String) : Except PyError Unit × Manager :=
  let (result, snapshotGraph) := linkEntries ids m.snapshotGraph
  (result, { m with snapshotGraph })

/-- `record.base_checkpoint or None`, for the live record of the current branch. -/
def currentBase : Option String :=
  match m.liveBranches.get? m.currentBranchId with
  | none => none
  | some l => if (m.liveObject l).baseSnapshotId = "" then none else some (m.liveObject l).baseSnapshotId

/-- A minimal record of a branch that the live registry does not contain. -/
def keepMinimal (branchId snapshotId : String) : Manager :=
  if branchId ∈ m.liveBranches.keys then m
  else
    let (r, m) := m.newLiveObject ⟨branchId, snapshotId, "running"⟩
    { m with liveBranches := m.liveBranches.set branchId r }

end Manager

namespace WaypointAttachManager

open EnvironmentManager ForkableEnvironmentManager

variable {W : Type} (B : WaypointBackend W)

/-- The first pass, for one entry; whether it added a node. -/
def hydrate (entry : Checkpoint) : M W Bool := do
  registerSnapshotResource entry.id entry.id
  let known ← readState fun m => decide (entry.id ∈ m.snapshotGraph.keys)
  if known then return false
  else
    recordSnapshotNode { snapshotId := entry.id, parentId := entry.parent }
    return true

/-- `sync_snapshot_tree` -/
def syncSnapshotTree : M W Nat := do
  let listing ← tryWorld B.checkpoints fun _ => []
  match listing with
  | none => return 0
  | some checkpoints =>
    let entries := checkpoints.filter fun c => c.id ≠ ""
    let added ← collect entries hydrate
    tryState (·.linkChildren (entries.map Checkpoint.id))
    return (added.filter id).length

/-- `WaypointAttachManager.__init__`, after the base constructor and the check of the binary. -/
def attach : M W Unit := do
  let _ ← syncSnapshotTree B
  let _ ← listBranches B.hooks
  let parentId ← readState Manager.currentBase
  let current ← getCurrentBranchId
  let (snapshotId, _) ← B.hooks.coreSnapshot current
  match snapshotId with
  | none => throw ⟨.runtimeError, "Failed to create initial snapshot."⟩
  | some snapshotId =>
    let known ← readState fun m => decide (snapshotId ∈ m.snapshotGraph.keys)
    if !known then recordSnapshotNode { snapshotId, parentId }
    let current ← getCurrentBranchId
    setBranchPosition current (some snapshotId)
    updateState fun m => m.keepMinimal m.currentBranchId snapshotId

/-- What a caller of the manager does. -/
inductive Call where
  | inherited (op : PublicOp)
  | syncSnapshotTree

def Call.prog : Call → M W Unit
  | .inherited op => do
    let _ ← PublicOp.prog B.hooks op
    return ()
  | .syncSnapshotTree => do
    let _ ← WaypointAttachManager.syncSnapshotTree B
    return ()

/-- The state after calls that run one after the other. -/
def runCalls (calls : List Call) (s : Sys W) : Sys W :=
  calls.foldl (fun s call => ((Call.prog B call).run s).2) s

/-! ### What the programs do -/

theorem run_hydrate (entry : Checkpoint) (s : Sys W) :
    (hydrate entry : M W Bool).run s =
      (.ok (decide (entry.id ∉ s.mgr.snapshotGraph.keys)), { s with mgr := s.mgr.hydrate entry }) := by
  have hgraph : (s.mgr.registerSnapshotResource entry.id entry.id).snapshotGraph = s.mgr.snapshotGraph := rfl
  simp only [hydrate, EnvironmentManager.registerSnapshotResource, EnvironmentManager.recordSnapshotNode, run_bind,
    run_updateState, run_afterValue_ok, run_readState, Manager.hydrate]
  by_cases hknown : entry.id ∈ s.mgr.snapshotGraph.keys
  · simp [hgraph, hknown]
  · simp [hgraph, hknown]
    rfl

theorem run_hydrateAll (entries : List Checkpoint) (s : Sys W) :
    ∃ added, (collect entries hydrate : M W (List Bool)).run s =
      (.ok added, { s with mgr := entries.foldl Manager.hydrate s.mgr }) := by
  induction entries generalizing s with
  | nil => exact ⟨[], rfl⟩
  | cons entry entries ih =>
    obtain ⟨rest, hrest⟩ := ih { s with mgr := s.mgr.hydrate entry }
    refine ⟨decide (entry.id ∉ s.mgr.snapshotGraph.keys) :: rest, ?_⟩
    simp only [collect, run_bind, run_hydrate, run_afterValue_ok, hrest, run_ret]
    rfl

/-- The manager after the tree was hydrated from a listing. -/
def synced (checkpoints : List Checkpoint) (m : Manager) : Manager :=
  let entries := checkpoints.filter fun c => c.id ≠ ""
  ((entries.foldl Manager.hydrate m).linkChildren (entries.map Checkpoint.id)).2

theorem run_syncSnapshotTree (s : Sys W) :
    ((syncSnapshotTree B).run s).2 =
      match B.checkpoints s.world with
      | (.ok (some checkpoints), w) => ⟨synced checkpoints s.mgr, w⟩
      | (_, w) => { s with world := w } := by
  simp only [syncSnapshotTree, run_bind, run_tryWorld]
  rcases B.checkpoints s.world with ⟨e | ⟨_ | checkpoints⟩, w⟩
  · rfl
  · rfl
  · obtain ⟨added, hloop⟩ := run_hydrateAll (W := W) (checkpoints.filter fun c => c.id ≠ "") ⟨s.mgr, w⟩
    simp only [run_afterValue_ok, run_bind, hloop, run_tryState, synced]
    generalize Manager.linkChildren _ _ = linked
    obtain ⟨e | _, m⟩ := linked
    · rfl
    · rfl

end WaypointAttachManager

end StateFork
