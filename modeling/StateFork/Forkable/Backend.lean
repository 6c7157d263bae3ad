import StateFork.Controller.Forkable

/-!
# Forkable backends

A `ForkableBackend` gives the hooks of a forkable manager as functions on its world, so that they
touch the controller only as their documented contract allows: a capture registers its resource, and
the snapshot hook may refresh the live registry afterwards, as Waypoint's does. A `Fleet` is one that
executes: its world is the set of live branches with the snapshots they stand on.
-/

namespace StateFork

open Conc Conc.Prog

structure ForkableBackend (W : Type) where
  /-- On success the new id and its backend resource. -/
  snapshot (branchId : String) : W → Except PyError (Option (String × String) × ℚ) × W
  /-- `_core_snapshot` calls `list_branches` after it has captured the branch. -/
  refreshes : Bool
  exec (command : Command) (timeout : Option ℚ) (branchId : String) :
    W → Except PyError (Int × String × String) × W
  copy (branchId hostPath envPath : String) (into : Bool) : W → Except PyError (Bool × String) × W
  fork (snapshotId : String) (requestedIds : List (Option String)) :
    W → Except PyError (List (EnvironmentBranch × ℚ)) × W
  discard (branchId : String) : W → Except PyError Bool × W
  park (branchId : String) : W → Except PyError (Option (String × String) × ℚ) × W
  list : W → Except PyError (Option (List EnvironmentBranch)) × W
  cleanup : W → Except PyError (Option Bool) × W
  time : W → ℚ × W
  uuid4Hex : W → String × W

namespace ForkableBackend

open EnvironmentManager ForkableEnvironmentManager

variable {W : Type} (B : ForkableBackend W)

/-- What an observer sees of a capture. -/
def capturedEvents (branchId : String) :
    Except PyError (Option (String × String) × ℚ) → List Event
  | .ok (some (snapshotId, _), _) => [.captured branchId snapshotId]
  | _ => []

/-- What an observer sees of a park. -/
def parkedEvents (branchId : String) :
    Except PyError (Option (String × String) × ℚ) → List Event
  | .ok (some _, _) => [.retired branchId]
  | _ => []

/-- What an observer sees of a discard. -/
def discardedEvents (branchId : String) : Except PyError Bool → List Event
  | .ok true => [.retired branchId]
  | _ => []

/-- What an observer sees of a fork. -/
def forkedEvents : Except PyError (List (EnvironmentBranch × ℚ)) → List Event
  | .ok outcomes => outcomes.map fun o => .materialized o.1.id
  | .error _ => []

/-- What an observer sees of a listing. -/
def fetchedEvents : Except PyError (Option (List EnvironmentBranch)) → List Event
  | .ok (some _) => [.fetched]
  | _ => []

theorem eq_fetched_of_mem {r : Except PyError (Option (List EnvironmentBranch))} {e : Event} (h : e ∈ fetchedEvents r) :
    e = .fetched := by
  unfold fetchedEvents at h
  split at h
  · exact List.mem_singleton.mp h
  · exact absurd h List.not_mem_nil

/-- A capture registers its resource before the hook returns. -/
def register (captured : Option (String × String) × ℚ) : M W (Option String × ℚ) :=
  match captured with
  | (none, elapsed) => return (none, elapsed)
  | (some (snapshotId, resource), elapsed) => do
    registerSnapshotResource snapshotId resource
    return (some snapshotId, elapsed)

/-- The hooks, with what the snapshot hook does after a capture. -/
def hooksWith (refresh : M W Unit) : ForkHooks W where
  coreSnapshot branchId := do
    let captured ← tryWorld (B.snapshot branchId) (capturedEvents branchId)
    let (snapshotId, elapsed) ← register captured
    if snapshotId.isSome then refresh
    return (snapshotId, elapsed)
  coreCleanup := tryWorld B.cleanup fun _ => []
  coreExec command timeout branchId := tryWorld (B.exec command timeout branchId) fun _ => []
  coreCopy branchId hostPath envPath into :=
    tryWorld (B.copy branchId hostPath envPath into) fun _ => []
  coreFork snapshotId requestedIds := tryWorld (B.fork snapshotId requestedIds) forkedEvents
  coreDiscardBranch branchId := tryWorld (B.discard branchId) (discardedEvents branchId)
  coreParkBranch branchId := do
    let captured ← tryWorld (B.park branchId) (parkedEvents branchId)
    register captured
  coreListBranches := tryWorld B.list fetchedEvents
  time := world B.time
  uuid4Hex := world B.uuid4Hex

/-- `list_branches` as the snapshot hook calls it; it only needs the listing hook. -/
def refresh : M W Unit :=
  if B.refreshes then do
    let _ ← listBranches (B.hooksWith (pure ()))
    return ()
  else pure ()

def hooks : ForkHooks W := B.hooksWith B.refresh

end ForkableBackend

namespace Manager

/-- A manager right after `DummyForkableDockerManager.__init__`. -/
def seeded (root resource : String) : Manager :=
  let m := (init.registerSnapshotResource root resource).recordSnapshotNode { snapshotId := root, parentId := none }
  let (main, m) := m.newLiveObject { id := defaultBranchId, baseSnapshotId := root }
  { m with liveBranches := m.liveBranches.set defaultBranchId main }.modifyRecord ⟨defaultBranchId, 0⟩
    fun _ => .positionedAt (some root)

end Manager

/-! ### A fleet of branches -/

structure Fleet where
  /-- The live branches and the snapshots they stand on. -/
  live : Dict String String := .empty
  /-- The ids of the snapshots and branches to come. -/
  ids : List String := []
  /-- The branches that somebody else destroys before each listing. -/
  raids : List (List String) := []
  clock : ℚ := 0

namespace Fleet

def capture (branchId : String) (w : Fleet) : Except PyError (Option (String × String) × ℚ) × Fleet :=
  match w.live.get? branchId, w.ids with
  | some _, id :: ids =>
    if id = "" then (.ok (none, 0), w)
    else (.ok (some (id, id), 1), { w with live := w.live.set branchId id, ids })
  | _, _ => (.ok (none, 0), w)

/-- A branch under an id that is not live. -/
def place (snapshotId id : String) (w : Fleet) : Option EnvironmentBranch × Fleet :=
  match w.live.get? id with
  | some _ => (none, w)
  | none => (some ⟨id, snapshotId, "running"⟩, { w with live := w.live.set id snapshotId })

def materialize (snapshotId : String) (request : Option String) (w : Fleet) :
    Option EnvironmentBranch × Fleet :=
  match request, w.ids with
  | some id, _ => place snapshotId id w
  | none, id :: ids => place snapshotId id { w with ids }
  | none, [] => (none, w)

def fork (snapshotId : String) :
    List (Option String) → Fleet → List (EnvironmentBranch × ℚ) × Fleet
  | [], w => ([], w)
  | request :: requests, w =>
    let (branch, w) := materialize snapshotId request w
    let (rest, w) := fork snapshotId requests w
    ((branch.map fun b => (b, 1)).toList ++ rest, w)

def discard (branchId : String) (w : Fleet) : Except PyError Bool × Fleet :=
  (.ok (w.live.get? branchId).isSome, { w with live := w.live.erase branchId })

def park (branchId : String) (w : Fleet) : Except PyError (Option (String × String) × ℚ) × Fleet :=
  match capture branchId w with
  | (.ok (some captured, elapsed), w) => (.ok (some captured, elapsed), { w with live := w.live.erase branchId })
  | failed => failed

def list (w : Fleet) : Except PyError (Option (List EnvironmentBranch)) × Fleet :=
  let live := (w.raids.headD []).foldl Dict.erase w.live
  (.ok (some (live.entries.map fun e => ⟨e.1, e.2, "running"⟩)), { w with live, raids := w.raids.tail })

/-- The fleet as a backend, with or without a refresh in its snapshot hook. -/
def backend (refreshes : Bool) : ForkableBackend Fleet where
  snapshot := capture
  refreshes
  exec _ _ _ w := (.ok (0, "", ""), w)
  copy _ _ _ _ w := (.ok (true, ""), w)
  fork snapshotId requests w := ((.ok (fork snapshotId requests w).1), (fork snapshotId requests w).2)
  discard := discard
  park := park
  list := list
  cleanup w := (.ok none, w)
  time w := (w.clock, { w with clock := w.clock + 1 })
  uuid4Hex w := (w.ids.headD "", { w with ids := w.ids.tail })

/-- The fleet as the backend of one manager, which alone destroys branches. -/
def sole (refreshes : Bool) : ForkableBackend Fleet :=
  { backend refreshes with
    list := fun w => (.ok (some (w.live.entries.map fun e => ⟨e.1, e.2, "running"⟩)), w) }

/-- A fleet of one branch on the snapshot `base`, under the manager that has just started it. -/
def start (ids : List String) (raids : List (List String)) : Sys Fleet :=
  ⟨Manager.seeded "base" "base", { live := Dict.empty.set defaultBranchId "base", ids, raids }⟩

end Fleet

end StateFork
