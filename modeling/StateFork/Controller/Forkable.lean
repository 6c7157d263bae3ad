import StateFork.Controller.Base

/-!
# `ForkableEnvironmentManager`

The stronger capability: several live branches. Its hooks (`ForkHooks`) replace `_core_restore` by
fork, discard, park and list primitives; `ForkHooks.toHooks` is the base class as this subclass
completes it. Methods whose name starts with an underscore in the source and that share it with a
public method are named `…Body` here.
-/

namespace StateFork

open Conc Conc.Prog

/-- The hooks of a forkable backend. -/
structure ForkHooks (W : Type) where
  coreSnapshot (branchId : String) : M W (Option String × ℚ)
  coreCleanup : M W (Option Bool)
  coreExec (command : Command) (timeout : Option ℚ) (branchId : String) : M W (Int × String × String)
  coreCopy (branchId hostPath envPath : String) (into : Bool) : M W (Bool × String)
  coreFork (snapshotId : String) (requestedIds : List (Option String)) :
    M W (List (EnvironmentBranch × ℚ))
  coreDiscardBranch (branchId : String) : M W Bool
  coreParkBranch (branchId : String) : M W (Option String × ℚ)
  coreListBranches : M W (Option (List EnvironmentBranch))
  time : M W ℚ
  uuid4Hex : M W String

namespace ForkableEnvironmentManager

open EnvironmentManager

variable {W : Type}

/-! ### The live registry -/

/-- The ids and objects that the live registry holds, in order. -/
def liveBranches : M W (List EnvironmentBranch) :=
  readState fun m => m.liveBranches.values.map m.liveObject

/-- The live-branch objects for what a hook returned. -/
def newLiveObjects (l : List EnvironmentBranch) : M W (List Ref) :=
  collect l fun branch => access fun s =>
    ((s.mgr.newLiveObject branch).1, { s with mgr := (s.mgr.newLiveObject branch).2 })

/-- An attribute of a live-branch object. -/
def baseSnapshotId (r : Ref) : M W String := peek fun m => (m.liveObject r).baseSnapshotId

variable (F : ForkHooks W)

/-! ### Listing -/

/-- The loop body of `_list_branches` that positions one listed branch. -/
def reconcile (branch : Ref) : M W Unit := do
  let base ← baseSnapshotId branch
  let state ← registerBranch branch.id (if base = "" then none else some base)
  let base ← baseSnapshotId branch
  if base = "" then return ()
  else
    let current ← peek fun m => (m.record state).currentSnapshotId
    let base ← baseSnapshotId branch
    if current = some base then return ()
    else
      let base ← baseSnapshotId branch
      setBranchPosition branch.id (some base)

/-- The loop body of `_list_branches` that drops the record of a branch the backend no longer
lists. -/
def dropStale (staleId : String) : M W Unit := do
  let current ← getCurrentBranchId
  if staleId = defaultBranchId ∨ staleId = current then return () else removeBranch staleId

/-- `_list_branches`. The stale ids form a set in the source; here they keep the order of the
registry. -/
def listBranchesBody : M W (List EnvironmentBranch) := do
  let listing ← F.coreListBranches
  match listing with
  | none => liveBranches
  | some listing =>
    let refreshed ← newLiveObjects listing
    let previousIds ← withState fun m =>
      (m.liveBranches.keys, { m with liveBranches := .ofList (refreshed.map fun r => (r.id, r)) })
    each refreshed reconcile
    each (previousIds.filter fun b => b ∉ refreshed.map Ref.id) dropStale
    peek fun m => refreshed.map m.liveObject

def listBranches : M W (List EnvironmentBranch) := withLock .branchRegistry (listBranchesBody F)

/-! ### Forking -/

/-- The loop body of `_materialize_branches`. -/
def registerOutcome (activate : Bool) (outcome : EnvironmentBranch × ℚ) : M W Unit := do
  let branch ← access fun s =>
    ((s.mgr.newLiveObject outcome.1).1, { s with mgr := (s.mgr.newLiveObject outcome.1).2 })
  let base ← baseSnapshotId branch
  let state ← registerBranch branch.id (some base)
  updateState fun m =>
    { m.modifyRecord state fun r => { r with active := activate } with
      liveBranches := m.liveBranches.set branch.id branch }
  addEntry "fork" branch.id outcome.2 branch.id

/-- `_materialize_branches`; the result lists the objects that were registered. -/
def materializeBranches (snapshotId : String) (requestedIds : List (Option String))
    (activate : Bool) : M W (List EnvironmentBranch) :=
  withLock .branchRegistry do
    let outcomes ← F.coreFork snapshotId requestedIds
    each outcomes (registerOutcome activate)
    return outcomes.map Prod.fst

/-- `fork` can use the snapshot: it is registered and not virtual. -/
def forkable (m : Manager) (snapshotId : String) : Bool :=
  match m.snapshotGraph.get? snapshotId with
  | some node => !node.isVirtual && (m.snapshots.get? snapshotId).isSome
  | none => (m.snapshots.get? snapshotId).isSome

/-- `_fork` -/
def forkBody (snapshotId : String) (n : Int) (ids : Option (List String)) :
    M W (List EnvironmentBranch) := do
  let ok ← readState fun m => forkable m snapshotId
  if !ok then return []
  else
    match ids with
    | some ids =>
      if !decide ids.Nodup then return []
      else
        let conflicts ← readState fun m =>
          ids.filter fun b => b ∈ m.liveBranches.keys ∨ b = defaultBranchId
        if conflicts ≠ [] then return []
        else if ids = [] then return []
        else materializeBranches F snapshotId (ids.map some) true
    | none =>
      if n < 1 then return []
      else materializeBranches F snapshotId (List.replicate n.toNat none) true

def fork (snapshotId : String) (n : Int) (ids : Option (List String)) : M W (List EnvironmentBranch) :=
  withLock .branchRegistry (forkBody F snapshotId n ids)

/-! ### Discarding and parking -/

/-- The live-branch object and the record of a branch, when both exist. -/
def lookupLive (branchId : String) : M W (Option Ref) :=
  readState fun m =>
    match m.liveBranches.get? branchId with
    | some _ => m.branches.get? branchId
    | none => none

/-- The re-check under the operation lock. -/
def stillLive (branchId : String) (state : Ref) : M W Bool :=
  readState fun m => (m.liveBranches.get? branchId).isSome && (m.record state).active

/-- `_discard_branch` -/
def discardBranchBody (branchId : String) : M W Bool := do
  if branchId = defaultBranchId then return false
  else
    let current ← getCurrentBranchId
    if branchId = current then return false
    else
      match ← lookupLive branchId with
      | none => return false
      | some state =>
        announce (.lookedUp state)
        withLock (.operation state) do
          withLock .branchRegistry do
            if ← stillLive branchId state then
              announce (.call .discard state)
              if ← F.coreDiscardBranch branchId then
                updateState fun m => { m with liveBranches := m.liveBranches.erase branchId }
                removeBranch branchId
                return true
              else return false
            else return false

def discardBranch (branchId : String) : M W Bool :=
  withLock .currentBranch (discardBranchBody F branchId)

/-- The bookkeeping of `_park_branch` after the backend parked the branch. -/
def retireParked (branchId snapshotId : String) (parentId : Option String) (elapsed : ℚ) : M W Unit := do
  recordSnapshotNode { snapshotId, parentId }
  addEntry "park" snapshotId elapsed branchId
  let current ← getCurrentBranchId
  if branchId = current then setCurrentBranch defaultBranchId
  updateState fun m => { m with liveBranches := m.liveBranches.erase branchId }
  removeBranch branchId

/-- `_park_branch` -/
def parkBranchBody (branchId : String) : M W (Option String) := do
  if branchId = defaultBranchId then return none
  else
    match ← lookupLive branchId with
    | none => return none
    | some state =>
      announce (.lookedUp state)
      withLock (.operation state) do
        withLock .branchRegistry do
          let parent ← readState fun m =>
            if (m.liveBranches.get? branchId).isSome && (m.record state).active then
              some (m.record state).lastSnapshotId
            else none
          match parent with
          | none => return none
          | some parentId =>
            announce (.call .park state)
            let (snapshotId, elapsed) ← F.coreParkBranch branchId
            match snapshotId with
            | none => return none
            | some snapshotId =>
              retireParked branchId snapshotId parentId elapsed
              return some snapshotId

def parkBranch (branchId : String) : M W (Option String) :=
  withLock .currentBranch (parkBranchBody F branchId)

end ForkableEnvironmentManager

open EnvironmentManager ForkableEnvironmentManager in
/-- `_core_restore` of a forkable manager: materialize, switch, retire the departing branch. -/
def ForkHooks.coreRestore {W : Type} (F : ForkHooks W) (snapshotId branchId : String) :
    M W (Bool × ℚ) := do
  let start ← F.time
  let branches ← materializeBranches F snapshotId [none] false
  match branches with
  | [] => return (false, 0)
  | restored :: _ =>
    setCurrentBranch restored.id
    if branchId ≠ defaultBranchId ∧ branchId ≠ restored.id then
      let _ ← discardBranchBody F branchId
    let stop ← F.time
    return (true, stop - start)

/-- The base class as completed by `ForkableEnvironmentManager`: only `AlwaysTrueDecider` passes
`_validate_decider`. -/
def ForkHooks.toHooks {W : Type} (F : ForkHooks W) : Hooks W where
  coreSnapshot := F.coreSnapshot
  coreRestore := F.coreRestore
  coreCleanup := F.coreCleanup
  coreExec := F.coreExec
  coreCopy := F.coreCopy
  afterSnapshot branchId snapshotId := updateState (·.advanceLiveBase branchId snapshotId)
  decide _ := pure true
  time := F.time
  uuid4Hex := F.uuid4Hex

namespace ForkableEnvironmentManager

open EnvironmentManager

variable {W : Type} (F : ForkHooks W)

/-! ### Operations on a named branch -/

/-- The liveness test every named operation starts with. -/
def isLive (branchId : String) : M W Bool :=
  readState fun m => (m.liveBranches.get? branchId).isSome

/-- `except KeyError` -/
def onKeyError {α : Type} (p : M W α) (a : α) : M W α :=
  p.tryCatch fun e => if e.kind = .keyError then pure a else throw e

def snapshotBranch (branchId : String) (park : Bool) : M W (Option String) := do
  if park then parkBranch F branchId
  else if ← isLive branchId then
    onKeyError (EnvironmentManager.snapshotBranch F.toHooks branchId true) none
  else return none

def execOnBranch (branchId : String) (command : Command) (timeout : Option ℚ) :
    M W (Int × String × String) := do
  if ← isLive branchId then
    onKeyError (execBranch F.toHooks branchId command timeout)
      (-1, "", "Branch " ++ branchId ++ " is no longer registered.")
  else return (-1, "", "Branch " ++ branchId ++ " not found.")

def copyInBranch (branchId hostSrc path : String) : M W Bool := do
  if ← isLive branchId then onKeyError (copyBranch F.toHooks branchId hostSrc path true) false
  else return false

def copyOutBranch (branchId path hostDst : String) : M W Bool := do
  if ← isLive branchId then onKeyError (copyBranch F.toHooks branchId hostDst path false) false
  else return false

/-! ### The public interface -/

/-- The program of a public operation. -/
def PublicOp.prog : PublicOp → M W Outcome
  | .snapshot => Outcome.snapshotId <$> snapshot F.toHooks
  | .restore s => Outcome.flag <$> restore F.toHooks s
  | .execCommand c t => (fun r => .exec r.1 r.2.1 r.2.2) <$> execCommand F.toHooks c t
  | .copyIn h p => Outcome.flag <$> copyIn F.toHooks h p
  | .copyOut p h => Outcome.flag <$> copyOut F.toHooks p h
  | .cleanup => Outcome.flag <$> cleanup F.toHooks
  | .listSnapshots => Outcome.strings <$> listSnapshots
  | .printSnapshotTree limit => Outcome.text <$> printSnapshotTree limit
  | .currentSnapshot => Outcome.snapshotId <$> currentSnapshot
  | .currentBranchId => Outcome.text <$> getCurrentBranchId
  | .statsLog => Outcome.entries <$> statsLog
  | .snapshotBranch b park => Outcome.snapshotId <$> snapshotBranch F b park
  | .execOnBranch b c t => (fun r => .exec r.1 r.2.1 r.2.2) <$> execOnBranch F b c t
  | .copyInBranch b h p => Outcome.flag <$> copyInBranch F b h p
  | .copyOutBranch b p h => Outcome.flag <$> copyOutBranch F b p h
  | .fork s n ids => Outcome.branches <$> fork F s n ids
  | .discardBranch b => Outcome.flag <$> discardBranch F b
  | .parkBranch b => Outcome.snapshotId <$> parkBranch F b
  | .listBranches => Outcome.branches <$> listBranches F
  | .liveBranches => Outcome.branches <$> liveBranches

/-- The state after operations that run one after the other; one that raises still leaves its effects. -/
def runOps (ops : List PublicOp) (s : Sys W) : Sys W :=
  ops.foldl (fun s op => ((PublicOp.prog F op).run s).2) s

/-- What a caller gets from an operation. -/
def Outcome.ofResult : Except PyError Outcome → Outcome
  | .ok o => o
  | .error e => .raised e

/-- A thread that calls a public operation. -/
def client (op : PublicOp) : M W Unit := do
  let r ← (PublicOp.prog F op).attempt
  announce (.returned op (Outcome.ofResult r))

end ForkableEnvironmentManager

end StateFork
