import StateFork.Forkable.Registry

/-!
# What listing and forking do to the registries

`_list_branches` and `_materialize_branches` loop over what a hook returned. Run alone, each loop is a
fold of a function on the manager: `reconcile` and `dropStale` for a listing, `registerOutcome` for a
fork.
-/

namespace StateFork

open Conc Conc.Prog

namespace Manager

variable (m : Manager)

/-- `_set_branch_position` -/
def setBranchPosition (branchId : String) (snapshotId : Option String) : Manager :=
  let (state, m) := m.registerBranch branchId snapshotId
  m.modifyRecord state fun _ => .positionedAt snapshotId

/-- The live-branch objects for what a hook returned. -/
def newLiveObjects : List EnvironmentBranch → Manager → List Ref × Manager
  | [], m => ([], m)
  | branch :: l, m =>
    let (r, m) := m.newLiveObject branch
    let (refs, m) := newLiveObjects l m
    (r :: refs, m)

/-- A listed branch is registered, and moved to its base if it is not there. -/
def reconcile (branch : Ref) : Manager :=
  let base := (m.liveObject branch).baseSnapshotId
  let (state, m) := m.registerBranch branch.id (if base = "" then none else some base)
  if base = "" ∨ (m.record state).currentSnapshotId = some base then m
  else m.setBranchPosition branch.id (some base)

/-- The record of a branch that is no longer listed, unless it is the default or the current branch. -/
def dropStale (staleId : String) : Manager :=
  if staleId = defaultBranchId ∨ staleId = m.currentBranchId then m else m.removeBranch staleId

/-- The live registry holds what was listed. -/
def replaceLive (refreshed : List Ref) : Manager :=
  { m with liveBranches := .ofList (refreshed.map fun r => (r.id, r)) }

/-- `_list_branches` with the listing of the backend. -/
def relist (listing : List EnvironmentBranch) : Manager :=
  let (refreshed, m) := newLiveObjects listing m
  let stale := m.liveBranches.keys.filter fun b => b ∉ refreshed.map Ref.id
  stale.foldl dropStale (refreshed.foldl reconcile (m.replaceLive refreshed))

/-- A forked branch is registered and becomes live. -/
def registerOutcome (activate : Bool) (m : Manager) (outcome : EnvironmentBranch × ℚ) : Manager :=
  let (branch, m) := m.newLiveObject outcome.1
  let (state, m) := m.registerBranch branch.id (some (m.liveObject branch).baseSnapshotId)
  ({ m.modifyRecord state fun r => { r with active := activate } with
      liveBranches := m.liveBranches.set branch.id branch }).addEntry "fork" branch.id outcome.2 branch.id

@[simp] theorem liveObject_registerBranch (b : String) (base : Option String) (r : Ref) :
    (m.registerBranch b base).2.liveObject r = m.liveObject r := by
  unfold registerBranch
  split <;> rfl

/-- Registering a branch finds or makes a record of it. -/
theorem get?_registerBranch (b : String) (base : Option String) :
    (m.registerBranch b base).2.branches.get? b = some (m.registerBranch b base).1 := by
  unfold registerBranch
  split
  · next r hr => exact hr
  · exact Dict.get?_set_self _ _ _

@[simp] theorem liveBranches_registerBranch (b : String) (base : Option String) :
    (m.registerBranch b base).2.liveBranches = m.liveBranches := by
  unfold registerBranch
  split <;> rfl

@[simp] theorem liveObject_newLiveObject_self (branch : EnvironmentBranch) :
    (m.newLiveObject branch).2.liveObject (m.newLiveObject branch).1 = branch :=
  Heap.cell_alloc_self m.liveObjects branch

/-- `registerOutcome` in terms of the branch that was forked. -/
theorem registerOutcome_eq (activate : Bool) (outcome : EnvironmentBranch × ℚ) :
    m.registerOutcome activate outcome =
      let (branch, m₁) := m.newLiveObject outcome.1
      let (state, m₂) := m₁.registerBranch outcome.1.id (some outcome.1.baseSnapshotId)
      ({ m₂.modifyRecord state fun r => { r with active := activate } with
          liveBranches := m₂.liveBranches.set outcome.1.id branch }).addEntry "fork" outcome.1.id outcome.2
        outcome.1.id := by
  unfold registerOutcome
  simp only [liveObject_newLiveObject_self]
  rfl

/-- `_after_snapshot` changes a live-branch object at most. -/
theorem advanceLiveBase_eq (b id : String) :
    ∃ liveObjects, m.advanceLiveBase b id = { m with liveObjects } := by
  unfold advanceLiveBase
  split
  · exact ⟨m.liveObjects, rfl⟩
  · exact ⟨_, rfl⟩

@[simp] theorem snapshotGraph_advanceLiveBase (b id : String) :
    (m.advanceLiveBase b id).snapshotGraph = m.snapshotGraph := by
  unfold advanceLiveBase
  split <;> rfl

@[simp] theorem currentBranchId_registerBranch (b : String) (base : Option String) :
    (m.registerBranch b base).2.currentBranchId = m.currentBranchId := by
  unfold registerBranch
  split <;> rfl

end Manager

namespace ForkableEnvironmentManager

open EnvironmentManager

variable {W : Type}

/-! ### The loops -/

theorem run_newLiveObjects (l : List EnvironmentBranch) (s : Sys W) :
    (newLiveObjects l : M W (List Ref)).run s =
      (.ok (Manager.newLiveObjects l s.mgr).1, { s with mgr := (Manager.newLiveObjects l s.mgr).2 }) := by
  induction l generalizing s with
  | nil => rfl
  | cons branch l ih =>
    unfold newLiveObjects at ih ⊢
    simp only [collect, run_bind, run_access, run_afterValue_ok, ih, run_ret]
    rfl

theorem run_setBranchPosition (b : String) (snapshotId : Option String) (s : Sys W) :
    (setBranchPosition b snapshotId).run s = (.ok (), { s with mgr := s.mgr.setBranchPosition b snapshotId }) := by
  simp only [setBranchPosition, registerBranch, run_bind, run_withState, run_afterValue_ok, run_updateStateEmit]
  rfl

theorem run_reconcile (branch : Ref) (s : Sys W) :
    (reconcile branch).run s = (.ok (), { s with mgr := s.mgr.reconcile branch }) := by
  simp only [reconcile, baseSnapshotId, registerBranch, run_bind, run_peek, run_withState, run_afterValue_ok,
    Manager.liveObject_registerBranch, Manager.reconcile]
  by_cases hbase : (s.mgr.liveObject branch).baseSnapshotId = ""
  · simp only [hbase, if_true, true_or, run_pure]
  · simp only [hbase, if_false, false_or, run_bind, run_peek, run_afterValue_ok,
      Manager.liveObject_registerBranch]
    split_ifs
    · rfl
    · simp only [run_bind, run_peek, run_afterValue_ok, run_setBranchPosition, Manager.liveObject_registerBranch]

theorem run_dropStale (staleId : String) (s : Sys W) :
    (dropStale staleId).run s = (.ok (), { s with mgr := s.mgr.dropStale staleId }) := by
  simp only [dropStale, getCurrentBranchId, removeBranch, run_bind, run_readState, run_afterValue_ok,
    Manager.dropStale]
  split_ifs
  · rfl
  · simp only [run_updateState]

theorem run_registerOutcome (activate : Bool) (outcome : EnvironmentBranch × ℚ) (s : Sys W) :
    (registerOutcome activate outcome).run s =
      (.ok (), { s with mgr := s.mgr.registerOutcome activate outcome }) := by
  simp only [registerOutcome, baseSnapshotId, registerBranch, run_bind, run_access, run_peek, run_withState,
    run_updateState, run_addEntry, run_afterValue_ok]
  rfl

end ForkableEnvironmentManager

/-- A loop whose body has a known effect on the manager is a fold. -/
theorem run_each_mgr {W α : Type} {f : α → M W Unit} {g : Manager → α → Manager}
    (hf : ∀ a (s : Sys W), (f a).run s = (.ok (), { s with mgr := g s.mgr a })) (l : List α) (s : Sys W) :
    (each l f).run s = (.ok (), { s with mgr := l.foldl g s.mgr }) := by
  induction l generalizing s with
  | nil => rfl
  | cons a l ih =>
    rw [run_each_cons, run_bind, hf, run_afterValue_ok, ih]
    rfl

namespace ForkableBackend

open EnvironmentManager ForkableEnvironmentManager

variable {W : Type} (B : ForkableBackend W)

/-! ### Listing -/

/-- The effect of `list_branches`. -/
def afterListing (s : Sys W) : Sys W :=
  match B.list s.world with
  | (.ok (some listing), w) => ⟨s.mgr.relist listing, w⟩
  | (_, w) => { s with world := w }

theorem run_listBranches (refresh : M W Unit) (s : Sys W) :
    ((listBranches (B.hooksWith refresh)).run s).2 = B.afterListing s ∧
      ∀ e, ((listBranches (B.hooksWith refresh)).run s).1 = .error e → (B.list s.world).1 = .error e := by
  simp only [listBranches, listBranchesBody, run_withLock, run_bind, hooksWith, run_tryWorld, afterListing]
  rcases B.list s.world with ⟨e | ⟨_ | listing⟩, w⟩
  · refine ⟨rfl, fun e' he => ?_⟩
    cases he
    rfl
  · simp only [run_afterValue_ok, liveBranches, run_readState]
    simp
  · simp only [run_afterValue_ok, run_bind, run_newLiveObjects, run_withState, run_peek,
      run_each_mgr (run_reconcile (W := W)), run_each_mgr (run_dropStale (W := W))]
    refine ⟨rfl, fun e' he => ?_⟩
    cases he

/-! ### Forking -/

/-- What `_materialize_branches` leaves behind. -/
def materialized (snapshotId : String) (requestedIds : List (Option String)) (activate : Bool) (s : Sys W) :
    Except PyError (List EnvironmentBranch) × Sys W :=
  match B.fork snapshotId requestedIds s.world with
  | (.error e, w) => (.error e, { s with world := w })
  | (.ok outcomes, w) => (.ok (outcomes.map Prod.fst), ⟨outcomes.foldl (Manager.registerOutcome activate) s.mgr, w⟩)

theorem run_materializeBranches (snapshotId : String) (requestedIds : List (Option String)) (activate : Bool)
    (s : Sys W) :
    (materializeBranches B.hooks snapshotId requestedIds activate).run s =
      B.materialized snapshotId requestedIds activate s := by
  simp only [materializeBranches, run_withLock, run_bind, hooks, hooksWith, run_tryWorld, materialized]
  rcases B.fork snapshotId requestedIds s.world with ⟨e | outcomes, w⟩
  · rfl
  · simp only [run_afterValue_ok, run_bind, run_each_mgr (run_registerOutcome (W := W) activate), run_pure]

end ForkableBackend

/-- The ids with which `fork` calls the backend, unless it refuses the request. -/
def forkRequest (m : Manager) (snapshotId : String) (n : Int) (ids : Option (List String)) :
    Option (List (Option String)) :=
  if ForkableEnvironmentManager.forkable m snapshotId then
    match ids with
    | some ids =>
      if ids.Nodup ∧ (∀ b ∈ ids, b ∉ m.liveBranches.keys ∧ b ≠ defaultBranchId) ∧ ids ≠ [] then
        some (ids.map some)
      else none
    | none => if n < 1 then none else some (List.replicate n.toNat none)
  else none

namespace ForkableBackend

open EnvironmentManager ForkableEnvironmentManager

variable {W : Type} (B : ForkableBackend W)

theorem run_fork (snapshotId : String) (n : Int) (ids : Option (List String)) (s : Sys W) :
    (ForkableEnvironmentManager.fork B.hooks snapshotId n ids).run s =
      match forkRequest s.mgr snapshotId n ids with
      | none => (.ok [], s)
      | some requestedIds => B.materialized snapshotId requestedIds true s := by
  simp only [ForkableEnvironmentManager.fork, forkBody, run_withLock, run_bind, run_readState, run_afterValue_ok, forkRequest]
  by_cases hok : forkable s.mgr snapshotId = true
  · simp only [hok, Bool.not_true, Bool.false_eq_true, if_false, if_true]
    cases ids with
    | none =>
      dsimp only
      split_ifs
      · rfl
      · exact B.run_materializeBranches _ _ _ _
    | some ids =>
      have hconflicts : (ids.filter fun b => b ∈ s.mgr.liveBranches.keys ∨ b = defaultBranchId) = [] ↔
          ∀ b ∈ ids, b ∉ s.mgr.liveBranches.keys ∧ b ≠ defaultBranchId := by
        simp [List.filter_eq_nil_iff]
      dsimp only
      by_cases hnodup : ids.Nodup
      · simp only [hnodup, decide_true, Bool.not_true, Bool.false_eq_true, if_false, run_bind, run_readState,
          run_afterValue_ok, true_and, ← hconflicts]
        by_cases hfree : (ids.filter fun b => b ∈ s.mgr.liveBranches.keys ∨ b = defaultBranchId) = []
        · simp only [hfree, ne_eq, not_true_eq_false, if_false, true_and]
          by_cases hnil : ids = []
          · simp only [hnil, if_true, not_true_eq_false, if_false, run_pure]
          · simp only [hnil, if_false, not_false_eq_true, if_true]
            exact B.run_materializeBranches _ _ _ _
        · simp only [hfree, ne_eq, not_false_eq_true, if_true, false_and, if_false, run_pure]
      · simp only [hnodup, decide_false, Bool.not_false, if_true, false_and, if_false, run_pure]
  · simp [hok]

end ForkableBackend

/-! ### Snapshots of a named branch -/

/-- The manager after `commitSnapshot` of a forkable manager. -/
def Manager.commit (m : Manager) (branchId : String) (state : Ref) (node : SnapshotNode) : Manager :=
  let m := (m.recordSnapshotNode node).modifyRecord state fun r =>
    { BranchState.positionedAt (some node.snapshotId) with active := r.active }
  { m.advanceLiveBase branchId node.snapshotId with isCleanedUp := false }

namespace Manager

variable (m : Manager) (b : String) (state : Ref) (node : SnapshotNode)

@[simp] theorem branches_commit : (m.commit b state node).branches = m.branches := by
  unfold commit advanceLiveBase
  dsimp only
  split <;> rfl

@[simp] theorem liveBranches_commit : (m.commit b state node).liveBranches = m.liveBranches := by
  unfold commit advanceLiveBase
  dsimp only
  split <;> rfl

@[simp] theorem snapshotGraph_commit :
    (m.commit b state node).snapshotGraph = recordNode m.snapshotGraph node := by
  unfold commit advanceLiveBase
  dsimp only
  split <;> rfl

end Manager

namespace ForkableEnvironmentManager

open EnvironmentManager

variable {W : Type} (F : ForkHooks W)

/-- The exits of `_snapshot_branch` on a forkable manager. -/
inductive SnapshotCase (b : String) (s : Sys W) : Except PyError (Option String) × Sys W → Prop
  | unregistered {e : PyError} (lookup : s.mgr.branches.get? b = none) : SnapshotCase b s (.error e, s)
  | retired {r : Ref} (lookup : s.mgr.branches.get? b = some r) (inactive : (s.mgr.record r).active = false) :
      SnapshotCase b s (.ok none, s)
  | raised {e : PyError} {s' : Sys W} (hook : (F.coreSnapshot b).run s = (.error e, s')) :
      SnapshotCase b s (.error e, s')
  | failed {elapsed : ℚ} {s' : Sys W} (hook : (F.coreSnapshot b).run s = (.ok (none, elapsed), s')) :
      SnapshotCase b s (.ok none, s')
  | committed {r : Ref} {id : String} {elapsed : ℚ} {s' : Sys W} (lookup : s.mgr.branches.get? b = some r)
      (hactive : (s.mgr.record r).active = true)
      (hook : (F.coreSnapshot b).run s = (.ok (some id, elapsed), s')) :
      SnapshotCase b s (.ok (some id), { s' with
        mgr := (s'.mgr.addEntry "snapshot" id elapsed b).commit b r
          { snapshotId := id, parentId := (s.mgr.record r).lastSnapshotId } })

theorem snapshot_cases (b : String) (s : Sys W) :
    SnapshotCase F b s ((EnvironmentManager.snapshotBranch F.toHooks b true).run s) := by
  simp only [EnvironmentManager.snapshotBranch, getBranchState, run_bind, run_tryState, Manager.getBranchState,
    Option.getD_some]
  cases lookup : s.mgr.branches.get? b with
  | none => exact .unregistered lookup
  | some r =>
    simp only [run_afterValue_ok, run_bind, run_announce, run_withLock, run_readState]
    cases hactive : (s.mgr.record r).active with
    | false => exact .retired lookup hactive
    | true =>
      simp only [if_true, run_bind, run_pure, run_afterValue_ok, capturePhysical, run_announce, ForkHooks.toHooks]
      rcases hook : (F.coreSnapshot b).run s with ⟨e | ⟨_ | id, elapsed⟩, s'⟩
      · exact .raised hook
      · exact .failed hook
      · simp only [run_afterValue_ok, run_bind, run_addEntry, run_pure, commitSnapshot, recordSnapshotNode,
          run_updateState, run_updateStateEmit, run_poke, if_true]
        exact .committed lookup hactive hook

/-- A named snapshot that returns an id committed it. -/
theorem snapshotBranch_returns {b id : String} {s s' : Sys W}
    (h : (snapshotBranch F b false).run s = (.ok (some id), s')) :
    (EnvironmentManager.snapshotBranch F.toHooks b true).run s = (.ok (some id), s') := by
  simp only [snapshotBranch, isLive, Bool.false_eq_true, if_false, run_bind, run_readState,
    run_afterValue_ok] at h
  split at h
  · simp only [onKeyError, Prog.tryCatch, run_andThen] at h
    rcases hr : (EnvironmentManager.snapshotBranch F.toHooks b true).run s with ⟨e | r, s₁⟩
    · rw [hr] at h
      dsimp only at h
      split at h
      · cases h
      · cases h
    · rw [hr] at h
      exact h
  · cases h

/-- The parent of a snapshot that the template committed is the last snapshot of the branch. -/
theorem parentId_of_snapshot {b id : String} {s s' : Sys W}
    (h : (EnvironmentManager.snapshotBranch F.toHooks b true).run s = (.ok (some id), s')) :
    ∃ r, s.mgr.branches.get? b = some r ∧ (s'.mgr.snapshotGraph.get? id).map SnapshotNode.parentId =
      some (s.mgr.record r).lastSnapshotId := by
  have hcase := snapshot_cases F b s
  rw [h] at hcase
  cases hcase with
  | @committed r _ elapsed s₁ lookup hactive hook =>
    refine ⟨r, lookup, ?_⟩
    rw [Manager.snapshotGraph_commit]
    exact (Manager.parentId_recordNode _ _ _).trans (if_pos rfl)

end ForkableEnvironmentManager

/-! ### Discarding and parking -/

/-- The manager after it has forgotten a branch. -/
def Manager.forget (m : Manager) (branchId : String) : Manager :=
  Manager.removeBranch { m with liveBranches := m.liveBranches.erase branchId } branchId

@[simp] theorem Manager.snapshotGraph_forget (m : Manager) (b : String) :
    (m.forget b).snapshotGraph = m.snapshotGraph := by
  unfold forget removeBranch
  split <;> rfl

theorem Manager.setCurrentBranch_of_mem {m : Manager} {b : String} (hb : b ∈ m.branches.keys) :
    m.setCurrentBranch b = (.ok (), { m with currentBranchId := b }) := by
  obtain ⟨r, hr⟩ := Dict.mem_keys_iff.mp hb
  unfold setCurrentBranch
  rw [hr]

@[simp] theorem Manager.snapshotGraph_setCurrentBranch (m : Manager) (b : String) :
    (m.setCurrentBranch b).2.snapshotGraph = m.snapshotGraph := by
  unfold setCurrentBranch
  split <;> rfl

/-- The bookkeeping of `_park_branch`, while the default branch is registered. -/
def Manager.retireParked (m : Manager) (branchId snapshotId : String) (parentId : Option String)
    (elapsed : ℚ) : Manager :=
  let m := (m.recordSnapshotNode { snapshotId, parentId }).addEntry "park" snapshotId elapsed branchId
  let m := if branchId = m.currentBranchId then (m.setCurrentBranch defaultBranchId).2 else m
  m.forget branchId

namespace ForkableBackend

open EnvironmentManager ForkableEnvironmentManager

variable {W : Type} (B : ForkableBackend W)

/-- `_discard_branch` gets to its hook. -/
def discardable (m : Manager) (b : String) : Bool :=
  b ≠ defaultBranchId && b ≠ m.currentBranchId && (m.liveBranches.get? b).isSome &&
    (m.branches.get? b).any fun r => (m.record r).active

theorem discardable_iff {m : Manager} {b : String} :
    discardable m b = true ↔ b ≠ defaultBranchId ∧ b ≠ m.currentBranchId ∧ (m.liveBranches.get? b).isSome ∧
      ∃ r, m.branches.get? b = some r ∧ (m.record r).active = true := by
  simp [discardable, Option.any_eq_true, and_assoc]

/-- What `_discard_branch` does with the answer of its hook. -/
def discardAnswer (b : String) (s : Sys W) : Except PyError Bool × Sys W :=
  match B.discard b s.world with
  | (.error e, w) => (.error e, { s with world := w })
  | (.ok false, w) => (.ok false, { s with world := w })
  | (.ok true, w) => (.ok true, ⟨s.mgr.forget b, w⟩)

theorem run_discardBranchBody (b : String) (s : Sys W) :
    (discardBranchBody B.hooks b).run s = if discardable s.mgr b then B.discardAnswer b s else (.ok false, s) := by
  unfold discardBranchBody
  split_ifs with hmain hgets hgets
  · exact absurd hmain (discardable_iff.mp hgets).1
  · rfl
  · obtain ⟨-, hcurrent, hlive, r, hr, hactive⟩ := discardable_iff.mp hgets
    obtain ⟨live, hl⟩ := Option.isSome_iff_exists.mp hlive
    simp only [getCurrentBranchId, lookupLive, stillLive, run_bind, run_readState, run_afterValue_ok, hcurrent, if_false,
      hl, hr, run_announce, run_withLock, hactive, Option.isSome_some, Bool.and_self, if_true, hooks, hooksWith,
      run_tryWorld, discardAnswer]
    rcases B.discard b s.world with ⟨e | _ | _, w⟩
    · rfl
    · rfl
    · simp only [run_afterValue_ok, if_true, run_bind, run_updateState, removeBranch, run_pure]
      rfl
  · simp only [getCurrentBranchId, run_bind, run_readState, run_afterValue_ok]
    split_ifs with hcurrent
    · rfl
    · simp only [lookupLive, run_bind, run_readState, run_afterValue_ok]
      split
      · rfl
      · next state hstate =>
        simp only [run_bind, run_announce, run_afterValue_ok, run_withLock, stillLive, run_readState]
        rw [if_neg]
        · rfl
        · intro hstill
          rw [Bool.and_eq_true] at hstill
          obtain ⟨live, hl⟩ := Option.isSome_iff_exists.mp hstill.1
          rw [hl] at hstate
          exact hgets (discardable_iff.mpr ⟨hmain, hcurrent, hstill.1, state, hstate, hstill.2⟩)

/-- The exits of `_discard_branch`. -/
inductive DiscardCase (b : String) (s : Sys W) : Except PyError Bool × Sys W → Prop
  | refused : DiscardCase b s (.ok false, s)
  | raised {e : PyError} {w : W} (hook : B.discard b s.world = (.error e, w)) :
      DiscardCase b s (.error e, { s with world := w })
  | failed {w : W} (hook : B.discard b s.world = (.ok false, w)) : DiscardCase b s (.ok false, { s with world := w })
  | discarded {w : W} (notMain : b ≠ defaultBranchId) (notCurrent : b ≠ s.mgr.currentBranchId)
      (hook : B.discard b s.world = (.ok true, w)) : DiscardCase b s (.ok true, ⟨s.mgr.forget b, w⟩)

theorem discard_cases (b : String) (s : Sys W) :
    B.DiscardCase b s ((discardBranchBody B.hooks b).run s) := by
  rw [B.run_discardBranchBody]
  split_ifs with hgets
  · unfold discardAnswer
    rcases hook : B.discard b s.world with ⟨e | _ | _, w⟩
    · exact .raised hook
    · exact .failed hook
    · obtain ⟨hmain, hcurrent, -⟩ := discardable_iff.mp hgets
      exact .discarded hmain hcurrent hook
  · exact .refused

theorem run_retireParked (b snapshotId : String) (parentId : Option String) (elapsed : ℚ) {s : Sys W}
    (hmain : defaultBranchId ∈ s.mgr.branches.keys) :
    (retireParked b snapshotId parentId elapsed).run s =
      (.ok (), { s with mgr := s.mgr.retireParked b snapshotId parentId elapsed }) := by
  obtain ⟨main, hget⟩ := Dict.mem_keys_iff.mp hmain
  simp only [retireParked, recordSnapshotNode, run_bind, run_updateState, run_afterValue_ok, run_addEntry,
    getCurrentBranchId, run_readState, Manager.retireParked]
  split_ifs
  · have hset : ((s.mgr.recordSnapshotNode { snapshotId, parentId }).addEntry "park" snapshotId elapsed
        b).branches.get? defaultBranchId = some main := hget
    simp only [setCurrentBranch, run_withLock, run_tryState, Manager.setCurrentBranch, hset, run_afterValue_ok,
      run_bind, run_updateState, removeBranch]
    rfl
  · simp only [run_bind, run_updateState, run_afterValue_ok, removeBranch]
    rfl

/-- The exits of `_park_branch`, while the default branch is registered. -/
inductive ParkCase (b : String) (s : Sys W) : Except PyError (Option String) × Sys W → Prop
  | refused : ParkCase b s (.ok none, s)
  | raised {e : PyError} {w : W} (hook : B.park b s.world = (.error e, w)) :
      ParkCase b s (.error e, { s with world := w })
  | failed {elapsed : ℚ} {w : W} (hook : B.park b s.world = (.ok (none, elapsed), w)) :
      ParkCase b s (.ok none, { s with world := w })
  | parked {r : Ref} {id resource : String} {elapsed : ℚ} {w : W} (notMain : b ≠ defaultBranchId)
      (lookup : s.mgr.branches.get? b = some r)
      (hook : B.park b s.world = (.ok (some (id, resource), elapsed), w)) :
      ParkCase b s (.ok (some id),
        ⟨(s.mgr.registerSnapshotResource id resource).retireParked b id (s.mgr.record r).lastSnapshotId elapsed, w⟩)

theorem park_cases (b : String) {s : Sys W} (hmain : defaultBranchId ∈ s.mgr.branches.keys) :
    B.ParkCase b s ((parkBranchBody B.hooks b).run s) := by
  unfold parkBranchBody
  split_ifs with hb
  · exact .refused
  · simp only [lookupLive, run_bind, run_readState, run_afterValue_ok]
    cases hlive : s.mgr.liveBranches.get? b with
    | none => exact .refused
    | some live =>
      dsimp only
      cases lookup : s.mgr.branches.get? b with
      | none => exact .refused
      | some state =>
        simp only [run_bind, run_announce, run_afterValue_ok, run_withLock, run_readState, hlive]
        cases hactive : (s.mgr.record state).active with
        | false => exact .refused
        | true =>
          simp only [Option.isSome_some, Bool.and_self, if_true, run_bind, run_announce, run_afterValue_ok, hooks,
            hooksWith, run_tryWorld]
          rcases hook : B.park b s.world with ⟨e | ⟨_ | ⟨id, resource⟩, elapsed⟩, w⟩
          · exact .raised hook
          · exact .failed hook
          · simp only [run_afterValue_ok, register, registerSnapshotResource, run_bind, run_updateState, run_pure]
            rw [run_retireParked _ _ _ _ (by exact hmain)]
            exact .parked hb lookup hook

end ForkableBackend

end StateFork
