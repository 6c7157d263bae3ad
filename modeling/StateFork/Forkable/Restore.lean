import StateFork.Forkable.Tracking

/-!
# What a restore does

`restore` of a forkable manager crosses two classes: the base template finds the snapshot, `_core_restore`
materializes a branch from it, switches to that branch and discards the one it leaves, and the base template
then positions whatever branch is current. `ForkableBackend.restored` is that macro as one function of the
state before it.
-/

namespace StateFork

open Conc Conc.Prog

namespace Manager

/-- `_current_branch_id = branch_id` -/
def switch (m : Manager) (b : String) : Manager := { m with currentBranchId := b }

@[simp] theorem currentBranchId_switch (m : Manager) (b : String) : (m.switch b).currentBranchId = b := rfl

@[simp] theorem currentBranchId_forget (m : Manager) (b : String) : (m.forget b).currentBranchId = m.currentBranchId := by
  unfold forget removeBranch
  split <;> rfl

/-- The manager at the end of a restore that made `b` current. -/
def restoredTo (m : Manager) (b snapshotId : String) (elapsed : ℚ) : Manager :=
  (m.addEntry "restore" snapshotId elapsed b).setBranchPosition b (some snapshotId)

end Manager

namespace ForkableBackend

open EnvironmentManager ForkableEnvironmentManager

variable {W : Type} (B : ForkableBackend W)

/-- Leaving a branch for a restored one: it is discarded, unless it is the default branch. -/
def left (departing restored : String) (s : Sys W) : Except PyError Unit × Sys W :=
  if departing ≠ defaultBranchId ∧ departing ≠ restored then
    if discardable s.mgr departing then
      ((B.discardAnswer departing s).1.map fun _ => (), (B.discardAnswer departing s).2)
    else (.ok (), s)
  else (.ok (), s)

/-- What `_core_restore` returns and leaves behind. -/
def switched (snapshotId departing : String) (s : Sys W) : Except PyError (Bool × ℚ) × Sys W :=
  let start := B.time s.world
  match B.materialized snapshotId [none] false { s with world := start.2 } with
  | (.error e, s) => (.error e, s)
  | (.ok [], s) => (.ok (false, 0), s)
  | (.ok (branch :: _), s) =>
    match B.left departing branch.id { s with mgr := s.mgr.switch branch.id } with
    | (.error e, s) => (.error e, s)
    | (.ok (), s) =>
      let stop := B.time s.world
      (.ok (true, stop.1 - start.1), { s with world := stop.2 })

/-- The outcome and effect of `restore`. -/
def restored (snapshotId : String) (s : Sys W) : Except PyError Bool × Sys W :=
  match s.mgr.getBranchState none with
  | .error e => (.error e, s)
  | .ok departing =>
    match s.mgr.physicalAncestor snapshotId with
    | .error _ => (.ok false, s)
    | .ok _ =>
      match B.switched snapshotId departing.id s with
      | (.error e, s) => (.error e, s)
      | (.ok (false, _), s) => (.ok false, s)
      | (.ok (true, elapsed), s) =>
        (.ok true, { s with mgr := s.mgr.restoredTo s.mgr.currentBranchId snapshotId elapsed })

theorem materialized_ok {snapshotId : String} {requestedIds : List (Option String)} {activate : Bool}
    {s s' : Sys W} {l : List EnvironmentBranch} (h : B.materialized snapshotId requestedIds activate s = (.ok l, s')) :
    ∃ outcomes w, B.fork snapshotId requestedIds s.world = (.ok outcomes, w) ∧ l = outcomes.map Prod.fst ∧
      s' = ⟨outcomes.foldl (Manager.registerOutcome activate) s.mgr, w⟩ := by
  unfold materialized at h
  split at h
  · cases h
  · next outcomes w hfork =>
    cases h
    exact ⟨outcomes, w, hfork, rfl, rfl⟩

/-- What was materialized is registered. -/
theorem mem_keys_materialized {snapshotId : String} {requestedIds : List (Option String)} {activate : Bool}
    {s s' : Sys W} {l : List EnvironmentBranch} (h : B.materialized snapshotId requestedIds activate s = (.ok l, s')) :
    ∀ b ∈ l, b.id ∈ s'.mgr.branches.keys := by
  have hregisters : ∀ (outcomes : List (EnvironmentBranch × ℚ)) (m : Manager), ∀ o ∈ outcomes,
      o.1.id ∈ (outcomes.foldl (Manager.registerOutcome activate) m).branches.keys := by
    intro outcomes
    induction outcomes with
    | nil => exact fun m o ho => absurd ho List.not_mem_nil
    | cons o outcomes ih =>
      intro m o' ho'
      rcases List.mem_cons.mp ho' with rfl | ho'
      · obtain ⟨r, hr, -⟩ := Regular.record_registerOutcome_self m activate o'
        exact (Grows.foldl (fun m o => Grows.registerOutcome m activate o) outcomes _).mem_keys
          (Dict.mem_keys_of_get? hr)
      · exact ih _ o' ho'
  obtain ⟨outcomes, w, -, rfl, rfl⟩ := B.materialized_ok h
  intro b hb
  obtain ⟨o, ho, rfl⟩ := List.mem_map.mp hb
  exact hregisters outcomes s.mgr o ho

theorem run_coreRestore (snapshotId departing : String) (s : Sys W) :
    (B.hooks.coreRestore snapshotId departing).run s = B.switched snapshotId departing s := by
  have htime (s : Sys W) : B.hooks.time.run s = (.ok (B.time s.world).1, { s with world := (B.time s.world).2 }) := rfl
  simp only [ForkHooks.coreRestore, run_bind, htime, run_afterValue_ok, B.run_materializeBranches, switched]
  rcases hm : B.materialized snapshotId [none] false { s with world := (B.time s.world).2 } with
    ⟨e | ⟨_ | ⟨branch, rest⟩⟩, s₁⟩
  · rfl
  · rfl
  · have hswitch : (setCurrentBranch branch.id).run s₁ = (.ok (), { s₁ with mgr := s₁.mgr.switch branch.id }) := by
      simp only [setCurrentBranch, run_withLock, run_tryState,
        Manager.setCurrentBranch_of_mem (B.mem_keys_materialized hm branch (List.mem_cons_self ..))]
      rfl
    simp only [run_bind, hswitch, run_afterValue_ok, left]
    split_ifs with hdeparts hgets
    · simp only [run_bind, B.run_discardBranchBody, hgets, if_true]
      rcases B.discardAnswer departing { s₁ with mgr := s₁.mgr.switch branch.id } with ⟨e | ok, s₂⟩
      · rfl
      · rfl
    · simp only [run_bind, B.run_discardBranchBody, hgets, Bool.false_eq_true, if_false, run_afterValue_ok, htime,
        run_pure]
    · simp only [run_bind, htime, run_afterValue_ok, run_pure]

/-- The end of a restore that has nothing to replay. -/
theorem run_finishRestore (snapshotId : String) (elapsed : ℚ) (s : Sys W) :
    (finishRestore B.hooks.toHooks snapshotId snapshotId [] elapsed).run s =
      (.ok true, { s with mgr := s.mgr.restoredTo s.mgr.currentBranchId snapshotId elapsed }) := by
  simp only [finishRestore, getCurrentBranchId, replay, each, run_bind, run_readState, run_addEntry, run_ret,
    run_setBranchPosition, run_afterValue_ok, run_pure]
  rfl

theorem run_restore (snapshotId : String) {s : Sys W} (h : Regular s.mgr) :
    (restore B.hooks.toHooks snapshotId).run s = B.restored snapshotId s := by
  simp only [restore, restoreCurrentBranch, getBranchState, run_withLock, run_bind, run_tryState, restored]
  cases s.mgr.getBranchState none with
  | error e => rfl
  | ok departing =>
    simp only [run_afterValue_ok, run_withLock, run_bind, run_readState]
    cases hw : s.mgr.physicalAncestor snapshotId with
    | error e => rfl
    | ok found =>
      obtain ⟨node, commands⟩ := found
      obtain ⟨rfl, rfl⟩ := h.physicalAncestor hw
      have hcore : (B.hooks.toHooks.coreRestore node.snapshotId departing.id).run s =
          B.switched node.snapshotId departing.id s := B.run_coreRestore _ _ _
      dsimp only
      rw [run_bind_eq, hcore]
      rcases B.switched node.snapshotId departing.id s with ⟨e | ⟨_ | _, elapsed⟩, s₁⟩
      · rfl
      · rfl
      · exact B.run_finishRestore _ _ _

end ForkableBackend

end StateFork
