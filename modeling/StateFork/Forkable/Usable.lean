import StateFork.Forkable.Records

/-!
# Branches that can be used

A branch can be used if it has an active record. `_core_restore` registers the branch that it materializes as
inactive, makes it current and then discards the departing branch; only the base template, when it positions the
branch at the end, makes it active. An exception of the discard hook skips that end: the current branch is then one
that every operation refuses. This is the only way in which operations make a record that is not active
(`active_prog`), so the branches of a run are usable throughout exactly if no restore ends like this.
-/

namespace StateFork

open Conc Conc.Prog

namespace Manager

/-- Every record that is registered is active. -/
def AllActive (m : Manager) : Prop := ∀ b r, m.branches.get? b = some r → (m.record r).active = true

/-- Every record that is registered is active, but for the one of the branch `b`. -/
def ActiveBut (m : Manager) (b : String) : Prop :=
  ∀ b' r, b' ≠ b → m.branches.get? b' = some r → (m.record r).active = true

/-- The branch has an active record. -/
def UsableBranch (m : Manager) (b : String) : Prop := ∃ r, m.branches.get? b = some r ∧ (m.record r).active = true

/-- The current branch and every live branch can be used. -/
def Usable (m : Manager) : Prop := m.UsableBranch m.currentBranchId ∧ ∀ b ∈ m.liveBranches.keys, m.UsableBranch b

end Manager

namespace Manager.AllActive

variable {m m' : Manager}

theorem usable (h : m.AllActive) (hc : Consistent m) : m.Usable := by
  have husable {b : String} (hb : b ∈ m.branches.keys) : m.UsableBranch b := by
    obtain ⟨r, hr⟩ := Dict.mem_keys_iff.mp hb
    exact ⟨r, hr, h b r hr⟩
  exact ⟨husable hc.current, fun b hb => husable (hc.live b hb)⟩

/-- Every record that is written is active. -/
theorem records : m.AllActive ↔ m.RecordsSatisfy fun r => r.active = true := Iff.rfl

/-- Outside of a restore no update makes a record inactive that stays registered. -/
theorem update (h : m.AllActive) (hregular : Regular m) (hupdate : Manager.Update false m m') : m'.AllActive := by
  rw [records] at h ⊢
  cases hupdate with
  | bench stats => exact h.congr rfl rfl
  | cleaned => exact h.congr rfl rfl
  | logged r command counted => exact h.modifyRecord r fun _ hx => hx
  | registered snapshotId resource => exact h.congr rfl rfl
  | listed listing => exact h.relist hregular rfl fun _ _ _ => rfl
  | forked outcome active =>
    obtain rfl : _ = true := active.resolve_right (by simp)
    exact h.registerOutcome hregular (fun _ _ => rfl) rfl
  | committed b state snapshotId parentId => exact h.commit b state fun _ hx => hx
  | recorded snapshotId parentId => exact h.congr rfl rfl
  | switched registered restores => exact absurd restores (by simp)
  | stashed =>
    have hswitched : (m.switch defaultBranchId).RecordsSatisfy fun r => r.active = true := h.congr rfl rfl
    exact hswitched.forget (hregular.congr rfl rfl rfl) _
  | forgotten => exact h.forget hregular _
  | positioned b snapshotId restores => exact absurd restores (by simp)

end Manager.AllActive

/-! ### A restore -/

theorem PublicOp.eq_restore {op : PublicOp} (h : op.restoring = true) : ∃ id, op = .restore id := by
  cases op with
  | restore id => exact ⟨id, rfl⟩
  | _ => exact absurd h (by simp [PublicOp.restoring])

namespace Manager

variable {m : Manager}

/-- Positioning a branch makes it active. -/
theorem ActiveBut.setBranchPosition {b : String} (h : m.ActiveBut b) (hregular : Regular m)
    (snapshotId : Option String) : (m.setBranchPosition b snapshotId).AllActive := by
  intro b' r hr
  have hregistered := hregular.registerBranch b snapshotId
  have hself := m.get?_registerBranch b snapshotId
  unfold Manager.setBranchPosition at hr ⊢
  dsimp only at hr ⊢
  rw [hregistered.record_modifyRecord hself hr]
  split_ifs with hb
  · rfl
  · rcases hregular.record_registerBranch b snapshotId hr with ⟨hold, hrecord⟩ | ⟨-, he, -⟩
    · rw [hrecord]
      exact h b' r hb hold
    · exact absurd he hb

theorem ActiveBut.restoredTo {b : String} (h : m.ActiveBut b) (hregular : Regular m) (snapshotId : String) (elapsed : ℚ) :
    (m.restoredTo b snapshotId elapsed).AllActive := by
  have hlogged : (m.addEntry "restore" snapshotId elapsed b).ActiveBut b := h
  exact hlogged.setBranchPosition (hregular.congr rfl rfl rfl) (some snapshotId)

theorem ActiveBut.forget {b : String} (h : m.ActiveBut b) (hregular : Regular m) (gone : String) :
    (m.forget gone).ActiveBut b := by
  intro b' r hb hr
  unfold Manager.forget Manager.removeBranch at hr ⊢
  cases hgone : m.branches.get? gone with
  | none =>
    simp only [hgone] at hr ⊢
    exact h b' r hb hr
  | some r₀ =>
    simp only [hgone] at hr ⊢
    rw [Dict.get?_erase] at hr
    split_ifs at hr with he
    have hrecord : (m.modifyRecord r₀ fun s => { s with active := false }).record r = m.record r := by
      rw [hregular.record_modifyRecord hgone hr, if_neg he]
    show ((m.modifyRecord r₀ fun s => { s with active := false }).record r).active = true
    rw [hrecord]
    exact h b' r hb hr

theorem liveBranches_registerOutcome (m : Manager) (activate : Bool) (outcome : EnvironmentBranch × ℚ) :
    (m.registerOutcome activate outcome).liveBranches =
      m.liveBranches.set outcome.1.id (m.newLiveObject outcome.1).1 := by
  rw [registerOutcome_eq]
  exact congrArg (Dict.set · _ _) (liveBranches_registerBranch _ _ _)

end Manager

namespace ForkableBackend

open EnvironmentManager ForkableEnvironmentManager

variable {W : Type} (B : ForkableBackend W)

/-- One branch at most for each request, as `_core_fork` documents. -/
def ForksOnRequest : Prop :=
  ∀ id ids w outcomes w', B.fork id ids w = (.ok outcomes, w') → outcomes.length ≤ ids.length

/-- The restore materializes a branch, and then the hook raises that is to destroy the departing one. -/
def strands (snapshotId : String) (s : Sys W) : Bool :=
  let departing := s.mgr.currentBranchId
  match s.mgr.physicalAncestor snapshotId with
  | .error _ => false
  | .ok _ =>
    match B.fork snapshotId [none] (B.time s.world).2 with
    | (.ok (restored :: _), w) =>
      departing ≠ defaultBranchId && departing ≠ restored.1.id && (s.mgr.liveBranches.get? departing).isSome &&
        match B.discard departing w with
        | (.error _, _) => true
        | _ => false
    | _ => false

variable {B} {s : Sys W}

/-- The departing branch is destroyed if it is live. -/
theorem discardable_departing (hregular : Regular s.mgr) (hactive : s.mgr.AllActive) {departing : String}
    (hregistered : departing ∈ s.mgr.branches.keys) {restored : EnvironmentBranch × ℚ}
    (hmain : departing ≠ defaultBranchId) (hne : departing ≠ restored.1.id) :
    discardable ((s.mgr.registerOutcome false restored).switch restored.1.id) departing =
      (s.mgr.liveBranches.get? departing).isSome := by
  obtain ⟨r, hr⟩ := Dict.mem_keys_iff.mp hregistered
  obtain ⟨hget, hrecord⟩ := hregular.record_registerOutcome_of_ne false restored hne
  have hactive' : ((s.mgr.registerOutcome false restored).record r).active = true := by
    rw [hrecord r hr]
    exact hactive departing r hr
  have hlive : (s.mgr.registerOutcome false restored).liveBranches.get? departing = s.mgr.liveBranches.get? departing := by
    rw [Manager.liveBranches_registerOutcome, Dict.get?_set_of_ne _ _ hne]
  have hget' : (s.mgr.registerOutcome false restored).branches.get? departing = some r := hget.trans hr
  rw [Bool.eq_iff_iff, discardable_iff]
  show _ ∧ _ ∧ ((s.mgr.registerOutcome false restored).liveBranches.get? departing).isSome ∧ _ ↔ _
  rw [hlive]
  exact ⟨fun h => h.2.2.1, fun h => ⟨hmain, hne, h, r, hget', hactive'⟩⟩

/-- The manager of a restore after it switched to the branch that it materialized. -/
def switchedTo (m : Manager) (restored : EnvironmentBranch × ℚ) : Manager :=
  (m.registerOutcome false restored).switch restored.1.id

theorem switchedTo_regular {m : Manager} (h : Regular m) (restored : EnvironmentBranch × ℚ) :
    Regular (switchedTo m restored) :=
  (h.registerOutcome false restored).congr rfl rfl rfl

/-- The branch that a restore switched to is not active yet, -/
theorem switchedTo_unusable (m : Manager) (restored : EnvironmentBranch × ℚ) : ¬ (switchedTo m restored).Usable := by
  rintro ⟨⟨r, hr, hactive⟩, -⟩
  obtain ⟨r₁, hr₁, hcase⟩ := Regular.record_registerOutcome_self m false restored
  have hr' : (m.registerOutcome false restored).branches.get? restored.1.id = some r := hr
  obtain rfl := Option.some.inj (hr₁.symm.trans hr')
  have hactive' : ((m.registerOutcome false restored).record r₁).active = true := hactive
  rcases hcase with ⟨-, hrecord⟩ | ⟨-, hrecord⟩
  · rw [hrecord] at hactive'
    exact absurd hactive' (by simp)
  · rw [hrecord] at hactive'
    exact absurd hactive' (by simp)

/-- and the others still are. -/
theorem switchedTo_active {m : Manager} (hregular : Regular m) (hactive : m.AllActive)
    (restored : EnvironmentBranch × ℚ) : (switchedTo m restored).ActiveBut restored.1.id := by
  intro b r hb hr
  obtain ⟨hget, hrecord⟩ := hregular.record_registerOutcome_of_ne false restored hb
  have hold : m.branches.get? b = some r := hget.symm.trans hr
  show ((m.registerOutcome false restored).record r).active = true
  rw [hrecord r hold]
  exact hactive b r hold

/-- What `left` does in terms of the manager: nothing, unless the hook says that the branch is gone. -/
theorem left_active {departing restored : String} (hregular : Regular s.mgr) (hactive : s.mgr.ActiveBut restored)
    (hcurrent : s.mgr.currentBranchId = restored) {s' : Sys W} (h : B.left departing restored s = (.ok (), s')) :
    Regular s'.mgr ∧ s'.mgr.ActiveBut restored ∧ s'.mgr.currentBranchId = restored := by
  unfold left at h
  split_ifs at h
  · unfold discardAnswer at h
    rcases hdiscard : B.discard departing s.world with ⟨e | _ | _, w⟩
    · rw [hdiscard] at h
      cases h
    · rw [hdiscard] at h
      cases h
      exact ⟨hregular, hactive, hcurrent⟩
    · rw [hdiscard] at h
      cases h
      exact ⟨hregular.forget departing, hactive.forget hregular departing,
        (Manager.currentBranchId_forget _ _).trans hcurrent⟩
  · cases h
    exact ⟨hregular, hactive, hcurrent⟩
  · cases h
    exact ⟨hregular, hactive, hcurrent⟩

/-- Leaving a branch raises exactly if its discard hook does, and then it changes nothing. -/
theorem left_error {departing restored : String} {e : PyError} {s' : Sys W}
    (h : B.left departing restored s = (.error e, s')) : s'.mgr = s.mgr := by
  unfold left at h
  split_ifs at h
  · unfold discardAnswer at h
    rcases hdiscard : B.discard departing s.world with ⟨e | _ | _, w⟩
    · rw [hdiscard] at h
      cases h
      rfl
    · rw [hdiscard] at h
      cases h
    · rw [hdiscard] at h
      cases h
  · cases h
  · cases h

/-- What leaving the departing branch has to do with a restore that materialized a branch. -/
theorem restored_of_fork {departing : Ref} (hdeparting : s.mgr.getBranchState none = .ok departing)
    (hid : departing.id = s.mgr.currentBranchId) {snapshotId : String} {found : SnapshotNode × List Command}
    (hfound : s.mgr.physicalAncestor snapshotId = .ok found) {restored : EnvironmentBranch × ℚ} {w : W}
    (hfork : B.fork snapshotId [none] (B.time s.world).2 = (.ok [restored], w)) :
    B.restored snapshotId s =
      match B.left s.mgr.currentBranchId restored.1.id ⟨switchedTo s.mgr restored, w⟩ with
      | (.error e, s') => (.error e, s')
      | (.ok (), s') =>
        (.ok true, ⟨s'.mgr.restoredTo s'.mgr.currentBranchId snapshotId ((B.time s'.world).1 - (B.time s.world).1),
          (B.time s'.world).2⟩) := by
  simp only [ForkableBackend.restored, hdeparting, hfound, switched, materialized, hfork, hid, List.map_cons, List.map_nil,
    List.foldl_cons, List.foldl_nil, switchedTo]
  rcases B.left s.mgr.currentBranchId restored.1.id
    ⟨(s.mgr.registerOutcome false restored).switch restored.1.id, w⟩ with ⟨e | _, s'⟩
  · rfl
  · rfl

/-- Leaving the departing branch raises if its discard hook gets called and raises. -/
theorem left_raises {restored : EnvironmentBranch × ℚ} {w : W} (hc : Consistent s.mgr) (hactive : s.mgr.AllActive)
    {departing : String} (hdeparting : departing = s.mgr.currentBranchId) :
    (match (B.left departing restored.1.id ⟨switchedTo s.mgr restored, w⟩).1 with
      | .error _ => true
      | .ok _ => false) =
    (departing ≠ defaultBranchId && departing ≠ restored.1.id && (s.mgr.liveBranches.get? departing).isSome &&
        match B.discard departing w with
        | (.error _, _) => true
        | _ => false) := by
  have hregistered : departing ∈ s.mgr.branches.keys := by
    rw [hdeparting]
    exact hc.current
  by_cases hdeparts : departing ≠ defaultBranchId ∧ departing ≠ restored.1.id
  · obtain ⟨hmain, hne⟩ := hdeparts
    have hgets : discardable (switchedTo s.mgr restored) departing = (s.mgr.liveBranches.get? departing).isSome :=
      discardable_departing hc.regular hactive hregistered hmain hne
    unfold left
    rw [if_pos ⟨hmain, hne⟩, hgets]
    cases (s.mgr.liveBranches.get? departing).isSome with
    | false => simp
    | true =>
      unfold discardAnswer
      dsimp only
      rcases B.discard departing w with ⟨e | _ | _, w'⟩ <;> simp [hmain, hne, Except.map]
  · unfold left
    rw [if_neg hdeparts]
    have hor : departing = defaultBranchId ∨ departing = restored.1.id := by tauto
    rcases hor with h | h <;> simp [h]

/-- A restore leaves all records active, unless it strands. -/
theorem restored_active (hB : B.ForksOnRequest) (hc : Consistent s.mgr) (hactive : s.mgr.AllActive)
    (snapshotId : String) :
    (B.strands snapshotId s = false → (B.restored snapshotId s).2.mgr.AllActive) ∧
      (B.strands snapshotId s = true → ¬ (B.restored snapshotId s).2.mgr.Usable) := by
  obtain ⟨departing, hdeparting⟩ := Dict.mem_keys_iff.mp hc.current
  have hid : departing.id = s.mgr.currentBranchId := hc.regular.ids _ _ hdeparting
  have hlookup : s.mgr.getBranchState none = .ok departing := by
    simp only [Manager.getBranchState, Option.getD_none, hdeparting]
  cases hfound : s.mgr.physicalAncestor snapshotId with
  | error e =>
    have hrun : B.restored snapshotId s = (.ok false, s) := by simp only [restored, hlookup, hfound]
    rw [hrun]
    exact ⟨fun _ => hactive, fun h => by simp [strands, hfound] at h⟩
  | ok found =>
    rcases hfork : B.fork snapshotId [none] (B.time s.world).2 with ⟨e | ⟨_ | ⟨restored, rest⟩⟩, w⟩
    · have hrun : (B.restored snapshotId s).2.mgr = s.mgr := by
        simp only [ForkableBackend.restored, hlookup, hfound, switched, materialized, hfork]
      rw [hrun]
      exact ⟨fun _ => hactive, fun h => by simp [strands, hfound, hfork] at h⟩
    · have hrun : (B.restored snapshotId s).2.mgr = s.mgr := by
        simp only [ForkableBackend.restored, hlookup, hfound, switched, materialized, hfork, List.map_nil, List.foldl_nil]
      rw [hrun]
      exact ⟨fun _ => hactive, fun h => by simp [strands, hfound, hfork] at h⟩
    · obtain rfl : rest = [] := by
        have hlength := hB _ _ _ _ _ hfork
        simpa using hlength
      have hstrands : B.strands snapshotId s = match (B.left s.mgr.currentBranchId restored.1.id
          ⟨switchedTo s.mgr restored, w⟩).1 with
          | .error _ => true
          | .ok _ => false := by
        rw [left_raises hc hactive rfl]
        simp only [strands, hfound, hfork]
      rw [hstrands, restored_of_fork hlookup hid hfound hfork]
      rcases hleft : B.left s.mgr.currentBranchId restored.1.id ⟨switchedTo s.mgr restored, w⟩ with ⟨e | _, s'⟩
      · have hsame : s'.mgr = switchedTo s.mgr restored := left_error hleft
        refine ⟨fun h => absurd h (by simp), fun _ => ?_⟩
        show ¬ s'.mgr.Usable
        rw [hsame]
        exact switchedTo_unusable s.mgr restored
      · refine ⟨fun _ => ?_, fun h => absurd h (by simp)⟩
        obtain ⟨hregular', hactive', hcurrent'⟩ :=
          left_active (s := ⟨switchedTo s.mgr restored, w⟩) (switchedTo_regular hc.regular restored)
            (switchedTo_active hc.regular hactive restored) rfl hleft
        dsimp only
        rw [hcurrent']
        exact hactive'.restoredTo hregular' snapshotId _

/-- An operation that is not a restore leaves all records active. -/
theorem active_prog (hc : Consistent s.mgr) (hactive : s.mgr.AllActive) {op : PublicOp} (hop : op.restoring = false) :
    ((PublicOp.prog B.hooks op).run s).2.mgr.AllActive := by
  have hupdates : Manager.Updates false s.mgr ((PublicOp.prog B.hooks op).run s).2.mgr := by
    rw [← hop]
    exact B.updates_prog op hc.regular hc.main
  have hboth : Consistent ((PublicOp.prog B.hooks op).run s).2.mgr ∧
      ((PublicOp.prog B.hooks op).run s).2.mgr.AllActive :=
    Manager.Updates.invariant (P := fun m => Consistent m ∧ m.AllActive)
      (fun _ _ hupdate h => ⟨h.1.update hupdate, h.2.update h.1.regular hupdate⟩) hupdates ⟨hc, hactive⟩
  exact hboth.2

/-! ### Runs -/

variable (B) in
/-- In every state of the run the current branch and the live branches can be used. -/
def AlwaysUsable : List PublicOp → Sys W → Prop
  | [], s => s.mgr.Usable
  | op :: ops, s => s.mgr.Usable ∧ AlwaysUsable ops ((PublicOp.prog B.hooks op).run s).2

variable (B) in
/-- No restore of the run strands. -/
def NeverStrands : List PublicOp → Sys W → Prop
  | [], _ => True
  | op :: ops, s =>
    (∀ id, op = .restore id → B.strands id s = false) ∧ NeverStrands ops ((PublicOp.prog B.hooks op).run s).2

/-- One operation: all records are active afterwards if it does not strand, and else the state cannot be used. -/
theorem prog_active_or_unusable (hB : B.ForksOnRequest) (hc : Consistent s.mgr) (hactive : s.mgr.AllActive)
    (op : PublicOp) :
    ((∀ id, op = .restore id → B.strands id s = false) ∧ ((PublicOp.prog B.hooks op).run s).2.mgr.AllActive) ∨
      ((∃ id, op = .restore id ∧ B.strands id s = true) ∧ ¬ ((PublicOp.prog B.hooks op).run s).2.mgr.Usable) := by
  cases hop : op.restoring with
  | false =>
    refine .inl ⟨fun id h => ?_, active_prog hc hactive hop⟩
    rw [h] at hop
    exact absurd hop (by simp [PublicOp.restoring])
  | true =>
    obtain ⟨id, rfl⟩ := PublicOp.eq_restore hop
    obtain ⟨hstays, hstrands⟩ := restored_active hB hc hactive id
    have hrun : ((PublicOp.prog B.hooks (.restore id)).run s).2 = (B.restored id s).2 := by
      show ((Outcome.flag <$> restore B.hooks.toHooks id).run s).2 = _
      rw [run_map, B.run_restore id hc.regular]
    rw [hrun]
    cases hcase : B.strands id s with
    | false =>
      refine .inl ⟨fun id' h => ?_, hstays hcase⟩
      cases h
      exact hcase
    | true => exact .inr ⟨⟨id, rfl, hcase⟩, hstrands hcase⟩

end ForkableBackend

open ForkableBackend ForkableEnvironmentManager in
/-- For every backend whose hooks may fail or raise at any call, and every sequence of operations: the current branch
and the live branches can be used in every state of the run, if and only if no restore of the run materializes a
branch and then calls a discard hook that raises. -/
theorem alwaysUsable_iff {W : Type} (B : ForkableBackend W) (hB : B.ForksOnRequest) (s₀ : Sys W)
    (h₀ : Consistent s₀.mgr) (hactive₀ : s₀.mgr.AllActive) (ops : List PublicOp) :
    B.AlwaysUsable ops s₀ ↔ B.NeverStrands ops s₀ := by
  induction ops generalizing s₀ with
  | nil => exact ⟨fun _ => trivial, fun _ => hactive₀.usable h₀⟩
  | cons op ops ih =>
    have hnext := consistent_prog (B := B) h₀ op
    rcases prog_active_or_unusable hB h₀ hactive₀ op with ⟨hstays, hactive⟩ | ⟨⟨id, hop, hstrands⟩, hunusable⟩
    · have hrest := ih _ hnext hactive
      exact ⟨fun h => ⟨hstays, hrest.mp h.2⟩, fun h => ⟨hactive₀.usable h₀, hrest.mpr h.2⟩⟩
    · constructor
      · intro h
        have husable : ((PublicOp.prog B.hooks op).run s₀).2.mgr.Usable := by
          have hrest := h.2
          cases ops with
          | nil => exact hrest
          | cons op' ops => exact hrest.1
        exact absurd husable hunusable
      · intro h
        have hfalse := h.1 id hop
        rw [hstrands] at hfalse
        exact absurd hfalse (by simp)

/-- A manager that has just been attached has one branch, and it is active. -/
theorem Manager.seeded_allActive (root resource : String) : (Manager.seeded root resource).AllActive := by
  intro b r hr
  have hget : (Manager.seeded root resource).branches = Dict.empty.set defaultBranchId ⟨defaultBranchId, 0⟩ := rfl
  rw [hget, Dict.get?_set] at hr
  split_ifs at hr
  · obtain rfl := Option.some.inj hr
    rfl
  · cases hr

theorem Fleet.fork_length (snapshotId : String) (requests : List (Option String)) (w : Fleet) :
    (Fleet.fork snapshotId requests w).1.length ≤ requests.length := by
  induction requests generalizing w with
  | nil => exact Nat.le_refl 0
  | cons request requests ih =>
    have hrest := ih (Fleet.materialize snapshotId request w).2
    rw [Fleet.fork, List.length_append, List.length_cons]
    have hone : ((Fleet.materialize snapshotId request w).1.map fun b => (b, (1 : ℚ))).toList.length ≤ 1 := by
      cases (Fleet.materialize snapshotId request w).1 <;> simp
    omega

theorem Fleet.backend_forksOnRequest (refreshes : Bool) : (Fleet.backend refreshes).ForksOnRequest := by
  intro id ids w outcomes w' h
  cases h
  exact Fleet.fork_length id ids w

/-- Two restores of a fleet whose branches are destroyed by nobody else. -/
theorem alwaysUsable_twoRestores :
    (Fleet.backend false).AlwaysUsable [.restore "base", .restore "base"] (Fleet.start ["3f2a", "9c41"] []) := by
  refine (alwaysUsable_iff (Fleet.backend false) (Fleet.backend_forksOnRequest false) (Fleet.start ["3f2a", "9c41"] [])
    (.seeded "base" "base") (Manager.seeded_allActive "base" "base") _).mpr ?_
  refine ⟨fun id h => ?_, fun id h => ?_, trivial⟩
  · cases h
    decide +kernel
  · cases h
    decide +kernel

/-- The fleet without the program that destroys its branches. -/
def Fleet.unarmed : ForkableBackend Fleet :=
  { Fleet.backend false with discard := fun _ w => (.error ⟨.osError, "[Errno 2] No such file or directory: 'waypoint'"⟩, w) }

open ForkableEnvironmentManager in
/-- The second restore leaves a branch whose destroy hook raises: the current branch is live, but it runs no command. -/
theorem not_alwaysUsable_unarmed :
    ¬ Fleet.unarmed.AlwaysUsable [.restore "base", .restore "base"] (Fleet.start ["3f2a", "9c41"] []) ∧
      (let s := runOps Fleet.unarmed.hooks [.restore "base", .restore "base"] (Fleet.start ["3f2a", "9c41"] [])
       s.mgr.currentBranchId = "9c41" ∧ "9c41" ∈ s.mgr.liveBranches.keys ∧
         ((PublicOp.prog Fleet.unarmed.hooks (.execCommand (.line "ls") none)).run s).1.toOption =
           some (.exec (-1) "" "Branch 9c41 is no longer active.")) := by
  refine ⟨?_, by decide +kernel, by decide +kernel, by decide +kernel⟩
  rintro ⟨-, -, ⟨r, hr, hactive⟩, -⟩
  have hinactive : (runOps Fleet.unarmed.hooks [.restore "base", .restore "base"]
      (Fleet.start ["3f2a", "9c41"] [])).mgr.branches.get? "9c41" = some ⟨"9c41", 2⟩ := by decide +kernel
  cases hr
  exact absurd hactive (by decide +kernel)

end StateFork
