import StateFork.Forkable.Consistency
import StateFork.Forkable.Teardown
import StateFork.Sequential.Attach
import StateFork.Sequential.ToolFailures
import StateFork.Waypoint.Hydrate

/-!
# Attaching to a session

`WaypointAttachManager.__init__` on a `SessionHost`, and when each of the five constructors that attach leaves the
environment alone (`leavesAlone_iff`).
-/

namespace StateFork

open Conc Conc.Prog

namespace Manager

/-- The second pass finds every entry. -/
theorem linkEntry_ok {graph : Dict String SnapshotNode} {id : String} (hid : id ∈ graph.keys) :
    ∃ graph', linkEntry graph id = .ok graph' ∧ ∀ k, k ∈ graph'.keys ↔ k ∈ graph.keys := by
  obtain ⟨node, hnode⟩ := Dict.mem_keys_iff.mp hid
  unfold linkEntry
  rw [hnode]
  dsimp only
  split
  · exact ⟨graph, rfl, fun _ => Iff.rfl⟩
  · split_ifs
    · exact ⟨graph, rfl, fun _ => Iff.rfl⟩
    · split
      · exact ⟨graph, rfl, fun _ => Iff.rfl⟩
      · next p _ _ _ parent hparent =>
        split_ifs
        · exact ⟨graph, rfl, fun _ => Iff.rfl⟩
        · refine ⟨_, rfl, fun k => ?_⟩
          rw [Dict.mem_keys_set]
          exact or_iff_right_of_imp fun hk => hk ▸ Dict.mem_keys_of_get? hparent

theorem linkEntries_ok {graph : Dict String SnapshotNode} {ids : List String} (hids : ∀ id ∈ ids, id ∈ graph.keys) :
    (linkEntries ids graph).1 = .ok () := by
  induction ids generalizing graph with
  | nil => rfl
  | cons id ids ih =>
    obtain ⟨graph', hfirst, hkeys⟩ := linkEntry_ok (hids id (List.mem_cons_self ..))
    unfold linkEntries
    rw [hfirst]
    exact ih fun id' hid' => (hkeys id').mpr (hids id' (List.mem_cons_of_mem _ hid'))

theorem mem_keys_hydrateAll (entries : List Checkpoint) {m : Manager} {id : String} :
    id ∈ (entries.foldl hydrate m).snapshotGraph.keys ↔ id ∈ entries.map Checkpoint.id ∨ id ∈ m.snapshotGraph.keys := by
  induction entries generalizing m with
  | nil => simp
  | cons entry entries ih =>
    rw [List.foldl_cons, ih, mem_keys_hydrate, List.map_cons, List.mem_cons]
    tauto

end Manager

namespace WaypointAttachManager

open EnvironmentManager ForkableEnvironmentManager

variable {W : Type} (B : WaypointBackend W)

/-- The snapshot hook calls the backend's, and lists after a capture: whether it captures, and the world in which it
ends. -/
def captured (branchId : String) (w : W) : Bool × W :=
  match B.snapshot branchId w with
  | (.ok (some _, _), w) =>
    if B.refreshes then
      match B.list w with
      | (.error _, w) => (false, w)
      | (.ok _, w) => (true, w)
    else (true, w)
  | (_, w) => (false, w)

/-- The constructor calls the hooks one after the other, until one of them raises: whether it gets through, and the
world in which it ends. -/
def answered (w : W) : Bool × W :=
  match B.checkpoints w with
  | (.error _, w) => (false, w)
  | (.ok _, w) =>
    match B.list w with
    | (.error _, w) => (false, w)
    | (.ok _, w) => captured B defaultBranchId w

/-- What the calls of the hooks keep. -/
theorem answered_keeps {Q : W → Prop} (hcheckpoints : ∀ w, Q w → Q (B.checkpoints w).2) (hlist : ∀ w, Q w → Q (B.list w).2)
    (hsnapshot : ∀ w, Q w → Q (B.snapshot defaultBranchId w).2) {w : W} (hw : Q w) : Q (answered B w).2 := by
  unfold answered captured
  have h₁ := hcheckpoints w hw
  rcases hr₁ : B.checkpoints w with ⟨e | _, w₁⟩
  all_goals rw [hr₁] at h₁
  · exact h₁
  · have h₂ := hlist w₁ h₁
    dsimp only
    rcases hr₂ : B.list w₁ with ⟨e | _, w₂⟩
    all_goals rw [hr₂] at h₂
    · exact h₂
    · have h₃ := hsnapshot w₂ h₂
      dsimp only
      rcases hr₃ : B.snapshot defaultBranchId w₂ with ⟨e | ⟨_ | _, elapsed⟩, w₃⟩
      all_goals rw [hr₃] at h₃
      · exact h₃
      · exact h₃
      · have h₄ := hlist w₃ h₃
        dsimp only
        split_ifs
        · rcases hr₄ : B.list w₃ with ⟨e | _, w₄⟩
          all_goals rw [hr₄] at h₄
          · exact h₄
          · exact h₄
        · exact h₃

/-- A synchronization raises exactly if the listing does. -/
theorem syncSnapshotTree_cases (s : Sys W) :
    (∃ e w, B.checkpoints s.world = (.error e, w) ∧ (syncSnapshotTree B).run s = (.error e, { s with world := w })) ∨
    ∃ listing w added m, B.checkpoints s.world = (.ok listing, w) ∧ (syncSnapshotTree B).run s = (.ok added, ⟨m, w⟩) ∧
      s.mgr.TreeOnly m := by
  simp only [syncSnapshotTree, run_bind, run_tryWorld]
  rcases B.checkpoints s.world with ⟨e | ⟨_ | checkpoints⟩, w⟩
  · exact .inl ⟨e, w, rfl, rfl⟩
  · exact .inr ⟨none, w, 0, s.mgr, rfl, rfl, s.mgr.snapshots, s.mgr.snapshotGraph, rfl⟩
  · rw [run_afterValue_ok]
    dsimp only
    generalize (checkpoints.filter fun c => c.id ≠ "") = entries
    obtain ⟨added, hloop⟩ := run_hydrateAll entries ⟨s.mgr, w⟩
    have hall (id : String) (hid : id ∈ entries.map Checkpoint.id) :
        id ∈ (entries.foldl Manager.hydrate s.mgr).snapshotGraph.keys :=
      (Manager.mem_keys_hydrateAll entries).mpr (.inl hid)
    have hlinked : ((entries.foldl Manager.hydrate s.mgr).linkChildren (entries.map Checkpoint.id)).1 = .ok () :=
      Manager.linkEntries_ok hall
    refine .inr ⟨some checkpoints, w, (added.filter id).length,
      ((entries.foldl Manager.hydrate s.mgr).linkChildren (entries.map Checkpoint.id)).2, rfl, ?_, ?_⟩
    · simp only [run_bind, hloop, run_afterValue_ok, run_tryState, hlinked]
      rfl
    · obtain ⟨snapshots, graph, honly⟩ := treeOnly_hydrateAll entries s.mgr
      rw [honly]
      exact ⟨snapshots, _, rfl⟩

theorem listBranches_cases (refresh : M W Unit) (s : Sys W) :
    (∃ e w, B.list s.world = (.error e, w) ∧
      (listBranches (B.hooksWith refresh)).run s = (.error e, { s with world := w })) ∨
    ∃ listing w branches m, B.list s.world = (.ok listing, w) ∧
      (listBranches (B.hooksWith refresh)).run s = (.ok branches, ⟨m, w⟩) ∧
      m.currentBranchId = s.mgr.currentBranchId := by
  obtain ⟨hstate, hraises⟩ := B.run_listBranches refresh s
  unfold ForkableBackend.afterListing at hstate
  rcases hlist : B.list s.world with ⟨e | listing, w⟩
  · refine .inl ⟨e, w, rfl, ?_⟩
    simp only [listBranches, listBranchesBody, run_withLock, run_bind, ForkableBackend.hooksWith, run_tryWorld, hlist]
    rfl
  · rw [hlist] at hstate hraises
    rcases hrun : (listBranches (B.hooksWith refresh)).run s with ⟨e | branches, s'⟩
    · rw [hrun] at hraises
      cases hraises e rfl
    · rw [hrun] at hstate
      cases listing with
      | none =>
        exact .inr ⟨none, w, branches, s.mgr, rfl, congrArg (Prod.mk _) hstate, rfl⟩
      | some listing =>
        obtain ⟨-, -, hcurrent, -⟩ := s.mgr.relist_spec listing
        exact .inr ⟨some listing, w, branches, s.mgr.relist listing, rfl, congrArg (Prod.mk _) hstate, hcurrent⟩

theorem run_coreSnapshot (b : String) (s : Sys W) :
    ((B.hooks.coreSnapshot b).run s).2.world = (captured B b s.world).2 ∧
      ((∃ id elapsed, ((B.hooks.coreSnapshot b).run s).1 = .ok (some id, elapsed)) ↔ (captured B b s.world).1 = true) := by
  unfold ForkableBackend.hooks ForkableBackend.hooksWith captured
  dsimp only
  rw [run_bind, run_tryWorld]
  rcases B.snapshot b s.world with ⟨e | ⟨_ | ⟨id, resource⟩, elapsed⟩, w⟩
  · refine ⟨rfl, iff_of_false ?_ Bool.false_ne_true⟩
    rintro ⟨_, _, h⟩
    cases h
  · refine ⟨rfl, iff_of_false ?_ Bool.false_ne_true⟩
    rintro ⟨_, _, h⟩
    cases h
  · simp only [run_afterValue_ok, ForkableBackend.register, registerSnapshotResource, run_bind, run_updateState, run_pure,
      Option.isSome_some, if_true, ForkableBackend.refresh]
    by_cases hrefreshes : B.refreshes = true
    · rw [if_pos hrefreshes, if_pos hrefreshes, run_bind]
      rcases listBranches_cases B (pure ()) ⟨s.mgr.registerSnapshotResource id resource, w⟩ with
        ⟨e, w', hlist, hrun⟩ | ⟨branches, w', r, m, hlist, hrun, -⟩
      · rw [hrun, show B.list w = _ from hlist]
        refine ⟨rfl, iff_of_false ?_ Bool.false_ne_true⟩
        rintro ⟨_, _, h⟩
        cases h
      · rw [hrun, show B.list w = _ from hlist]
        exact ⟨rfl, iff_of_true ⟨id, elapsed, rfl⟩ rfl⟩
    · rw [if_neg hrefreshes, if_neg hrefreshes]
      exact ⟨rfl, iff_of_true ⟨id, elapsed, rfl⟩ rfl⟩

theorem run_attach (w : W) :
    ((attach B).run ⟨Manager.init, w⟩).2.world = (answered B w).2 ∧
      (((attach B).run ⟨Manager.init, w⟩).1 = .ok () ↔ (answered B w).1 = true) := by
  unfold attach answered
  rcases syncSnapshotTree_cases B ⟨Manager.init, w⟩ with
    ⟨e, w₁, hcheckpoints, hsync⟩ | ⟨listing, w₁, added, m₁, hcheckpoints, hsync, honly⟩
  · rw [run_bind_error hsync, show B.checkpoints w = _ from hcheckpoints]
    simp
  · rw [run_bind_ok hsync, show B.checkpoints w = _ from hcheckpoints]
    dsimp only
    rcases listBranches_cases B B.refresh ⟨m₁, w₁⟩ with ⟨e, w₂, hlist, hrun⟩ | ⟨branches, w₂, r, m₂, hlist, hrun, hcurrent⟩
    · rw [ForkableBackend.hooks, run_bind_error hrun, show B.list w₁ = _ from hlist]
      simp
    · rw [ForkableBackend.hooks, run_bind_ok hrun, show B.list w₁ = _ from hlist, ← ForkableBackend.hooks]
      obtain ⟨snapshots, graph, rfl⟩ := honly
      obtain ⟨hworld, hcaptures⟩ := run_coreSnapshot B defaultBranchId ⟨m₂, w₂⟩
      have hmain : m₂.currentBranchId = defaultBranchId := hcurrent
      simp only [run_bind, run_readState, run_afterValue_ok, getCurrentBranchId, hmain]
      rcases hsnapshot : (B.hooks.coreSnapshot defaultBranchId).run ⟨m₂, w₂⟩ with ⟨e | ⟨_ | id, elapsed⟩, s⟩
      all_goals rw [hsnapshot] at hworld hcaptures
      · refine ⟨hworld, iff_of_false (fun h => by cases h) fun h => ?_⟩
        obtain ⟨_, _, hok⟩ := hcaptures.mpr h
        cases hok
      · refine ⟨hworld, iff_of_false (fun h => by cases h) fun h => ?_⟩
        obtain ⟨_, _, hok⟩ := hcaptures.mpr h
        cases hok
      · have hdone : (captured B defaultBranchId w₂).1 = true := hcaptures.mp ⟨id, elapsed, rfl⟩
        simp only [run_afterValue_ok, run_bind, run_readState]
        by_cases hknown : id ∈ s.mgr.snapshotGraph.keys
        · simp only [hknown, decide_true, Bool.not_true, Bool.false_eq_true, if_false, run_afterValue_ok, run_bind,
            run_readState, ForkableEnvironmentManager.run_setBranchPosition, run_updateState]
          exact ⟨hworld, iff_of_true trivial hdone⟩
        · simp only [hknown, decide_false, Bool.not_false, if_true, EnvironmentManager.recordSnapshotNode, run_updateState,
            run_afterValue_ok, run_bind, run_readState, ForkableEnvironmentManager.run_setBranchPosition]
          exact ⟨hworld, iff_of_true trivial hdone⟩

theorem keepsFlag_attach {P : Bool → Prop} : KeepsFlag P (attach B) := by
  have hhydrate (entry : Checkpoint) : KeepsFlag P (hydrate entry : M W Bool) := by
    refine keeps_bind (keepsView_updateState fun _ => rfl) fun _ => keeps_bind (reads_readState _).keeps fun known => ?_
    split
    · exact keeps_ret _
    · exact keeps_bind (keepsView_updateState fun _ => rfl) fun _ => keeps_ret _
  have hsync : KeepsFlag P (syncSnapshotTree B) := by
    refine keeps_bind (leaves_tryWorld _ _).leavesView.keeps fun listing => ?_
    cases listing with
    | none => exact keeps_ret _
    | some checkpoints =>
      refine keeps_bind (keeps_collect hhydrate _) fun added => ?_
      exact keeps_bind (keepsView_tryState fun _ => rfl) fun _ => keeps_ret _
  refine keeps_bind hsync fun _ => keeps_bind (keepsView_listBranches inert_isCleanedUp B.hooks_leave) fun _ => ?_
  refine keeps_bind (reads_readState _).keeps fun parentId => keeps_bind reads_getCurrentBranchId.keeps fun current => ?_
  refine keeps_bind (B.hooks_leaveFlag.snapshot current).keeps fun answer => ?_
  obtain ⟨_ | id, elapsed⟩ := answer
  · exact hoare_throw fun _ hs => hs
  · have hrest : KeepsFlag P (do
        let current ← getCurrentBranchId
        setBranchPosition current (some id)
        updateState fun m => m.keepMinimal m.currentBranchId id : M W Unit) := by
      refine keeps_bind reads_getCurrentBranchId.keeps fun current => ?_
      refine keeps_bind (keepsView_setBranchPosition inert_isCleanedUp) fun _ => keepsView_updateState fun m => ?_
      unfold Manager.keepMinimal
      split_ifs <;> rfl
    refine keeps_bind (reads_readState _).keeps fun known => ?_
    split
    · exact keeps_bind (keepsView_updateState fun _ => rfl) fun _ => hrest
    · exact hrest

end WaypointAttachManager

/-- The host of the `waypoint` binary. -/
structure SessionHost (W : Type) extends AttachHost W where
  waypointBin : String
  stateforkRoot : String
  /-- `os.path.isfile` and `os.access` of the binary. -/
  executable : W → Bool × W
  /-- `subprocess.run` of the binary, behind `WAYPOINT_CMD_PREFIX`. -/
  launch (args : List String) : W → Except PyError (Int × String × String) × W
  /-- What the binary prints without arguments. -/
  usage : W → Except PyError String × W
  /-- The checkpoints in the output of `waypoint list --json`, unless it is not JSON; reading an entry may raise. -/
  checkpointsOf (stdout : String) : Except PyError (Option (List Checkpoint))
  forksOf (stdout : String) : Except PyError (Option (List EnvironmentBranch))
  /-- The hooks that no constructor calls. -/
  others : ForkableBackend W

namespace SessionHost

variable {W : Type} (H : SessionHost W)

def binaryNotFound : PyError :=
  ⟨.osError, "Waypoint binary not found or not executable: " ++ H.waypointBin ++
    ". Install Waypoint (https://github.com/Alex-XJK/waypoint) and either put it on PATH, set the WAYPOINT_BIN " ++
    "environment variable, or symlink it into " ++ H.stateforkRoot ++ "."⟩

def runWaypoint (args : List String) (w : Attaching W) : Except PyError (Int × String × String) × Attaching W :=
  let (found, w) := Attaching.unlogged H.executable w
  if found then Attaching.logged (.waypoint args) (H.launch args) w else (.error H.binaryNotFound, w)

/-- `_run_waypoint` with `check=True`: no output on a `CalledProcessError`, which all callers handle. -/
def checkWaypoint (args : List String) (w : Attaching W) : Except PyError (Option String) × Attaching W :=
  match H.runWaypoint args w with
  | (.error e, w) => (.error e, w)
  | (.ok (status, stdout, _), w) => (.ok (if status = 0 then some stdout else none), w)

variable (sessionId : String)

/-- `_snapshot_waypoint` -/
def snapshotWaypoint (park : Bool) (branchId : String) (w : Attaching W) :
    Except PyError (Option (String × String) × ℚ) × Attaching W :=
  let (hex, w) := Attaching.unlogged H.uuid4Hex w
  let snapshotId := (hex.take 8).toString
  let (start, w) := Attaching.unlogged H.time w
  match H.checkWaypoint (["snapshot", sessionId, branchId, snapshotId] ++ if park then ["--park"] else []) w with
  | (.error e, w) => (.error e, w)
  | (.ok none, w) => (.ok (none, 0), w)
  | (.ok (some _), w) =>
    let (stop, w) := Attaching.unlogged H.time w
    (.ok (some (snapshotId, snapshotId), stop - start), w)

/-- The part of `waypoint list --json` that a hook reads. -/
def listing {α : Type} (read : String → Except PyError (Option α)) (w : Attaching W) :
    Except PyError (Option α) × Attaching W :=
  match H.checkWaypoint ["list", sessionId, "--json"] w with
  | (.error e, w) => (.error e, w)
  | (.ok none, w) => (.ok none, w)
  | (.ok (some stdout), w) => (read stdout, w)

def coreCleanup (w : Attaching W) : Except PyError (Option Bool) × Attaching W :=
  match H.checkWaypoint ["cleanup", sessionId] w with
  | (.error e, w) => (.error e, w)
  | (.ok (some _), w) => (.ok (some true), w)
  | (.ok none, w) =>
    match H.checkWaypoint ["cleanup", sessionId, "--force"] w with
    | (.error e, w) => (.error e, w)
    | (.ok stdout, w) => (.ok (some stdout.isSome), w)

def backend : WaypointBackend (Attaching W) where
  snapshot := H.snapshotWaypoint sessionId false
  refreshes := true
  exec command timeout branchId := Attaching.unlogged (H.others.exec command timeout branchId)
  copy branchId hostPath envPath into := Attaching.unlogged (H.others.copy branchId hostPath envPath into)
  fork snapshotId requestedIds := Attaching.unlogged (H.others.fork snapshotId requestedIds)
  discard branchId := Attaching.unlogged (H.others.discard branchId)
  park := H.snapshotWaypoint sessionId true
  list := H.listing sessionId H.forksOf
  cleanup := H.coreCleanup sessionId
  time := Attaching.unlogged H.time
  uuid4Hex := Attaching.unlogged H.uuid4Hex
  checkpoints := H.listing sessionId H.checkpointsOf

/-- The usage banner names the `fork` command. -/
def SupportsForking (usage : String) : Prop :=
  "Materialize live fork".toList <:+: usage.toList ∨ "fork <session>".toList <:+: usage.toList

instance (usage : String) : Decidable (SupportsForking usage) := inferInstanceAs (Decidable (_ ∨ _))

/-- `_assert_supports_forking`; `cached` is `_forking_supported`. -/
def assertSupportsForking (cached : Bool) : M (Attaching W) Unit :=
  if cached then return ()
  else do
    let found ← world (Attaching.unlogged H.executable)
    if !found then throw H.binaryNotFound
    let usage ← tryWorld (Attaching.unlogged H.usage) fun _ => []
    if ¬ SupportsForking usage then
      throw ⟨.runtimeError, "The Waypoint binary at " ++ H.waypointBin ++
        " does not support concurrent forking (no `fork` command). StateFork's Waypoint backend now requires the " ++
        "fork-based Waypoint. Update the binary or point WAYPOINT_BIN at a fork-capable build."⟩

/-- `WaypointAttachManager.__init__`, after the base constructor. -/
def init (cached : Bool) : M (Attaching W) Unit := do
  (H.assertSupportsForking cached).tryCatch fun e => do
    poke fun m => { m with isCleanedUp := true }
    throw e
  WaypointAttachManager.attach (H.backend sessionId)

/-- `_validate_decider`; whether the decider is an `AlwaysTrueDecider`, if there is one. -/
def validateDecider (alwaysTrue : Option Bool) : Except PyError Unit :=
  if alwaysTrue = some false then
    .error ⟨.valueError, "Forkable environment managers currently require AlwaysTrueDecider (physical snapshots only)."⟩
  else .ok ()

def construction (alwaysTrue : Option Bool) (cached : Bool) : Except PyError (Construction W) :=
  match validateDecider alwaysTrue with
  | .error e => .error e
  | .ok () => .ok { init := H.init sessionId cached, coreCleanup := (H.backend sessionId).hooks.coreCleanup }

/-- The world behind the check of the binary, if it passes. -/
def probed (cached : Bool) (w : W) : Option W :=
  if cached then some w
  else
    match H.executable w with
    | (false, _) => none
    | (true, w) =>
      match H.usage w with
      | (.error _, _) => none
      | (.ok usage, w) => if SupportsForking usage then some w else none

/-- The decider is rejected before the base constructor, the binary does not pass, the session answers throughout, or the
binary is gone when the constructor raises. -/
def Spares (alwaysTrue : Option Bool) (cached : Bool) (host : W) : Prop :=
  alwaysTrue = some false ∨ ∀ w, H.probed cached host = some w →
    (WaypointAttachManager.answered (H.backend sessionId) { host := w }).1 = true ∨
      (H.executable (WaypointAttachManager.answered (H.backend sessionId) { host := w }).2.host).1 = false

/-! ### The check of the binary -/

theorem assertSupportsForking_cases (cached : Bool) (m : Manager) (w : Attaching W) :
    (∃ host, H.probed cached w.host = some host ∧
      (H.assertSupportsForking cached).run ⟨m, w⟩ = (.ok (), ⟨m, { w with host }⟩)) ∨
    (H.probed cached w.host = none ∧ ∃ e host,
      (H.assertSupportsForking cached).run ⟨m, w⟩ = (.error e, ⟨m, { w with host }⟩)) := by
  unfold assertSupportsForking probed
  cases cached with
  | true => exact .inl ⟨w.host, rfl, rfl⟩
  | false =>
    simp only [Bool.false_eq_true, if_false, run_bind, run_world, run_afterValue_ok, Attaching.unlogged]
    rcases H.executable w.host with ⟨_ | _, w₁⟩
    · exact .inr ⟨rfl, H.binaryNotFound, w₁, rfl⟩
    · simp only [Bool.not_true, Bool.false_eq_true, if_false, run_bind, run_tryWorld, Attaching.unlogged]
      rcases H.usage w₁ with ⟨e | usage, w₂⟩
      · exact .inr ⟨rfl, e, w₂, rfl⟩
      · rw [run_afterValue_ok]
        by_cases hsupports : SupportsForking usage
        · rw [if_neg (not_not_intro hsupports)]
          exact .inl ⟨w₂, if_pos hsupports, rfl⟩
        · rw [if_pos hsupports]
          exact .inr ⟨if_neg hsupports, _, w₂, rfl⟩

/-! ### The log of a session -/

theorem issued_checkWaypoint (args : List String) (w : Attaching W) :
    (H.checkWaypoint args w).2.issued = w.issued ++ if (H.executable w.host).1 then [.waypoint args] else [] := by
  unfold checkWaypoint runWaypoint Attaching.unlogged
  dsimp only
  rcases H.executable w.host with ⟨_ | _, w₁⟩
  · exact (List.append_nil _).symm
  · rw [if_pos rfl, if_pos rfl]
    unfold Attaching.logged
    rcases H.launch args w₁ with ⟨e | ⟨status, stdout, stderr⟩, w₂⟩
    · rfl
    · rfl

theorem unharmed_checkWaypoint {args : List String} (hargs : args.take 1 ≠ ["cleanup"]) {w : Attaching W} (h : w.Unharmed) :
    (H.checkWaypoint args w).2.Unharmed := by
  intro a ha
  rw [issued_checkWaypoint, List.mem_append] at ha
  rcases ha with ha | ha
  · exact h a ha
  · split_ifs at ha
    · rw [List.mem_singleton.mp ha]
      exact decide_eq_false hargs
    · cases ha

theorem unharmed_listing {α : Type} (read : String → Except PyError (Option α)) {w : Attaching W} (h : w.Unharmed) :
    (H.listing sessionId read w).2.Unharmed := by
  have hworld : (H.listing sessionId read w).2 = (H.checkWaypoint ["list", sessionId, "--json"] w).2 := by
    unfold listing
    rcases H.checkWaypoint ["list", sessionId, "--json"] w with ⟨e | _ | stdout, w'⟩
    · rfl
    · rfl
    · rfl
  rw [hworld]
  exact H.unharmed_checkWaypoint (by simp) h

theorem unharmed_snapshotWaypoint (b : String) {w : Attaching W} (h : w.Unharmed) :
    (H.snapshotWaypoint sessionId false b w).2.Unharmed := by
  unfold snapshotWaypoint
  dsimp only
  have hcheck (snapshotId : String) :
      (H.checkWaypoint (["snapshot", sessionId, b, snapshotId] ++ if false then ["--park"] else [])
        (Attaching.unlogged H.time (Attaching.unlogged H.uuid4Hex w).2).2).2.Unharmed :=
    H.unharmed_checkWaypoint (by simp) h
  specialize hcheck ((Attaching.unlogged H.uuid4Hex w).1.take 8).toString
  rcases hanswer : H.checkWaypoint _ _ with ⟨e | _ | stdout, w'⟩
  all_goals rw [hanswer] at hcheck
  · exact hcheck
  · exact hcheck
  · exact hcheck

theorem coreCleanup_of_gone {w : Attaching W} (h : (H.executable w.host).1 = false) :
    (H.coreCleanup sessionId w).2.issued = w.issued := by
  unfold coreCleanup checkWaypoint runWaypoint Attaching.unlogged
  dsimp only
  rcases hfound : H.executable w.host with ⟨_ | _, w'⟩
  · rfl
  · rw [hfound] at h
    cases h

theorem mem_coreCleanup {w : Attaching W} (h : (H.executable w.host).1 = true) :
    .waypoint ["cleanup", sessionId] ∈ (H.coreCleanup sessionId w).2.issued := by
  have hfirst : .waypoint ["cleanup", sessionId] ∈ (H.checkWaypoint ["cleanup", sessionId] w).2.issued := by
    rw [issued_checkWaypoint, h, if_pos rfl]
    exact List.mem_append_right _ (List.mem_singleton_self _)
  unfold coreCleanup
  rcases hanswer : H.checkWaypoint ["cleanup", sessionId] w with ⟨e | _ | stdout, w'⟩
  all_goals rw [hanswer] at hfirst
  · exact hfirst
  · have hsecond : .waypoint ["cleanup", sessionId] ∈ (H.checkWaypoint ["cleanup", sessionId, "--force"] w').2.issued := by
      rw [issued_checkWaypoint]
      exact List.mem_append_left _ hfirst
    dsimp only
    rcases hforced : H.checkWaypoint ["cleanup", sessionId, "--force"] w' with ⟨e | stdout, w''⟩
    all_goals rw [hforced] at hsecond
    · exact hsecond
    · exact hsecond
  · exact hfirst

/-! ### When the session is left alone -/

theorem leavesAlone_iff (alwaysTrue : Option Bool) (cached : Bool) (host : W) :
    LeavesAlone (H.construction sessionId alwaysTrue cached) host ↔ H.Spares sessionId alwaysTrue cached host := by
  unfold construction Spares validateDecider
  by_cases hdecider : alwaysTrue = some false
  · rw [if_pos hdecider]
    exact iff_of_true (leavesAlone_error _ host) (.inl hdecider)
  · rw [if_neg hdecider, or_iff_right hdecider]
    dsimp only
    rcases H.assertSupportsForking_cases cached Manager.init { host } with ⟨w, hprobed, hprobe⟩ | ⟨hprobed, e, w, hprobe⟩
    · have hinit : (H.init sessionId cached).run ⟨Manager.init, { host }⟩ =
          (WaypointAttachManager.attach (H.backend sessionId)).run ⟨Manager.init, { host := w }⟩ := by
        unfold init Prog.tryCatch
        rw [run_bind, run_andThen, hprobe]
        rfl
      have hspares (P : W → Prop) : (∀ w', H.probed cached host = some w' → P w') ↔ P w := by
        rw [show H.probed cached host = some w from hprobed]
        exact ⟨fun h => h w rfl, fun h w' hw' => Option.some.inj hw' ▸ h⟩
      rw [hspares]
      obtain ⟨hworld, hok⟩ := WaypointAttachManager.run_attach (H.backend sessionId) { host := w }
      have hflag : KeepsFlag (· = false) (WaypointAttachManager.attach (H.backend sessionId)) :=
        WaypointAttachManager.keepsFlag_attach _
      have hfalse := hflag ⟨Manager.init, { host := w }⟩ rfl
      rcases hrun : (WaypointAttachManager.attach (H.backend sessionId)).run ⟨Manager.init, { host := w }⟩ with ⟨e | _, s⟩
      all_goals rw [hrun] at hworld hok hfalse
      · have hnot : ¬ (WaypointAttachManager.answered (H.backend sessionId) { host := w }).1 = true := fun h => by
          cases hok.mpr h
        have hunharmed : s.world.Unharmed := by
          rw [show s.world = _ from hworld]
          refine WaypointAttachManager.answered_keeps _ (fun _ => H.unharmed_listing sessionId _)
            (fun _ => H.unharmed_listing sessionId _) (fun _ => H.unharmed_snapshotWaypoint sessionId _) fun a ha => ?_
          cases ha
        have hcleanup : ((H.backend sessionId).hooks.coreCleanup.run s).2.world = (H.coreCleanup sessionId s.world).2 :=
          congrArg (·.2.world) (run_tryWorld (H.coreCleanup sessionId) (fun _ => []) s)
        rw [or_iff_right hnot, ← show s.world = _ from hworld]
        cases hgone : (H.executable s.world.host).1 with
        | false =>
          refine iff_of_true ?_ rfl
          rw [leavesAlone_iff_of_error (hinit.trans hrun), EnvironmentManager.world_del, show s.mgr.isCleanedUp = false from hfalse]
          show ((H.backend sessionId).hooks.coreCleanup.run s).2.world.Unharmed
          rw [hcleanup, Attaching.Unharmed, H.coreCleanup_of_gone sessionId hgone]
          exact hunharmed
        | true =>
          refine iff_of_false ?_ Bool.noConfusion
          exact not_leavesAlone (hinit.trans hrun) hfalse (hcleanup ▸ H.mem_coreCleanup sessionId hgone) rfl
      · refine iff_of_true (leavesAlone_of_ok ?_) (.inl (hok.mp rfl))
        exact congrArg Prod.fst (hinit.trans hrun)
    · have hinit : (H.init sessionId cached).run ⟨Manager.init, { host }⟩ =
          (.error e, ⟨{ Manager.init with isCleanedUp := true }, { host := w }⟩) := by
        unfold init Prog.tryCatch
        rw [run_bind, run_andThen, hprobe]
        rfl
      refine iff_of_true ?_ fun w' hw' => ?_
      · rw [leavesAlone_iff_of_error hinit, EnvironmentManager.world_del]
        intro a ha
        cases ha
      · rw [show H.probed cached host = none from hprobed] at hw'
        cases hw'

end SessionHost

/-- A call of a constructor that attaches. -/
inductive AttachCall where
  /-- With whether the decider, if there is one, is an `AlwaysTrueDecider`, and with `_forking_supported`. -/
  | waypoint (sessionId : String) (alwaysTrue : Option Bool) (cached : Bool)
  | container (backend containerName baseImage : String) (extraArgs : List String)
  | hybrid (self : HybridAttachManager)
  | criu (self : CRIUAttachManager)
  | gvisor (self : GvisorAttachManager) (baseImage : String)

namespace AttachCall

variable {W : Type} (H : SessionHost W)

def construction : AttachCall → Except PyError (Construction W)
  | waypoint sessionId alwaysTrue cached => H.construction sessionId alwaysTrue cached
  | container backend containerName baseImage extraArgs =>
    ContainerAttachManager.construction H.toAttachHost backend containerName baseImage extraArgs
  | hybrid self => self.construction H.toAttachHost
  | criu self => self.construction H.toAttachHost
  | gvisor self baseImage => self.construction H.toAttachHost baseImage

/-- The constructor gets through, or raises where its object cannot destroy anything. -/
def Spares : AttachCall → W → Prop
  | waypoint sessionId alwaysTrue cached => H.Spares sessionId alwaysTrue cached
  | container backend _ baseImage _ => fun _ => ContainerAttachManager.Spares backend baseImage
  | hybrid self => self.Spares H.toAttachHost
  | criu self => self.Spares H.toAttachHost
  | gvisor self _ => self.Spares H.toAttachHost

end AttachCall

/-- A constructor that raises leaves the environment alone exactly if it raises early enough. -/
theorem attach_leavesAlone_iff {W : Type} (H : SessionHost W) (call : AttachCall) (host : W) :
    LeavesAlone (call.construction H) host ↔ call.Spares H host := by
  cases call with
  | waypoint sessionId alwaysTrue cached => exact H.leavesAlone_iff sessionId alwaysTrue cached host
  | container backend containerName baseImage extraArgs =>
    exact ContainerAttachManager.leavesAlone_iff H.toAttachHost backend containerName baseImage extraArgs host
  | hybrid self => exact self.leavesAlone_iff H.toAttachHost host
  | criu self => exact self.leavesAlone_iff H.toAttachHost host
  | gvisor self baseImage => exact self.leavesAlone_iff H.toAttachHost baseImage host

/-- A host where the commands exit with the statuses of a script. -/
def SessionHost.scripted : SessionHost ToolScript where
  toToolHost := .scripted
  pidExists _ w := (true, w)
  terminate _ _ _ w := (.ok (), w)
  rmtree _ w := (.ok (), w)
  waypointBin := "/usr/bin/waypoint"
  stateforkRoot := "/opt/statefork"
  executable w := (true, w)
  launch _ w := (.ok (w.statuses.headD 0, "", ""), { w with statuses := w.statuses.tail })
  usage w := (.ok "fork <session> <checkpoint>", w)
  checkpointsOf _ := .ok (some [])
  forksOf _ := .ok (some [])
  others :=
    { snapshot := fun _ w => (.ok (none, 0), w)
      refreshes := true
      exec := fun _ _ _ w => (.ok (0, "", ""), w)
      copy := fun _ _ _ _ w => (.ok (true, ""), w)
      fork := fun _ _ w => (.ok [], w)
      discard := fun _ w => (.ok true, w)
      park := fun _ w => (.ok (none, 0), w)
      list := fun w => (.ok (some []), w)
      cleanup := fun w => (.ok (some true), w)
      time := fun w => (0, w)
      uuid4Hex := fun w => ("", w) }

/-- A snapshot, a checkpoint or a dump that fails, an image without a tag and a container that does not run each cost the
environment to which the manager was to attach. -/
theorem not_attach_leavesAlone :
    ¬ LeavesAlone (AttachCall.construction .scripted (.waypoint "9b1c" none false)) ⟨[0, 0, 1], ["16fd2706"]⟩ ∧
      ¬ LeavesAlone (AttachCall.construction .scripted (.container "Docker" "web" "ubuntu" [])) ⟨[], []⟩ ∧
      ¬ LeavesAlone (AttachCall.construction .scripted (.hybrid ⟨"web", "/tmp/statefork_podman"⟩)) ⟨[0], []⟩ ∧
      ¬ LeavesAlone (AttachCall.construction .scripted (.criu .attached)) ⟨[1], ["16fd2706"]⟩ ∧
      ¬ LeavesAlone (AttachCall.construction .scripted (.gvisor ⟨"web"⟩ "ubuntu:latest")) ⟨[1], ["16fd2706"]⟩ := by
  refine ⟨?_, ?_, ?_, ?_, ?_⟩
  · unfold AttachCall.construction
    rw [SessionHost.leavesAlone_iff]
    have hforks : SessionHost.SupportsForking "fork <session> <checkpoint>" := .inr (by decide)
    have hprobed (w : ToolScript) : SessionHost.scripted.probed false w = some w := by
      show (if SessionHost.SupportsForking "fork <session> <checkpoint>" then some w else none) = some w
      exact if_pos hforks
    rintro (h | h)
    · cases h
    · rcases h _ (hprobed _) with h | h
      · cases h
      · cases h
  · unfold AttachCall.construction
    rw [ContainerAttachManager.leavesAlone_iff]
    unfold ContainerAttachManager.Spares
    decide
  · unfold AttachCall.construction
    rw [HybridAttachManager.leavesAlone_iff]
    exact fun h => h.1 rfl
  · unfold AttachCall.construction
    rw [CRIUAttachManager.leavesAlone_iff]
    intro h
    cases h
  · unfold AttachCall.construction
    rw [GvisorAttachManager.leavesAlone_iff]
    intro h
    cases h.1

end StateFork
