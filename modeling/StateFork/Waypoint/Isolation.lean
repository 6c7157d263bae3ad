import StateFork.Waypoint.Slate
import StateFork.Waypoint.Tree

/-!
# A Waypoint session, as worlds

With a binary that honours its commands, the hooks isolate the branches (`WaypointCli.isolating`), and a manager that has
attached to a new session represents it (`represents_attach`), so that all its runs are runs of worlds
(`session_runs_are_worlds`). The session in memory is such a session.
-/

namespace StateFork

open Conc Conc.Prog Branching EnvironmentManager ForkableEnvironmentManager WaypointAttachManager

variable {W E : Type}

/-! ### Attaching to a new session -/

namespace Manager

variable {m : Manager}

theorem snapshots_foldl {α : Type} {f : Manager → α → Manager} (hf : ∀ m a, (f m a).snapshots = m.snapshots) (l : List α)
    (m : Manager) : (l.foldl f m).snapshots = m.snapshots := by
  induction l generalizing m with
  | nil => rfl
  | cons a l ih => exact (ih _).trans (hf m a)

theorem snapshots_registerBranch (m : Manager) (b : String) (base : Option String) :
    (m.registerBranch b base).2.snapshots = m.snapshots := by
  unfold registerBranch
  split <;> rfl

/-- A listing registers no snapshots. -/
theorem snapshots_relist (m : Manager) (listing : List EnvironmentBranch) : (m.relist listing).snapshots = m.snapshots := by
  have hreconcile (m : Manager) (r : Ref) : (m.reconcile r).snapshots = m.snapshots := by
    unfold reconcile
    dsimp only
    generalize (if (m.liveObject r).baseSnapshotId = "" then none else some (m.liveObject r).baseSnapshotId) = base
    split_ifs
    · exact snapshots_registerBranch ..
    · exact (snapshots_registerBranch ..).trans (snapshots_registerBranch ..)
  have hdrop (m : Manager) (b : String) : (m.dropStale b).snapshots = m.snapshots := by
    unfold dropStale removeBranch
    split_ifs
    · rfl
    · split <;> rfl
  have hobjects : (newLiveObjects listing m).2.snapshots = m.snapshots := by
    rw [(adopted_newLiveObjects m listing).rest]
  unfold relist
  dsimp only
  rw [snapshots_foldl hdrop, snapshots_foldl hreconcile]
  exact hobjects

/-- The record of a branch that has just been positioned. -/
theorem record_setBranchPosition {b : String} {snapshotId : Option String} {r : Ref}
    (hr : (m.setBranchPosition b snapshotId).branches.get? b = some r) :
    (m.setBranchPosition b snapshotId).record r = .positionedAt snapshotId := by
  have hfound : (m.registerBranch b snapshotId).2.branches.get? b = some r := hr
  rw [get?_registerBranch] at hfound
  obtain rfl := Option.some.inj hfound
  exact Heap.cell_modify_self (m.registerBranch b snapshotId).2.records _ fun _ => .positionedAt snapshotId

theorem currentBranchId_attached (m : Manager) (parentId : Option String) (id : String) :
    (m.attached parentId id).currentBranchId = m.currentBranchId := by
  have hkeep (m : Manager) (b : String) : (m.keepMinimal b id).currentBranchId = m.currentBranchId := by
    unfold keepMinimal
    split_ifs <;> rfl
  unfold attached
  dsimp only
  rw [hkeep, (Grows.setBranchPosition ..).current]
  split_ifs <;> rfl

end Manager

section Attaching

variable {live : W → String → Option (String × E)} {stored : W → String → Option E} {w : W} {id : String} {e : E}

/-- The live branches of a session of which only the default branch is live, as they are listed. -/
theorem Truthful.sole {base : String} {listing : List EnvironmentBranch}
    (h : Truthful (fun b => if b = defaultBranchId then some base else none) listing) :
    (∀ b, b ∈ listing.map EnvironmentBranch.id ↔ b = defaultBranchId) ∧ ∀ o ∈ listing, o.baseSnapshotId = base := by
  have hmem (o : EnvironmentBranch) (ho : o ∈ listing) : o.id = defaultBranchId ∧ o.baseSnapshotId = base := by
    have hbase := (h.exact o.id o.baseSnapshotId).mpr ⟨o, ho, rfl, rfl⟩
    split_ifs at hbase with hid
    exact ⟨hid, (Option.some.inj hbase).symm⟩
  refine ⟨fun b => ⟨fun hb => ?_, ?_⟩, fun o ho => (hmem o ho).2⟩
  · obtain ⟨o, ho, rfl⟩ := List.mem_map.mp hb
    exact (hmem o ho).1
  · rintro rfl
    obtain ⟨o, ho, hid, -⟩ := (h.exact defaultBranchId base).mp (if_pos rfl)
    exact List.mem_map.mpr ⟨o, ho, hid⟩

/-- The controller as the constructor leaves it, on a session whose default branch it has just captured. -/
theorem Represents.attached {first second : List EnvironmentBranch} {resource : String} (hid : id ≠ "")
    (hlive : live w = fun b => if b = defaultBranchId then some (id, e) else none) (hstored : stored w id ≠ none)
    (hfirst : ∀ b ∈ first.map EnvironmentBranch.id, b = defaultBranchId) (hsecond : Truthful (baseOf live w) second) :
    Represents live stored
      ⟨(((Manager.init.relist first).registerSnapshotResource id resource).relist second).attached none id, w⟩ := by
  have hbase : baseOf live w = fun b => if b = defaultBranchId then some id else none := by
    funext b
    unfold baseOf
    rw [hlive]
    dsimp only
    split_ifs <;> rfl
  rw [hbase] at hsecond
  obtain ⟨hnames, hbases⟩ := hsecond.sole
  set m₁ := Manager.init.relist first
  set m₂ := m₁.registerSnapshotResource id resource
  set m₃ := m₂.relist second
  -- what the constructor has made of the registries
  have hgraph₃ : m₃.snapshotGraph = Dict.empty :=
    (m₂.relist_spec second).2.2.2.trans (Manager.init.relist_spec first).2.2.2
  have hsnapshots₃ : m₃.snapshots = Dict.empty.set id resource := by
    have hempty : m₁.snapshots = Dict.empty := Manager.snapshots_relist _ _
    show (m₂.relist second).snapshots = _
    rw [Manager.snapshots_relist]
    show m₁.snapshots.set id resource = _
    rw [hempty]
  have hcurrent₃ : m₃.currentBranchId = defaultBranchId :=
    (m₂.relist_spec second).2.2.1.trans (Manager.init.relist_spec first).2.2.1
  have hkeys₃ (b : String) : b ∈ m₃.branches.keys → b = defaultBranchId := by
    intro hb
    rcases ((m₂.relist_spec second).1 b).mp hb with hb | ⟨hb, -⟩
    · exact (hnames b).mp hb
    · rcases ((Manager.init.relist_spec first).1 b).mp hb with hb | ⟨hb, -⟩
      · exact hfirst b hb
      · have hinit : b ∈ (Dict.empty.set defaultBranchId (⟨defaultBranchId, 0⟩ : Ref)).keys := hb
        rw [Dict.mem_keys_set] at hinit
        exact hinit.resolve_right List.not_mem_nil
  have hlive₃ (b : String) : b ∈ m₃.liveBranches.keys ↔ b = defaultBranchId :=
    ((m₂.relist_spec second).2.1 b).trans (hnames b)
  -- the rest of the constructor
  set m₄ := m₃.recordSnapshotNode { snapshotId := id, parentId := none }
  set m₅ := m₄.setBranchPosition defaultBranchId (some id)
  have hattached : m₃.attached none id = m₅ := by
    have hcurrent₅ : m₅.currentBranchId = defaultBranchId := (Grows.setBranchPosition ..).current.trans hcurrent₃
    have hmain : m₅.currentBranchId ∈ m₅.liveBranches.keys := by
      rw [hcurrent₅, show m₅.liveBranches = m₃.liveBranches from Manager.liveBranches_setBranchPosition]
      exact (hlive₃ _).mpr rfl
    unfold Manager.attached
    rw [if_neg (by rw [hgraph₃]; exact List.not_mem_nil)]
    dsimp only
    rw [show (m₃.recordSnapshotNode { snapshotId := id, parentId := none }).currentBranchId = _ from hcurrent₃]
    exact if_pos hmain
  rw [hattached]
  have hconsistent : Consistent m₅ := by
    have h₁ : Consistent m₁ := Consistent.init.relist first
    have h₂ : Consistent m₂ := h₁.update (Manager.Update.registered m₁ id resource : Manager.Update true m₁ m₂)
    have h₃ : Consistent m₃ := h₂.relist second
    have h₄ : Consistent m₄ := h₃.update (Manager.Update.recorded m₃ id none : Manager.Update true m₃ m₄)
    exact h₄.update (.positioned _ defaultBranchId id rfl)
  have hobjects₁ : LiveRegular m₁ := .relist _ first
  have hobjects₃ : LiveRegular m₃ := .relist _ second
  have hobjects : LiveRegular m₅ := by
    have h₄ : LiveRegular m₄ := hobjects₃.update (Manager.Update.recorded m₃ id none : Manager.Update true m₃ m₄)
    exact h₄.update (.positioned _ defaultBranchId id rfl)
  have hnamed₃ : LiveNamed m₃ := .relist _ second
  have hnamed : LiveNamed m₅ := (hnamed₃.congr rfl fun _ => rfl : LiveNamed m₄).setBranchPosition _ _
  have hgraph (id' : String) : id' ∈ m₅.snapshotGraph.keys ↔ id' = id := by
    rw [show m₅.snapshotGraph = m₄.snapshotGraph from (Grows.setBranchPosition ..).graph]
    show id' ∈ (Manager.recordNode m₃.snapshotGraph { snapshotId := id, parentId := none }).keys ↔ _
    rw [Manager.mem_keys_recordNode, hgraph₃]
    exact or_iff_left List.not_mem_nil
  have hsnapshots (id' : String) : id' ∈ m₅.snapshots.keys ↔ id' = id := by
    rw [show m₅.snapshots = m₃.snapshots from Manager.snapshots_registerBranch .., hsnapshots₃, Dict.mem_keys_set]
    exact or_iff_left List.not_mem_nil
  have htracks : Tracks (fun _ => False) (baseOf live w) m₅ := by
    rw [hbase]
    constructor
    case regular => exact hconsistent.regular
    case position =>
      intro b r hr
      have hb : b = defaultBranchId := by
        rcases Manager.mem_keys_setBranchPosition.mp (Dict.mem_keys_of_get? hr) with hb | hb
        · exact hb
        · exact hkeys₃ b hb
      subst hb
      rw [Manager.record_setBranchPosition hr]
      exact ⟨id, if_pos rfl, fun _ => ⟨rfl, rfl⟩⟩
    case live =>
      intro b l hl
      have hl₃ : m₃.liveBranches.get? b = some l := by
        rw [← show m₅.liveBranches = m₃.liveBranches from Manager.liveBranches_setBranchPosition]
        exact hl
      have hobject : m₅.liveObject l = m₃.liveObject l := Manager.liveObject_registerBranch ..
      have hlisted : m₃.liveObject l ∈ second := by
        rw [← (Manager.liveIs_relist m₂ hsecond.distinct).2]
        exact List.mem_map_of_mem (List.mem_map.mpr ⟨_, Dict.mem_entries_of_get? hl₃, rfl⟩)
      refine ⟨hobjects.allocated b l hl, id, if_pos ((hlive₃ b).mp (Dict.mem_keys_of_get? hl₃)), fun _ => ?_⟩
      rw [hobject]
      exact hbases _ hlisted
    case liveDistinct => exact hobjects.distinct
    case main => exact hconsistent.main
    case current => exact hconsistent.current
    case baseNamed =>
      intro b hb
      split_ifs at hb
      exact hid (Option.some.inj hb)
    case snapshotsNamed => exact fun h => hid ((hsnapshots "").mp h).symm
    case nodesNamed => exact fun h => hid ((hgraph "").mp h).symm
  constructor
  case inStep => exact ⟨htracks, hconsistent.live⟩
  case consistent => exact hconsistent
  case objects => exact hobjects
  case named => exact hnamed
  case registry =>
    intro b hb
    have hmain : b = defaultBranchId := by
      by_contra hne
      refine hb ?_
      show live w b = none
      rw [hlive]
      exact if_neg hne
    show b ∈ m₅.liveBranches.keys
    rw [show m₅.liveBranches = m₃.liveBranches from Manager.liveBranches_setBranchPosition]
    exact (hlive₃ b).mpr hmain
  case resources =>
    intro id' hid'
    exact (hgraph id').mpr ((hsnapshots id').mp hid')
  case stored =>
    intro id' hid'
    rw [(hgraph id').mp hid']
    exact hstored

/-- The only node that the constructor records on a new session. -/
theorem parentOf_attached {m : Manager} (hgraph : m.snapshotGraph = Dict.empty) (w : W) (id' : String) :
    parentOf ⟨m.attached none id, w⟩ id' = if id' = id then some none else none := by
  have hrecorded : (m.attached none id).snapshotGraph = Dict.empty.set id { snapshotId := id, parentId := none } := by
    unfold Manager.attached
    rw [if_neg (by rw [hgraph]; exact List.not_mem_nil)]
    dsimp only
    rw [Manager.snapshotGraph_keepMinimal, (Grows.setBranchPosition ..).graph]
    show Manager.recordNode m.snapshotGraph { snapshotId := id, parentId := none } = _
    rw [hgraph]
    rfl
  unfold parentOf
  rw [hrecorded, Dict.get?_set]
  split_ifs <;> rfl

/-- After a successful listing the controller has what was listed. -/
theorem listed_of_arrives {B : ForkableBackend W} (hB : Isolating B live stored) (hlists : ∀ w, (B.list w).1 ≠ .ok none)
    (s : Sys W) : ∃ listing w', B.afterListing s = ⟨s.mgr.relist listing, w'⟩ ∧ Unmoved live stored s.world w' ∧
      Truthful (baseOf live w') listing := by
  obtain ⟨listing, hlisting, htruthful⟩ := (hB.listed s.world).resolve_left (hlists s.world)
  have hquiet := hB.list s.world
  refine ⟨listing, (B.list s.world).2, ?_, hquiet, hquiet.base ▸ htruthful⟩
  unfold ForkableBackend.afterListing
  rw [show B.list s.world = (.ok (some listing), (B.list s.world).2) from Prod.ext hlisting rfl]

/-- A snapshot hook that captured the branch has registered the snapshot and listed the branches. -/
theorem captured_of_coreSnapshot {B : ForkableBackend W} (hB : Isolating B live stored) (hrefreshes : B.refreshes = true)
    {b : String} {s s' : Sys W} {elapsed : ℚ} (hr : (B.hooks.coreSnapshot b).run s = (.ok (some id, elapsed), s')) :
    ∃ resource w', B.snapshot b s.world = (.ok (some (id, resource), elapsed), w') ∧
      s' = B.afterListing ⟨s.mgr.registerSnapshotResource id resource, w'⟩ := by
  simp only [ForkableBackend.hooks, ForkableBackend.hooksWith, run_bind, run_tryWorld] at hr
  rcases hhook : B.snapshot b s.world with ⟨e | ⟨_ | ⟨id', resource⟩, elapsed'⟩, w'⟩
  · rw [hhook] at hr
    cases hr
  · rw [hhook] at hr
    cases hr
  · rw [hhook] at hr
    simp only [run_afterValue_ok, ForkableBackend.register, EnvironmentManager.registerSnapshotResource, run_bind,
      run_updateState, run_pure, Option.isSome_some, if_true, ForkableBackend.refresh, hrefreshes] at hr
    obtain ⟨l, hl⟩ := hB.keepsBases.listBranches_ok (pure ()) ⟨s.mgr.registerSnapshotResource id' resource, w'⟩
    rw [hl] at hr
    obtain ⟨hr, rfl⟩ := Prod.mk.inj hr
    cases hr
    exact ⟨resource, w', rfl, rfl⟩

/-- A manager that has attached to a new session, whose listings arrive, represents it. -/
theorem represents_attach {B : WaypointBackend W} (hB : Isolating B.toForkableBackend live stored)
    (hrefreshes : B.refreshes = true) (hlists : ∀ w, (B.list w).1 ≠ .ok none)
    (hquiet : Unmoved live stored w (B.checkpoints w).2)
    (hnew : (B.checkpoints w).1 = .ok none ∨ (B.checkpoints w).1 = .ok (some []))
    (hlive : live w = fun b => if b = defaultBranchId then some ("", e) else none) {s : Sys W}
    (h : (WaypointAttachManager.attach B).run ⟨Manager.init, w⟩ = (.ok (), s)) :
    Represents live stored s ∧ Sound defaultBranchId (view live stored s) := by
  obtain ⟨n, s₁, l, s₂, id, elapsed, s₃, hsync, hlist, hhook, rfl⟩ := attach_ok h
  have hsync' : s₁ = ⟨Manager.init, (B.checkpoints w).2⟩ := by
    rw [show s₁ = ((syncSnapshotTree B).run ⟨Manager.init, w⟩).2 from (congrArg Prod.snd hsync).symm, run_syncSnapshotTree]
    dsimp only
    rcases hcheckpoints : B.checkpoints w with ⟨r, w'⟩
    rw [hcheckpoints] at hnew
    rcases hnew with hnone | hempty
    · obtain rfl : r = .ok none := hnone
      rfl
    · obtain rfl : r = .ok (some []) := hempty
      rfl
  subst hsync'
  obtain ⟨first, w₂, hafter, hquiet₂, hfirst⟩ := listed_of_arrives hB hlists ⟨Manager.init, (B.checkpoints w).2⟩
  have hs₂ : s₂ = ⟨Manager.init.relist first, w₂⟩ := by
    rw [← hafter, ← (B.run_listBranches B.refresh _).1]
    exact (congrArg Prod.snd hlist).symm
  subst hs₂
  have hmain : (Manager.init.relist first).currentBranchId = defaultBranchId := (Manager.init.relist_spec first).2.2.1
  rw [show ((⟨Manager.init.relist first, w₂⟩ : Sys W).mgr.currentBranchId) = _ from hmain] at hhook
  obtain ⟨resource, w₃, hcaptured, hs₃⟩ := captured_of_coreSnapshot hB hrefreshes hhook
  obtain ⟨hid, base, e', hhere, hlive₃, hstored, -⟩ := hB.captured _ _ _ _ _ _ hcaptured
  -- until the capture the default branch stood on no snapshot
  have hlive₂ : live w₂ = fun b => if b = defaultBranchId then some ("", e) else none := by
    rw [hquiet₂.live, hquiet.live, hlive]
  have hhere' : live w₂ defaultBranchId = some (base, e') := hhere
  rw [hlive₂] at hhere'
  obtain ⟨rfl, rfl⟩ := Prod.mk.inj (Option.some.inj ((if_pos rfl).symm.trans hhere'))
  have hbase₂ : baseOf live w₂ = fun b => if b = defaultBranchId then some "" else none := by
    funext b
    unfold baseOf
    rw [hlive₂]
    dsimp only
    split_ifs <;> rfl
  rw [hbase₂] at hfirst
  obtain ⟨hnames, hbases⟩ := hfirst.sole
  have hnobase : (Manager.init.relist first).currentBase = none := by
    cases hp : (Manager.init.relist first).currentBase with
    | none => rfl
    | some p =>
      obtain ⟨hne, o, ho, rfl⟩ := Manager.currentBase_relist hp
      exact absurd (hbases o ho) hne
  -- afterwards it stands on the new one
  set m₂ := (Manager.init.relist first).registerSnapshotResource id resource
  obtain ⟨second, w₄, hafter', hquiet₄, hsecond⟩ := listed_of_arrives hB hlists ⟨m₂, w₃⟩
  have hs₃' : s₃ = ⟨m₂.relist second, w₄⟩ := hs₃.trans hafter'
  subst hs₃'
  have hlive₄ : live w₄ = fun b => if b = defaultBranchId then some (id, e) else none := by
    have hupdate : live w₃ = Function.update (live w₂) defaultBranchId (some (id, e)) := hlive₃
    rw [hquiet₄.live]
    show live w₃ = _
    rw [hupdate, hlive₂]
    funext b
    rw [Function.update_apply]
    split_ifs <;> rfl
  have hstored₄ : stored w₄ id ≠ none := by
    rw [hquiet₄.stored id e hstored]
    simp
  show Represents live stored ⟨(m₂.relist second).attached (Manager.init.relist first).currentBase id, w₄⟩ ∧
    Sound defaultBranchId (view live stored ⟨(m₂.relist second).attached (Manager.init.relist first).currentBase id, w₄⟩)
  rw [hnobase]
  have hrepresents : Represents live stored ⟨(m₂.relist second).attached none id, w₄⟩ :=
    Represents.attached hid hlive₄ hstored₄ (fun b => (hnames b).mp) hsecond
  have hgraph : (m₂.relist second).snapshotGraph = Dict.empty :=
    (m₂.relist_spec second).2.2.2.trans (Manager.init.relist_spec first).2.2.2
  refine ⟨hrepresents, sound_sole hlive₄ ?_ (parentOf_attached hgraph w₄) hstored₄⟩
  show ((m₂.relist second).attached none id).currentBranchId = defaultBranchId
  rw [Manager.currentBranchId_attached]
  exact (m₂.relist_spec second).2.2.1.trans hmain

end Attaching

/-- On a session that was just created, once the constructor has succeeded, every run of public operations without a
cleanup is a run of branching worlds with the outcomes that the operations returned, and all that holds of the worlds
holds of the session: the live branches stand on snapshots, and the snapshots form a tree. -/
theorem session_runs_are_worlds (C : WaypointCli W) (pool : ForkPool W) (sessionId : String)
    (live : W → String → Option (String × E)) (stored : W → String → Option E)
    (h : C.Honours pool sessionId live stored) (hlists : ∀ w, ((C.backend sessionId pool).list w).1 ≠ .ok none)
    (w : W) (e : E) (hlive : live w = fun b => if b = defaultBranchId then some ("", e) else none)
    (hstored : ∀ id, stored w id = none) (s : Sys W)
    (hattach : (WaypointAttachManager.attach (C.backend sessionId pool)).run ⟨Manager.init, w⟩ = (.ok (), s))
    (ops : List PublicOp) (hops : .cleanup ∉ ops)
    (hids : (C.backend sessionId pool).EachStep (C.backend sessionId pool).SuppliesNew ops s) :
    let F := (C.backend sessionId pool).hooks
    let s' := ForkableEnvironmentManager.runOps F ops s
    Unfolds (view live stored s) (trace F ops s) (view live stored s') ∧ Sound defaultBranchId (view live stored s') := by
  intro F s'
  have hB := WaypointCli.isolating h
  have hnew : ((C.backend sessionId pool).checkpoints w).1 = .ok none ∨
      ((C.backend sessionId pool).checkpoints w).1 = .ok (some []) := by
    rcases h.listing_cases C.checkpointsOf w with hnone | ⟨stdout, stderr, hexit, hread⟩
    · exact .inl hnone
    · rcases h.checkpointsOf _ stdout stderr hexit with hjson | ⟨checkpoints, hread', hall⟩
      · exact .inl (hread.trans hjson)
      · have hempty : checkpoints = [] := by
          refine List.eq_nil_iff_forall_not_mem.mpr fun c hc => hall c hc ?_
          rw [(h.executable w).2.2]
          exact hstored c.id
        exact .inr (hread.trans (hempty ▸ hread'))
  obtain ⟨hrepresents, hsound⟩ := represents_attach hB rfl hlists (h.listing_world C.checkpointsOf w) hnew hlive hattach
  obtain ⟨-, hunfolds⟩ := unfolds_runOps hB (WaypointCli.forksOnRequest h) hrepresents hops hids
  exact ⟨hunfolds, hunfolds.sound hsound⟩

/-- A snapshot is forked, the fork alters its environment and is parked, the manager restores what was parked, and
another fork is discarded. -/
theorem session_runs_are_worlds_slate :
    let F := Slate.backend.hooks
    let s₀ := Slate.attached ["3c1e", "77e0"]
    let ops : List PublicOp := [.execCommand (.line "make") none, .snapshot, .fork "bbbbbbbb" 1 (some ["b07d"]),
      .execOnBranch "b07d" (.argv ["rm", "a b"]) none, .parkBranch "b07d", .restore "cccccccc",
      .fork "aaaaaaaa" 1 none, .discardBranch "77e0"]
    let s := ForkableEnvironmentManager.runOps F ops s₀
    (trace F ops s₀).map Prod.snd = [.exec 0 "" "", .snapshotId (some "bbbbbbbb"),
        .branches [⟨"b07d", "bbbbbbbb", "running"⟩], .exec 0 "" "", .snapshotId (some "cccccccc"), .flag true,
        .branches [⟨"77e0", "aaaaaaaa", "running"⟩], .flag true] ∧
      s.world.live "3c1e" = some ("cccccccc", ["make", "rm 'a b'"]) ∧
      Unfolds (view Slate.live Slate.stored s₀) (trace F ops s₀) (view Slate.live Slate.stored s) ∧
      Sound defaultBranchId (view Slate.live Slate.stored s) := by
  intro F s₀ ops s
  have hattach : (WaypointAttachManager.attach Slate.backend).run ⟨Manager.init, Slate.create ["3c1e", "77e0"]⟩ =
      (.ok (), s₀) := by
    refine Slate.attach_eq_of_ok ?_
    rw [Slate.backend_eq_direct]
    decide +kernel
  -- the snapshot and what is parked get new ids
  let s₁ := ForkableEnvironmentManager.runOps F [.execCommand (.line "make") none] s₀
  let s₂ := ForkableEnvironmentManager.runOps F [.snapshot, .fork "bbbbbbbb" 1 (some ["b07d"]),
    .execOnBranch "b07d" (.argv ["rm", "a b"]) none] s₁
  have hsnapshot : (Slate.backend.snapshot s₁.mgr.currentBranchId s₁.world).1 =
      .ok (some ("bbbbbbbb", "bbbbbbbb"), 0) ∧ "bbbbbbbb" ∉ s₁.mgr.snapshotGraph.keys := by
    simp only [s₁, s₀, F, Slate.attached, Slate.backend_eq_direct]
    decide +kernel
  have hpark : (Slate.backend.park "b07d" s₂.world).1 = .ok (some ("cccccccc", "cccccccc"), 0) ∧
      "cccccccc" ∉ s₂.mgr.snapshotGraph.keys := by
    simp only [s₂, s₁, s₀, F, Slate.attached, Slate.backend_eq_direct]
    decide +kernel
  have hnewSnapshot : Slate.backend.SuppliesNew .snapshot s₁ := by
    rintro id ⟨-, resource, elapsed, he⟩
    obtain ⟨rfl, -⟩ := Prod.mk.inj (Option.some.inj (Prod.mk.inj (Except.ok.inj (he.symm.trans hsnapshot.1))).1)
    exact hsnapshot.2
  have hnewPark : Slate.backend.SuppliesNew (.parkBranch "b07d") s₂ := by
    rintro id ⟨-, resource, elapsed, he⟩
    obtain ⟨rfl, -⟩ := Prod.mk.inj (Option.some.inj (Prod.mk.inj (Except.ok.inj (he.symm.trans hpark.1))).1)
    exact hpark.2
  have hids : Slate.backend.EachStep Slate.backend.SuppliesNew ops s₀ := by
    show Slate.backend.EachStep Slate.backend.SuppliesNew ([_] ++ ([_, _, _] ++ [_, _, _, _])) s₀
    refine Run.eachStep_append.mpr ⟨⟨fun id hid => hid.elim, trivial⟩, Run.eachStep_append.mpr ⟨?_, ?_⟩⟩
    · exact ⟨hnewSnapshot, fun id hid => hid.elim, fun id hid => hid.elim, trivial⟩
    · exact ⟨hnewPark, fun id hid => hid.elim, fun id hid => hid.elim, fun id hid => hid.elim, trivial⟩
  have houtcomes : (trace F ops s₀).map Prod.snd = [.exec 0 "" "", .snapshotId (some "bbbbbbbb"),
        .branches [⟨"b07d", "bbbbbbbb", "running"⟩], .exec 0 "" "", .snapshotId (some "cccccccc"), .flag true,
        .branches [⟨"77e0", "aaaaaaaa", "running"⟩], .flag true] ∧
      s.world.live "3c1e" = some ("cccccccc", ["make", "rm 'a b'"]) := by
    simp only [s, s₀, F, Slate.attached, Slate.backend_eq_direct]
    decide +kernel
  refine ⟨houtcomes.1, houtcomes.2, ?_⟩
  exact session_runs_are_worlds Slate.cli Slate.pool "s-01" Slate.live Slate.stored Slate.honours Slate.lists
    (Slate.create ["3c1e", "77e0"]) [] (by funext b; exact Dict.get?_set ..) (fun _ => rfl) s₀ hattach ops (by decide) hids

end StateFork
