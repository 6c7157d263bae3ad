import StateFork.Controller.Frame
import StateFork.Forkable.Records
import StateFork.Waypoint.Journal

/-!
# A manager in a shared session

Other managers may work in the session of a manager, so the journal may grow whenever the backend is called. Whatever
the manager does, the graph stays charted by the journal and linked, and the branches stand on checkpoints
(`InSession`). Only a capture records a node outside of a synchronization. If the graph has the parent that the node
names, it goes on having the parents of all nodes (`Captures`).
-/

namespace StateFork

open Conc Conc.Prog

variable {W : Type}

/-- A call that takes back no checkpoint. -/
def Appends (journal : W → Journal) {α : Type} (f : W → α × W) : Prop := ∀ w, journal w <+: journal (f w).2

/-- The backend reports what is in the session's journal. -/
structure WaypointBackend.Truthful (B : WaypointBackend W) (journal : W → Journal) : Prop where
  sound : ∀ w, (journal w).Sound
  snapshot : ∀ b, Appends journal (B.snapshot b)
  exec : ∀ command timeout b, Appends journal (B.exec command timeout b)
  copy : ∀ b hostPath envPath into, Appends journal (B.copy b hostPath envPath into)
  fork : ∀ snapshotId requestedIds, Appends journal (B.fork snapshotId requestedIds)
  discard : ∀ b, Appends journal (B.discard b)
  park : ∀ b, Appends journal (B.park b)
  list : Appends journal B.list
  cleanup : Appends journal B.cleanup
  time : Appends journal B.time
  checkpoints : Appends journal B.checkpoints
  /-- A capture adds a checkpoint under a new id. -/
  captured : ∀ b w id resource elapsed w', B.snapshot b w = (.ok (some (id, resource), elapsed), w') →
    id ∉ (journal w).ids ∧ id ∈ (journal w').ids
  parked : ∀ b w id resource elapsed w', B.park b w = (.ok (some (id, resource), elapsed), w') →
    id ∉ (journal w).ids ∧ id ∈ (journal w').ids
  /-- Branches stand on checkpoints. -/
  forked : ∀ snapshotId requestedIds w outcomes w', B.fork snapshotId requestedIds w = (.ok outcomes, w') →
    ∀ o ∈ outcomes, o.1.baseSnapshotId ∈ (journal w').ids
  listed : ∀ w listing w', B.list w = (.ok (some listing), w') →
    ∀ o ∈ listing, o.baseSnapshotId ≠ "" → o.baseSnapshotId ∈ (journal w').ids
  /-- The listing of the checkpoints is the journal, in some order. -/
  history : ∀ w checkpoints w', B.checkpoints w = (.ok (some checkpoints), w') →
    (checkpoints.map fun c => (c.id, c.parent)).Perm (journal w')

/-- The branch stands on a checkpoint, or on none. -/
def Placed (H : Journal) (r : BranchState) : Prop := ∀ id, r.lastSnapshotId = some id → id ∈ H.ids

/-- The manager works in a session with this journal. -/
structure InSession (H : Journal) (m : Manager) : Prop where
  consistent : Consistent m
  placed : m.RecordsSatisfy (Placed H)
  charted : Manager.Charted H m.snapshotGraph
  linked : m.GraphLinked

theorem Placed.mono {H H' : Journal} {r : BranchState} (h : Placed H r) (hgrows : H <+: H') : Placed H' r :=
  fun id hid => Journal.ids_mono hgrows (h id hid)

theorem placed_positionedAt {H : Journal} {id : String} (hid : id ∈ H.ids) : Placed H (.positionedAt (some id)) := by
  rintro _ ⟨⟩
  exact hid

theorem placed_none {H : Journal} : Placed H (.positionedAt none) := fun _ h => nomatch h

namespace InSession

variable {H H' : Journal} {m m' : Manager}

theorem mono (h : InSession H m) (hgrows : H <+: H') : InSession H' m where
  consistent := h.consistent
  placed b r hr := (h.placed b r hr).mono hgrows
  charted := h.charted.mono hgrows
  linked := h.linked

/-- An update that records no node. -/
theorem update (h : InSession H m) (hupdate : Manager.Update true m m') (hplaced : m'.RecordsSatisfy (Placed H))
    (hgraph : m'.snapshotGraph = m.snapshotGraph) : InSession H m' where
  consistent := h.consistent.update hupdate
  placed := hplaced
  charted := hgraph ▸ h.charted
  linked := Manager.graphLinked_iff.mpr (hgraph ▸ Manager.graphLinked_iff.mp h.linked)

theorem bench (h : InSession H m) (stats : BenchmarkStats) : InSession H { m with stats } :=
  h.update (.bench m stats) (h.placed.congr rfl rfl) rfl

theorem logged (h : InSession H m) (r : Ref) (command : Command) (counted : ℚ) :
    InSession H (m.modifyRecord r fun x =>
      { x with
        cumulativeExecTime := x.cumulativeExecTime + counted
        commandLog := x.commandLog ++ [command] }) :=
  h.update (.logged m r command counted) (h.placed.modifyRecord r fun _ hx => hx) rfl

theorem relist (h : InSession H m) {listing : List EnvironmentBranch}
    (hbases : ∀ o ∈ listing, o.baseSnapshotId ≠ "" → o.baseSnapshotId ∈ H.ids) : InSession H (m.relist listing) := by
  refine h.update (.listed m listing) ?_ (m.relist_spec listing).2.2.2
  exact h.placed.relist h.consistent.regular placed_none fun o ho hne => placed_positionedAt (hbases o ho hne)

theorem registerOutcomes (h : InSession H m) (activate : Bool) {outcomes : List (EnvironmentBranch × ℚ)}
    (hbases : ∀ o ∈ outcomes, o.1.baseSnapshotId ∈ H.ids) :
    InSession H (outcomes.foldl (Manager.registerOutcome activate) m) ∧
      (outcomes.foldl (Manager.registerOutcome activate) m).snapshotGraph = m.snapshotGraph := by
  induction outcomes generalizing m with
  | nil => exact ⟨h, rfl⟩
  | cons o outcomes ih =>
    have hgraph := (Grows.registerOutcome m activate o).graph
    have hfirst : InSession H (m.registerOutcome activate o) := by
      refine h.update (.forked m o (.inr rfl)) ?_ hgraph
      exact h.placed.registerOutcome h.consistent.regular (fun _ hx => hx)
        (placed_positionedAt (hbases o (List.mem_cons_self ..)))
    obtain ⟨hrest, hgraph'⟩ := ih hfirst fun o' ho' => hbases o' (List.mem_cons_of_mem _ ho')
    exact ⟨hrest, hgraph'.trans hgraph⟩

theorem switch (h : InSession H m) {b : String} (hb : b ∈ m.branches.keys) : InSession H (m.switch b) :=
  h.update (.switched hb rfl) (h.placed.congr rfl rfl) rfl

theorem forget (h : InSession H m) {b : String} (hmain : b ≠ defaultBranchId) (hcurrent : b ≠ m.currentBranchId) :
    InSession H (m.forget b) :=
  h.update (.forgotten hmain hcurrent) (h.placed.forget h.consistent.regular b) (m.snapshotGraph_forget b)

theorem position (h : InSession H m) (b : String) {id : String} (hid : id ∈ H.ids) :
    InSession H (m.setBranchPosition b (some id)) :=
  h.update (.positioned m b id rfl) (h.placed.setBranchPosition h.consistent.regular b (placed_positionedAt hid))
    (Grows.setBranchPosition m b (some id)).graph

/-- A node for a checkpoint that is new since the graph was charted. -/
theorem record (h : InSession H m) {H₀ : Journal} (hgrows : H₀ <+: H) (hbefore : Manager.Charted H₀ m.snapshotGraph)
    (hsound : H.Sound) {id : String} {parentId : Option String} (hnew : id ∉ H₀.ids) (hid : id ∈ H.ids)
    (hparent : ∀ p, parentId = some p → p ∈ H₀.ids) :
    InSession H (m.recordSnapshotNode { snapshotId := id, parentId }) where
  consistent := h.consistent.congr (h.consistent.regular.recordSnapshotNode rfl) rfl rfl rfl
    (h.consistent.graph.recordNode rfl)
  placed := h.placed.congr rfl rfl
  charted :=
    h.charted.recordNode hid fun p hp => (Journal.earlier_of_notMem (hparent p hp) hnew).mono hgrows
  linked := by
    refine h.linked.recordSnapshotNode (fun hk => hnew (hbefore.mem_ids hk)) rfl ?_ fun id' n hn hp => ?_
    · exact fun he => hsound.named (Journal.ids_mono hgrows (hparent "" he))
    · exact hnew ((hbefore id' n hn).2 id hp).1

end InSession

/-! ### Operations that record nothing -/

/-- What has happened since `s₀` recorded no node. -/
structure Quiet (journal : W → Journal) (s₀ s : Sys W) : Prop where
  session : InSession (journal s.world) s.mgr
  graph : s.mgr.snapshotGraph = s₀.mgr.snapshotGraph
  grows : journal s₀.world <+: journal s.world

section

variable {B : WaypointBackend W} {journal : W → Journal} (hB : B.Truthful journal) {s₀ s : Sys W}

theorem Quiet.refl (h : InSession (journal s.world) s.mgr) : Quiet journal s s := ⟨h, rfl, List.prefix_refl _⟩

theorem Quiet.trans {s₁ : Sys W} (h : Quiet journal s₀ s₁) (h' : Quiet journal s₁ s) : Quiet journal s₀ s :=
  ⟨h'.session, h'.graph.trans h.graph, h.grows.trans h'.grows⟩

/-- A call of the backend. -/
theorem Quiet.call {w : W} (h : Quiet journal s₀ s) (hw : journal s.world <+: journal w) :
    Quiet journal s₀ { s with world := w } :=
  ⟨h.session.mono hw, h.graph, h.grows.trans hw⟩

/-- An update of the manager. -/
theorem Quiet.mgr {m : Manager} (h : Quiet journal s₀ s) (hm : InSession (journal s.world) m)
    (hgraph : m.snapshotGraph = s.mgr.snapshotGraph) : Quiet journal s₀ { s with mgr := m } :=
  ⟨hm, hgraph.trans h.graph, h.grows⟩

include hB

open EnvironmentManager ForkableEnvironmentManager

theorem Quiet.afterListing (h : Quiet journal s₀ s) : Quiet journal s₀ (B.afterListing s) := by
  have hgrows := hB.list s.world
  unfold ForkableBackend.afterListing
  rcases hlist : B.list s.world with ⟨e | _ | listing, w⟩
  · rw [hlist] at hgrows
    exact h.call hgrows
  · rw [hlist] at hgrows
    exact h.call hgrows
  · rw [hlist] at hgrows
    have hcalled := h.call hgrows
    exact hcalled.mgr (hcalled.session.relist (hB.listed _ _ _ hlist)) (s.mgr.relist_spec listing).2.2.2

theorem quiet_listBranches (refresh : M W Unit) :
    Keeps (Quiet journal s₀) (ForkableEnvironmentManager.listBranches (B.hooksWith refresh)) := by
  intro s hs
  rw [(B.run_listBranches refresh s).1]
  exact hs.afterListing hB

theorem quiet_time : Keeps (Quiet journal s₀) (B.hooks.time : M W ℚ) :=
  keeps_world fun s hs => hs.call (hB.time s.world)

theorem quiet_execBranch (b : String) (command : Command) (timeout : Option ℚ) :
    Keeps (Quiet journal s₀) (execBranch B.hooks.toHooks b command timeout) := by
  have hexec : Keeps (Quiet journal s₀) (B.hooks.coreExec command timeout b) :=
    keeps_tryWorld (fun _ => []) fun s hs => hs.call (hB.exec command timeout b s.world)
  exact keeps_execBranch hexec (quiet_time hB) (fun s _ _ _ _ hs => hs.mgr (hs.session.bench _) rfl)
    fun s r counted hs => hs.mgr (hs.session.logged r command counted) rfl

theorem quiet_copyBranch (b hostPath envPath : String) (into : Bool) :
    Keeps (Quiet journal s₀) (copyBranch B.hooks.toHooks b hostPath envPath into) := by
  have hcopy : Keeps (Quiet journal s₀) (B.hooks.coreCopy b hostPath envPath into) :=
    keeps_tryWorld (fun _ => []) fun s hs => hs.call (hB.copy b hostPath envPath into s.world)
  exact keeps_copyBranch hcopy (quiet_time hB) fun s _ _ hs => hs.mgr (hs.session.bench _) rfl

theorem Quiet.materialized (h : Quiet journal s₀ s) (snapshotId : String) (requestedIds : List (Option String))
    (activate : Bool) : Quiet journal s₀ (B.materialized snapshotId requestedIds activate s).2 := by
  have hgrows := hB.fork snapshotId requestedIds s.world
  unfold ForkableBackend.materialized
  rcases hfork : B.fork snapshotId requestedIds s.world with ⟨e | outcomes, w⟩
  · rw [hfork] at hgrows
    exact h.call hgrows
  · rw [hfork] at hgrows
    have hcalled := h.call hgrows
    obtain ⟨hsession, hgraph⟩ := hcalled.session.registerOutcomes activate (hB.forked _ _ _ _ _ hfork)
    exact hcalled.mgr hsession hgraph

theorem quiet_fork (snapshotId : String) (n : Int) (ids : Option (List String)) :
    Keeps (Quiet journal s₀) (ForkableEnvironmentManager.fork B.hooks snapshotId n ids) := by
  intro s hs
  rw [B.run_fork]
  split
  · exact hs
  · exact hs.materialized hB _ _ _

theorem Quiet.discardAnswer (h : Quiet journal s₀ s) {b : String} (hgets : ForkableBackend.discardable s.mgr b = true) :
    Quiet journal s₀ (B.discardAnswer b s).2 := by
  obtain ⟨hmain, hcurrent, -⟩ := ForkableBackend.discardable_iff.mp hgets
  have hgrows := hB.discard b s.world
  unfold ForkableBackend.discardAnswer
  rcases hdiscard : B.discard b s.world with ⟨e | _ | _, w⟩
  · rw [hdiscard] at hgrows
    exact h.call hgrows
  · rw [hdiscard] at hgrows
    exact h.call hgrows
  · rw [hdiscard] at hgrows
    have hcalled := h.call hgrows
    exact hcalled.mgr (hcalled.session.forget hmain hcurrent) (s.mgr.snapshotGraph_forget b)

theorem quiet_discardBranchBody (b : String) : Keeps (Quiet journal s₀) (discardBranchBody B.hooks b) := by
  intro s hs
  rw [B.run_discardBranchBody]
  split_ifs with hgets
  · exact hs.discardAnswer hB hgets
  · exact hs

theorem Quiet.left (h : Quiet journal s₀ s) (departing restored : String) :
    Quiet journal s₀ (B.left departing restored s).2 := by
  unfold ForkableBackend.left
  split_ifs with hdeparts hgets
  · exact h.discardAnswer hB hgets
  · exact h
  · exact h

theorem Quiet.switched (h : Quiet journal s₀ s) (snapshotId departing : String) :
    Quiet journal s₀ (B.switched snapshotId departing s).2 := by
  have hmaterialized := (h.call (hB.time s.world)).materialized hB snapshotId [none] false
  unfold ForkableBackend.switched
  dsimp only
  rcases hm : B.materialized snapshotId [none] false { s with world := (B.time s.world).2 } with
    ⟨e | _ | ⟨branch, rest⟩, s₁⟩
  · rw [hm] at hmaterialized
    exact hmaterialized
  · rw [hm] at hmaterialized
    exact hmaterialized
  · rw [hm] at hmaterialized
    have hmem := B.mem_keys_materialized hm branch (List.mem_cons_self ..)
    have hswitched := hmaterialized.mgr (hmaterialized.session.switch hmem) rfl
    have hleft := hswitched.left hB departing branch.id
    dsimp only
    rcases hl : B.left departing branch.id { s₁ with mgr := s₁.mgr.switch branch.id } with ⟨e | _, s₂⟩
    · rw [hl] at hleft
      exact hleft
    · rw [hl] at hleft
      exact hleft.call (hB.time s₂.world)

theorem Quiet.restored (h : Quiet journal s₀ s) (snapshotId : String) :
    Quiet journal s₀ (B.restored snapshotId s).2 := by
  unfold ForkableBackend.restored
  split
  · exact h
  · next departing _ =>
    split
    · exact h
    · next node commands hwalk =>
      -- the snapshot is a node of the graph, so a checkpoint that was there before
      have hid : snapshotId ∈ (journal s.world).ids := by
        have hphysical := h.session.consistent.regular.physical
        obtain ⟨hmem, -⟩ := Manager.physicalAncestor_ok (fun i n hn => (hphysical i n hn).1) hwalk
        have hnode := h.session.charted _ _ hmem
        rw [(h.session.consistent.regular.physicalAncestor hwalk).1] at hnode
        exact hnode.1
      have hswitched := (Quiet.refl h.session).switched hB snapshotId departing.id
      split
      · next hs =>
        rw [hs] at hswitched
        exact h.trans hswitched
      · next hs =>
        rw [hs] at hswitched
        exact h.trans hswitched
      · next elapsed s₁ hs =>
        rw [hs] at hswitched
        have hbench := hswitched.session.bench
          (s₁.mgr.addEntry "restore" snapshotId elapsed s₁.mgr.currentBranchId).stats
        have hposition := hbench.position s₁.mgr.currentBranchId (Journal.ids_mono hswitched.grows hid)
        exact h.trans (hswitched.mgr hposition (Grows.setBranchPosition _ _ _).graph)

/-! ### Captures -/

omit hB in
/-- The branch stands on a node of the graph, or on nothing. -/
def Manager.StandsKnown (m : Manager) (b : String) : Prop :=
  ∀ r p, m.branches.get? b = some r → (m.record r).lastSnapshotId = some p → p ∈ m.snapshotGraph.keys

/-- What an operation does that captures the branch `b`, if it captures any. -/
structure Captures (journal : W → Journal) (b : Option String) (s s' : Sys W) : Prop where
  session : InSession (journal s'.world) s'.mgr
  keys : s.mgr.snapshotGraph.keys ⊆ s'.mgr.snapshotGraph.keys
  known : (∀ b' ∈ b, s.mgr.StandsKnown b') → Manager.ParentsKnown s.mgr.snapshotGraph →
    Manager.ParentsKnown s'.mgr.snapshotGraph

omit hB in
theorem Quiet.captures (h : Quiet journal s₀ s) (b : Option String) : Captures journal b s₀ s where
  session := h.session
  keys := by
    rw [h.graph]
    exact fun _ hid => hid
  known _ hknown := by
    rw [h.graph]
    exact hknown

omit hB in
/-- The graph with a node under the place where the branch stood. -/
theorem Captures.of_record {b : String} {s' : Sys W} {r : Ref} {id : String} (hlookup : s.mgr.branches.get? b = some r)
    (hsession : InSession (journal s'.world) s'.mgr)
    (hgraph : s'.mgr.snapshotGraph = Manager.recordNode s.mgr.snapshotGraph
      { snapshotId := id, parentId := (s.mgr.record r).lastSnapshotId }) : Captures journal (some b) s s' where
  session := hsession
  keys id' hid := by
    rw [hgraph]
    exact Manager.mem_keys_recordNode.mpr (.inr hid)
  known hstands hknown := by
    rw [hgraph]
    exact hknown.recordNode fun p hp => hstands b rfl r p hlookup hp

/-- The snapshot hook records no node, and its id is the one of a new checkpoint. -/
theorem quiet_coreSnapshot {b : String} {s' : Sys W} {r : Except PyError (Option String × ℚ)}
    (h : InSession (journal s.world) s.mgr) (hr : (B.hooks.coreSnapshot b).run s = (r, s')) :
    Quiet journal s s' ∧
      ∀ id elapsed, r = .ok (some id, elapsed) → id ∉ (journal s.world).ids ∧ id ∈ (journal s'.world).ids := by
  have hgrows := hB.snapshot b s.world
  simp only [ForkableBackend.hooks, ForkableBackend.hooksWith, run_bind, run_tryWorld] at hr
  rcases hhook : B.snapshot b s.world with ⟨e | ⟨_ | ⟨id, resource⟩, elapsed⟩, w⟩
  · rw [hhook] at hr hgrows
    obtain ⟨rfl, rfl⟩ := Prod.mk.inj hr
    exact ⟨(Quiet.refl h).call hgrows, by simp⟩
  · rw [hhook] at hr hgrows
    obtain ⟨rfl, rfl⟩ := Prod.mk.inj hr
    exact ⟨(Quiet.refl h).call hgrows, by simp⟩
  · obtain ⟨hnew, hid⟩ := hB.captured b s.world id resource elapsed w hhook
    rw [hhook] at hr hgrows
    simp only [run_afterValue_ok, ForkableBackend.register, EnvironmentManager.registerSnapshotResource, run_bind,
      run_updateState, run_pure, Option.isSome_some, if_true] at hr
    have hcalled := (Quiet.refl h).call hgrows
    have hregistered := hcalled.mgr (m := s.mgr.registerSnapshotResource id resource)
      (hcalled.session.update (.registered _ _ _) (hcalled.session.placed.congr rfl rfl) rfl) rfl
    have hquiet : Quiet journal s s' ∧
        ((∃ e, r = .error e) ∨ r = .ok (some id, elapsed) ∧ journal w <+: journal s'.world) := by
      unfold ForkableBackend.refresh at hr
      split_ifs at hr
      · have hlisted := quiet_listBranches hB (pure ()) _ (Quiet.refl hregistered.session)
        rcases hl : (ForkableEnvironmentManager.listBranches (B.hooksWith (pure ()))).run
          ⟨s.mgr.registerSnapshotResource id resource, w⟩ with ⟨e | l, s₁⟩
        · rw [run_bind, hl] at hr
          obtain ⟨rfl, rfl⟩ := Prod.mk.inj hr
          rw [hl] at hlisted
          exact ⟨hregistered.trans hlisted, .inl ⟨e, rfl⟩⟩
        · rw [run_bind, hl] at hr
          obtain ⟨rfl, rfl⟩ := Prod.mk.inj hr
          rw [hl] at hlisted
          exact ⟨hregistered.trans hlisted, .inr ⟨rfl, hlisted.grows⟩⟩
      · obtain ⟨rfl, rfl⟩ := Prod.mk.inj hr
        exact ⟨hregistered, .inr ⟨rfl, List.prefix_refl _⟩⟩
    obtain ⟨hquiet, ⟨e, rfl⟩ | ⟨rfl, hlater⟩⟩ := hquiet
    · exact ⟨hquiet, by simp⟩
    · refine ⟨hquiet, fun id' elapsed' he => ?_⟩
      cases he
      exact ⟨hnew, Journal.ids_mono hlater hid⟩

/-- `_snapshot_branch` -/
theorem captures_snapshotBranch {b : String} (h : InSession (journal s.world) s.mgr) :
    Captures journal (some b) s ((EnvironmentManager.snapshotBranch B.hooks.toHooks b true).run s).2 := by
  have hcase := snapshot_cases B.hooks b s
  generalize (EnvironmentManager.snapshotBranch B.hooks.toHooks b true).run s = x at hcase ⊢
  cases hcase with
  | unregistered => exact (Quiet.refl h).captures _
  | retired => exact (Quiet.refl h).captures _
  | raised hook => exact (quiet_coreSnapshot hB h hook).1.captures _
  | failed hook => exact (quiet_coreSnapshot hB h hook).1.captures _
  | @committed r id elapsed s' lookup hactive hook =>
    obtain ⟨hquiet, hid⟩ := quiet_coreSnapshot hB h hook
    obtain ⟨hnew, hid⟩ := hid id elapsed rfl
    set node : SnapshotNode := { snapshotId := id, parentId := (s.mgr.record r).lastSnapshotId } with hnode
    have hbench : InSession (journal s'.world) (s'.mgr.addEntry "snapshot" id elapsed b) := hquiet.session.bench _
    have hgraph : ((s'.mgr.addEntry "snapshot" id elapsed b).commit b r node).snapshotGraph =
        Manager.recordNode s.mgr.snapshotGraph node := by
      rw [Manager.snapshotGraph_commit, ← hquiet.graph]
      rfl
    refine Captures.of_record lookup ?_ hgraph
    have hrecorded : InSession (journal s'.world) (Manager.recordSnapshotNode _ node) :=
      hbench.record hquiet.grows (hquiet.graph ▸ h.charted) (hB.sound _) hnew hid (h.placed b r lookup)
    constructor
    case consistent =>
      have hupdate : Manager.Update true (s'.mgr.addEntry "snapshot" id elapsed b)
        ((s'.mgr.addEntry "snapshot" id elapsed b).commit b r node) := .committed _ b r id _
      exact hbench.consistent.update hupdate
    case placed => exact hbench.placed.commit b r fun _ _ => placed_positionedAt hid
    case charted =>
      rw [Manager.snapshotGraph_commit]
      exact hrecorded.charted
    case linked =>
      refine Manager.graphLinked_iff.mpr ?_
      rw [Manager.snapshotGraph_commit]
      exact Manager.graphLinked_iff.mp hrecorded.linked

/-- `_park_branch` -/
theorem captures_parkBranchBody {b : String} (h : InSession (journal s.world) s.mgr) :
    Captures journal (some b) s ((parkBranchBody B.hooks b).run s).2 := by
  have hgrows := hB.park b s.world
  have hcase := B.park_cases b h.consistent.main
  generalize (parkBranchBody B.hooks b).run s = x at hcase ⊢
  cases hcase with
  | refused => exact (Quiet.refl h).captures _
  | raised hook =>
    rw [hook] at hgrows
    exact ((Quiet.refl h).call hgrows).captures _
  | failed hook =>
    rw [hook] at hgrows
    exact ((Quiet.refl h).call hgrows).captures _
  | @parked r id resource elapsed w notMain lookup hook =>
    obtain ⟨hnew, hid⟩ := hB.parked b s.world id resource elapsed w hook
    rw [hook] at hgrows
    set node : SnapshotNode := { snapshotId := id, parentId := (s.mgr.record r).lastSnapshotId } with hnode
    have hcalled := h.mono hgrows
    have hregistered : InSession (journal w) (s.mgr.registerSnapshotResource id resource) :=
      hcalled.update (.registered _ _ _) (hcalled.placed.congr rfl rfl) rfl
    have hrecorded : InSession (journal w) ((s.mgr.registerSnapshotResource id resource).recordSnapshotNode node) :=
      hregistered.record hgrows h.charted (hB.sound _) hnew hid (h.placed b r lookup)
    set m₁ := ((s.mgr.registerSnapshotResource id resource).recordSnapshotNode node).addEntry "park" id elapsed b
    have hbench : InSession (journal w) m₁ := hrecorded.bench _
    have hretired : InSession (journal w) (Manager.forget
        (if b = m₁.currentBranchId then (m₁.setCurrentBranch defaultBranchId).2 else m₁) b) := by
      split_ifs with hcurrent
      · rw [Manager.setCurrentBranch_of_mem hbench.consistent.main]
        exact (hbench.switch hbench.consistent.main).forget notMain notMain
      · exact hbench.forget notMain hcurrent
    have hgraph : (Manager.forget (if b = m₁.currentBranchId then (m₁.setCurrentBranch defaultBranchId).2 else m₁)
        b).snapshotGraph = Manager.recordNode s.mgr.snapshotGraph node := by
      rw [Manager.snapshotGraph_forget]
      split_ifs
      · exact Manager.snapshotGraph_setCurrentBranch _ _
      · rfl
    exact Captures.of_record lookup hretired hgraph

end

end StateFork
