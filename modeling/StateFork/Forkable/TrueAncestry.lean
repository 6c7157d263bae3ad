import StateFork.Controller.Frame
import StateFork.Forkable.Bases

/-!
# The snapshot tree records true ancestry

The backend keeps where each live branch stands (`KeepsBases`), and nobody else creates or destroys
branches. Then every operation leaves the manager in step with the backend (`InStep`), and the node
that it records, if any, has the place where the branch stood before the capture as its parent. A run
that keeps these places in a history (`trueParents`) finds them in the graph at its end.
-/

namespace StateFork

open Conc Conc.Prog

variable {W : Type}

/-- The states that are in step and have a given graph. -/
def InStepAt (base : W → String → Option String) (graph : Dict String SnapshotNode) (s : Sys W) : Prop :=
  InStep base s ∧ s.mgr.snapshotGraph = graph

section

variable {B : ForkableBackend W} {base : W → String → Option String} (hB : KeepsBases B base)

include hB

/-! ### Listing -/

/-- A listing keeps what the manager knows, also while a branch is being captured. -/
theorem KeepsBases.listing {skip : String → Prop} {s : Sys W} (h : Tracks skip (base s.world) s.mgr)
    (hlive : LiveRegistered s.mgr) :
    base (B.afterListing s).world = base s.world ∧ Tracks skip (base s.world) (B.afterListing s).mgr ∧
      LiveRegistered (B.afterListing s).mgr ∧ Grows s.mgr (B.afterListing s).mgr := by
  obtain ⟨hbase, hcase⟩ := hB.listed s.world
  unfold ForkableBackend.afterListing
  rcases hl : B.list s.world with ⟨r, w⟩
  rw [hl] at hbase hcase
  rcases hcase with hr | ⟨listing, hr, htrue⟩
  · obtain rfl : r = _ := hr
    exact ⟨hbase, h, hlive, Grows.refl _⟩
  · obtain rfl : r = _ := hr
    obtain ⟨htracks, hregistered, hgrows⟩ := h.relist htrue
    exact ⟨hbase, htracks, hregistered, hgrows⟩

/-- A listing never raises. -/
theorem KeepsBases.listBranches_ok (refresh : M W Unit) (s : Sys W) :
    ∃ l, (ForkableEnvironmentManager.listBranches (B.hooksWith refresh)).run s = (.ok l, B.afterListing s) := by
  obtain ⟨hstate, herror⟩ := B.run_listBranches refresh s
  rcases hr : ((ForkableEnvironmentManager.listBranches (B.hooksWith refresh)).run s).1 with e | l
  · have he := herror e hr
    rcases (hB.listed s.world).2 with hnone | ⟨listing, hsome, -⟩
    · rw [hnone] at he
      cases he
    · rw [hsome] at he
      cases he
  · exact ⟨l, Prod.ext hr hstate⟩

/-! ### Capturing -/

/-- The snapshot hook: a capture that succeeded is known to the backend, and the manager still has to follow;
any other outcome changes nothing. -/
theorem KeepsBases.coreSnapshot {b : String} {s s' : Sys W} {r : Except PyError (Option String × ℚ)}
    (h : InStep base s) (hr : (B.hooks.coreSnapshot b).run s = (r, s')) :
    (∃ id elapsed, r = .ok (some id, elapsed) ∧ id ≠ "" ∧
        base s'.world = Function.update (base s.world) b (some id) ∧
        Tracks (fun b' => False ∨ b' = b) (base s'.world) s'.mgr ∧ LiveRegistered s'.mgr ∧ Grows s.mgr s'.mgr) ∨
      ((∀ id elapsed, r ≠ .ok (some id, elapsed)) ∧ InStepAt base s.mgr.snapshotGraph s') := by
  simp only [ForkableBackend.hooks, ForkableBackend.hooksWith, run_bind, run_tryWorld] at hr
  rcases hhook : B.snapshot b s.world with ⟨e | ⟨_ | ⟨id, resource⟩, elapsed⟩, w⟩
  · rw [hhook] at hr
    obtain ⟨rfl, rfl⟩ := Prod.mk.inj hr
    have hbase := hB.notCaptured b s.world _ w hhook (by simp)
    exact .inr ⟨by simp, ⟨hbase ▸ h.tracks, h.registered⟩, rfl⟩
  · rw [hhook] at hr
    obtain ⟨rfl, rfl⟩ := Prod.mk.inj hr
    have hbase := hB.notCaptured b s.world _ w hhook (by simp)
    exact .inr ⟨by simp, ⟨hbase ▸ h.tracks, h.registered⟩, rfl⟩
  · obtain ⟨hid, hbase⟩ := hB.captured b s.world id resource elapsed w hhook
    rw [hhook] at hr
    simp only [run_afterValue_ok, ForkableBackend.register, EnvironmentManager.registerSnapshotResource, run_bind,
      run_updateState, run_pure, Option.isSome_some, if_true] at hr
    set s₁ : Sys W := ⟨s.mgr.registerSnapshotResource id resource, w⟩ with hs₁
    have htracks : Tracks (fun b' => False ∨ b' = b) (base s₁.world) s₁.mgr := by
      rw [hs₁, hbase]
      exact (h.tracks.captured hid).registerSnapshotResource hid resource
    have hgrows : Grows s.mgr s₁.mgr := ⟨fun _ _ hr => hr, rfl, rfl⟩
    refine .inl ⟨id, elapsed, ?_⟩
    unfold ForkableBackend.refresh at hr
    split_ifs at hr
    · obtain ⟨l, hl⟩ := hB.listBranches_ok (pure ()) s₁
      rw [run_bind, hl] at hr
      obtain ⟨rfl, rfl⟩ := Prod.mk.inj hr
      obtain ⟨hsame, hlisted, hlive, hgrows'⟩ := hB.listing htracks h.registered
      exact ⟨rfl, hid, hsame.trans hbase, hsame ▸ hlisted, hlive, hgrows.trans hgrows'⟩
    · obtain ⟨rfl, rfl⟩ := Prod.mk.inj hr
      exact ⟨rfl, hid, hbase, htracks, h.registered, hgrows⟩

end

/-- The recorded parent of a snapshot. -/
def parentOf (s : Sys W) (id : String) : Option (Option String) :=
  (s.mgr.snapshotGraph.get? id).map SnapshotNode.parentId

/-- What a snapshot or park of the branch `b` may do: the manager stays in step, and the id that it returns,
if any, is recorded with the place where the backend had the branch before. -/
structure Recorded (base : W → String → Option String) (b : String) (s : Sys W)
    (r : Except PyError (Option String)) (s' : Sys W) : Prop where
  inStep : InStep base s'
  recorded : ∀ id, r = .ok (some id) → parentOf s' id = some (base s.world b)
  kept : ∀ id, r ≠ .ok (some id) → parentOf s' id = parentOf s id

/-- Nothing was recorded. -/
theorem InStepAt.recorded {base : W → String → Option String} {b : String} {s s' : Sys W}
    {r : Except PyError (Option String)} (hr : ∀ id, r ≠ .ok (some id))
    (h : InStepAt base s.mgr.snapshotGraph s') : Recorded base b s r s' where
  inStep := h.1
  recorded id he := absurd he (hr id)
  kept id _ := by
    unfold parentOf
    rw [h.2]

section

variable {B : ForkableBackend W} {base : W → String → Option String} (hB : KeepsBases B base)

open EnvironmentManager ForkableEnvironmentManager

include hB

/-- `_snapshot_branch` -/
theorem KeepsBases.afterSnapshot {b : String} {s : Sys W} (h : InStep base s) :
    Recorded base b s ((EnvironmentManager.snapshotBranch B.hooks.toHooks b true).run s).1
      ((EnvironmentManager.snapshotBranch B.hooks.toHooks b true).run s).2 := by
  have hcase := snapshot_cases B.hooks b s
  generalize (EnvironmentManager.snapshotBranch B.hooks.toHooks b true).run s = x at hcase ⊢
  cases hcase with
  | unregistered lookup => exact InStepAt.recorded (by simp) ⟨h, rfl⟩
  | retired lookup inactive => exact InStepAt.recorded (by simp) ⟨h, rfl⟩
  | raised hook =>
    rcases hB.coreSnapshot h hook with ⟨_, _, he, -⟩ | ⟨-, hkept⟩
    · cases he
    · exact hkept.recorded (by simp)
  | failed hook =>
    rcases hB.coreSnapshot h hook with ⟨_, _, he, -⟩ | ⟨-, hkept⟩
    · cases he
    · exact hkept.recorded (by simp)
  | @committed r id elapsed s' lookup hactive hook =>
    rcases hB.coreSnapshot h hook with ⟨id', elapsed', he, hid, hbase, htracks, hlive, hgrows⟩ | ⟨hno, -⟩
    · cases he
      obtain ⟨last, hlast, hposition⟩ := h.tracks.position b r lookup
      have hmoved : base s'.world b = some id := by rw [hbase, Function.update_self]
      have hparent (id' : String) := Manager.parentId_recordNode s'.mgr.snapshotGraph
        { snapshotId := id, parentId := (s.mgr.record r).lastSnapshotId } id'
      have hgraph : (s'.mgr.addEntry "snapshot" id elapsed b).snapshotGraph = s'.mgr.snapshotGraph := rfl
      constructor
      case inStep =>
        refine ⟨(htracks.addEntry _ _ _ _).commit (hgrows.branches b r lookup) hmoved rfl, ?_⟩
        exact LiveRegistered.congr hlive (Manager.liveBranches_commit ..) (Manager.branches_commit ..)
      case recorded =>
        intro id' he
        obtain rfl := Option.some.inj (Except.ok.inj he)
        unfold parentOf
        rw [Manager.snapshotGraph_commit, hgraph, hparent, if_pos rfl, (hposition not_false).2, hlast]
      case kept =>
        intro id' hne
        unfold parentOf
        rw [Manager.snapshotGraph_commit, hgraph, hparent, if_neg fun he => hne (by rw [he]), hgrows.graph]
    · exact absurd rfl (hno id elapsed)

/-- `_park_branch` -/
theorem KeepsBases.afterPark {b : String} {s : Sys W} (h : InStep base s) :
    Recorded base b s ((parkBranchBody B.hooks b).run s).1 ((parkBranchBody B.hooks b).run s).2 := by
  have hcase := B.park_cases b h.tracks.main
  generalize (parkBranchBody B.hooks b).run s = x at hcase ⊢
  cases hcase with
  | refused => exact InStepAt.recorded (by simp) ⟨h, rfl⟩
  | raised hook =>
    have hbase := hB.notParked b s.world _ _ hook (by simp)
    exact InStepAt.recorded (by simp) ⟨⟨hbase ▸ h.tracks, h.registered⟩, rfl⟩
  | failed hook =>
    have hbase := hB.notParked b s.world _ _ hook (by simp)
    exact InStepAt.recorded (by simp) ⟨⟨hbase ▸ h.tracks, h.registered⟩, rfl⟩
  | @parked r id resource elapsed w notMain lookup hook =>
    obtain ⟨hid, hbase⟩ := hB.parked b s.world id resource elapsed w hook
    obtain ⟨last, hlast, hposition⟩ := h.tracks.position b r lookup
    have hparent (id' : String) := Manager.parentId_recordNode s.mgr.snapshotGraph
      { snapshotId := id, parentId := (s.mgr.record r).lastSnapshotId } id'
    have hgraph : ((s.mgr.registerSnapshotResource id resource).retireParked b id (s.mgr.record r).lastSnapshotId
        elapsed).snapshotGraph = Manager.recordNode s.mgr.snapshotGraph
          { snapshotId := id, parentId := (s.mgr.record r).lastSnapshotId } := by
      unfold Manager.retireParked
      dsimp only
      rw [Manager.snapshotGraph_forget]
      split_ifs
      · exact Manager.snapshotGraph_setCurrentBranch _ _
      · rfl
    let node : SnapshotNode := { snapshotId := id, parentId := (s.mgr.record r).lastSnapshotId }
    have hnode : node.snapshotId ≠ "" := hid
    have htracks := ((h.tracks.registerSnapshotResource hid resource).recordSnapshotNode hnode rfl).addEntry
      "park" id elapsed b
    constructor
    case inStep =>
      unfold Manager.retireParked
      dsimp only
      split_ifs with hcurrent
      · have hset := Manager.setCurrentBranch_of_mem htracks.main
        have htracks' := htracks.setCurrentBranch defaultBranchId
        rw [hset] at htracks' ⊢
        refine ⟨?_, LiveRegistered.forget ?_ b⟩
        · show Tracks _ (base w) _
          rw [hbase]
          exact htracks'.retire notMain notMain
        · exact h.registered.congr rfl rfl
      · refine ⟨?_, LiveRegistered.forget ?_ b⟩
        · show Tracks _ (base w) _
          rw [hbase]
          exact htracks.retire notMain hcurrent
        · exact h.registered.congr rfl rfl
    case recorded =>
      intro id' he
      obtain rfl := Option.some.inj (Except.ok.inj he)
      unfold parentOf
      rw [hgraph, hparent, if_pos rfl, (hposition not_false).2, hlast]
    case kept =>
      intro id' hne
      unfold parentOf
      rw [hgraph, hparent, if_neg fun he => hne (by rw [he])]

/-! ### Operations that record nothing -/

variable {graph : Dict String SnapshotNode}

omit hB in
theorem InStepAt.world {s : Sys W} (h : InStepAt base graph s) {w : W} (hw : base w = base s.world) :
    InStepAt base graph { s with world := w } :=
  ⟨⟨hw ▸ h.1.tracks, h.1.registered⟩, h.2⟩

omit hB in
theorem InStepAt.bench {s : Sys W} (h : InStepAt base graph s) (stats : BenchmarkStats) :
    InStepAt base graph { s with mgr := { s.mgr with stats } } :=
  ⟨⟨h.1.tracks.congr rfl rfl (fun _ => ⟨rfl, rfl⟩) rfl rfl rfl rfl rfl, h.1.registered.congr rfl rfl⟩, h.2⟩

theorem keeps_time : Keeps (InStepAt base graph) (B.hooks.time : M W ℚ) :=
  keeps_world fun s hs => hs.world (hB.time s.world)

theorem keeps_execStep {b : String} {command : Command} {timeout : Option ℚ} :
    Keeps (InStepAt base graph) (execBranch B.hooks.toHooks b command timeout) := by
  have hexec : Keeps (InStepAt base graph) (B.hooks.coreExec command timeout b) :=
    keeps_tryWorld (fun _ => []) fun s hs => hs.world (hB.exec command timeout b s.world)
  refine keeps_execBranch hexec (keeps_time hB) (fun s _ _ _ _ hs => hs.bench _) fun s r counted hs => ?_
  exact ⟨⟨hs.1.tracks.modifyRecord r fun _ => ⟨rfl, rfl⟩, hs.1.registered.congr rfl rfl⟩, hs.2⟩

theorem keeps_copyStep {b hostPath envPath : String} {into : Bool} :
    Keeps (InStepAt base graph) (copyBranch B.hooks.toHooks b hostPath envPath into) := by
  have hcopy : Keeps (InStepAt base graph) (B.hooks.coreCopy b hostPath envPath into) :=
    keeps_tryWorld (fun _ => []) fun s hs => hs.world (hB.copy b hostPath envPath into s.world)
  exact keeps_copyBranch hcopy (keeps_time hB) fun s _ _ hs => hs.bench _

theorem keeps_listBranches : Keeps (InStepAt base graph) (listBranches B.hooks) := by
  intro s hs
  obtain ⟨l, hl⟩ := hB.listBranches_ok B.refresh s
  obtain ⟨hbase, htracks, hlive, hgrows⟩ := hB.listing hs.1.tracks hs.1.registered
  show InStepAt base graph ((listBranches (B.hooksWith B.refresh)).run s).2
  rw [hl]
  exact ⟨⟨hbase ▸ htracks, hlive⟩, hgrows.graph.trans hs.2⟩

/-- A discard that succeeds was not one of the current branch, and moves no other one. -/
theorem hoare_discardBranchBody {b current : String} {at_ : Option String} :
    Hoare (fun s => InStepAt base graph s ∧ s.mgr.currentBranchId = current ∧ base s.world current = at_)
      (discardBranchBody B.hooks b)
      fun _ s => InStepAt base graph s ∧ s.mgr.currentBranchId = current ∧ base s.world current = at_ := by
  rintro s ⟨hs, hcurrent, hat⟩
  have hcase := B.discard_cases b s
  generalize (discardBranchBody B.hooks b).run s = x at hcase ⊢
  cases hcase with
  | refused => exact ⟨hs, hcurrent, hat⟩
  | raised hook =>
    have hbase := hB.notDiscarded b s.world _ _ hook (by simp)
    exact ⟨hs.world hbase, hcurrent, hbase ▸ hat⟩
  | failed hook =>
    have hbase := hB.notDiscarded b s.world _ _ hook (by simp)
    exact ⟨hs.world hbase, hcurrent, hbase ▸ hat⟩
  | @discarded w notMain notCurrent hook =>
    have hbase := hB.discarded b s.world w hook
    have htracks := hs.1.tracks.retire notMain notCurrent
    refine ⟨⟨⟨hbase ▸ htracks, hs.1.registered.forget b⟩, ?_⟩, ?_, ?_⟩
    · exact (Manager.snapshotGraph_forget _ _).trans hs.2
    · have hkept : (s.mgr.forget b).currentBranchId = s.mgr.currentBranchId := by
        unfold Manager.forget Manager.removeBranch
        split <;> rfl
      exact hkept.trans hcurrent
    · show base w current = at_
      rw [hbase, Function.update_of_ne (hcurrent ▸ notCurrent.symm)]
      exact hat

/-! ### Materializing -/

/-- Forked branches are registered where the backend has them. -/
theorem hoare_materializeBranches {snapshotId : String} (hid : snapshotId ≠ "")
    {requestedIds : List (Option String)} {activate : Bool} :
    Hoare (InStepAt base graph) (materializeBranches B.hooks snapshotId requestedIds activate) fun r s =>
      InStepAt base graph s ∧ ∀ l, r = .ok l → ∀ b ∈ l,
        base s.world b.id = some snapshotId ∧ b.id ∈ s.mgr.branches.keys := by
  intro s hs
  rw [B.run_materializeBranches]
  unfold ForkableBackend.materialized
  rcases hfork : B.fork snapshotId requestedIds s.world with ⟨e | outcomes, w⟩
  · have hbase := hB.notForked _ _ _ _ _ hfork
    exact ⟨hs.world hbase, by simp⟩
  · obtain ⟨hout, hnodup, hbase⟩ := hB.forked _ _ _ _ _ hfork
    have htracks := hs.1.tracks.registerOutcomes activate hid hnodup hout
    have hlive : ∀ (l : List (EnvironmentBranch × ℚ)) (m : Manager), LiveRegistered m →
        LiveRegistered (l.foldl (Manager.registerOutcome activate) m) := by
      intro l
      induction l with
      | nil => exact fun m hm => hm
      | cons o l ih => exact fun m hm => ih _ (Grows.liveRegistered_registerOutcome hm activate o)
    have hgrows := Grows.foldl (fun m o => Grows.registerOutcome m activate o) outcomes s.mgr
    refine ⟨⟨⟨?_, hlive outcomes s.mgr hs.1.registered⟩, hgrows.graph.trans hs.2⟩, ?_⟩
    · show Tracks _ (base w) _
      rw [hbase]
      exact htracks
    · intro l hl b hb
      obtain rfl := Except.ok.inj hl
      obtain ⟨o, ho, rfl⟩ := List.mem_map.mp hb
      obtain ⟨r, hr, -⟩ := hs.1.tracks.regular.record_registerOutcomes activate hnodup ho
      refine ⟨?_, Dict.mem_keys_of_get? hr⟩
      show base w o.1.id = _
      rw [hbase]
      exact if_pos (List.mem_map.mpr ⟨o, ho, rfl⟩)

theorem keeps_fork {snapshotId : String} {n : Int} {ids : Option (List String)} :
    Keeps (InStepAt base graph) (ForkableEnvironmentManager.fork B.hooks snapshotId n ids) := by
  intro s hs
  have hrun := B.run_fork snapshotId n ids s
  rw [hrun]
  cases hreq : forkRequest s.mgr snapshotId n ids with
  | none => exact hs
  | some requestedIds =>
    have hid : snapshotId ≠ "" := by
      rintro rfl
      have hnone : s.mgr.snapshots.get? "" = none := Dict.get?_eq_none_iff.mpr hs.1.tracks.snapshotsNamed
      have hforkable : forkable s.mgr "" = false := by
        unfold forkable
        rw [hnone]
        split <;> simp
      simp [forkRequest, hforkable] at hreq
    have hm : (InStepAt base graph) ((materializeBranches B.hooks snapshotId requestedIds true).run s).2 :=
      (hoare_materializeBranches hB hid s hs).1
    rw [B.run_materializeBranches] at hm
    exact hm

/-- `_core_restore` makes a branch current that the backend has at the restored snapshot. -/
theorem hoare_coreRestore {snapshotId departing : String} (hid : snapshotId ≠ "") :
    Hoare (InStepAt base graph) (B.hooks.coreRestore snapshotId departing) fun r s =>
      InStepAt base graph s ∧
        ∀ elapsed, r = .ok (true, elapsed) → base s.world s.mgr.currentBranchId = some snapshotId := by
  unfold ForkHooks.coreRestore
  refine (keeps_time hB).bind (fun start => ?_) fun e s hs => ⟨hs, by simp⟩
  refine hoare_bind (hoare_materializeBranches hB hid) (fun branches => ?_) fun e s hs => ⟨hs.1, by simp⟩
  cases branches with
  | nil => exact hoare_ret fun s hs => ⟨hs.1, by simp⟩
  | cons restored rest =>
    -- the restored branch is registered, so switching to it cannot fail
    refine hoare_bind
      (Q := fun _ s => InStepAt base graph s ∧ s.mgr.currentBranchId = restored.id ∧
        base s.world restored.id = some snapshotId) ?_ (fun _ => ?_) fun e s hs => ⟨hs.1, by simp⟩
    · rintro s ⟨hs, hl⟩
      obtain ⟨hbase, hmem⟩ := hl _ rfl restored (List.mem_cons_self ..)
      have hset := Manager.setCurrentBranch_of_mem hmem
      have htracks := hs.1.tracks.setCurrentBranch restored.id
      rw [hset] at htracks
      simp only [setCurrentBranch, run_withLock, run_tryState, hset]
      exact ⟨⟨⟨htracks, hs.1.registered.congr rfl rfl⟩, hs.2⟩, trivial, hbase⟩
    · have hstop : Hoare (fun s => InStepAt base graph s ∧ s.mgr.currentBranchId = restored.id ∧
          base s.world restored.id = some snapshotId) B.hooks.time fun _ s => InStepAt base graph s ∧
            s.mgr.currentBranchId = restored.id ∧ base s.world restored.id = some snapshotId := by
        rintro s ⟨hs, hcurrent, hat⟩
        refine ⟨keeps_time hB s hs, hcurrent, ?_⟩
        show base (B.time s.world).2 _ = _
        rw [hB.time]
        exact hat
      have hreturn (a : Bool × ℚ) : Hoare (fun s => InStepAt base graph s ∧ s.mgr.currentBranchId = restored.id ∧
          base s.world restored.id = some snapshotId) (ret a : M W (Bool × ℚ)) fun r s => InStepAt base graph s ∧
            ∀ elapsed, r = .ok (true, elapsed) → base s.world s.mgr.currentBranchId = some snapshotId :=
        hoare_ret fun s hs => ⟨hs.1, fun _ _ => hs.2.1 ▸ hs.2.2⟩
      split
      · refine hoare_bind (hoare_discardBranchBody hB) (fun _ => ?_) fun e s hs => ⟨hs.1, by simp⟩
        exact hoare_bind hstop (fun _ => hreturn _) fun e s hs => ⟨hs.1, by simp⟩
      · exact hoare_bind hstop (fun _ => hreturn _) fun e s hs => ⟨hs.1, by simp⟩

omit hB in
/-- Without commands to replay, what follows a restore moves the current branch to where it is. -/
theorem hoare_finishRestore {snapshotId ancestorId : String} (elapsed : ℚ) :
    Hoare (fun s => InStepAt base graph s ∧ base s.world s.mgr.currentBranchId = some snapshotId)
      (finishRestore B.hooks.toHooks snapshotId ancestorId [] elapsed) fun _ => InStepAt base graph := by
  rintro s ⟨hs, hat⟩
  simp only [finishRestore, getCurrentBranchId, replay, each, run_bind, run_readState, run_addEntry, run_ret,
    run_pure, run_setBranchPosition, run_afterValue_ok]
  have hgrows := Grows.setBranchPosition
    (s.mgr.addEntry "restore" ancestorId elapsed s.mgr.currentBranchId) s.mgr.currentBranchId (some snapshotId)
  refine ⟨⟨(hs.1.tracks.addEntry _ _ _ _).setBranchPosition hat, fun b hb => ?_⟩, hgrows.graph.trans hs.2⟩
  have hlive : b ∈ s.mgr.liveBranches.keys := by
    have hsame := Manager.liveBranches_registerBranch
      (s.mgr.addEntry "restore" ancestorId elapsed s.mgr.currentBranchId) s.mgr.currentBranchId (some snapshotId)
    exact congrArg Dict.keys hsame ▸ hb
  exact hgrows.mem_keys (hs.1.registered b hlive)

theorem keeps_restore {snapshotId : String} :
    Keeps (InStepAt base graph) (restore B.hooks.toHooks snapshotId) := by
  refine hoare_withLock (keeps_bind (reads_tryState _).keeps fun departing => hoare_withLock ?_)
  intro s hs
  rw [run_bind, run_readState, run_afterValue_ok]
  cases hwalk : s.mgr.physicalAncestor snapshotId with
  | error e => exact hs
  | ok walk =>
    obtain ⟨node, commands⟩ := walk
    -- the walk ends where it starts, and there is nothing to replay
    obtain ⟨rfl, rfl⟩ := hs.1.tracks.regular.physicalAncestor hwalk
    have hid : node.snapshotId ≠ "" := by
      intro he
      obtain ⟨hmem, -⟩ := Manager.physicalAncestor_ok (fun i n hn => (hs.1.tracks.regular.physical i n hn).1) hwalk
      exact hs.1.tracks.nodesNamed (he ▸ Dict.mem_keys_of_get? hmem)
    suffices h : Hoare (InStepAt base graph) (B.hooks.coreRestore node.snapshotId departing.id >>= fun x =>
        if x.1 then finishRestore B.hooks.toHooks node.snapshotId node.snapshotId [] x.2 else pure false)
        fun _ => InStepAt base graph from h s hs
    refine hoare_bind (hoare_coreRestore hB hid) (fun x => ?_) fun e s hs => hs.1
    obtain ⟨success, elapsed⟩ := x
    cases success with
    | false => exact hoare_ret fun s hs => hs.1
    | true => exact (hoare_finishRestore elapsed).weaken (fun s hs => ⟨hs.1, hs.2 elapsed rfl⟩) fun _ _ h => h

end

/-! ### Public operations -/

/-- The branch that an operation captures, if it captures one. -/
def PublicOp.target (m : Manager) : PublicOp → Option String
  | .snapshot => some m.currentBranchId
  | .snapshotBranch b _ => some b
  | .parkBranch b => some b
  | _ => none

open ForkableEnvironmentManager in
/-- The branch that an operation captured and the id that it returned for the capture. -/
def capture (F : ForkHooks W) (op : PublicOp) (s : Sys W) : Option (String × String) :=
  match op.target s.mgr, ((PublicOp.prog F op).run s).1 with
  | some b, .ok (.snapshotId (some id)) => some (b, id)
  | _, _ => none

/-- What every operation does to the tree. -/
structure Faithful (F : ForkHooks W) (base : W → String → Option String) (op : PublicOp) (s s' : Sys W) : Prop where
  inStep : InStep base s'
  recorded : ∀ b id, capture F op s = some (b, id) → parentOf s' id = some (base s.world b)
  kept : ∀ id, (∀ b, capture F op s ≠ some (b, id)) → parentOf s' id = parentOf s id

section

variable {B : ForkableBackend W} {base : W → String → Option String} (hB : KeepsBases B base)

open EnvironmentManager ForkableEnvironmentManager

/-- An operation that captures nothing. -/
theorem faithful_of_keeps {op : PublicOp} {s : Sys W} (h : InStep base s) (htarget : op.target s.mgr = none)
    (hop : Keeps (InStepAt base s.mgr.snapshotGraph) (PublicOp.prog B.hooks op)) :
    Faithful B.hooks base op s ((PublicOp.prog B.hooks op).run s).2 := by
  obtain ⟨hs', hgraph⟩ := hop s ⟨h, rfl⟩
  have hnone : capture B.hooks op s = none := by
    unfold capture
    rw [htarget]
  refine ⟨hs', fun b id hc => ?_, fun id _ => ?_⟩
  · rw [hnone] at hc
    cases hc
  · unfold parentOf
    rw [hgraph]

/-- An operation that captures a branch. -/
theorem faithful_of_recorded {op : PublicOp} {s : Sys W} {b : String} {p : M W (Option String)}
    (htarget : op.target s.mgr = some b) (hprog : PublicOp.prog B.hooks op = Outcome.snapshotId <$> p)
    (hop : Recorded base b s (p.run s).1 (p.run s).2) :
    Faithful B.hooks base op s ((PublicOp.prog B.hooks op).run s).2 := by
  have hcapture (b' id : String) : capture B.hooks op s = some (b', id) ↔ b' = b ∧ (p.run s).1 = .ok (some id) := by
    unfold capture
    rw [htarget, hprog, run_map]
    rcases (p.run s).1 with e | _ | id' <;> simp [Except.map, eq_comm]
  rw [hprog, run_map]
  refine ⟨hop.inStep, fun b' id hc => ?_, fun id hc => ?_⟩
  · obtain ⟨rfl, hr⟩ := (hcapture b' id).mp hc
    exact hop.recorded id hr
  · exact hop.kept id fun hr => hc b ((hcapture b id).mpr ⟨rfl, hr⟩)

/-- Swallowing a `KeyError` records nothing. -/
theorem Recorded.onKeyError {b : String} {s : Sys W} {p : M W (Option String)}
    (h : Recorded base b s (p.run s).1 (p.run s).2) :
    Recorded base b s ((onKeyError p none).run s).1 ((onKeyError p none).run s).2 := by
  unfold ForkableEnvironmentManager.onKeyError Prog.tryCatch
  rw [run_andThen]
  rcases hr : p.run s with ⟨e | r, s'⟩
  · rw [hr] at h
    have hkept : ∀ id, parentOf s' id = parentOf s id := fun id => h.kept id (by simp)
    dsimp only
    split_ifs
    · exact ⟨h.inStep, by simp, fun id _ => hkept id⟩
    · exact ⟨h.inStep, by simp, fun id _ => hkept id⟩
  · rw [hr] at h
    exact h

include hB

theorem faithful_step {s : Sys W} (h : InStep base s) {op : PublicOp} (hop : op ≠ .cleanup) :
    Faithful B.hooks base op s ((PublicOp.prog B.hooks op).run s).2 := by
  have hpark (b : String) : Recorded base b s ((parkBranch B.hooks b).run s).1 ((parkBranch B.hooks b).run s).2 := by
    unfold parkBranch
    rw [run_withLock]
    exact hB.afterPark h
  have hnamed {α : Type} {b : String} {p : M W α} {a c : α}
      (hp : Keeps (InStepAt base s.mgr.snapshotGraph) p) : Keeps (InStepAt base s.mgr.snapshotGraph)
        (isLive b >>= fun live => if live then onKeyError p a else pure c : M W α) := by
    refine keeps_bind (reads_readState _).keeps fun live => ?_
    split
    · refine keeps_tryCatch hp fun e => ?_
      split
      · exact keeps_ret _
      · exact hoare_throw fun _ hs => hs
    · exact keeps_ret _
  cases op with
  | cleanup => exact absurd rfl hop
  | snapshot =>
    refine faithful_of_recorded rfl rfl ?_
    simp only [EnvironmentManager.snapshot, getCurrentBranchId, run_withLock, run_bind, run_readState,
      run_afterValue_ok]
    exact hB.afterSnapshot h
  | snapshotBranch b park =>
    refine faithful_of_recorded rfl rfl ?_
    unfold ForkableEnvironmentManager.snapshotBranch
    cases park with
    | true => exact hpark b
    | false =>
      simp only [Bool.false_eq_true, if_false, isLive, run_bind, run_readState, run_afterValue_ok]
      split
      · exact (hB.afterSnapshot h).onKeyError
      · exact InStepAt.recorded (by simp) ⟨h, rfl⟩
  | parkBranch b => exact faithful_of_recorded rfl rfl (hpark b)
  | restore id => exact faithful_of_keeps h rfl (keeps_map _ (keeps_restore hB))
  | execCommand c t =>
    exact faithful_of_keeps h rfl
      (keeps_map _ (hoare_withLock (keeps_bind (reads_readState _).keeps fun _ => keeps_execStep hB)))
  | copyIn src path =>
    exact faithful_of_keeps h rfl
      (keeps_map _ (hoare_withLock (keeps_bind (reads_readState _).keeps fun _ => keeps_copyStep hB)))
  | copyOut path dst =>
    exact faithful_of_keeps h rfl
      (keeps_map _ (hoare_withLock (keeps_bind (reads_readState _).keeps fun _ => keeps_copyStep hB)))
  | execOnBranch b c t => exact faithful_of_keeps h rfl (keeps_map _ (hnamed (keeps_execStep hB)))
  | copyInBranch b src path => exact faithful_of_keeps h rfl (keeps_map _ (hnamed (keeps_copyStep hB)))
  | copyOutBranch b path dst => exact faithful_of_keeps h rfl (keeps_map _ (hnamed (keeps_copyStep hB)))
  | fork id n ids => exact faithful_of_keeps h rfl (keeps_map _ (keeps_fork hB))
  | discardBranch b =>
    refine faithful_of_keeps h rfl (keeps_map _ (hoare_withLock fun s' hs' => ?_))
    exact (hoare_discardBranchBody hB s' ⟨hs', rfl, rfl⟩).1
  | listBranches => exact faithful_of_keeps h rfl (keeps_map _ (keeps_listBranches hB))
  | listSnapshots => exact faithful_of_keeps h rfl (keeps_map _ (reads_readState _).keeps)
  | printSnapshotTree limit => exact faithful_of_keeps h rfl (keeps_map _ (reads_tryState _).keeps)
  | currentSnapshot =>
    exact faithful_of_keeps h rfl
      (keeps_map _ (hoare_withLock (keeps_bind (reads_tryState _).keeps fun _ => fun _ hs => hs)))
  | currentBranchId => exact faithful_of_keeps h rfl (keeps_map _ (reads_readState _).keeps)
  | statsLog => exact faithful_of_keeps h rfl (keeps_map _ (hoare_withLock fun _ hs => hs))
  | liveBranches => exact faithful_of_keeps h rfl (keeps_map _ (reads_readState _).keeps)

end

/-- The true parents of the snapshots of a run: for each id, where the backend had the branch right before the
last capture that returned the id. -/
def trueParents (F : ForkHooks W) (base : W → String → Option String) :
    List PublicOp → Sys W → (String → Option (Option String)) → String → Option (Option String)
  | [], _, parents => parents
  | op :: ops, s, parents =>
    trueParents F base ops ((ForkableEnvironmentManager.PublicOp.prog F op).run s).2 <|
      match capture F op s with
      | some (b, id) => Function.update parents id (some (base s.world b))
      | none => parents

open ForkableEnvironmentManager in
/-- Every run of public operations leaves every live branch, for the controller and the backend alike, at one
snapshot, and its graph has the true parent of every snapshot. -/
theorem ancestry_true (B : ForkableBackend W) (base : W → String → Option String) (hB : KeepsBases B base)
    (s₀ : Sys W) (h₀ : InStep base s₀) (ops : List PublicOp) (hops : .cleanup ∉ ops) :
    let s := runOps B.hooks ops s₀
    (∀ id p, trueParents B.hooks base ops s₀ (fun _ => none) id = some p → parentOf s id = some p) ∧
      ∀ b l, s.mgr.liveBranches.get? b = some l → ∃ r id, s.mgr.branches.get? b = some r ∧
        (s.mgr.record r).currentSnapshotId = some id ∧ (s.mgr.record r).lastSnapshotId = some id ∧
        (s.mgr.liveObject l).baseSnapshotId = id ∧ base s.world b = some id := by
  have hrun : ∀ (ops : List PublicOp) (s₀ : Sys W) (parents : String → Option (Option String)),
      .cleanup ∉ ops → InStep base s₀ → (∀ id p, parents id = some p → parentOf s₀ id = some p) →
      InStep base (runOps B.hooks ops s₀) ∧ ∀ id p, trueParents B.hooks base ops s₀ parents id = some p →
        parentOf (runOps B.hooks ops s₀) id = some p := by
    intro ops
    induction ops with
    | nil => exact fun s₀ parents _ h₀ hparents => ⟨h₀, hparents⟩
    | cons op ops ih =>
      intro s₀ parents hops h₀ hparents
      rw [List.mem_cons, not_or] at hops
      have hop : op ≠ .cleanup := fun he => hops.1 he.symm
      have hstep := faithful_step hB h₀ hop
      refine ih _ _ hops.2 hstep.inStep fun id p hp => ?_
      cases hcapture : capture B.hooks op s₀ with
      | none =>
        rw [hcapture] at hp
        rw [hstep.kept id fun b' hc => by rw [hcapture] at hc; cases hc]
        exact hparents id p hp
      | some captured =>
        obtain ⟨b, id'⟩ := captured
        rw [hcapture] at hp
        dsimp only at hp
        rw [Function.update_apply] at hp
        split_ifs at hp with he
        · rw [he, ← hp]
          exact hstep.recorded b id' hcapture
        · rw [hstep.kept id fun b' hc => he (by rw [hcapture] at hc; cases hc; rfl)]
          exact hparents id p hp
  obtain ⟨hs, hparents⟩ := hrun ops s₀ (fun _ => none) hops h₀ (by simp)
  refine ⟨hparents, fun b l hl => ?_⟩
  obtain ⟨r, hr⟩ := Dict.mem_keys_iff.mp (hs.registered b (Dict.mem_keys_of_get? hl))
  obtain ⟨id, hid, hposition⟩ := hs.tracks.position b r hr
  obtain ⟨-, id', hid', hobject⟩ := hs.tracks.live b l hl
  obtain rfl := Option.some.inj (hid.symm.trans hid')
  exact ⟨r, id, hr, (hposition not_false).1, (hposition not_false).2, hobject not_false, hid⟩

/-- A fork, a snapshot of it, and a snapshot with which it is parked. -/
theorem ancestry_true_sole :
    parentOf (ForkableEnvironmentManager.runOps (Fleet.sole true).hooks
      [.fork "base" 1 (some ["3f2a"]), .snapshotBranch "3f2a" false, .listBranches, .parkBranch "3f2a"]
      (Fleet.start ["9c41", "b07d"] [])) "b07d" = some (some "9c41") :=
  (ancestry_true (Fleet.sole true) Fleet.base (Fleet.sole_keepsBases true) (Fleet.start ["9c41", "b07d"] [])
    (Fleet.start_inStep _ _)
    [.fork "base" 1 (some ["3f2a"]), .snapshotBranch "3f2a" false, .listBranches, .parkBranch "3f2a"]
    (by decide)).1 "b07d" (some "9c41") (by decide +kernel)

end StateFork
