import StateFork.Forkable.LiveObjects
import StateFork.Forkable.Usable

/-!
# The contract of a restore

A restore of a forkable manager moves the current pointer to a branch that it forks from the snapshot, and then
destroys the branch that it leaves, unless that is the default one. `Moved` says what that means for the manager:
everything but the new and the departing branch is unchanged, and the departing branch is gone or unchanged as a
whole. The calls of the hooks and their order are part of the contract, so it is stated of a backend that keeps a
record of them (`ForkableBackend.recorded`).
-/

namespace StateFork

open Conc Conc.Prog

/-! ### What is unchanged about a branch -/

namespace Manager

/-- Both registries have the same entries for the branch, and its record and its live object are as before. -/
structure Unchanged (b : String) (m m' : Manager) : Prop where
  branch : m'.branches.get? b = m.branches.get? b
  live : m'.liveBranches.get? b = m.liveBranches.get? b
  record : ∀ r, m.branches.get? b = some r → m'.record r = m.record r
  object : ∀ l, m.liveBranches.get? b = some l → m'.liveObject l = m.liveObject l

variable {m m' m'' : Manager} {b b' : String}

theorem Unchanged.refl (b : String) (m : Manager) : m.Unchanged b m := ⟨rfl, rfl, fun _ _ => rfl, fun _ _ => rfl⟩

theorem Unchanged.trans (h : m.Unchanged b m') (h' : m'.Unchanged b m'') : m.Unchanged b m'' where
  branch := h'.branch.trans h.branch
  live := h'.live.trans h.live
  record r hr := (h'.record r (h.branch.trans hr)).trans (h.record r hr)
  object l hl := (h'.object l (h.live.trans hl)).trans (h.object l hl)

theorem unchanged_registerOutcome (hregular : Regular m) (hlive : LiveRegular m) (activate : Bool)
    {outcome : EnvironmentBranch × ℚ} (hb : b ≠ outcome.1.id) : m.Unchanged b (m.registerOutcome activate outcome) := by
  obtain ⟨hbranch, hrecord⟩ := hregular.record_registerOutcome_of_ne activate outcome hb
  constructor
  case branch => exact hbranch
  case live => rw [liveBranches_registerOutcome, Dict.get?_set_of_ne _ _ hb]
  case record => exact hrecord
  case object =>
    intro l hl
    rw [registerOutcome_eq]
    show ((m.newLiveObject outcome.1).2.registerBranch outcome.1.id _).2.liveObject l = _
    rw [liveObject_registerBranch]
    exact Heap.cell_alloc_of_lt _ _ (hlive.allocated b l hl)

theorem unchanged_forget (hregular : Regular m) {gone : String} (hb : b ≠ gone) : m.Unchanged b (m.forget gone) := by
  unfold forget removeBranch
  cases hgone : m.branches.get? gone with
  | none =>
    exact ⟨rfl, Dict.get?_erase_of_ne _ hb, fun _ _ => rfl, fun _ _ => rfl⟩
  | some r₀ =>
    refine ⟨Dict.get?_erase_of_ne _ hb, Dict.get?_erase_of_ne _ hb, fun r hr => ?_, fun _ _ => rfl⟩
    show (m.modifyRecord r₀ fun s => { s with active := false }).record r = m.record r
    rw [hregular.record_modifyRecord hgone hr, if_neg hb]

theorem unchanged_setBranchPosition (hregular : Regular m) {snapshotId : Option String} (hb : b ≠ b') :
    m.Unchanged b (m.setBranchPosition b' snapshotId) := by
  have hregistered := hregular.registerBranch b' snapshotId
  have hself := m.get?_registerBranch b' snapshotId
  have hbranch : (m.registerBranch b' snapshotId).2.branches.get? b = m.branches.get? b := by
    unfold registerBranch
    cases m.branches.get? b' with
    | some r => rfl
    | none => exact Dict.get?_set_of_ne _ _ hb
  constructor
  case branch => exact hbranch
  case live => exact congrArg (Dict.get? · b) liveBranches_setBranchPosition
  case record =>
    intro r hr
    obtain ⟨hr', hrecord⟩ : (m.registerBranch b' snapshotId).2.branches.get? b = some r ∧
        (m.registerBranch b' snapshotId).2.record r = m.record r := hregular.get?_registerBranch_of_get? hr
    unfold setBranchPosition
    dsimp only
    rw [hregistered.record_modifyRecord hself hr', if_neg hb, hrecord]
  case object => exact fun l _ => liveObject_registerBranch _ _ _ _

theorem unchanged_restoredTo (hregular : Regular m) {snapshotId : String} {elapsed : ℚ} (hb : b ≠ b') :
    m.Unchanged b (m.restoredTo b' snapshotId elapsed) := by
  have hlogged : m.Unchanged b (m.addEntry "restore" snapshotId elapsed b') := ⟨rfl, rfl, fun _ _ => rfl, fun _ _ => rfl⟩
  have hregular' : Regular (m.addEntry "restore" snapshotId elapsed b') := hregular.congr rfl rfl rfl
  exact hlogged.trans (unchanged_setBranchPosition hregular' hb)

/-! ### The branch that a restore moves to -/

/-- Positioning a registered branch updates its record. -/
theorem record_setBranchPosition_self {r : Ref} (hr : m.branches.get? b = some r) (snapshotId : Option String) :
    (m.setBranchPosition b snapshotId).branches.get? b = some r ∧
      (m.setBranchPosition b snapshotId).record r = .positionedAt snapshotId := by
  have hregister : m.registerBranch b snapshotId = (r, m) := by
    unfold registerBranch
    rw [hr]
  have hposition : m.setBranchPosition b snapshotId = m.modifyRecord r fun _ => .positionedAt snapshotId := by
    unfold setBranchPosition
    rw [hregister]
  rw [hposition]
  exact ⟨hr, Heap.cell_modify_self m.records r.addr fun _ => .positionedAt snapshotId⟩

/-- What a restore moved the current branch to. -/
structure StandsOn (m : Manager) (b snapshotId : String) : Prop where
  current : m.currentBranchId = b
  /-- An active record at the snapshot with an empty log. -/
  record : ∃ r, m.branches.get? b = some r ∧ m.record r = .positionedAt (some snapshotId)
  live : ∃ l, m.liveBranches.get? b = some l ∧ l.id = b ∧ (m.liveObject l).id = b ∧
    (m.liveObject l).baseSnapshotId = snapshotId

end Manager

/-- The effect of a restore that left `departing` for a new branch, where `gone` says whether `departing` was
destroyed. -/
structure Moved (departing restored snapshotId : String) (gone : Prop) (m m' : Manager) : Prop where
  new : restored ∉ m.branches.keys ∧ restored ∉ m.liveBranches.keys
  standsOn : m'.StandsOn restored snapshotId
  departed : (gone → departing ∉ m'.branches.keys ∧ departing ∉ m'.liveBranches.keys) ∧
    (¬ gone → departing ∈ m'.liveBranches.keys ∧ m.Unchanged departing m')
  main : m.Unchanged defaultBranchId m'
  others : ∀ b, b ≠ departing → b ≠ restored → m.Unchanged b m'
  graph : m'.snapshotGraph = m.snapshotGraph
  snapshots : m'.snapshots = m.snapshots

namespace Moved

variable {m m₂ : Manager} {departing restored snapshotId : String} {gone : Prop}

/-- The positioning at the end of a restore, after the departing branch was left. -/
theorem of_restoredTo (hregular : Regular m₂) (hmain : defaultBranchId ∈ m.branches.keys)
    (new : restored ∉ m.branches.keys ∧ restored ∉ m.liveBranches.keys) (hlive : departing ∈ m.liveBranches.keys)
    (hgone : gone → departing ≠ defaultBranchId) (hcurrent : m₂.currentBranchId = restored)
    (hbranch : restored ∈ m₂.branches.keys)
    (hobject : ∃ l, m₂.liveBranches.get? restored = some l ∧ l.id = restored ∧ (m₂.liveObject l).id = restored ∧
      (m₂.liveObject l).baseSnapshotId = snapshotId)
    (hunchanged : ∀ b, b ≠ restored → (b = departing → ¬ gone) → m.Unchanged b m₂)
    (hdeparted : gone → departing ∉ m₂.branches.keys ∧ departing ∉ m₂.liveBranches.keys)
    (hgraph : m₂.snapshotGraph = m.snapshotGraph) (hsnapshots : m₂.snapshots = m.snapshots) (elapsed : ℚ) :
    Moved departing restored snapshotId gone m (m₂.restoredTo restored snapshotId elapsed) := by
  have hne : departing ≠ restored := fun he => new.2 (he ▸ hlive)
  have hkeeps {b : String} (hb : b ≠ restored) (hstays : b = departing → ¬ gone) :
      m.Unchanged b (m₂.restoredTo restored snapshotId elapsed) :=
    (hunchanged b hb hstays).trans (Manager.unchanged_restoredTo hregular hb)
  have hleaves : m₂.Unchanged departing (m₂.restoredTo restored snapshotId elapsed) :=
    Manager.unchanged_restoredTo hregular hne
  have hframe : (m₂.restoredTo restored snapshotId elapsed).snapshotGraph = m₂.snapshotGraph ∧
      (m₂.restoredTo restored snapshotId elapsed).snapshots = m₂.snapshots ∧
      (m₂.restoredTo restored snapshotId elapsed).liveBranches = m₂.liveBranches ∧
      (m₂.restoredTo restored snapshotId elapsed).currentBranchId = m₂.currentBranchId ∧
      ∀ l, (m₂.restoredTo restored snapshotId elapsed).liveObject l = m₂.liveObject l := by
    unfold Manager.restoredTo Manager.setBranchPosition Manager.registerBranch
    dsimp only [Manager.addEntry]
    split <;> exact ⟨rfl, rfl, rfl, rfl, fun _ => rfl⟩
  obtain ⟨hgraph', hsnapshots', hlive', hcurrent', hobject'⟩ := hframe
  constructor
  case new => exact new
  case standsOn =>
    constructor
    case current => exact hcurrent'.trans hcurrent
    case record =>
      obtain ⟨r, hr⟩ := Dict.mem_keys_iff.mp hbranch
      exact ⟨r, Manager.record_setBranchPosition_self (m := m₂.addEntry "restore" snapshotId elapsed restored) hr _⟩
    case live =>
      obtain ⟨l, hl, hid, hobjectId, hbase⟩ := hobject
      rw [hlive']
      exact ⟨l, hl, hid, by rw [hobject', hobjectId], by rw [hobject', hbase]⟩
  case departed =>
    constructor
    · intro h
      obtain ⟨hbranch, hlive₂⟩ := hdeparted h
      rw [← Dict.get?_eq_none_iff] at hbranch hlive₂
      rw [← Dict.get?_eq_none_iff, ← Dict.get?_eq_none_iff]
      exact ⟨hleaves.branch.trans hbranch, hleaves.live.trans hlive₂⟩
    · intro h
      have hdeparting := hkeeps hne fun _ => h
      refine ⟨?_, hdeparting⟩
      obtain ⟨l, hl⟩ := Dict.mem_keys_iff.mp hlive
      exact Dict.mem_keys_of_get? (hdeparting.live.trans hl)
  case main =>
    refine hkeeps (fun he => new.1 (he ▸ hmain)) fun he h => ?_
    exact hgone h he.symm
  case others => exact fun b hdeparting hrestored => hkeeps hrestored fun he => absurd he hdeparting
  case graph => exact hgraph'.trans hgraph
  case snapshots => exact hsnapshots'.trans hsnapshots

end Moved

namespace ForkableBackend

/-! ### The manager of a restore, before the branch is positioned -/

section

variable {m : Manager} {restored : EnvironmentBranch × ℚ}

theorem switchedTo_live (m : Manager) (restored : EnvironmentBranch × ℚ) :
    ∃ l, (switchedTo m restored).liveBranches.get? restored.1.id = some l ∧ l.id = restored.1.id ∧
      (switchedTo m restored).liveObject l = restored.1 := by
  refine ⟨(m.newLiveObject restored.1).1, ?_, rfl, ?_⟩
  · show (m.registerOutcome false restored).liveBranches.get? restored.1.id = _
    rw [Manager.liveBranches_registerOutcome, Dict.get?_set_self]
  · show (m.registerOutcome false restored).liveObject _ = _
    rw [Manager.registerOutcome_eq]
    show ((m.newLiveObject restored.1).2.registerBranch restored.1.id _).2.liveObject _ = _
    rw [Manager.liveObject_registerBranch, Manager.liveObject_newLiveObject_self]

theorem switchedTo_frame (m : Manager) (restored : EnvironmentBranch × ℚ) :
    (switchedTo m restored).snapshotGraph = m.snapshotGraph ∧ (switchedTo m restored).snapshots = m.snapshots ∧
      restored.1.id ∈ (switchedTo m restored).branches.keys := by
  obtain ⟨r, hr, -⟩ := Regular.record_registerOutcome_self m false restored
  refine ⟨(Grows.registerOutcome m false restored).graph, ?_, Dict.mem_keys_of_get? hr⟩
  unfold switchedTo Manager.registerOutcome Manager.registerBranch
  dsimp only [Manager.newLiveObject]
  split <;> rfl

theorem switchedTo_unchanged (hregular : Regular m) (hlive : LiveRegular m) {b : String} (hb : b ≠ restored.1.id) :
    m.Unchanged b (switchedTo m restored) := by
  have hregistered := Manager.unchanged_registerOutcome hregular hlive false hb
  exact ⟨hregistered.branch, hregistered.live, hregistered.record, hregistered.object⟩

variable {departing snapshotId : String} {gone : Prop}

/-- The departing branch stays. -/
theorem moved_stay (hc : Consistent m) (hl : LiveRegular m) (hlive : departing ∈ m.liveBranches.keys)
    (hbase : restored.1.baseSnapshotId = snapshotId)
    (new : restored.1.id ∉ m.branches.keys ∧ restored.1.id ∉ m.liveBranches.keys) (hstays : ¬ gone) (elapsed : ℚ) :
    Moved departing restored.1.id snapshotId gone m
      ((switchedTo m restored).restoredTo restored.1.id snapshotId elapsed) := by
  obtain ⟨hgraph, hsnapshots, hbranch⟩ := switchedTo_frame m restored
  obtain ⟨l, hl₁, hid, hobject⟩ := switchedTo_live m restored
  exact Moved.of_restoredTo (switchedTo_regular hc.regular restored) hc.main new hlive (fun h => absurd h hstays) rfl
    hbranch ⟨l, hl₁, hid, by rw [hobject], by rw [hobject, hbase]⟩
    (fun b hb _ => switchedTo_unchanged hc.regular hl hb) (fun h => absurd h hstays) hgraph hsnapshots elapsed

/-- The departing branch is destroyed. -/
theorem moved_leave (hc : Consistent m) (hl : LiveRegular m) (hlive : departing ∈ m.liveBranches.keys)
    (hmain : departing ≠ defaultBranchId) (hbase : restored.1.baseSnapshotId = snapshotId)
    (new : restored.1.id ∉ m.branches.keys ∧ restored.1.id ∉ m.liveBranches.keys) (hgone : gone) (elapsed : ℚ) :
    Moved departing restored.1.id snapshotId gone m
      (((switchedTo m restored).forget departing).restoredTo restored.1.id snapshotId elapsed) := by
  have hregular := switchedTo_regular hc.regular restored
  have hne : restored.1.id ≠ departing := fun he => new.2 (he ▸ hlive)
  obtain ⟨hgraph, hsnapshots, hbranch⟩ := switchedTo_frame m restored
  obtain ⟨l, hl₁, hid, hobject⟩ := switchedTo_live m restored
  have hself : (switchedTo m restored).Unchanged restored.1.id ((switchedTo m restored).forget departing) :=
    Manager.unchanged_forget hregular hne
  have hobject' : ((switchedTo m restored).forget departing).liveObject l = restored.1 := (hself.object l hl₁).trans hobject
  refine Moved.of_restoredTo (hregular.forget departing) hc.main new hlive (fun _ => hmain) ?_ ?_
    ⟨l, hself.live.trans hl₁, hid, by rw [hobject'], by rw [hobject', hbase]⟩ ?_ ?_ ?_ ?_ elapsed
  · exact Manager.currentBranchId_forget _ _
  · exact Consistent.mem_keys_forget.mpr ⟨hne, hbranch⟩
  · intro b hb hstays
    have hdeparting : b ≠ departing := fun he => hstays he hgone
    exact (switchedTo_unchanged hc.regular hl hb).trans (Manager.unchanged_forget hregular hdeparting)
  · refine fun _ => ⟨fun h => (Consistent.mem_keys_forget.mp h).1 rfl, fun h => ?_⟩
    unfold Manager.forget at h
    rw [Manager.liveBranches_removeBranch] at h
    exact (Dict.mem_keys_erase.mp h).1 rfl
  · exact (Manager.snapshotGraph_forget _ _).trans hgraph
  · refine Eq.trans ?_ hsnapshots
    unfold Manager.forget Manager.removeBranch
    split <;> rfl

end

/-! ### Calls of the hooks -/

/-- A call of one of the two hooks of a restore. -/
inductive HookCall where
  | fork (snapshotId : String) (requestedIds : List (Option String))
  | discard (branchId : String)
  deriving DecidableEq, Repr

section

variable {W α : Type}

/-- A hook whose calls are not recorded. -/
def unrecorded (f : W → α × W) (w : W × List HookCall) : α × W × List HookCall := ((f w.1).1, (f w.1).2, w.2)

/-- A hook that records its call. -/
def recording (call : HookCall) (f : W → α × W) (w : W × List HookCall) : α × W × List HookCall :=
  ((f w.1).1, (f w.1).2, w.2 ++ [call])

/-- The backend, with a record of the calls of its fork and discard hooks. -/
def recorded (B : ForkableBackend W) : ForkableBackend (W × List HookCall) where
  snapshot branchId := unrecorded (B.snapshot branchId)
  refreshes := B.refreshes
  exec command timeout branchId := unrecorded (B.exec command timeout branchId)
  copy branchId hostPath envPath into := unrecorded (B.copy branchId hostPath envPath into)
  fork snapshotId requestedIds := recording (.fork snapshotId requestedIds) (B.fork snapshotId requestedIds)
  discard branchId := recording (.discard branchId) (B.discard branchId)
  park branchId := unrecorded (B.park branchId)
  list := unrecorded B.list
  cleanup := unrecorded B.cleanup
  time := unrecorded B.time
  uuid4Hex := unrecorded B.uuid4Hex

/-- The discard hook answers with a boolean. -/
def DiscardAnswers (B : ForkableBackend W) : Prop := ∀ b w e, (B.discard b w).1 ≠ .error e

variable {B : ForkableBackend W}

theorem forksOnRequest_recorded (h : B.ForksOnRequest) : B.recorded.ForksOnRequest := by
  intro id ids w outcomes w' hfork
  have hanswer : (B.fork id ids w.1).1 = .ok outcomes := congrArg Prod.fst hfork
  exact h id ids w.1 outcomes _ (Prod.ext hanswer rfl)

theorem discardAnswers_recorded (h : B.DiscardAnswers) : B.recorded.DiscardAnswers := fun b w e => h b w.1 e

theorem strands_eq_false (h : B.DiscardAnswers) (snapshotId : String) (s : Sys W) : B.strands snapshotId s = false := by
  unfold strands
  dsimp only
  split
  · rfl
  · split
    · next restored rest w hfork =>
      rcases hdiscard : B.discard s.mgr.currentBranchId w with ⟨e | answer, w'⟩
      · exact absurd (congrArg Prod.fst hdiscard) (h _ _ e)
      · simp
    · rfl

open ForkableEnvironmentManager in
/-- If the discard hook answers, then all records stay active and the registries consistent. -/
theorem healthy_runOps (hfork : B.ForksOnRequest) (hdiscard : B.DiscardAnswers) {s : Sys W} (hc : Consistent s.mgr)
    (hl : LiveRegular s.mgr) (hactive : s.mgr.AllActive) (ops : List PublicOp) :
    Consistent (runOps B.hooks ops s).mgr ∧ LiveRegular (runOps B.hooks ops s).mgr ∧ (runOps B.hooks ops s).mgr.AllActive := by
  induction ops generalizing s with
  | nil => exact ⟨hc, hl, hactive⟩
  | cons op ops ih =>
    refine ih (consistent_prog hc op) ?_ ?_
    · exact (B.updates_prog op hc.regular hc.main).invariant (fun _ _ hupdate h => h.update hupdate) hl
    · rcases prog_active_or_unusable hfork hc hactive op with ⟨-, hstays⟩ | ⟨⟨id, -, hstrands⟩, -⟩
      · exact hstays
      · rw [strands_eq_false hdiscard] at hstrands
        exact absurd hstrands (by simp)

end

/-! ### Restoring -/

section

variable {W : Type} {B : ForkableBackend W} {s : Sys (W × List HookCall)} {snapshotId : String} {w : W}

theorem physicalAncestor_of_mem {m : Manager} (h : Regular m) (hid : snapshotId ∈ m.snapshotGraph.keys) :
    ∃ found, m.physicalAncestor snapshotId = .ok found := by
  obtain ⟨node, hnode⟩ := Dict.mem_keys_iff.mp hid
  refine ⟨(node, []), ?_⟩
  unfold Manager.physicalAncestor
  rw [hnode]
  dsimp only
  unfold Manager.walkFrom
  rw [if_pos (h.physical snapshotId node hnode).2]

/-- Nothing was materialized. -/
theorem restored_nothing (hc : Consistent s.mgr) (hid : snapshotId ∈ s.mgr.snapshotGraph.keys)
    (hfork : B.fork snapshotId [none] (B.time s.world.1).2 = (.ok [], w)) :
    B.recorded.restored snapshotId s = (.ok false, ⟨s.mgr, w, s.world.2 ++ [.fork snapshotId [none]]⟩) := by
  obtain ⟨departing, hdeparting⟩ := Manager.getBranchState_of_mem (b := none) hc.current
  obtain ⟨found, hfound⟩ := physicalAncestor_of_mem hc.regular hid
  have hrecorded : B.recorded.fork snapshotId [none] (B.recorded.time s.world).2 =
      (.ok [], w, s.world.2 ++ [.fork snapshotId [none]]) := by
    simp only [recorded, recording, unrecorded, hfork]
  simp only [ForkableBackend.restored, hdeparting, hfound, switched, materialized, hrecorded, List.map_nil, List.foldl_nil]

/-- A branch was materialized. -/
theorem restored_moves (hdiscard : B.DiscardAnswers) (hc : Consistent s.mgr) (hl : LiveRegular s.mgr)
    (hactive : s.mgr.AllActive) (hlive : s.mgr.currentBranchId ∈ s.mgr.liveBranches.keys)
    (hid : snapshotId ∈ s.mgr.snapshotGraph.keys) {restored : EnvironmentBranch × ℚ}
    (hfork : B.fork snapshotId [none] (B.time s.world.1).2 = (.ok [restored], w))
    (hbase : restored.1.baseSnapshotId = snapshotId)
    (new : restored.1.id ∉ s.mgr.branches.keys ∧ restored.1.id ∉ s.mgr.liveBranches.keys) :
    (B.recorded.restored snapshotId s).1 = .ok true ∧
      Moved s.mgr.currentBranchId restored.1.id snapshotId
        (s.mgr.currentBranchId ≠ defaultBranchId ∧ (B.discard s.mgr.currentBranchId w).1 = .ok true) s.mgr
        (B.recorded.restored snapshotId s).2.mgr ∧
      (B.recorded.restored snapshotId s).2.world.2 = s.world.2 ++ .fork snapshotId [none] ::
        if s.mgr.currentBranchId = defaultBranchId then [] else [.discard s.mgr.currentBranchId] := by
  obtain ⟨departing, hdeparting⟩ := Dict.mem_keys_iff.mp hc.current
  have hlookup : s.mgr.getBranchState none = .ok departing := by
    simp only [Manager.getBranchState, Option.getD_none, hdeparting]
  obtain ⟨found, hfound⟩ := physicalAncestor_of_mem hc.regular hid
  have hrecorded : B.recorded.fork snapshotId [none] (B.recorded.time s.world).2 =
      (.ok [restored], w, s.world.2 ++ [.fork snapshotId [none]]) := by
    simp only [recorded, recording, unrecorded, hfork]
  rw [restored_of_fork hlookup (hc.regular.ids _ _ hdeparting) hfound hrecorded]
  have hne : s.mgr.currentBranchId ≠ restored.1.id := fun he => new.2 (he ▸ hlive)
  by_cases hmain : s.mgr.currentBranchId = defaultBranchId
  · have hleft : B.recorded.left s.mgr.currentBranchId restored.1.id
        ⟨switchedTo s.mgr restored, w, s.world.2 ++ [.fork snapshotId [none]]⟩ =
        (.ok (), ⟨switchedTo s.mgr restored, w, s.world.2 ++ [.fork snapshotId [none]]⟩) := by
      unfold left
      rw [if_neg (fun h => h.1 hmain)]
    rw [hleft, if_pos hmain]
    exact ⟨rfl, moved_stay hc hl hlive hbase new (fun h => h.1 hmain) _, rfl⟩
  · obtain ⟨l, hget⟩ := Dict.mem_keys_iff.mp hlive
    have hgets : discardable (switchedTo s.mgr restored) s.mgr.currentBranchId = true := by
      refine (discardable_departing hc.regular hactive hc.current hmain hne).trans ?_
      rw [hget]
      rfl
    have hleft : B.recorded.left s.mgr.currentBranchId restored.1.id
        ⟨switchedTo s.mgr restored, w, s.world.2 ++ [.fork snapshotId [none]]⟩ =
        ((B.recorded.discardAnswer s.mgr.currentBranchId
          ⟨switchedTo s.mgr restored, w, s.world.2 ++ [.fork snapshotId [none]]⟩).1.map fun _ => (),
          (B.recorded.discardAnswer s.mgr.currentBranchId
          ⟨switchedTo s.mgr restored, w, s.world.2 ++ [.fork snapshotId [none]]⟩).2) := by
      unfold left
      rw [if_pos ⟨hmain, hne⟩, hgets, if_pos rfl]
    rw [hleft, if_neg hmain]
    have hanswer (w' : W × List HookCall) : B.recorded.discard s.mgr.currentBranchId w' =
        ((B.discard s.mgr.currentBranchId w'.1).1, (B.discard s.mgr.currentBranchId w'.1).2,
          w'.2 ++ [.discard s.mgr.currentBranchId]) := rfl
    unfold discardAnswer
    rw [hanswer]
    dsimp only
    cases hd : (B.discard s.mgr.currentBranchId w).1 with
    | error e => exact absurd hd (hdiscard _ _ e)
    | ok answer =>
      cases answer with
      | false =>
        refine ⟨rfl, moved_stay hc hl hlive hbase new (fun h => ?_) _, ?_⟩
        · exact absurd h.2 (by simp)
        · exact List.append_assoc _ _ _
      | true =>
        refine ⟨rfl, ?_, ?_⟩
        · have hcurrent : ((switchedTo s.mgr restored).forget s.mgr.currentBranchId).currentBranchId = restored.1.id :=
            Manager.currentBranchId_forget _ _
          show Moved _ _ _ _ s.mgr (Manager.restoredTo _ _ _ _)
          rw [hcurrent]
          exact moved_leave hc hl hlive hmain hbase new ⟨hmain, rfl⟩ _
        · exact List.append_assoc _ _ _

end

end ForkableBackend

open ForkableBackend ForkableEnvironmentManager in
/-- After any operations, for every snapshot of the graph and every answer of the hooks: a restore for which the
backend forks nothing returns `False`, calls no other hook and changes nothing; a restore for which it forks a new
branch returns `True`, calls the fork hook before the discard hook, and moves to the new branch. -/
theorem restore_contract {W : Type} (B : ForkableBackend W) (hforks : B.ForksOnRequest) (hdiscard : B.DiscardAnswers)
    (s₀ : Sys (W × List HookCall)) (h₀ : Consistent s₀.mgr) (hlive₀ : LiveRegular s₀.mgr) (hactive₀ : s₀.mgr.AllActive)
    (ops : List PublicOp) (snapshotId : String) :
    let s := runOps B.recorded.hooks ops s₀
    let r := (PublicOp.prog B.recorded.hooks (.restore snapshotId)).run s
    ∀ outcomes w, s.mgr.currentBranchId ∈ s.mgr.liveBranches.keys → snapshotId ∈ s.mgr.snapshotGraph.keys →
      B.fork snapshotId [none] (B.time s.world.1).2 = (.ok outcomes, w) →
      (∀ o ∈ outcomes, o.1.baseSnapshotId = snapshotId ∧ o.1.id ∉ s.mgr.branches.keys ∧
        o.1.id ∉ s.mgr.liveBranches.keys) →
      match outcomes with
      | [] => r.1 = .ok (.flag false) ∧ r.2.mgr = s.mgr ∧ r.2.world.2 = s.world.2 ++ [.fork snapshotId [none]]
      | restored :: _ =>
        r.1 = .ok (.flag true) ∧
          Moved s.mgr.currentBranchId restored.1.id snapshotId
            (s.mgr.currentBranchId ≠ defaultBranchId ∧ (B.discard s.mgr.currentBranchId w).1 = .ok true) s.mgr r.2.mgr ∧
          r.2.world.2 = s.world.2 ++ .fork snapshotId [none] ::
            if s.mgr.currentBranchId = defaultBranchId then [] else [.discard s.mgr.currentBranchId] := by
  intro s r outcomes w hlive hid hfork hnew
  obtain ⟨hc, hl, hactive⟩ := healthy_runOps (forksOnRequest_recorded hforks) (discardAnswers_recorded hdiscard) h₀ hlive₀
    hactive₀ ops
  have hrun : r = ((B.recorded.restored snapshotId s).1.map Outcome.flag, (B.recorded.restored snapshotId s).2) := by
    show (Outcome.flag <$> EnvironmentManager.restore B.recorded.hooks.toHooks snapshotId).run s = _
    rw [run_map, B.recorded.run_restore snapshotId hc.regular]
  rw [hrun]
  match outcomes, hfork, hnew with
  | [], hfork, _ =>
    have hnothing := restored_nothing hc hid hfork
    rw [hnothing]
    exact ⟨rfl, rfl, rfl⟩
  | [restored], hfork, hnew =>
    obtain ⟨hbase, new⟩ := hnew restored (List.mem_singleton_self _)
    obtain ⟨hreturns, hmoved, hcalls⟩ := restored_moves hdiscard hc hl hactive hlive hid hfork hbase new
    rw [hreturns]
    exact ⟨rfl, hmoved, hcalls⟩
  | _ :: _ :: _, hfork, _ =>
    have hlength := hforks _ _ _ _ _ hfork
    simp at hlength

/-- A fleet of one branch, under a manager that has just started it. -/
def Fleet.recordedStart (ids : List String) : Sys (Fleet × List ForkableBackend.HookCall) :=
  ⟨Manager.seeded "base" "base", (Fleet.start ids []).world, []⟩

open ForkableEnvironmentManager in
/-- The second restore of a chain destroys the branch that the first one made. -/
theorem restore_contract_chain :
    let s := runOps (Fleet.backend false).recorded.hooks [.restore "base"] (Fleet.recordedStart ["3f2a", "9c41"])
    let r := (PublicOp.prog (Fleet.backend false).recorded.hooks (.restore "base")).run s
    r.1 = .ok (.flag true) ∧ "3f2a" ∉ r.2.mgr.branches.keys ∧ r.2.mgr.StandsOn "9c41" "base" ∧
      r.2.world.2 = [.fork "base" [none], .fork "base" [none], .discard "3f2a"] := by
  intro s
  have hs : s = runOps (Fleet.backend false).recorded.hooks [.restore "base"] (Fleet.recordedStart ["3f2a", "9c41"]) := rfl
  clear_value s
  have hcurrent : s.mgr.currentBranchId = "3f2a" := by
    rw [hs]
    decide +kernel
  have hanswer : ((Fleet.backend false).fork "base" [none] ((Fleet.backend false).time s.world.1).2).1 =
      .ok [(⟨"9c41", "base", "running"⟩, 1)] := by
    rw [hs]
    decide +kernel
  have hgone : s.mgr.currentBranchId ≠ defaultBranchId ∧ ((Fleet.backend false).discard s.mgr.currentBranchId
      ((Fleet.backend false).fork "base" [none] ((Fleet.backend false).time s.world.1).2).2).1 = .ok true := by
    rw [hs]
    decide +kernel
  have hcalls : s.world.2 ++ .fork "base" [none] ::
      (if s.mgr.currentBranchId = defaultBranchId then [] else [.discard s.mgr.currentBranchId]) =
      [.fork "base" [none], .fork "base" [none], .discard "3f2a"] := by
    rw [hs]
    decide +kernel
  have hcontract := restore_contract (Fleet.backend false) (Fleet.backend_forksOnRequest false)
    (fun _ _ _ h => by cases h) (Fleet.recordedStart ["3f2a", "9c41"]) (.seeded "base" "base") (.seeded "base" "base")
    (Manager.seeded_allActive "base" "base") [.restore "base"] "base" [(⟨"9c41", "base", "running"⟩, 1)] _
    (by decide +kernel) (by decide +kernel) (Prod.ext (hs ▸ hanswer) rfl) (by decide +kernel)
  rw [← hs] at hcontract
  have hdeparted := (hcontract.2.1.departed.1 hgone).1
  rw [hcurrent] at hdeparted
  exact ⟨hcontract.1, hdeparted, hcontract.2.1.standsOn, hcontract.2.2.trans hcalls⟩

end StateFork
