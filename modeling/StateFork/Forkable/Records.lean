import StateFork.Forkable.Consistency

/-!
# A property of all branch records

Whether all registered records have a property `Q` is a matter of the few places that write records: a new or
repositioned record is `BranchState.positionedAt` of some snapshot, and removing a branch touches no record that stays
registered.
-/

namespace StateFork

namespace Manager

/-- Every record that is registered has the property. -/
def RecordsSatisfy (Q : BranchState → Prop) (m : Manager) : Prop :=
  ∀ b r, m.branches.get? b = some r → Q (m.record r)

namespace RecordsSatisfy

variable {Q : BranchState → Prop} {m m' : Manager}

theorem congr (h : m.RecordsSatisfy Q) (hbranches : m'.branches = m.branches) (hrecords : m'.records = m.records) :
    m'.RecordsSatisfy Q := by
  unfold RecordsSatisfy Manager.record
  rw [hbranches, hrecords]
  exact h

theorem modifyRecord (h : m.RecordsSatisfy Q) (r : Ref) {f : BranchState → BranchState} (hf : ∀ x, Q x → Q (f x)) :
    (m.modifyRecord r f).RecordsSatisfy Q := by
  intro b r' hr'
  have hold := h b r' hr'
  unfold Manager.record Manager.modifyRecord at *
  rw [Heap.cell_modify]
  split_ifs with haddr
  · rw [haddr] at hold
    exact hf _ hold
  · exact hold

/-- An update that gives the record the property, whatever it was. -/
theorem replaceRecord (h : m.RecordsSatisfy Q) (r : Ref) {f : BranchState → BranchState} (hf : ∀ x, Q (f x)) :
    (m.modifyRecord r f).RecordsSatisfy Q :=
  h.modifyRecord r fun x _ => hf x

theorem registerBranch (h : m.RecordsSatisfy Q) (hregular : Regular m) (b : String) {base : Option String}
    (hbase : Q (.positionedAt base)) : (m.registerBranch b base).2.RecordsSatisfy Q := by
  intro b' r hr
  rcases hregular.record_registerBranch b base hr with ⟨hold, hrecord⟩ | ⟨-, -, hrecord⟩
  · rw [hrecord]
    exact h b' r hold
  · rw [hrecord]
    exact hbase

theorem setBranchPosition (h : m.RecordsSatisfy Q) (hregular : Regular m) (b : String) {snapshotId : Option String}
    (hposition : Q (.positionedAt snapshotId)) : (m.setBranchPosition b snapshotId).RecordsSatisfy Q :=
  (h.registerBranch hregular b hposition).replaceRecord _ fun _ => hposition

theorem reconcile (h : m.RecordsSatisfy Q) (hregular : Regular m) (r : Ref) (hnone : Q (.positionedAt none))
    (hbase : (m.liveObject r).baseSnapshotId ≠ "" → Q (.positionedAt (some (m.liveObject r).baseSnapshotId))) :
    (m.reconcile r).RecordsSatisfy Q := by
  unfold Manager.reconcile
  dsimp only
  by_cases hempty : (m.liveObject r).baseSnapshotId = ""
  · simp only [hempty, if_true, true_or]
    exact h.registerBranch hregular _ hnone
  · simp only [hempty, if_false, false_or]
    have hregistered := h.registerBranch hregular r.id (hbase hempty)
    split_ifs
    · exact hregistered
    · exact hregistered.setBranchPosition (hregular.registerBranch _ _) _ (hbase hempty)

/-- Records that stay registered are left alone when a branch is removed. -/
theorem removeBranch (h : m.RecordsSatisfy Q) (hregular : Regular m) (b : String) :
    (m.removeBranch b).RecordsSatisfy Q := by
  unfold Manager.removeBranch
  cases hb : m.branches.get? b with
  | none => exact h
  | some r₀ =>
    intro b' r hr
    dsimp only at hr
    rw [Dict.get?_erase] at hr
    split_ifs at hr with he
    have hrecord : (m.modifyRecord r₀ fun s => { s with active := false }).record r = m.record r := by
      rw [hregular.record_modifyRecord hb hr, if_neg he]
    show Q ((m.modifyRecord r₀ fun s => { s with active := false }).record r)
    rw [hrecord]
    exact h b' r hr

theorem forget (h : m.RecordsSatisfy Q) (hregular : Regular m) (b : String) : (m.forget b).RecordsSatisfy Q := by
  have herased : ({ m with liveBranches := m.liveBranches.erase b } : Manager).RecordsSatisfy Q := h.congr rfl rfl
  exact herased.removeBranch (hregular.congr rfl rfl rfl) b

theorem dropStale (h : m.RecordsSatisfy Q) (hregular : Regular m) (b : String) : (m.dropStale b).RecordsSatisfy Q := by
  unfold Manager.dropStale
  split_ifs
  · exact h
  · exact h.removeBranch hregular b

theorem relist (h : m.RecordsSatisfy Q) (hregular : Regular m) {listing : List EnvironmentBranch}
    (hnone : Q (.positionedAt none))
    (hbases : ∀ o ∈ listing, o.baseSnapshotId ≠ "" → Q (.positionedAt (some o.baseSnapshotId))) :
    (m.relist listing).RecordsSatisfy Q := by
  have ha := Manager.adopted_newLiveObjects m listing
  unfold Manager.relist
  dsimp only
  set refs := (Manager.newLiveObjects listing m).1
  set m₁ := (Manager.newLiveObjects listing m).2
  have hframe : m₁.branches = m.branches ∧ m₁.records = m.records ∧ m₁.snapshotGraph = m.snapshotGraph := by
    rw [ha.rest]
    exact ⟨rfl, rfl, rfl⟩
  obtain ⟨hbranches, hrecords, hgraph⟩ := hframe
  have hregular₁ : Regular (m₁.replaceLive refs) := hregular.congr hbranches (congrArg Heap.next hrecords) hgraph
  have h₁ : (m₁.replaceLive refs).RecordsSatisfy Q := h.congr hbranches hrecords
  have hreconciled (l : List Ref) (hl : l ⊆ refs) (m₂ : Manager) (hobjects : m₂.liveObjects = m₁.liveObjects)
      (hm₂ : Regular m₂) (hQ : m₂.RecordsSatisfy Q) :
      Regular (l.foldl Manager.reconcile m₂) ∧ (l.foldl Manager.reconcile m₂).RecordsSatisfy Q := by
    induction l generalizing m₂ with
    | nil => exact ⟨hm₂, hQ⟩
    | cons r l ih =>
      refine ih (fun _ hr' => hl (List.mem_cons_of_mem _ hr')) _ ((m₂.reconcile_frame r).1.trans hobjects)
        (hm₂.reconcile r) (hQ.reconcile hm₂ r hnone fun hne => ?_)
      obtain ⟨o, ho, -, hobject⟩ := ha.objects r (hl (List.mem_cons_self ..))
      have hlive : m₂.liveObject r = o := by
        rw [← hobject]
        unfold Manager.liveObject
        rw [hobjects]
      rw [hlive] at hne ⊢
      exact hbases o ho hne
  obtain ⟨hregular₂, h₂⟩ := hreconciled refs (fun _ hr => hr) (m₁.replaceLive refs) rfl hregular₁ h₁
  generalize (m₁.liveBranches.keys.filter fun b => b ∉ refs.map Ref.id) = stale
  generalize refs.foldl Manager.reconcile (m₁.replaceLive refs) = m₂ at hregular₂ h₂
  induction stale generalizing m₂ with
  | nil => exact h₂
  | cons b stale ih => exact ih _ (hregular₂.dropStale b) (h₂.dropStale hregular₂ b)

theorem registerOutcome (h : m.RecordsSatisfy Q) (hregular : Regular m) {activate : Bool}
    {outcome : EnvironmentBranch × ℚ} (hactive : ∀ x, Q x → Q { x with active := activate })
    (hbase : Q (.positionedAt (some outcome.1.baseSnapshotId))) :
    (m.registerOutcome activate outcome).RecordsSatisfy Q := by
  intro b r hr
  by_cases hb : b = outcome.1.id
  · subst hb
    obtain ⟨r', hr', hcase⟩ := Regular.record_registerOutcome_self m activate outcome
    obtain rfl := Option.some.inj (hr'.symm.trans hr)
    rcases hcase with ⟨hold, hrecord⟩ | ⟨-, hrecord⟩
    · rw [hrecord]
      exact hactive _ (h _ _ hold)
    · rw [hrecord]
      exact hactive _ hbase
  · obtain ⟨hget, hrecord⟩ := hregular.record_registerOutcome_of_ne activate outcome hb
    rw [hget] at hr
    rw [hrecord r hr]
    exact h b r hr

theorem commit (h : m.RecordsSatisfy Q) (b : String) (state : Ref) {node : SnapshotNode}
    (hmoved : ∀ x, Q x → Q { BranchState.positionedAt (some node.snapshotId) with active := x.active }) :
    (m.commit b state node).RecordsSatisfy Q := by
  have hmoved : ((m.recordSnapshotNode node).modifyRecord state fun r =>
      { BranchState.positionedAt (some node.snapshotId) with active := r.active }).RecordsSatisfy Q :=
    RecordsSatisfy.modifyRecord (h.congr rfl rfl) state hmoved
  obtain ⟨objects, hobjects⟩ := Manager.advanceLiveBase_eq ((m.recordSnapshotNode node).modifyRecord
    state fun r => { BranchState.positionedAt (some node.snapshotId) with active := r.active }) b node.snapshotId
  unfold Manager.commit
  dsimp only
  rw [hobjects]
  exact hmoved.congr rfl rfl

end RecordsSatisfy

/-- Every record that is registered has one position: its current snapshot is also its last one. -/
def Aligned (m : Manager) : Prop := m.RecordsSatisfy fun r => r.currentSnapshotId = r.lastSnapshotId

namespace Aligned

variable {restoring : Bool} {m m' : Manager}

/-- Operations write the two together. -/
theorem update (h : m.Aligned) (hregular : Regular m) (hupdate : Manager.Update restoring m m') : m'.Aligned := by
  cases hupdate with
  | bench stats => exact h.congr rfl rfl
  | cleaned => exact h.congr rfl rfl
  | logged r command counted => exact RecordsSatisfy.modifyRecord h r fun _ hx => hx
  | registered snapshotId resource => exact h.congr rfl rfl
  | listed listing => exact h.relist hregular rfl fun _ _ _ => rfl
  | forked outcome active => exact h.registerOutcome hregular (fun _ hx => hx) rfl
  | committed b state snapshotId parentId => exact h.commit b state fun _ _ => rfl
  | recorded snapshotId parentId => exact h.congr rfl rfl
  | switched registered restores => exact h.congr rfl rfl
  | stashed =>
    have hswitched : (m.switch defaultBranchId).Aligned := h.congr rfl rfl
    exact hswitched.forget (hregular.congr rfl rfl rfl) _
  | forgotten => exact h.forget hregular _
  | positioned b snapshotId restores => exact h.setBranchPosition hregular b rfl

theorem seeded (root resource : String) : (Manager.seeded root resource).Aligned := by
  intro b r hr
  have hr : (Dict.empty.set defaultBranchId (⟨defaultBranchId, 0⟩ : Ref)).get? b = some r := hr
  rw [Dict.get?_set] at hr
  split_ifs at hr with hb
  · cases hr
    rfl
  · cases hr

end Aligned

end Manager

namespace ForkableBackend

open EnvironmentManager ForkableEnvironmentManager

variable {W : Type} {B : ForkableBackend W} {s : Sys W}

theorem aligned_runOps (ops : List PublicOp) (hc : Consistent s.mgr) (h : s.mgr.Aligned) :
    (runOps B.hooks ops s).mgr.Aligned := by
  induction ops generalizing s with
  | nil => exact h
  | cons op ops ih =>
    have hboth : Consistent ((PublicOp.prog B.hooks op).run s).2.mgr ∧
        ((PublicOp.prog B.hooks op).run s).2.mgr.Aligned :=
      Manager.Updates.invariant (P := fun m => Consistent m ∧ m.Aligned)
        (fun _ _ hupdate h => ⟨h.1.update hupdate, h.2.update h.1.regular hupdate⟩)
        (B.updates_prog op hc.regular hc.main) ⟨hc, h⟩
    exact ih hboth.1 hboth.2

end ForkableBackend

end StateFork
