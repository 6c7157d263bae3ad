import StateFork.Forkable.Separate

/-!
# Operations on different branches commute

On a backend that keeps its branches apart, operations on different branches are `Separated` steps: each is a reaction to
what its branch shows, and a reaction for one branch does not change what another shows. The patches of two branches
commute up to the order of what they add to shared containers, so the operations do (`branches_commute`), and every
branch ends with the record that its own operations alone leave behind.
-/

namespace StateFork

open Conc Conc.Prog EnvironmentManager ForkableEnvironmentManager

/-! ### Managers that agree up to order -/

/-- The nodes differ in the order of their children only. -/
structure SnapshotNode.Alike (n n' : SnapshotNode) : Prop where
  snapshotId : n.snapshotId = n'.snapshotId
  parentId : n.parentId = n'.parentId
  children : n.children.Perm n'.children
  isVirtual : n.isVirtual = n'.isVirtual
  replayCommands : n.replayCommands = n'.replayCommands

/-- An entry without its sequence number. -/
def BenchmarkEntry.facts (e : BenchmarkEntry) : String × String × ℚ × String :=
  (e.operation, e.targetId, e.elapsedTime, e.branchId)

/-- The managers agree up to the order of the log, of child lists, and of the dictionaries of snapshots. -/
structure Manager.AgreeUpToOrder (m m' : Manager) : Prop where
  snapshots : ∀ id, m.snapshots.get? id = m'.snapshots.get? id
  snapshotGraph : ∀ id, Option.Rel SnapshotNode.Alike (m.snapshotGraph.get? id) (m'.snapshotGraph.get? id)
  log : (m.stats.log.map BenchmarkEntry.facts).Perm (m'.stats.log.map BenchmarkEntry.facts)
  records : m.records = m'.records
  branches : m.branches = m'.branches
  currentBranchId : m.currentBranchId = m'.currentBranchId
  isCleanedUp : m.isCleanedUp = m'.isCleanedUp
  liveObjects : m.liveObjects = m'.liveObjects
  liveBranches : m.liveBranches = m'.liveBranches

theorem SnapshotNode.Alike.refl (n : SnapshotNode) : n.Alike n := ⟨rfl, rfl, .refl _, rfl, rfl⟩

theorem alike_of_eq {o o' : Option SnapshotNode} (h : o = o') : Option.Rel SnapshotNode.Alike o o' := by
  subst h
  cases o with
  | none => exact .none
  | some n => exact .some (.refl n)

namespace Manager

variable {node node' : SnapshotNode}

theorem linkChild_of_linked {id : String} {old : SnapshotNode}
    (h : ¬(node.parentId = some id ∧ id ≠ "" ∧ node.snapshotId ∉ old.children)) : linkChild node id old = old :=
  if_neg h

theorem mem_children_linkChild {id c : String} {old : SnapshotNode} (h : c ∈ old.children) :
    c ∈ (linkChild node id old).children := by
  unfold linkChild
  split_ifs
  · exact List.mem_append_left _ h
  · exact h

/-- Two nodes that are linked to one parent, in either order. -/
theorem alike_linkChild (hne : node.snapshotId ≠ node'.snapshotId) (id : String) (old : SnapshotNode) :
    (linkChild node' id (linkChild node id old)).Alike (linkChild node id (linkChild node' id old)) := by
  by_cases h : node.parentId = some id ∧ id ≠ "" ∧ node.snapshotId ∉ old.children
  · by_cases h' : node'.parentId = some id ∧ id ≠ "" ∧ node'.snapshotId ∉ old.children
    · have hfirst : linkChild node id old = { old with children := old.children ++ [node.snapshotId] } := if_pos h
      have hsecond : linkChild node' id old = { old with children := old.children ++ [node'.snapshotId] } := if_pos h'
      rw [hfirst, hsecond]
      unfold linkChild
      rw [if_pos ⟨h'.1, h'.2.1, by simp [h'.2.2, hne.symm]⟩, if_pos ⟨h.1, h.2.1, by simp [h.2.2, hne]⟩]
      refine ⟨rfl, rfl, ?_, rfl, rfl⟩
      show (old.children ++ [node.snapshotId] ++ [node'.snapshotId]).Perm
        (old.children ++ [node'.snapshotId] ++ [node.snapshotId])
      rw [List.append_assoc, List.append_assoc]
      exact (List.Perm.swap ..).append_left _
    · have hstays : linkChild node' id (linkChild node id old) = linkChild node id old := by
        refine linkChild_of_linked fun ⟨hparent, hid, hnew⟩ => h' ⟨hparent, hid, fun hold => hnew ?_⟩
        exact mem_children_linkChild hold
      rw [hstays, linkChild_of_linked h']
      exact .refl _
  · have hstays : linkChild node id (linkChild node' id old) = linkChild node' id old := by
      refine linkChild_of_linked fun ⟨hparent, hid, hnew⟩ => h ⟨hparent, hid, fun hold => hnew ?_⟩
      exact mem_children_linkChild hold
    rw [hstays, linkChild_of_linked h]
    exact .refl _

/-- Two nodes that are recorded in either order, neither of which is the parent of the other. -/
theorem alike_recordNode (graph : Dict String SnapshotNode) (hne : node.snapshotId ≠ node'.snapshotId)
    (hself : node.parentId ≠ some node.snapshotId) (hself' : node'.parentId ≠ some node'.snapshotId)
    (hother : node.parentId ≠ some node'.snapshotId) (hother' : node'.parentId ≠ some node.snapshotId) (id : String) :
    Option.Rel SnapshotNode.Alike ((recordNode (recordNode graph node) node').get? id)
      ((recordNode (recordNode graph node') node).get? id) := by
  simp only [get?_recordNode hself, get?_recordNode hself']
  by_cases hid : id = node.snapshotId
  · subst hid
    have hlink : linkChild node' node.snapshotId node = node := linkChild_of_linked fun h => hother' h.1
    rw [if_pos rfl, if_neg hne, if_pos rfl, Option.map_some, hlink]
    exact alike_of_eq rfl
  · by_cases hid' : id = node'.snapshotId
    · subst hid'
      have hlink : linkChild node node'.snapshotId node' = node' := linkChild_of_linked fun h => hother h.1
      rw [if_pos rfl, if_neg hid, if_pos rfl, Option.map_some, hlink]
      exact alike_of_eq rfl
    · rw [if_neg hid', if_neg hid, if_neg hid, if_neg hid']
      cases graph.get? id with
      | none => exact .none
      | some old => exact .some (alike_linkChild hne id old)

end Manager

/-! ### Patches of different branches -/

theorem BenchmarkStats.facts_addAll (stats : BenchmarkStats) (b : String) (entries : List (String × String × ℚ)) :
    (stats.addAll b entries).log.map BenchmarkEntry.facts =
      stats.log.map BenchmarkEntry.facts ++ entries.map fun e => (e.1, e.2.1, e.2.2, b) := by
  unfold addAll
  induction entries generalizing stats with
  | nil => simp
  | cons e entries ih =>
    rw [List.foldl_cons, ih]
    simp [addEntry, BenchmarkEntry.facts]

namespace Patch

variable {p p' : Patch} {b b' : String} {m : Manager}

theorem snapshots_apply :
    (p.apply b m).snapshots = p.captured.elim m.snapshots fun c => m.snapshots.set c.1.snapshotId c.2 := rfl

theorem snapshotGraph_apply :
    (p.apply b m).snapshotGraph = p.captured.elim m.snapshotGraph fun c => Manager.recordNode m.snapshotGraph c.1 := rfl

theorem branches_apply : (p.apply b m).branches = if p.retires then m.branches.erase b else m.branches := rfl

theorem liveBranches_apply :
    (p.apply b m).liveBranches = if p.retires then m.liveBranches.erase b else m.liveBranches := rfl

theorem currentBranchId_apply :
    (p.apply b m).currentBranchId =
      if p.retires ∧ m.currentBranchId = b then defaultBranchId else m.currentBranchId := rfl

theorem isCleanedUp_apply : (p.apply b m).isCleanedUp = if p.base.isSome then false else m.isCleanedUp := rfl

theorem get?_branches_apply :
    (p.apply b m).branches.get? b' = if p.retires = true ∧ b' = b then none else m.branches.get? b' := by
  rw [branches_apply]
  cases p.retires with
  | false => simp
  | true => simp [Dict.get?_erase]

theorem get?_liveBranches_apply :
    (p.apply b m).liveBranches.get? b' = if p.retires = true ∧ b' = b then none else m.liveBranches.get? b' := by
  rw [liveBranches_apply]
  cases p.retires with
  | false => simp
  | true => simp [Dict.get?_erase]

theorem get?_branches_of_ne (h : b' ≠ b) : (p.apply b m).branches.get? b' = m.branches.get? b' := by
  rw [get?_branches_apply, if_neg fun h' => h h'.2]

theorem get?_liveBranches_of_ne (h : b' ≠ b) : (p.apply b m).liveBranches.get? b' = m.liveBranches.get? b' := by
  rw [get?_liveBranches_apply, if_neg fun h' => h h'.2]

theorem records_apply_of_unregistered (h : m.branches.get? b = none) : (p.apply b m).records = m.records := by
  show (m.branches.get? b).elim m.records _ = _
  rw [h]
  rfl

theorem records_apply {r : Ref} (h : m.branches.get? b = some r) :
    (p.apply b m).records = m.records.modify r.addr p.record := by
  show (m.branches.get? b).elim m.records _ = _
  rw [h]
  rfl

/-- Two patches of different branches, neither of which captures the parent of what the other captures. -/
structure Compatible (p p' : Patch) : Prop where
  ids : ∀ c c', p.captured = some c → p'.captured = some c' → c.1.snapshotId ≠ c'.1.snapshotId
  self : ∀ c, p.captured = some c → c.1.parentId ≠ some c.1.snapshotId
  self' : ∀ c, p'.captured = some c → c.1.parentId ≠ some c.1.snapshotId
  parent : ∀ c c', p.captured = some c → p'.captured = some c' → c.1.parentId ≠ some c'.1.snapshotId
  parent' : ∀ c c', p.captured = some c → p'.captured = some c' → c'.1.parentId ≠ some c.1.snapshotId

theorem apply_comm_snapshots (h : Compatible p p') (id : String) :
    (p'.apply b' (p.apply b m)).snapshots.get? id = (p.apply b (p'.apply b' m)).snapshots.get? id := by
  simp only [snapshots_apply]
  cases hp : p.captured with
  | none => rfl
  | some c =>
    cases hp' : p'.captured with
    | none => rfl
    | some c' =>
      have hne := h.ids c c' hp hp'
      simp only [Option.elim_some, Dict.get?_set]
      by_cases hid : id = c.1.snapshotId
      · rw [if_pos hid, if_neg (hid ▸ hne), if_pos hid]
      · rw [if_neg hid, if_neg hid]

theorem apply_comm_graph (h : Compatible p p') (id : String) :
    Option.Rel SnapshotNode.Alike ((p'.apply b' (p.apply b m)).snapshotGraph.get? id)
      ((p.apply b (p'.apply b' m)).snapshotGraph.get? id) := by
  simp only [snapshotGraph_apply]
  cases hp : p.captured with
  | none => exact alike_of_eq rfl
  | some c =>
    cases hp' : p'.captured with
    | none => exact alike_of_eq rfl
    | some c' =>
      exact Manager.alike_recordNode _ (h.ids c c' hp hp') (h.self c hp) (h.self' c' hp') (h.parent c c' hp hp')
        (h.parent' c c' hp hp') id

theorem apply_comm_log :
    ((p'.apply b' (p.apply b m)).stats.log.map BenchmarkEntry.facts).Perm
      ((p.apply b (p'.apply b' m)).stats.log.map BenchmarkEntry.facts) := by
  show ((((m.stats.addAll b p.entries).addAll b' p'.entries)).log.map _).Perm
    (((m.stats.addAll b' p'.entries).addAll b p.entries).log.map _)
  simp only [BenchmarkStats.facts_addAll, List.append_assoc]
  exact List.perm_append_comm.append_left _

theorem apply_comm_records (hm : Regular m) (hne : b ≠ b') :
    (p'.apply b' (p.apply b m)).records = (p.apply b (p'.apply b' m)).records := by
  have hlookup : (p'.apply b' m).branches.get? b = m.branches.get? b := get?_branches_of_ne hne
  have hlookup' : (p.apply b m).branches.get? b' = m.branches.get? b' := get?_branches_of_ne hne.symm
  cases hr : m.branches.get? b with
  | none =>
    rw [records_apply_of_unregistered (hlookup.trans hr)]
    cases hr' : m.branches.get? b' with
    | none =>
      rw [records_apply_of_unregistered (hlookup'.trans hr'), records_apply_of_unregistered hr,
        records_apply_of_unregistered hr']
    | some r' =>
      rw [records_apply (hlookup'.trans hr'), records_apply_of_unregistered hr, records_apply hr']
  | some r =>
    rw [records_apply (hlookup.trans hr)]
    cases hr' : m.branches.get? b' with
    | none =>
      rw [records_apply_of_unregistered (hlookup'.trans hr'), records_apply hr, records_apply_of_unregistered hr']
    | some r' =>
      have haddr : r.addr ≠ r'.addr := fun h => hne (hm.distinct b b' r r' hr hr' h)
      rw [records_apply (hlookup'.trans hr'), records_apply hr, records_apply hr', Heap.modify_comm _ _ _ haddr]

theorem apply_comm_branches : (p'.apply b' (p.apply b m)).branches = (p.apply b (p'.apply b' m)).branches := by
  simp only [branches_apply]
  split_ifs
  · exact Dict.erase_comm ..
  · rfl
  · rfl
  · rfl

theorem liveObjects_apply_of_not_live (h : m.liveBranches.get? b = none) :
    (p.apply b m).liveObjects = m.liveObjects := by
  show p.base.elim m.liveObjects _ = _
  rw [h]
  cases p.base with
  | none => rfl
  | some id => rfl

/-- The live branch of `b` after the patch. -/
def moved (p : Patch) (branch : EnvironmentBranch) : EnvironmentBranch :=
  p.base.elim branch fun id => { branch with baseSnapshotId := id }

theorem liveObjects_apply {l : Ref} (h : m.liveBranches.get? b = some l) :
    (p.apply b m).liveObjects = m.liveObjects.modify l.addr p.moved := by
  show p.base.elim m.liveObjects _ = _
  rw [h]
  unfold moved
  cases p.base with
  | none => simp [Heap.modify]
  | some id => rfl

theorem apply_comm_liveObjects (hm : LiveRegular m) (hne : b ≠ b') :
    (p'.apply b' (p.apply b m)).liveObjects = (p.apply b (p'.apply b' m)).liveObjects := by
  have hlookup : (p'.apply b' m).liveBranches.get? b = m.liveBranches.get? b := get?_liveBranches_of_ne hne
  have hlookup' : (p.apply b m).liveBranches.get? b' = m.liveBranches.get? b' := get?_liveBranches_of_ne hne.symm
  cases hl : m.liveBranches.get? b with
  | none =>
    rw [liveObjects_apply_of_not_live (hlookup.trans hl)]
    cases hl' : m.liveBranches.get? b' with
    | none =>
      rw [liveObjects_apply_of_not_live (hlookup'.trans hl'), liveObjects_apply_of_not_live hl,
        liveObjects_apply_of_not_live hl']
    | some l' =>
      rw [liveObjects_apply (hlookup'.trans hl'), liveObjects_apply_of_not_live hl, liveObjects_apply hl']
  | some l =>
    rw [liveObjects_apply (hlookup.trans hl)]
    cases hl' : m.liveBranches.get? b' with
    | none =>
      rw [liveObjects_apply_of_not_live (hlookup'.trans hl'), liveObjects_apply hl, liveObjects_apply_of_not_live hl']
    | some l' =>
      have haddr : l.addr ≠ l'.addr := fun h => hne (hm.distinct b b' l l' hl hl' h)
      rw [liveObjects_apply (hlookup'.trans hl'), liveObjects_apply hl, liveObjects_apply hl',
        Heap.modify_comm _ _ _ haddr]

theorem apply_comm_liveBranches :
    (p'.apply b' (p.apply b m)).liveBranches = (p.apply b (p'.apply b' m)).liveBranches := by
  simp only [liveBranches_apply]
  split_ifs
  · exact Dict.erase_comm ..
  · rfl
  · rfl
  · rfl

/-- Only one of two branches is the current one, and the pointer moves to the default branch if that one retires. -/
theorem apply_comm_current (hne : b ≠ b') (hb : b ≠ defaultBranchId) (hb' : b' ≠ defaultBranchId) :
    (p'.apply b' (p.apply b m)).currentBranchId = (p.apply b (p'.apply b' m)).currentBranchId := by
  simp only [currentBranchId_apply]
  by_cases hcurrent : m.currentBranchId = b
  · have hother : m.currentBranchId ≠ b' := fun h => hne (hcurrent.symm.trans h)
    by_cases hretires : p.retires = true
    · simp [hretires, hcurrent, hne, hb'.symm]
    · simp [hretires, hcurrent, hne]
  · by_cases hretires' : p'.retires = true ∧ m.currentBranchId = b'
    · simp [hretires', hne.symm, hb.symm]
    · simp [hcurrent, hretires']

theorem apply_comm_cleanedUp :
    (p'.apply b' (p.apply b m)).isCleanedUp = (p.apply b (p'.apply b' m)).isCleanedUp := by
  simp only [isCleanedUp_apply]
  split_ifs
  · rfl
  · rfl
  · rfl
  · rfl

theorem apply_comm (hm : Regular m) (hl : LiveRegular m) (hne : b ≠ b') (hb : b ≠ defaultBranchId)
    (hb' : b' ≠ defaultBranchId) (h : Compatible p p') :
    (p'.apply b' (p.apply b m)).AgreeUpToOrder (p.apply b (p'.apply b' m)) where
  snapshots := apply_comm_snapshots h
  snapshotGraph := apply_comm_graph h
  log := apply_comm_log
  records := apply_comm_records hm hne
  branches := apply_comm_branches
  currentBranchId := apply_comm_current hne hb hb'
  isCleanedUp := apply_comm_cleanedUp
  liveObjects := apply_comm_liveObjects hl hne
  liveBranches := apply_comm_liveBranches

end Patch

/-! ### What branches show -/

/-- What a branch shows: what its operations see, and the object that was its record at the start. -/
abbrev Shows (S : Type) : Type := Sight S × Option BranchState

/-- What a branch shows after a reaction on it. -/
def Reaction.leaves {S : Type} (d : Reaction S) (v : Shows S) : Shows S :=
  ({ live := v.1.live && !d.patch.retires
     record := if d.patch.retires then none else v.1.record.map d.patch.record
     current := v.1.current && !d.patch.retires
     part := d.part },
    if v.1.record.isSome then v.2.map d.patch.record else v.2)

/-- No branch was registered since `m₀`. -/
structure Within {W : Type} (m₀ : Manager) (s : Sys W) : Prop where
  consistent : Consistent s.mgr
  registered : ∀ b r, s.mgr.branches.get? b = some r → m₀.branches.get? b = some r

namespace Apart

variable {W S : Type} {B : ForkableBackend W} (σ : Apart B S) {m₀ : Manager} {s : Sys W} {b b' : String} {d : Reaction S}
  {r : Except PyError Outcome × Sys W}

def shows (m₀ : Manager) (s : Sys W) (b : String) : Shows S :=
  (σ.sight s b, (m₀.branches.get? b).map s.mgr.record)

namespace Performs

variable {σ}

theorem sight_self (h : σ.Performs s b d r) : σ.sight r.2 b = (d.leaves (σ.shows m₀ s b)).1 := by
  unfold sight Reaction.leaves
  rw [h.mgr, h.part, Patch.get?_branches_apply, Patch.get?_liveBranches_apply, Patch.currentBranchId_apply,
    Function.update_self]
  cases hretires : d.patch.retires with
  | false =>
    have hrecord : ((s.mgr.branches.get? b).map (d.patch.apply b s.mgr).record) =
        ((s.mgr.branches.get? b).map s.mgr.record).map d.patch.record := by
      cases hr : s.mgr.branches.get? b with
      | none => rfl
      | some l =>
        show some ((d.patch.apply b s.mgr).records.cell l.addr) = _
        rw [Patch.records_apply hr, Heap.cell_modify_self]
        rfl
    simpa [shows, sight] using hrecord
  | true =>
    by_cases hcurrent : s.mgr.currentBranchId = b
    · by_cases hb : b = defaultBranchId
      · simp [shows, sight, hb]
      · simp [shows, sight, hcurrent, Ne.symm hb]
    · simp [shows, sight, hcurrent]

theorem record_of_ne (h : σ.Performs s b d r) (l : Ref) (hl : ∀ l', s.mgr.branches.get? b = some l' → l.addr ≠ l'.addr) :
    r.2.mgr.record l = s.mgr.record l := by
  rw [h.mgr]
  cases hr : s.mgr.branches.get? b with
  | none => exact congrArg (Heap.cell · l.addr) (Patch.records_apply_of_unregistered hr)
  | some l' =>
    show (d.patch.apply b s.mgr).records.cell l.addr = _
    rw [Patch.records_apply hr, Heap.cell_modify_of_ne _ _ (hl l' hr)]
    rfl

theorem sight_of_ne (hm : Regular s.mgr) (h : σ.Performs s b d r) (hne : b' ≠ b) : σ.sight r.2 b' = σ.sight s b' := by
  have hrecord : (s.mgr.branches.get? b').map r.2.mgr.record = (s.mgr.branches.get? b').map s.mgr.record := by
    cases hr' : s.mgr.branches.get? b' with
    | none => rfl
    | some l' =>
      exact congrArg some (h.record_of_ne l' fun l hl haddr => hne (hm.distinct b' b l' l hr' hl haddr))
  have hcurrent : (decide (b' ≠ defaultBranchId) && decide (r.2.mgr.currentBranchId = b')) =
      (decide (b' ≠ defaultBranchId) && decide (s.mgr.currentBranchId = b')) := by
    rw [h.mgr, Patch.currentBranchId_apply]
    by_cases hretires : d.patch.retires = true ∧ s.mgr.currentBranchId = b
    · rw [if_pos hretires, hretires.2]
      by_cases hb' : b' = defaultBranchId
      · simp [hb']
      · simp [Ne.symm hb', hne.symm]
    · rw [if_neg hretires]
  have hlookup : r.2.mgr.branches.get? b' = s.mgr.branches.get? b' := by
    rw [h.mgr, Patch.get?_branches_of_ne hne]
  have hlive : r.2.mgr.liveBranches.get? b' = s.mgr.liveBranches.get? b' := by
    rw [h.mgr, Patch.get?_liveBranches_of_ne hne]
  unfold sight
  rw [hlookup, hlive, hrecord, hcurrent, h.part, Function.update_of_ne hne]

theorem within (h : σ.Performs s b d r) (hw : Within m₀ s) (hc : Consistent r.2.mgr) : Within m₀ r.2 where
  consistent := hc
  registered := by
    intro b' l hl
    rw [h.mgr, Patch.get?_branches_apply] at hl
    split_ifs at hl
    exact hw.registered b' l hl

theorem shows_self (h : σ.Performs s b d r) (hw : Within m₀ s) :
    σ.shows m₀ r.2 b = d.leaves (σ.shows m₀ s b) := by
  refine Prod.ext h.sight_self ?_
  show (m₀.branches.get? b).map r.2.mgr.record = if (σ.sight s b).record.isSome then _ else _
  cases hr : s.mgr.branches.get? b with
  | none =>
    have hunregistered : (σ.sight s b).record = none := by simp [sight, hr]
    have hrecord : r.2.mgr.record = s.mgr.record :=
      funext fun l => h.record_of_ne l fun l' hl' => by simp [hr] at hl'
    rw [hunregistered, hrecord]
    rfl
  | some l =>
    have hregistered : (σ.sight s b).record = some (s.mgr.record l) := by simp [sight, hr]
    have hrecord : r.2.mgr.record l = d.patch.record (s.mgr.record l) := by
      rw [h.mgr]
      show (d.patch.apply b s.mgr).records.cell l.addr = _
      rw [Patch.records_apply hr, Heap.cell_modify_self]
      rfl
    rw [hregistered]
    simp [shows, hw.registered b l hr, hrecord]

theorem shows_of_ne (h : σ.Performs s b d r) (hw : Within m₀ s) (hm₀ : Regular m₀) (hne : b' ≠ b) :
    σ.shows m₀ r.2 b' = σ.shows m₀ s b' := by
  refine Prod.ext (h.sight_of_ne hw.consistent.regular hne) ?_
  show (m₀.branches.get? b').map r.2.mgr.record = (m₀.branches.get? b').map s.mgr.record
  cases hr : m₀.branches.get? b' with
  | none => rfl
  | some l' =>
    exact congrArg some (h.record_of_ne l' fun l hl haddr =>
      hne (hm₀.distinct b' b l' l hr (hw.registered b l hl) haddr))

end Performs

end Apart

/-! ### What a reaction captures -/

theorem Sight.record_of_access {S : Type} {x : Sight S} {r : BranchState} (h : x.access = .usable r) : x.record = some r := by
  unfold access at h
  cases hr : x.record with
  | none =>
    rw [hr] at h
    split_ifs at h
  | some r' =>
    rw [hr] at h
    dsimp only at h
    split_ifs at h
    cases h
    rfl

/-- A reaction returns the id that it captures, and the captured node lies below the branch. -/
structure Reaction.Below {S : Type} (d : Reaction S) (x : Sight S) : Prop where
  captures : ∀ c, d.patch.captured = some c → d.outcome = .ok (.snapshotId (some c.1.snapshotId)) ∧
    ∃ r, x.record = some r ∧ c.1.parentId = r.lastSnapshotId

theorem Reaction.Below.of_captures_nothing {S : Type} {d : Reaction S} {x : Sight S} (h : d.patch.captured = none) : d.Below x :=
  ⟨fun c hc => by rw [h] at hc; cases hc⟩

namespace Apart

variable {W S : Type} {B : ForkableBackend W} (σ : Apart B S) (x : Sight S)

theorem below_exec (b : String) (command : Command) (timeout : Option ℚ) : (σ.execReaction b command timeout x).Below x := by
  refine .of_captures_nothing ?_
  unfold execReaction
  split
  · rfl
  · rfl
  · rfl
  · split
    · rfl
    · rfl

theorem below_copy (b hostPath envPath : String) (into : Bool) : (σ.copyReaction b hostPath envPath into x).Below x := by
  refine .of_captures_nothing ?_
  unfold copyReaction
  split
  · split
    · rfl
    · rfl
  · rfl

theorem below_snapshot (b : String) : (σ.snapshotReaction b x).Below x := by
  unfold snapshotReaction
  split
  · next r haccess =>
    split
    · exact .of_captures_nothing rfl
    · exact .of_captures_nothing rfl
    · refine ⟨fun c hc => ?_⟩
      cases hc
      exact ⟨rfl, r, x.record_of_access haccess, rfl⟩
  · exact .of_captures_nothing rfl

theorem below_park (b : String) : (σ.parkReaction b x).Below x := by
  unfold parkReaction
  split
  · next r haccess =>
    split
    · exact .of_captures_nothing rfl
    · exact .of_captures_nothing rfl
    · refine ⟨fun c hc => ?_⟩
      cases hc
      exact ⟨rfl, r, x.record_of_access haccess, rfl⟩
  · exact .of_captures_nothing rfl

theorem below_discard (b : String) : (σ.discardReaction b x).Below x := by
  refine .of_captures_nothing ?_
  unfold discardReaction
  split_ifs
  · rfl
  · split
    · split
      · rfl
      · rfl
      · rfl
    · rfl

theorem below (op : PublicOp) : (σ.reaction op x).Below x := by
  cases op with
  | execOnBranch b command timeout => exact σ.below_exec x b command timeout
  | copyInBranch b hostSrc path => exact σ.below_copy x b hostSrc path true
  | copyOutBranch b path hostDst => exact σ.below_copy x b hostDst path false
  | snapshotBranch b park =>
    cases park with
    | true => exact σ.below_park x b
    | false => exact σ.below_snapshot x b
  | parkBranch b => exact σ.below_park x b
  | discardBranch b => exact σ.below_discard x b
  | _ => exact .of_captures_nothing rfl

end Apart

/-! ### The operations are separated -/

/-- The operation is addressed to a branch other than the default one. -/
def PublicOp.OnFork (op : PublicOp) : Prop := ∃ b, op.branch? = some b ∧ b ≠ defaultBranchId

namespace ForkableBackend

variable {W : Type} (B : ForkableBackend W)

/-- Calls a public operation. -/
def call (op : PublicOp) (s : Sys W) : Except PyError Outcome × Sys W := (PublicOp.prog B.hooks op).run s

theorem liveRegular_runOps {B : ForkableBackend W} {s : Sys W} (ops : List PublicOp) (hc : Consistent s.mgr)
    (hl : LiveRegular s.mgr) : LiveRegular (runOps B.hooks ops s).mgr := by
  induction ops generalizing s with
  | nil => exact hl
  | cons op ops ih =>
    have hupdates := B.updates_prog op hc.regular hc.main
    exact ih (consistent_prog hc op) (hupdates.invariant (fun _ _ hupdate h => h.update hupdate) hl)

theorem run_call (ops : List PublicOp) (s : Sys W) : (Separation.run B.call ops s).2 = runOps B.hooks ops s := by
  induction ops generalizing s with
  | nil => rfl
  | cons op ops ih => exact ih (B.call op s).2

end ForkableBackend

namespace Apart

variable {W S : Type} {B : ForkableBackend W} (σ : Apart B S) {m₀ : Manager}

theorem performs_call {s : Sys W} (hw : Within m₀ s) {op : PublicOp} {b : String} (hop : op.branch? = some b)
    (hb : b ≠ defaultBranchId) : σ.Performs s b (σ.reaction op (σ.sight s b)) (B.call op s) :=
  σ.performs s b hop hb hw.consistent.main

include σ in
theorem within_call {s : Sys W} (hw : Within m₀ s) {op : PublicOp} (hop : op.OnFork) : Within m₀ (B.call op s).2 := by
  obtain ⟨b, hop, hb⟩ := hop
  exact (σ.performs_call hw hop hb).within hw (ForkableBackend.consistent_prog hw.consistent op)

theorem separated (hm₀ : Regular m₀) :
    Separation.Separated (Within m₀) PublicOp.OnFork PublicOp.branch? (fun s i => i.map (σ.shows m₀ s)) B.call where
  keeps := fun op s hop hw => σ.within_call hw hop
  frame := by
    intro op s i hop hw hne
    obtain ⟨b, hop, hb⟩ := hop
    cases i with
    | none => rfl
    | some b' =>
      have hne' : b' ≠ b := fun h => hne (by rw [hop, h])
      exact congrArg some ((σ.performs_call hw hop hb).shows_of_ne hw hm₀ hne')
  determined := by
    intro op s s' hop hw hw' hview
    obtain ⟨b, hop, hb⟩ := hop
    have hp := σ.performs_call hw hop hb
    have hp' := σ.performs_call hw' hop hb
    rw [hop] at hview ⊢
    have hshows : σ.shows m₀ s b = σ.shows m₀ s' b := Option.some.inj hview
    have hsight : σ.sight s b = σ.sight s' b := congrArg Prod.fst hshows
    refine ⟨?_, congrArg some ?_⟩
    · rw [hp.outcome, hp'.outcome, hsight]
    · rw [hp.shows_self hw, hp'.shows_self hw', hshows, hsight]

/-- In either order, the operations give the same answers and leave the same behind. -/
structure Commute (s : Sys W) (op op' : PublicOp) : Prop where
  answer : (B.call op (B.call op' s).2).1 = (B.call op s).1
  answer' : (B.call op' (B.call op s).2).1 = (B.call op' s).1
  mgr : (B.call op' (B.call op s).2).2.mgr.AgreeUpToOrder (B.call op (B.call op' s).2).2.mgr
  part : σ.part (B.call op' (B.call op s).2).2.world = σ.part (B.call op (B.call op' s).2).2.world
  clock : σ.clock (B.call op' (B.call op s).2).2.world = σ.clock (B.call op (B.call op' s).2).2.world

end Apart

/-- No registered branch was last at the snapshot. -/
def Manager.Unvisited (m : Manager) (id : String) : Prop :=
  ∀ b r, m.branches.get? b = some r → (m.record r).lastSnapshotId ≠ some id

/-- The ids that the operations return are new, and differ. -/
structure ForkableBackend.SuppliesFresh {W : Type} (B : ForkableBackend W) (s : Sys W) (op op' : PublicOp) : Prop where
  fresh : ∀ id, (B.call op s).1 = .ok (.snapshotId (some id)) → s.mgr.Unvisited id
  fresh' : ∀ id, (B.call op' s).1 = .ok (.snapshotId (some id)) → s.mgr.Unvisited id
  differ : ∀ id, (B.call op s).1 = .ok (.snapshotId (some id)) → (B.call op' s).1 ≠ .ok (.snapshotId (some id))

namespace Apart

variable {W S : Type} {B : ForkableBackend W} (σ : Apart B S) {s : Sys W} {op op' : PublicOp} {b b' : String}

theorem captured_call (hc : Consistent s.mgr) (hop : op.branch? = some b) (hb : b ≠ defaultBranchId)
    {c : SnapshotNode × String} (hcaptured : (σ.reaction op (σ.sight s b)).patch.captured = some c) :
    (B.call op s).1 = .ok (.snapshotId (some c.1.snapshotId)) ∧
      ∃ r, s.mgr.branches.get? b = some r ∧ c.1.parentId = (s.mgr.record r).lastSnapshotId := by
  obtain ⟨houtcome, x, hx, hparent⟩ := (σ.below (σ.sight s b) op).captures c hcaptured
  obtain ⟨r, hr, rfl⟩ := Option.map_eq_some_iff.mp hx
  exact ⟨(σ.performs s b hop hb hc.main).outcome.trans houtcome, r, hr, hparent⟩

theorem compatible (hc : Consistent s.mgr) (hop : op.branch? = some b) (hop' : op'.branch? = some b')
    (hb : b ≠ defaultBranchId) (hb' : b' ≠ defaultBranchId) (hfresh : B.SuppliesFresh s op op') :
    (σ.reaction op (σ.sight s b)).patch.Compatible (σ.reaction op' (σ.sight s b')).patch := by
  constructor
  case ids =>
    intro c c' hcaptured hcaptured' he
    have hanswer := (σ.captured_call hc hop hb hcaptured).1
    have hanswer' := (σ.captured_call hc hop' hb' hcaptured').1
    exact hfresh.differ _ hanswer (he ▸ hanswer')
  case self =>
    intro c hcaptured
    obtain ⟨hanswer, r, hr, hparent⟩ := σ.captured_call hc hop hb hcaptured
    exact hparent ▸ hfresh.fresh _ hanswer b r hr
  case self' =>
    intro c hcaptured
    obtain ⟨hanswer, r, hr, hparent⟩ := σ.captured_call hc hop' hb' hcaptured
    exact hparent ▸ hfresh.fresh' _ hanswer b' r hr
  case parent =>
    intro c c' hcaptured hcaptured'
    obtain ⟨-, r, hr, hparent⟩ := σ.captured_call hc hop hb hcaptured
    exact hparent ▸ hfresh.fresh' _ (σ.captured_call hc hop' hb' hcaptured').1 b r hr
  case parent' =>
    intro c c' hcaptured hcaptured'
    obtain ⟨-, r, hr, hparent⟩ := σ.captured_call hc hop' hb' hcaptured'
    exact hparent ▸ hfresh.fresh _ (σ.captured_call hc hop hb hcaptured).1 b' r hr

theorem commute (hc : Consistent s.mgr) (hl : LiveRegular s.mgr) (hop : op.branch? = some b)
    (hop' : op'.branch? = some b') (hb : b ≠ defaultBranchId) (hb' : b' ≠ defaultBranchId) (hne : b ≠ b')
    (hfresh : B.SuppliesFresh s op op') : σ.Commute s op op' := by
  have hw : Within s.mgr s := ⟨hc, fun _ _ h => h⟩
  have hp := σ.performs_call hw hop hb
  have hp' := σ.performs_call hw hop' hb'
  have hw₁ := σ.within_call hw ⟨b, hop, hb⟩
  have hw₂ := σ.within_call hw ⟨b', hop', hb'⟩
  have hsecond' := σ.performs_call hw₁ hop' hb'
  have hsecond := σ.performs_call hw₂ hop hb
  rw [hp.sight_of_ne hc.regular hne.symm] at hsecond'
  rw [hp'.sight_of_ne hc.regular hne] at hsecond
  constructor
  case answer => rw [hsecond.outcome, hp.outcome]
  case answer' => rw [hsecond'.outcome, hp'.outcome]
  case mgr =>
    rw [hsecond.mgr, hsecond'.mgr, hp.mgr, hp'.mgr]
    exact Patch.apply_comm hc.regular hl hne hb hb' (σ.compatible hc hop hop' hb hb' hfresh)
  case part => rw [hsecond.part, hsecond'.part, hp.part, hp'.part, Function.update_comm hne]
  case clock => rw [hsecond.clock, hsecond'.clock, hp.clock, hp'.clock, add_right_comm]

/-- The branch gets the answers, and ends with the record, of its own operations alone. -/
structure RunsAlone (s : Sys W) (b : String) (ops : List PublicOp) : Prop where
  answers : (Separation.run B.call ops s).1.filter (·.1.branch? = some b) =
    (Separation.run B.call (ops.filter (·.branch? = some b)) s).1
  sight : σ.sight (runOps B.hooks ops s) b = σ.sight (runOps B.hooks (ops.filter (·.branch? = some b)) s) b
  record : ∀ r, s.mgr.branches.get? b = some r →
    (runOps B.hooks ops s).mgr.record r = (runOps B.hooks (ops.filter (·.branch? = some b)) s).mgr.record r

theorem runsAlone (hc : Consistent s.mgr) (b : String) {ops : List PublicOp} (hops : ∀ op ∈ ops, op.OnFork) :
    σ.RunsAlone s b ops := by
  have hw : Within s.mgr s := ⟨hc, fun _ _ h => h⟩
  obtain ⟨hanswers, hview⟩ := (σ.separated hc.regular).run_filter (some b) hops hw hw rfl
  rw [B.run_call, B.run_call] at hview
  have hshows := Option.some.inj hview
  refine ⟨hanswers, congrArg Prod.fst hshows, fun r hr => ?_⟩
  have hrecord := congrArg Prod.snd hshows
  simp only [shows, hr, Option.map_some, Option.some.injEq] at hrecord
  exact hrecord

end Apart

/-- On a backend that keeps its branches apart, two operations on different branches commute in every state that
public operations reach, and every branch ends an interleaving as its own operations alone leave it. -/
theorem branches_commute {W S : Type} {B : ForkableBackend W} (σ : Apart B S) {s : Sys W} (hc : Consistent s.mgr)
    (hl : LiveRegular s.mgr) (before : List PublicOp) :
    (∀ op op' b b', op.branch? = some b → op'.branch? = some b' → b ≠ defaultBranchId → b' ≠ defaultBranchId → b ≠ b' →
      B.SuppliesFresh (runOps B.hooks before s) op op' → σ.Commute (runOps B.hooks before s) op op') ∧
    ∀ b ops, (∀ op ∈ ops, op.OnFork) → σ.RunsAlone (runOps B.hooks before s) b ops := by
  have hc' := ForkableBackend.consistent_runOps (B := B) before hc
  have hl' := ForkableBackend.liveRegular_runOps (B := B) before hc hl
  exact ⟨fun op op' b b' hop hop' hb hb' hne hfresh => σ.commute hc' hl' hop hop' hb hb' hne hfresh,
    fun b ops hops => σ.runsAlone hc' b hops⟩

/-- A backend that keeps the ids of its next captures per branch. -/
structure Yard where
  ids : String → List String
  now : ℚ := 0

namespace Yard

/-- The id that the branch is given next. -/
def next : LocalHook (List String) (Option (String × String) × ℚ)
  | [] => (.ok (none, 0), [], 0)
  | id :: ids => (.ok (some (id, id), 1), ids, 1)

/-- Lets a hook act on the ids of its branch. -/
def act {α : Type} (b : String) (f : LocalHook (List String) α) (w : Yard) : Except PyError α × Yard :=
  ((f (w.ids b)).1, ⟨Function.update w.ids b (f (w.ids b)).2.1, w.now + (f (w.ids b)).2.2⟩)

/-- A hook that answers and does nothing else. -/
def answer {α : Type} (a : α) : LocalHook (List String) α := fun ids => (.ok a, ids, 1)

def backend : ForkableBackend Yard where
  snapshot b := act b next
  refreshes := false
  exec _ _ b := act b (answer (0, "", ""))
  copy b _ _ _ := act b (answer (true, ""))
  fork snapshotId requests w := (.ok (requests.reduceOption.map fun id => (⟨id, snapshotId, "running"⟩, 1)), w)
  discard b := act b (answer true)
  park b := act b next
  list w := (.ok none, w)
  cleanup w := (.ok (some true), w)
  time w := (w.now, w)
  uuid4Hex w := ("", w)

theorem actsOn {α : Type} (b : String) (f : LocalHook (List String) α) : ActsOn ids now b (act b f) f :=
  ⟨fun _ => rfl, fun _ => rfl, fun _ => rfl⟩

def apart : Apart backend (List String) where
  part := ids
  clock := now
  tick := 0
  exec _ _ _ := answer (0, "", "")
  copy _ _ _ _ := answer (true, "")
  snapshot _ := next
  park _ := next
  discard _ := answer true
  acts_exec _ _ b := actsOn b _
  acts_copy b _ _ _ := actsOn b _
  acts_snapshot b := actsOn b _
  acts_park b := actsOn b _
  acts_discard b := actsOn b _
  time _ := rfl
  time_part _ := rfl
  time_clock w := (add_zero w.now).symm
  quiet := rfl

/-- A yard under a manager that has just been started. -/
def start : Sys Yard :=
  ⟨Manager.seeded "base" "base", { ids := fun b => if b = "x" then ["x1"] else if b = "y" then ["y1", "y2"] else [] }⟩

/-- Two forks, the second of which is captured while the first is parked. -/
def forked : Sys Yard := runOps backend.hooks [.fork "base" 2 (some ["x", "y"])] start

theorem forked_fresh : backend.SuppliesFresh forked (.parkBranch "x") (.snapshotBranch "y" false) := by
  have hx : (backend.call (.parkBranch "x") forked).1 = .ok (.snapshotId (some "x1")) := by decide +kernel
  have hy : (backend.call (.snapshotBranch "y" false) forked).1 = .ok (.snapshotId (some "y1")) := by decide +kernel
  have hlast : ∀ e ∈ forked.mgr.branches.entries, (forked.mgr.record e.2).lastSnapshotId = some "base" := by
    decide +kernel
  have hnew (id : String) (hid : id ≠ "base") : forked.mgr.Unvisited id := by
    intro b r hr he
    have hbase := hlast (b, r) (Dict.mem_entries_of_get? hr)
    exact hid (Option.some.inj (he.symm.trans hbase))
  constructor
  case fresh =>
    intro id hid
    rw [hx] at hid
    cases hid
    exact hnew _ (by decide)
  case fresh' =>
    intro id hid
    rw [hy] at hid
    cases hid
    exact hnew _ (by decide)
  case differ =>
    intro id hid hid'
    rw [hx] at hid
    rw [hy, ← hid] at hid'
    exact absurd hid' (by decide)

end Yard

theorem branches_commute_yard :
    Yard.apart.Commute Yard.forked (.parkBranch "x") (.snapshotBranch "y" false) ∧
      Yard.apart.RunsAlone Yard.forked "y"
        [.snapshotBranch "y" false, .parkBranch "x", .execOnBranch "y" (.line "make") none] := by
  have hstart : LiveRegular Yard.start.mgr := .seeded "base" "base"
  obtain ⟨hcommute, halone⟩ := branches_commute Yard.apart (s := Yard.start) (.seeded "base" "base") hstart
    [.fork "base" 2 (some ["x", "y"])]
  constructor
  · exact hcommute _ _ "x" "y" rfl rfl (by decide) (by decide) (by decide) Yard.forked_fresh
  · refine halone "y" _ fun op hop => ?_
    simp only [List.mem_cons, List.not_mem_nil, or_false] at hop
    obtain rfl | rfl | rfl := hop
    · exact ⟨"y", rfl, by decide⟩
    · exact ⟨"x", rfl, by decide⟩
    · exact ⟨"y", rfl, by decide⟩

end StateFork
