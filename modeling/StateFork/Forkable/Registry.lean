import StateFork.Controller.Ancestry
import StateFork.Forkable.Backend

/-!
# The registries of a forkable manager

`Regular` is what every critical section keeps, whatever else is going on: the branch dictionary
points at distinct records of the right branches, and the graph holds physical nodes under their
own ids. It needs no lock, so the concurrent developments use it as the invariant of all reachable
states.
-/

namespace StateFork

structure Regular (m : Manager) : Prop where
  ids : ∀ b r, m.branches.get? b = some r → r.id = b
  allocated : ∀ b r, m.branches.get? b = some r → r.addr < m.records.next
  distinct : ∀ b b' r r', m.branches.get? b = some r → m.branches.get? b' = some r' →
    r.addr = r'.addr → b = b'
  physical : ∀ id node, m.snapshotGraph.get? id = some node →
    node.snapshotId = id ∧ node.isVirtual = false

namespace Regular

variable {m m' : Manager}

/-- A section that keeps the branch dictionary, the allocation mark and the graph. -/
theorem congr (h : Regular m) (hbranches : m'.branches = m.branches)
    (hnext : m'.records.next = m.records.next) (hgraph : m'.snapshotGraph = m.snapshotGraph) :
    Regular m' where
  ids := by rw [hbranches]; exact h.ids
  allocated := by rw [hbranches, hnext]; exact h.allocated
  distinct := by rw [hbranches]; exact h.distinct
  physical := by rw [hgraph]; exact h.physical

theorem modifyRecord (h : Regular m) (r : Ref) (f : BranchState → BranchState) :
    Regular (m.modifyRecord r f) :=
  h.congr rfl rfl rfl

theorem registerBranch (h : Regular m) (branchId : String) (base : Option String) :
    Regular (m.registerBranch branchId base).2 := by
  unfold Manager.registerBranch
  cases hb : m.branches.get? branchId with
  | some r => exact h
  | none =>
    have hget (b : String) (r : Ref)
        (hr : (m.branches.set branchId ⟨branchId, m.records.next⟩).get? b = some r) :
        (b = branchId ∧ r = ⟨branchId, m.records.next⟩) ∨ m.branches.get? b = some r := by
      rw [Dict.get?_set] at hr
      split_ifs at hr with he
      · exact .inl ⟨he, (Option.some.inj hr).symm⟩
      · exact .inr hr
    constructor
    case ids =>
      intro b r hr
      obtain ⟨rfl, rfl⟩ | hr := hget b r hr
      · rfl
      · exact h.ids b r hr
    case allocated =>
      intro b r hr
      obtain ⟨rfl, rfl⟩ | hr := hget b r hr
      · exact Nat.lt_succ_self _
      · exact Nat.lt_succ_of_lt (h.allocated b r hr)
    case distinct =>
      intro b b' r r' hr hr' haddr
      rcases hget b r hr with ⟨hb₁, hr₁⟩ | hold
      · rcases hget b' r' hr' with ⟨hb₂, -⟩ | hold'
        · rw [hb₁, hb₂]
        · rw [hr₁] at haddr
          exact absurd haddr.symm (Nat.ne_of_lt (h.allocated b' r' hold'))
      · rcases hget b' r' hr' with ⟨-, hr₂⟩ | hold'
        · rw [hr₂] at haddr
          exact absurd haddr (Nat.ne_of_lt (h.allocated b r hold))
        · exact h.distinct b b' r r' hold hold' haddr
    case physical => exact h.physical

theorem removeBranch (h : Regular m) (branchId : String) : Regular (m.removeBranch branchId) := by
  unfold Manager.removeBranch
  cases hb : m.branches.get? branchId with
  | none => exact h
  | some r₀ =>
    have hget (b : String) (r : Ref) (hr : (m.branches.erase branchId).get? b = some r) :
        m.branches.get? b = some r := by
      rw [Dict.get?_erase] at hr
      split_ifs at hr
      exact hr
    exact {
      ids := fun b r hr => h.ids b r (hget b r hr)
      allocated := fun b r hr => h.allocated b r (hget b r hr)
      distinct := fun b b' r r' hr hr' => h.distinct b b' r r' (hget b r hr) (hget b' r' hr')
      physical := h.physical }

theorem setCurrentBranch (h : Regular m) (branchId : String) : Regular (m.setCurrentBranch branchId).2 := by
  unfold Manager.setCurrentBranch
  split
  · exact h.congr rfl rfl rfl
  · exact h

theorem recordSnapshotNode (h : Regular m) {node : SnapshotNode} (hnode : node.isVirtual = false) :
    Regular (m.recordSnapshotNode node) where
  ids := h.ids
  allocated := h.allocated
  distinct := h.distinct
  physical := Manager.forall_recordNode (fun _ _ _ hn => hn) h.physical ⟨rfl, hnode⟩

theorem advanceLiveBase (h : Regular m) (branchId snapshotId : String) :
    Regular (m.advanceLiveBase branchId snapshotId) := by
  unfold Manager.advanceLiveBase
  split
  · exact h
  · exact h.congr rfl rfl rfl

/-- A physical snapshot is its own nearest physical ancestor. -/
theorem physicalAncestor (h : Regular m) {id : String} {node : SnapshotNode} {commands : List Command}
    (hw : m.physicalAncestor id = .ok (node, commands)) : node.snapshotId = id ∧ commands = [] := by
  obtain ⟨-, hchain⟩ := Manager.physicalAncestor_ok (fun i n hn => (h.physical i n hn).1) hw
  cases hchain with
  | physical => exact ⟨rfl, rfl⟩
  | virtual found kind =>
    rw [(h.physical _ _ found).2] at kind
    exact absurd kind (by simp)

/-- Registering a branch leaves the records of the others, and its own if it has one. -/
theorem get?_registerBranch_of_get? (h : Regular m) {b b' : String} {base : Option String} {r : Ref}
    (hr : m.branches.get? b' = some r) : (m.registerBranch b base).2.branches.get? b' = some r ∧
      (m.registerBranch b base).2.record r = m.record r := by
  unfold Manager.registerBranch
  cases hb : m.branches.get? b with
  | some r₀ => exact ⟨hr, rfl⟩
  | none =>
    have hne : b' ≠ b := fun he => by rw [he, hb] at hr; cases hr
    exact ⟨(Dict.get?_set_of_ne _ _ hne).trans hr, Heap.cell_alloc_of_lt _ _ (h.allocated b' r hr)⟩

/-- Records of different branches are different. -/
theorem record_modifyRecord (h : Regular m) {b b' : String} {r r' : Ref} (hr : m.branches.get? b = some r)
    (hr' : m.branches.get? b' = some r') (f : BranchState → BranchState) :
    (m.modifyRecord r f).record r' = if b' = b then f (m.record r') else m.record r' := by
  unfold Manager.modifyRecord Manager.record
  dsimp only
  rw [Heap.cell_modify]
  by_cases hb : b' = b
  · subst hb
    obtain rfl := Option.some.inj (hr.symm.trans hr')
    simp
  · have hne : r'.addr ≠ r.addr := fun he => hb (h.distinct b' b r' r hr' hr he)
    rw [if_neg hne, if_neg hb]

theorem init : Regular Manager.init := by
  have hget (b : String) (r : Ref) (hr : Manager.init.branches.get? b = some r) :
      b = defaultBranchId ∧ r = ⟨defaultBranchId, 0⟩ := by
    unfold Manager.init at hr
    rw [Dict.get?_set, Dict.get?_empty] at hr
    split_ifs at hr with hb
    exact ⟨hb, (Option.some.inj hr).symm⟩
  constructor
  case ids =>
    intro b r hr
    obtain ⟨rfl, rfl⟩ := hget b r hr
    rfl
  case allocated =>
    intro b r hr
    obtain ⟨rfl, rfl⟩ := hget b r hr
    exact Nat.one_pos
  case distinct =>
    intro b b' r r' hr hr' _
    rw [(hget b r hr).1, (hget b' r' hr').1]
  case physical =>
    intro id node hn
    exact absurd hn (by simp [Manager.init])

theorem seeded (root resource : String) : Regular (Manager.seeded root resource) := by
  have h : Regular (Manager.init.registerSnapshotResource root resource) := init.congr rfl rfl rfl
  have hnode : ({ snapshotId := root, parentId := none } : SnapshotNode).isVirtual = false := rfl
  exact (h.recordSnapshotNode hnode).congr rfl rfl rfl

end Regular

end StateFork
