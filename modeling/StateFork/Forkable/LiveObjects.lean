import StateFork.Forkable.Consistency

/-!
# The live registry points at distinct objects

The live registry maps the id of a live branch to an object that hooks and callers keep references to. What is
true of the records (`Regular`) is true of these objects: an entry points at an allocated object of its own branch,
and entries of different branches point at different objects. So an update of one branch's object leaves the
others.
-/

namespace StateFork

structure LiveRegular (m : Manager) : Prop where
  ids : ∀ b l, m.liveBranches.get? b = some l → l.id = b
  allocated : ∀ b l, m.liveBranches.get? b = some l → l.addr < m.liveObjects.next
  distinct : ∀ b b' l l', m.liveBranches.get? b = some l → m.liveBranches.get? b' = some l' →
    l.addr = l'.addr → b = b'

theorem Manager.liveObjects_foldl_dropStale (stale : List String) (m : Manager) :
    (stale.foldl Manager.dropStale m).liveObjects = m.liveObjects := by
  have hdropped (m : Manager) (b : String) : (m.dropStale b).liveObjects = m.liveObjects := by
    unfold Manager.dropStale Manager.removeBranch
    split_ifs
    · rfl
    · split <;> rfl
  induction stale generalizing m with
  | nil => rfl
  | cons b stale ih => exact (ih (m.dropStale b)).trans (hdropped m b)

namespace LiveRegular

variable {m m' : Manager} {restoring : Bool}

/-- An update that keeps the live registry and the allocation mark. -/
theorem congr (h : LiveRegular m) (hlive : m'.liveBranches = m.liveBranches)
    (hnext : m'.liveObjects.next = m.liveObjects.next) : LiveRegular m' where
  ids := by rw [hlive]; exact h.ids
  allocated := by rw [hlive, hnext]; exact h.allocated
  distinct := by rw [hlive]; exact h.distinct

theorem of_empty (h : m.liveBranches = .empty) : LiveRegular m where
  ids := by simp [h]
  allocated := by simp [h]
  distinct := by simp [h]

/-- A new object becomes live. -/
theorem setNew (h : LiveRegular m) (branch : EnvironmentBranch) :
    LiveRegular { (m.newLiveObject branch).2 with
      liveBranches := m.liveBranches.set branch.id (m.newLiveObject branch).1 } := by
  have hget (b : String) (l : Ref) (hl : (m.liveBranches.set branch.id (m.newLiveObject branch).1).get? b = some l) :
      (b = branch.id ∧ l = ⟨branch.id, m.liveObjects.next⟩) ∨ m.liveBranches.get? b = some l := by
    rw [Dict.get?_set] at hl
    split_ifs at hl with he
    · exact .inl ⟨he, (Option.some.inj hl).symm⟩
    · exact .inr hl
  constructor
  case ids =>
    intro b l hl
    obtain ⟨rfl, rfl⟩ | hl := hget b l hl
    · rfl
    · exact h.ids b l hl
  case allocated =>
    intro b l hl
    obtain ⟨rfl, rfl⟩ | hl := hget b l hl
    · exact Nat.lt_succ_self _
    · exact Nat.lt_succ_of_lt (h.allocated b l hl)
  case distinct =>
    intro b b' l l' hl hl' haddr
    rcases hget b l hl with ⟨hb, hnew⟩ | hold
    · rcases hget b' l' hl' with ⟨hb', -⟩ | hold'
      · rw [hb, hb']
      · rw [hnew] at haddr
        exact absurd haddr.symm (Nat.ne_of_lt (h.allocated b' l' hold'))
    · rcases hget b' l' hl' with ⟨-, hnew'⟩ | hold'
      · rw [hnew'] at haddr
        exact absurd haddr (Nat.ne_of_lt (h.allocated b l hold))
      · exact h.distinct b b' l l' hold hold' haddr

theorem erase (h : LiveRegular m) (gone : String) :
    LiveRegular { m with liveBranches := m.liveBranches.erase gone } := by
  have hget (b : String) (l : Ref) (hl : (m.liveBranches.erase gone).get? b = some l) :
      m.liveBranches.get? b = some l := by
    rw [Dict.get?_erase] at hl
    split_ifs at hl
    exact hl
  exact {
    ids := fun b l hl => h.ids b l (hget b l hl)
    allocated := fun b l hl => h.allocated b l (hget b l hl)
    distinct := fun b b' l l' hl hl' => h.distinct b b' l l' (hget b l hl) (hget b' l' hl') }

theorem registerBranch (h : LiveRegular m) (b : String) (base : Option String) :
    LiveRegular (m.registerBranch b base).2 := by
  unfold Manager.registerBranch
  split
  · exact h
  · exact h.congr rfl rfl

theorem removeBranch (h : LiveRegular m) (b : String) : LiveRegular (m.removeBranch b) := by
  unfold Manager.removeBranch
  split
  · exact h.congr rfl rfl
  · exact h

theorem registerOutcome (h : LiveRegular m) (activate : Bool) (outcome : EnvironmentBranch × ℚ) :
    LiveRegular (m.registerOutcome activate outcome) := by
  rw [Manager.registerOutcome_eq]
  refine (h.setNew outcome.1).congr ?_ ?_
  · exact congrArg (Dict.set · _ _) (Manager.liveBranches_registerBranch _ _ _)
  · show ((m.newLiveObject outcome.1).2.registerBranch outcome.1.id (some outcome.1.baseSnapshotId)).2.liveObjects.next = _
    unfold Manager.registerBranch
    split <;> rfl

/-- The objects of a listing are new and distinct. -/
theorem relist (m : Manager) (listing : List EnvironmentBranch) : LiveRegular (m.relist listing) := by
  have ha := Manager.adopted_newLiveObjects m listing
  unfold Manager.relist
  dsimp only
  set refs := (Manager.newLiveObjects listing m).1
  set m₁ := (Manager.newLiveObjects listing m).2
  have hget (b : String) (l : Ref) (hl : (m₁.replaceLive refs).liveBranches.get? b = some l) : l ∈ refs ∧ l.id = b := by
    obtain ⟨r, hr, he⟩ := List.mem_map.mp (Dict.mem_of_get?_ofList hl)
    cases he
    exact ⟨hr, rfl⟩
  have hreplaced : LiveRegular (m₁.replaceLive refs) := by
    constructor
    case ids => exact fun b l hl => (hget b l hl).2
    case allocated => exact fun b l hl => (ha.fresh l (hget b l hl).1).2
    case distinct =>
      intro b b' l l' hl hl' haddr
      obtain ⟨hmem, hid⟩ := hget b l hl
      obtain ⟨hmem', hid'⟩ := hget b' l' hl'
      obtain rfl := List.inj_on_of_nodup_map ha.distinct hmem hmem' haddr
      rw [← hid, hid']
  obtain ⟨-, hlive, hobjects⟩ := Manager.foldl_reconcile refs (m₁.replaceLive refs)
  have hreconciled : LiveRegular (refs.foldl Manager.reconcile (m₁.replaceLive refs)) :=
    hreplaced.congr hlive (congrArg Heap.next hobjects)
  exact hreconciled.congr (Manager.foldl_dropStale _ _).2.2.1
    (congrArg Heap.next (Manager.liveObjects_foldl_dropStale _ _))

theorem update (h : LiveRegular m) (hupdate : Manager.Update restoring m m') : LiveRegular m' := by
  cases hupdate with
  | bench stats => exact h.congr rfl rfl
  | cleaned => exact h.congr rfl rfl
  | logged r command counted => exact h.congr rfl rfl
  | registered snapshotId resource => exact h.congr rfl rfl
  | listed listing => exact relist m listing
  | forked outcome active => exact h.registerOutcome _ outcome
  | committed b state snapshotId parentId =>
    refine h.congr (Manager.liveBranches_commit ..) ?_
    unfold Manager.commit Manager.advanceLiveBase
    dsimp only
    split <;> rfl
  | recorded snapshotId parentId => exact h.congr rfl rfl
  | switched => exact h.congr rfl rfl
  | stashed =>
    have hswitched : LiveRegular (m.switch defaultBranchId) := h.congr rfl rfl
    exact (hswitched.erase m.currentBranchId).removeBranch _
  | forgotten => exact (h.erase _).removeBranch _
  | positioned b snapshotId restores => exact (h.registerBranch b (some snapshotId)).congr rfl rfl

theorem seeded (root resource : String) : LiveRegular (Manager.seeded root resource) := by
  have hempty : LiveRegular Manager.init := of_empty rfl
  exact (hempty.setNew ⟨defaultBranchId, root, "running"⟩).congr rfl rfl

end LiveRegular

end StateFork
