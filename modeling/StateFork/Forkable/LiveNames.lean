import StateFork.Forkable.Listing

/-!
# The names of live branches

A live branch is registered under the id that its object carries. Updates keep this as they keep the other facts about
the objects of the live registry (`LiveRegular`).
-/

namespace StateFork

/-- Every object of the live registry carries the id under which it is registered. -/
def LiveNamed (m : Manager) : Prop := ∀ b l, m.liveBranches.get? b = some l → (m.liveObject l).id = b

namespace LiveNamed

variable {m m' : Manager} {restoring : Bool}

theorem congr (h : LiveNamed m) (hlive : m'.liveBranches = m.liveBranches)
    (hobjects : ∀ l, (m'.liveObject l).id = (m.liveObject l).id) : LiveNamed m' := by
  intro b l hl
  rw [hobjects]
  exact h b l (hlive ▸ hl)

theorem erase (h : LiveNamed m) (gone : String) :
    LiveNamed { m with liveBranches := m.liveBranches.erase gone } := by
  intro b l hl
  dsimp only at hl
  rw [Dict.get?_erase] at hl
  split_ifs at hl
  exact h b l hl

theorem removeBranch (h : LiveNamed m) (b : String) : LiveNamed (m.removeBranch b) :=
  h.congr (Manager.liveBranches_removeBranch ..) fun l => by
    unfold Manager.removeBranch
    split <;> rfl

theorem setBranchPosition (h : LiveNamed m) (b : String) (snapshotId : Option String) :
    LiveNamed (m.setBranchPosition b snapshotId) :=
  h.congr Manager.liveBranches_setBranchPosition fun l => by
    unfold Manager.setBranchPosition
    exact congrArg EnvironmentBranch.id (Manager.liveObject_registerBranch ..)

theorem commit (h : LiveNamed m) (b : String) (state : Ref) (node : SnapshotNode) : LiveNamed (m.commit b state node) := by
  refine h.congr (Manager.liveBranches_commit ..) fun l => ?_
  unfold Manager.commit Manager.advanceLiveBase
  dsimp only
  split
  · rfl
  · unfold Manager.liveObject
    dsimp only
    rw [Heap.cell_modify]
    split_ifs with haddr
    · rw [haddr]
      rfl
    · rfl

theorem registerOutcome (h : LiveNamed m) (hl : LiveRegular m) (activate : Bool) (outcome : EnvironmentBranch × ℚ) :
    LiveNamed (m.registerOutcome activate outcome) := by
  have hobject (l : Ref) :
      (m.registerOutcome activate outcome).liveObject l = (m.newLiveObject outcome.1).2.liveObject l := by
    rw [Manager.registerOutcome_eq]
    exact Manager.liveObject_registerBranch ..
  intro b l hget
  rw [Manager.liveBranches_registerOutcome, Dict.get?_set] at hget
  rw [hobject]
  split_ifs at hget with hb
  · obtain rfl := Option.some.inj hget
    rw [Manager.liveObject_newLiveObject_self, hb]
  · rw [← h b l hget]
    exact congrArg EnvironmentBranch.id (Heap.cell_alloc_of_lt m.liveObjects outcome.1 (hl.allocated b l hget))

theorem relist (m : Manager) (listing : List EnvironmentBranch) : LiveNamed (m.relist listing) := by
  unfold Manager.relist
  dsimp only
  set refs := (Manager.newLiveObjects listing m).1 with hrefs
  set m₁ := (Manager.newLiveObjects listing m).2
  have hreplaced : LiveNamed (m₁.replaceLive refs) := by
    intro b l hl
    obtain ⟨r, hr, he⟩ := List.mem_map.mp (Dict.mem_of_get?_ofList hl)
    cases he
    exact Manager.id_newLiveObjects hr
  obtain ⟨-, hlive, hobjects⟩ := Manager.foldl_reconcile refs (m₁.replaceLive refs)
  have hreconciled : LiveNamed (refs.foldl Manager.reconcile (m₁.replaceLive refs)) :=
    hreplaced.congr hlive fun l => by
      unfold Manager.liveObject
      rw [hobjects]
  refine hreconciled.congr (Manager.foldl_dropStale _ _).2.2.1 fun l => ?_
  unfold Manager.liveObject
  rw [Manager.liveObjects_foldl_dropStale]

theorem update (h : LiveNamed m) (hl : LiveRegular m) (hupdate : Manager.Update restoring m m') : LiveNamed m' := by
  cases hupdate with
  | bench stats => exact h.congr rfl fun _ => rfl
  | cleaned => exact h.congr rfl fun _ => rfl
  | logged r command counted => exact h.congr rfl fun _ => rfl
  | registered snapshotId resource => exact h.congr rfl fun _ => rfl
  | listed listing => exact relist m listing
  | forked outcome active => exact h.registerOutcome hl _ outcome
  | committed b state snapshotId parentId => exact h.commit b state _
  | recorded snapshotId parentId => exact h.congr rfl fun _ => rfl
  | switched => exact h.congr rfl fun _ => rfl
  | stashed =>
    have hswitched : LiveNamed (m.switch defaultBranchId) := h.congr rfl fun _ => rfl
    exact (hswitched.erase m.currentBranchId).removeBranch _
  | forgotten => exact (h.erase _).removeBranch _
  | positioned b snapshotId restores => exact h.setBranchPosition b (some snapshotId)

theorem seeded (root resource : String) : LiveNamed (Manager.seeded root resource) := by
  intro b l hl
  have hl' : (Dict.empty.set defaultBranchId (⟨defaultBranchId, 0⟩ : Ref)).get? b = some l := hl
  rw [Dict.get?_set, Dict.get?_empty] at hl'
  split_ifs at hl' with hb
  obtain rfl := Option.some.inj hl'
  rw [hb]
  rfl

end LiveNamed

end StateFork
