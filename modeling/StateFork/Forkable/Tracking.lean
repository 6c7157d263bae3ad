import StateFork.Forkable.Fork

/-!
# The registries follow the backend

`Tracks skip base m` says that the manager knows where every branch stands: `base` maps each live branch of
the backend to the snapshot it was materialized from or last captured as, and the records and live
objects of the manager agree with it, except for the branches of `skip`, which an operation is just
moving. The lemmas below say which sections keep this, and what they do to `base`.
-/

namespace StateFork

open Conc Conc.Prog

structure Tracks (skip : String → Prop) (base : String → Option String) (m : Manager) : Prop where
  regular : Regular m
  position : ∀ b r, m.branches.get? b = some r → ∃ id, base b = some id ∧
    (¬ skip b → (m.record r).currentSnapshotId = some id ∧ (m.record r).lastSnapshotId = some id)
  live : ∀ b l, m.liveBranches.get? b = some l → l.addr < m.liveObjects.next ∧ ∃ id, base b = some id ∧
    (¬ skip b → (m.liveObject l).baseSnapshotId = id)
  liveDistinct : ∀ b b' l l', m.liveBranches.get? b = some l → m.liveBranches.get? b' = some l' →
    l.addr = l'.addr → b = b'
  main : defaultBranchId ∈ m.branches.keys
  current : m.currentBranchId ∈ m.branches.keys
  baseNamed : ∀ b, base b ≠ some ""
  snapshotsNamed : "" ∉ m.snapshots.keys
  nodesNamed : "" ∉ m.snapshotGraph.keys

/-- Every live branch is registered. -/
def LiveRegistered (m : Manager) : Prop := ∀ b ∈ m.liveBranches.keys, b ∈ m.branches.keys

namespace LiveRegistered

variable {m m' : Manager}

theorem congr (h : LiveRegistered m) (hlive : m'.liveBranches = m.liveBranches)
    (hbranches : m'.branches = m.branches) : LiveRegistered m' := by
  unfold LiveRegistered
  rw [hlive, hbranches]
  exact h

theorem forget (h : LiveRegistered m) (b : String) : LiveRegistered (m.forget b) := by
  intro b' hb'
  have hmem : b' ∈ m.liveBranches.keys ∧ b' ≠ b := by
    unfold Manager.forget Manager.removeBranch at hb'
    split at hb'
    · exact (Dict.mem_keys_erase.mp hb').symm
    · exact (Dict.mem_keys_erase.mp hb').symm
  unfold Manager.forget Manager.removeBranch
  split
  · exact Dict.mem_keys_erase.mpr ⟨hmem.2, h b' hmem.1⟩
  · exact h b' hmem.1

end LiveRegistered

/-- The listing names the live branches and where they stand. -/
structure Truthful (base : String → Option String) (listing : List EnvironmentBranch) : Prop where
  distinct : (listing.map EnvironmentBranch.id).Nodup
  exact : ∀ b id, base b = some id ↔ ∃ o ∈ listing, o.id = b ∧ o.baseSnapshotId = id

/-- A truthful listing shows the live branches. -/
theorem Truthful.ne_none_iff {base : String → Option String} {listing : List EnvironmentBranch}
    (h : Truthful base listing) {b : String} : base b ≠ none ↔ b ∈ listing.map EnvironmentBranch.id := by
  rw [Option.ne_none_iff_exists', List.mem_map]
  constructor
  · rintro ⟨id, hid⟩
    obtain ⟨o, ho, hb, -⟩ := (h.exact b id).mp hid
    exact ⟨o, ho, hb⟩
  · rintro ⟨o, ho, hb⟩
    exact ⟨o.baseSnapshotId, (h.exact b _).mpr ⟨o, ho, hb, rfl⟩⟩

namespace Tracks

variable {skip : String → Prop} {base : String → Option String} {m m' : Manager}

/-- A section that keeps the registries and where the records stand. -/
theorem congr (h : Tracks skip base m) (hbranches : m'.branches = m.branches)
    (hnext : m'.records.next = m.records.next)
    (hrecord : ∀ r, (m'.record r).currentSnapshotId = (m.record r).currentSnapshotId ∧
      (m'.record r).lastSnapshotId = (m.record r).lastSnapshotId)
    (hlive : m'.liveBranches = m.liveBranches) (hobjects : m'.liveObjects = m.liveObjects)
    (hcurrent : m'.currentBranchId = m.currentBranchId) (hsnapshots : m'.snapshots = m.snapshots)
    (hgraph : m'.snapshotGraph = m.snapshotGraph) : Tracks skip base m' where
  regular := h.regular.congr hbranches hnext hgraph
  position b r hr := by
    rw [hbranches] at hr
    rw [(hrecord r).1, (hrecord r).2]
    exact h.position b r hr
  live b l hl := by
    rw [hlive] at hl
    unfold Manager.liveObject
    rw [hobjects]
    exact h.live b l hl
  liveDistinct := by
    rw [hlive]
    exact h.liveDistinct
  main := by
    rw [hbranches]
    exact h.main
  current := by
    rw [hcurrent, hbranches]
    exact h.current
  baseNamed := h.baseNamed
  snapshotsNamed := by
    rw [hsnapshots]
    exact h.snapshotsNamed
  nodesNamed := by
    rw [hgraph]
    exact h.nodesNamed

theorem addEntry (h : Tracks skip base m) (operation target : String) (elapsed : ℚ) (b : String) :
    Tracks skip base (m.addEntry operation target elapsed b) :=
  h.congr rfl rfl (fun _ => ⟨rfl, rfl⟩) rfl rfl rfl rfl rfl

/-- An update of a record that does not move it. -/
theorem modifyRecord (h : Tracks skip base m) (r : Ref) {f : BranchState → BranchState}
    (hf : ∀ x, (f x).currentSnapshotId = x.currentSnapshotId ∧ (f x).lastSnapshotId = x.lastSnapshotId) :
    Tracks skip base (m.modifyRecord r f) := by
  refine h.congr rfl rfl (fun r' => ?_) rfl rfl rfl rfl rfl
  unfold Manager.record Manager.modifyRecord
  rw [Heap.cell_modify]
  split_ifs with haddr
  · rw [haddr]
    exact hf _
  · exact ⟨rfl, rfl⟩

/-- Moving the record of a branch to where the backend has it. -/
theorem reposition (h : Tracks skip base m) {b id : String} {r : Ref} (hr : m.branches.get? b = some r)
    (hb : base b = some id) {f : BranchState → BranchState}
    (hf : ∀ x, (f x).currentSnapshotId = some id ∧ (f x).lastSnapshotId = some id) :
    Tracks skip base (m.modifyRecord r f) where
  regular := h.regular.modifyRecord r f
  position b' r' hr' := by
    by_cases haddr : r'.addr = r.addr
    · obtain rfl := h.regular.distinct b' b r' r hr' hr haddr
      refine ⟨id, hb, fun _ => ?_⟩
      simp [Manager.record, Manager.modifyRecord, haddr, hf]
    · have hkept : (m.modifyRecord r f).record r' = m.record r' := by
        simp [Manager.record, Manager.modifyRecord, Heap.cell_modify_of_ne _ _ haddr]
      rw [hkept]
      exact h.position b' r' hr'
  live := h.live
  liveDistinct := h.liveDistinct
  main := h.main
  current := h.current
  baseNamed := h.baseNamed
  snapshotsNamed := h.snapshotsNamed
  nodesNamed := h.nodesNamed

theorem registerSnapshotResource (h : Tracks skip base m) {id : String} (hid : id ≠ "") (resource : String) :
    Tracks skip base (m.registerSnapshotResource id resource) where
  regular := h.regular.congr rfl rfl rfl
  position := h.position
  live := h.live
  liveDistinct := h.liveDistinct
  main := h.main
  current := h.current
  baseNamed := h.baseNamed
  snapshotsNamed := by
    unfold Manager.registerSnapshotResource
    rw [Dict.mem_keys_set, not_or]
    exact ⟨fun he => hid he.symm, h.snapshotsNamed⟩
  nodesNamed := h.nodesNamed

theorem recordSnapshotNode (h : Tracks skip base m) {node : SnapshotNode} (hid : node.snapshotId ≠ "")
    (hnode : node.isVirtual = false) : Tracks skip base (m.recordSnapshotNode node) where
  regular := h.regular.recordSnapshotNode hnode
  position := h.position
  live := h.live
  liveDistinct := h.liveDistinct
  main := h.main
  current := h.current
  baseNamed := h.baseNamed
  snapshotsNamed := h.snapshotsNamed
  nodesNamed := by
    intro hmem
    obtain ⟨n, hn⟩ := Dict.mem_keys_iff.mp hmem
    have hparent := Manager.parentId_recordNode m.snapshotGraph node ""
    rw [if_neg fun he => hid he.symm, Dict.get?_eq_none_iff.mpr h.nodesNamed] at hparent
    unfold Manager.recordSnapshotNode at hn
    rw [hn] at hparent
    exact absurd hparent (by simp)

/-- Registering a branch that is live in the backend, at its base. -/
theorem registerBranch (h : Tracks skip base m) {b id : String} (hb : base b = some id) :
    Tracks skip base (m.registerBranch b (some id)).2 := by
  have hregular := h.regular.registerBranch b (some id)
  have hposition (b' : String) (r : Ref) (hr : (m.registerBranch b (some id)).2.branches.get? b' = some r) :
      ∃ id', base b' = some id' ∧ (¬ skip b' →
        ((m.registerBranch b (some id)).2.record r).currentSnapshotId = some id' ∧
          ((m.registerBranch b (some id)).2.record r).lastSnapshotId = some id') := by
    rcases h.regular.record_registerBranch b (some id) hr with ⟨hold, hrecord⟩ | ⟨-, rfl, hrecord⟩
    · rw [hrecord]
      exact h.position b' r hold
    · rw [hrecord]
      exact ⟨id, hb, fun _ => ⟨rfl, rfl⟩⟩
  unfold Manager.registerBranch at hregular hposition ⊢
  cases hget : m.branches.get? b with
  | some r => exact h
  | none =>
    rw [hget] at hregular hposition
    exact {
      regular := hregular
      position := hposition
      live := h.live
      liveDistinct := h.liveDistinct
      main := Dict.mem_keys_set.mpr (.inr h.main)
      current := Dict.mem_keys_set.mpr (.inr h.current)
      baseNamed := h.baseNamed
      snapshotsNamed := h.snapshotsNamed
      nodesNamed := h.nodesNamed }

theorem setBranchPosition (h : Tracks skip base m) {b id : String} (hb : base b = some id) :
    Tracks skip base (m.setBranchPosition b (some id)) :=
  (h.registerBranch hb).reposition (m.get?_registerBranch b (some id)) hb fun _ => ⟨rfl, rfl⟩

theorem newLiveObject (h : Tracks skip base m) (branch : EnvironmentBranch) :
    Tracks skip base (m.newLiveObject branch).2 where
  regular := h.regular.newLiveObject branch
  position := h.position
  live b l hl := by
    obtain ⟨haddr, hbase⟩ := h.live b l hl
    refine ⟨Nat.lt_succ_of_lt haddr, ?_⟩
    have hkept : (m.newLiveObject branch).2.liveObject l = m.liveObject l :=
      Heap.cell_alloc_of_lt _ _ haddr
    rw [hkept]
    exact hbase
  liveDistinct := h.liveDistinct
  main := h.main
  current := h.current
  baseNamed := h.baseNamed
  snapshotsNamed := h.snapshotsNamed
  nodesNamed := h.nodesNamed

/-- A new live object takes the place of a branch. -/
theorem setLive (h : Tracks skip base m) {b id : String} {l : Ref} (haddr : l.addr < m.liveObjects.next)
    (hnew : ∀ b' l', m.liveBranches.get? b' = some l' → l'.addr ≠ l.addr) (hb : base b = some id)
    (hid : (m.liveObject l).baseSnapshotId = id) :
    Tracks skip base { m with liveBranches := m.liveBranches.set b l } where
  regular := h.regular.congr rfl rfl rfl
  position := h.position
  live b' l' hl' := by
    rw [Dict.get?_set] at hl'
    split_ifs at hl' with he
    · obtain rfl := Option.some.inj hl'
      exact ⟨haddr, id, he ▸ hb, fun _ => hid⟩
    · exact h.live b' l' hl'
  liveDistinct b₁ b₂ l₁ l₂ h₁ h₂ ha := by
    rw [Dict.get?_set] at h₁ h₂
    split_ifs at h₁ h₂ with he₁ he₂ he₂
    · rw [he₁, he₂]
    · obtain rfl := Option.some.inj h₁
      exact absurd ha.symm (hnew b₂ l₂ h₂)
    · obtain rfl := Option.some.inj h₂
      exact absurd ha (hnew b₁ l₁ h₁)
    · exact h.liveDistinct b₁ b₂ l₁ l₂ h₁ h₂ ha
  main := h.main
  current := h.current
  baseNamed := h.baseNamed
  snapshotsNamed := h.snapshotsNamed
  nodesNamed := h.nodesNamed

/-- The backend materializes a branch that was not live. -/
theorem addBase (h : Tracks skip base m) {b id : String} (hfree : base b = none) (hid : id ≠ "") :
    Tracks skip (Function.update base b (some id)) m where
  regular := h.regular
  position b' r hr := by
    obtain ⟨id', hbase, hpos⟩ := h.position b' r hr
    refine ⟨id', ?_, hpos⟩
    rw [Function.update_of_ne (fun he => by rw [he, hfree] at hbase; cases hbase), hbase]
  live b' l hl := by
    obtain ⟨haddr, id', hbase, hlive⟩ := h.live b' l hl
    refine ⟨haddr, id', ?_, hlive⟩
    rw [Function.update_of_ne (fun he => by rw [he, hfree] at hbase; cases hbase), hbase]
  liveDistinct := h.liveDistinct
  main := h.main
  current := h.current
  baseNamed b' := by
    rw [Function.update_apply]
    split_ifs
    · exact fun he => hid (Option.some.inj he)
    · exact h.baseNamed b'
  snapshotsNamed := h.snapshotsNamed
  nodesNamed := h.nodesNamed

/-- The backend captures a branch; until the manager has moved it, it is skipped. -/
theorem captured (h : Tracks skip base m) {b id : String} (hid : id ≠ "") :
    Tracks (fun b' => skip b' ∨ b' = b) (Function.update base b (some id)) m where
  regular := h.regular
  position b' r hr := by
    obtain ⟨id', hbase, hpos⟩ := h.position b' r hr
    by_cases he : b' = b
    · exact ⟨id, by rw [he, Function.update_self], fun hskip => absurd (.inr he) hskip⟩
    · exact ⟨id', by rw [Function.update_of_ne he, hbase], fun hskip => hpos fun hs => hskip (.inl hs)⟩
  live b' l hl := by
    obtain ⟨haddr, id', hbase, hlive⟩ := h.live b' l hl
    refine ⟨haddr, ?_⟩
    by_cases he : b' = b
    · exact ⟨id, by rw [he, Function.update_self], fun hskip => absurd (.inr he) hskip⟩
    · exact ⟨id', by rw [Function.update_of_ne he, hbase], fun hskip => hlive fun hs => hskip (.inl hs)⟩
  liveDistinct := h.liveDistinct
  main := h.main
  current := h.current
  baseNamed b' := by
    rw [Function.update_apply]
    split_ifs
    · exact fun he => hid (Option.some.inj he)
    · exact h.baseNamed b'
  snapshotsNamed := h.snapshotsNamed
  nodesNamed := h.nodesNamed

/-- The branch that was skipped is where the backend has it. -/
theorem settle {b id : String} (h : Tracks (fun b' => skip b' ∨ b' = b) base m) (hb : base b = some id)
    (hrecord : ∀ r, m.branches.get? b = some r →
      (m.record r).currentSnapshotId = some id ∧ (m.record r).lastSnapshotId = some id)
    (hlive : ∀ l, m.liveBranches.get? b = some l → (m.liveObject l).baseSnapshotId = id) :
    Tracks skip base m where
  regular := h.regular
  position b' r hr := by
    by_cases he : b' = b
    · subst he
      exact ⟨id, hb, fun _ => hrecord r hr⟩
    · obtain ⟨id', hbase, hpos⟩ := h.position b' r hr
      exact ⟨id', hbase, fun hskip => hpos fun hs => hs.elim hskip he⟩
  live b' l hl := by
    refine ⟨(h.live b' l hl).1, ?_⟩
    by_cases he : b' = b
    · subst he
      exact ⟨id, hb, fun _ => hlive l hl⟩
    · obtain ⟨-, id', hbase, hobject⟩ := h.live b' l hl
      exact ⟨id', hbase, fun hskip => hobject fun hs => hs.elim hskip he⟩
  liveDistinct := h.liveDistinct
  main := h.main
  current := h.current
  baseNamed := h.baseNamed
  snapshotsNamed := h.snapshotsNamed
  nodesNamed := h.nodesNamed

/-- `_after_snapshot` moves the live object to where the backend has the branch. -/
theorem advanceLiveBase (h : Tracks skip base m) {b id : String} (hb : base b = some id) :
    Tracks skip base (m.advanceLiveBase b id) := by
  unfold Manager.advanceLiveBase
  cases hl : m.liveBranches.get? b with
  | none => exact h
  | some l =>
    refine { h with regular := h.regular.congr rfl rfl rfl, live := fun b' l' hl' => ?_ }
    obtain ⟨haddr, hbase⟩ := h.live b' l' hl'
    refine ⟨haddr, ?_⟩
    by_cases ha : l'.addr = l.addr
    · obtain rfl := h.liveDistinct b' b l' l hl' hl ha
      exact ⟨id, hb, fun _ => by simp [Manager.liveObject, ha]⟩
    · simpa [Manager.liveObject, Heap.cell_modify_of_ne _ _ ha] using hbase

/-- The bookkeeping of a snapshot settles the branch that was captured. -/
theorem commit {b : String} {state : Ref} {node : SnapshotNode}
    (h : Tracks (fun b' => skip b' ∨ b' = b) base m) (hstate : m.branches.get? b = some state)
    (hb : base b = some node.snapshotId) (hnode : node.isVirtual = false) :
    Tracks skip base (m.commit b state node) := by
  have hid : node.snapshotId ≠ "" := fun he => h.baseNamed b (he ▸ hb)
  have hmoved : Tracks (fun b' => skip b' ∨ b' = b) base ((m.recordSnapshotNode node).modifyRecord state fun r =>
      { BranchState.positionedAt (some node.snapshotId) with active := r.active }) :=
    (h.recordSnapshotNode hid hnode).reposition hstate hb fun _ => ⟨rfl, rfl⟩
  have hadvanced : Tracks (fun b' => skip b' ∨ b' = b) base (m.commit b state node) :=
    (hmoved.advanceLiveBase hb).congr rfl rfl (fun _ => ⟨rfl, rfl⟩) rfl rfl rfl rfl rfl
  refine hadvanced.settle hb (fun r hr => ?_) fun l hl => ?_
  · rw [Manager.branches_commit] at hr
    obtain rfl := Option.some.inj (hr.symm.trans hstate)
    have hrecord : (m.commit b r node).record r =
        { BranchState.positionedAt (some node.snapshotId) with active := (m.record r).active } := by
      unfold Manager.commit Manager.advanceLiveBase
      dsimp only
      split <;> simp [Manager.record, Manager.modifyRecord, Manager.recordSnapshotNode]
    rw [hrecord]
    exact ⟨rfl, rfl⟩
  · unfold Manager.commit Manager.advanceLiveBase at hl ⊢
    dsimp only at hl ⊢
    split at hl
    · next hnone => exact absurd (hnone.symm.trans hl) (by simp)
    · next l' hl' =>
      obtain rfl := Option.some.inj (hl'.symm.trans hl)
      simp [Manager.liveObject, Manager.modifyRecord, Manager.recordSnapshotNode]

/-- A branch that is neither the default nor the current one is destroyed and forgotten. -/
theorem retire (h : Tracks skip base m) {b : String} (hmain : b ≠ defaultBranchId)
    (hcurrent : b ≠ m.currentBranchId) :
    Tracks skip (Function.update base b none) (m.forget b) := by
  set m' := m.forget b with hm'
  have hbranches (b' : String) : m'.branches.get? b' = if b' = b then none else m.branches.get? b' := by
    rw [hm']
    unfold Manager.forget Manager.removeBranch
    cases hget : m.branches.get? b with
    | some r => exact Dict.get?_erase _ _ _
    | none =>
      dsimp only
      split_ifs with he
      · rw [he, hget]
      · rfl
  have hrest : m'.liveBranches = m.liveBranches.erase b ∧ m'.liveObjects = m.liveObjects ∧
      m'.currentBranchId = m.currentBranchId ∧ m'.snapshots = m.snapshots ∧
      m'.snapshotGraph = m.snapshotGraph := by
    rw [hm']
    unfold Manager.forget Manager.removeBranch
    split <;> exact ⟨rfl, rfl, rfl, rfl, rfl⟩
  obtain ⟨hlive, hobjects, hcur, hsnapshots, hgraph⟩ := hrest
  have hrecord (r : Ref) : (m'.record r).currentSnapshotId = (m.record r).currentSnapshotId ∧
      (m'.record r).lastSnapshotId = (m.record r).lastSnapshotId := by
    rw [hm']
    unfold Manager.forget Manager.removeBranch
    split
    · simp only [Manager.record, Manager.modifyRecord, Heap.cell_modify]
      split_ifs with ha
      · rw [ha]
        exact ⟨rfl, rfl⟩
      · exact ⟨rfl, rfl⟩
    · exact ⟨rfl, rfl⟩
  have hkeys {b' : String} (hb' : b' ≠ b) (hmem : b' ∈ m.branches.keys) : b' ∈ m'.branches.keys := by
    obtain ⟨r, hr⟩ := Dict.mem_keys_iff.mp hmem
    exact Dict.mem_keys_of_get? ((hbranches b').trans ((if_neg hb').trans hr))
  constructor
  case regular =>
    have herased : Regular { m with liveBranches := m.liveBranches.erase b } := h.regular.congr rfl rfl rfl
    exact herased.removeBranch b
  case position =>
    intro b' r hr
    rw [hbranches] at hr
    split_ifs at hr with he
    rw [(hrecord r).1, (hrecord r).2, Function.update_of_ne he]
    exact h.position b' r hr
  case live =>
    intro b' l hl
    rw [hlive, Dict.get?_erase] at hl
    split_ifs at hl with he
    unfold Manager.liveObject
    rw [hobjects, Function.update_of_ne he]
    exact h.live b' l hl
  case liveDistinct =>
    intro b₁ b₂ l₁ l₂ h₁ h₂
    rw [hlive, Dict.get?_erase] at h₁ h₂
    split_ifs at h₁ h₂
    exact h.liveDistinct b₁ b₂ l₁ l₂ h₁ h₂
  case main => exact hkeys hmain.symm h.main
  case current =>
    rw [hcur]
    exact hkeys hcurrent.symm h.current
  case baseNamed =>
    intro b'
    rw [Function.update_apply]
    split_ifs
    · simp
    · exact h.baseNamed b'
  case snapshotsNamed =>
    rw [hsnapshots]
    exact h.snapshotsNamed
  case nodesNamed =>
    rw [hgraph]
    exact h.nodesNamed

/-- Another registered branch becomes the current one. -/
theorem setCurrentBranch (h : Tracks skip base m) (b : String) : Tracks skip base (m.setCurrentBranch b).2 := by
  unfold Manager.setCurrentBranch
  split
  · next r hr => exact { h with regular := h.regular.congr rfl rfl rfl, current := Dict.mem_keys_of_get? hr }
  · exact h

/-! ### Forking -/

/-- A forked branch is registered where the backend has it. -/
theorem registerOutcome (h : Tracks skip base m) (activate : Bool) (outcome : EnvironmentBranch × ℚ)
    (hfree : base outcome.1.id = none) (hid : outcome.1.baseSnapshotId ≠ "") :
    Tracks skip (Function.update base outcome.1.id (some outcome.1.baseSnapshotId))
      (m.registerOutcome activate outcome) := by
  rw [Manager.registerOutcome_eq]
  have hself : Function.update base outcome.1.id (some outcome.1.baseSnapshotId) outcome.1.id =
      some outcome.1.baseSnapshotId := Function.update_self ..
  have hregistered := ((h.addBase hfree hid).newLiveObject outcome.1).registerBranch hself
  have hactive := hregistered.modifyRecord
    ((m.newLiveObject outcome.1).2.registerBranch outcome.1.id (some outcome.1.baseSnapshotId)).1
    (f := fun r => { r with active := activate }) fun _ => ⟨rfl, rfl⟩
  have hobjects : ((m.newLiveObject outcome.1).2.registerBranch outcome.1.id
      (some outcome.1.baseSnapshotId)).2.liveObjects = m.liveObjects.alloc outcome.1 := by
    unfold Manager.registerBranch
    split <;> rfl
  refine Tracks.addEntry (hactive.setLive ?_ ?_ hself ?_) _ _ _ _
  · show m.liveObjects.next < _
    dsimp only [Manager.modifyRecord]
    rw [hobjects]
    exact Nat.lt_succ_self _
  · intro b' l' hl'
    dsimp only [Manager.modifyRecord] at hl'
    rw [Manager.liveBranches_registerBranch] at hl'
    exact Nat.ne_of_lt (h.live b' l' hl').1
  · show (Heap.cell (Manager.liveObjects _) _).baseSnapshotId = _
    dsimp only [Manager.modifyRecord]
    rw [hobjects]
    exact congrArg EnvironmentBranch.baseSnapshotId (Heap.cell_alloc_self _ _)

theorem registerOutcomes (h : Tracks skip base m) (activate : Bool) {outcomes : List (EnvironmentBranch × ℚ)}
    {snapshotId : String} (hid : snapshotId ≠ "") (hnodup : (outcomes.map fun o => o.1.id).Nodup)
    (hout : ∀ o ∈ outcomes, o.1.baseSnapshotId = snapshotId ∧ base o.1.id = none) :
    Tracks skip (fun b => if b ∈ outcomes.map (fun o => o.1.id) then some snapshotId else base b)
      (outcomes.foldl (Manager.registerOutcome activate) m) := by
  induction outcomes generalizing m base with
  | nil => simpa using h
  | cons o outcomes ih =>
    obtain ⟨hbase, hfree⟩ := hout o (List.mem_cons_self ..)
    rw [List.map_cons, List.nodup_cons] at hnodup
    have hfirst := h.registerOutcome activate o hfree (by rw [hbase]; exact hid)
    have hrest := ih hfirst hnodup.2 fun o' ho' => by
      obtain ⟨hbase', hfree'⟩ := hout o' (List.mem_cons_of_mem _ ho')
      have hne : o'.1.id ≠ o.1.id := fun he => hnodup.1 (he ▸ List.mem_map_of_mem ho')
      exact ⟨hbase', (Function.update_of_ne hne _ _).trans hfree'⟩
    refine cast (congrArg (Tracks skip · _) (funext fun b => ?_)) hrest
    rw [List.map_cons, Function.update_apply, hbase]
    by_cases hmem : b ∈ outcomes.map fun o => o.1.id
    · rw [if_pos hmem, if_pos (List.mem_cons_of_mem _ hmem)]
    · by_cases he : b = o.1.id
      · rw [if_neg hmem, if_pos he, if_pos (he ▸ List.mem_cons_self ..)]
      · rw [if_neg hmem, if_neg he, if_neg fun hc => (List.mem_cons.mp hc).elim he hmem]

end Tracks

/-- Sections that leave the graph and the current branch alone and forget no record. -/
structure Grows (m m' : Manager) : Prop where
  branches : ∀ b r, m.branches.get? b = some r → m'.branches.get? b = some r
  graph : m'.snapshotGraph = m.snapshotGraph
  current : m'.currentBranchId = m.currentBranchId

namespace Grows

variable {m m' m'' : Manager}

theorem refl (m : Manager) : Grows m m := ⟨fun _ _ h => h, rfl, rfl⟩

theorem trans (h : Grows m m') (h' : Grows m' m'') : Grows m m'' :=
  ⟨fun b r hr => h'.branches b r (h.branches b r hr), h'.graph.trans h.graph, h'.current.trans h.current⟩

theorem mem_keys (h : Grows m m') {b : String} (hb : b ∈ m.branches.keys) : b ∈ m'.branches.keys := by
  obtain ⟨r, hr⟩ := Dict.mem_keys_iff.mp hb
  exact Dict.mem_keys_of_get? (h.branches b r hr)

theorem registerBranch (m : Manager) (b : String) (base : Option String) :
    Grows m (m.registerBranch b base).2 := by
  unfold Manager.registerBranch
  cases hb : m.branches.get? b with
  | some r => exact refl m
  | none =>
    refine ⟨fun b' r hr => ?_, rfl, rfl⟩
    exact (Dict.get?_set_of_ne _ _ fun he => by rw [he, hb] at hr; cases hr).trans hr

theorem registerOutcome (m : Manager) (activate : Bool) (outcome : EnvironmentBranch × ℚ) :
    Grows m (m.registerOutcome activate outcome) := by
  rw [Manager.registerOutcome_eq]
  have h := registerBranch (m.newLiveObject outcome.1).2 outcome.1.id (some outcome.1.baseSnapshotId)
  exact ⟨h.branches, h.graph, h.current⟩

theorem liveRegistered_registerOutcome (h : LiveRegistered m) (activate : Bool)
    (outcome : EnvironmentBranch × ℚ) : LiveRegistered (m.registerOutcome activate outcome) := by
  have hgrows := registerOutcome m activate outcome
  obtain ⟨r, hr, -⟩ := Regular.record_registerOutcome_self m activate outcome
  intro b hb
  have hlive : (m.registerOutcome activate outcome).liveBranches =
      m.liveBranches.set outcome.1.id (m.newLiveObject outcome.1).1 := by
    rw [Manager.registerOutcome_eq]
    exact congrArg (Dict.set · _ _) (Manager.liveBranches_registerBranch _ _ _)
  rw [hlive, Dict.mem_keys_set] at hb
  rcases hb with rfl | hb
  · exact Dict.mem_keys_of_get? hr
  · exact hgrows.mem_keys (h b hb)

theorem setBranchPosition (m : Manager) (b : String) (snapshotId : Option String) :
    Grows m (m.setBranchPosition b snapshotId) := by
  have h := registerBranch m b snapshotId
  exact ⟨h.branches, h.graph, h.current⟩

theorem reconcile (m : Manager) (branch : Ref) : Grows m (m.reconcile branch) := by
  unfold Manager.reconcile
  dsimp only
  generalize (if (m.liveObject branch).baseSnapshotId = "" then none
    else some (m.liveObject branch).baseSnapshotId) = base
  split_ifs
  · exact registerBranch m branch.id base
  · exact (registerBranch m branch.id base).trans (setBranchPosition _ _ _)

theorem foldl {α : Type} {f : Manager → α → Manager} (hf : ∀ m a, Grows m (f m a)) (l : List α) (m : Manager) :
    Grows m (l.foldl f m) := by
  induction l generalizing m with
  | nil => exact refl m
  | cons a l ih => exact (hf m a).trans (ih (f m a))

end Grows

/-! ### Listing -/

namespace Manager

/-- The objects for a listing are new, one for each listed branch. -/
structure Adopted (m : Manager) (listing : List EnvironmentBranch) (refs : List Ref) (m' : Manager) : Prop where
  ids : refs.map Ref.id = listing.map EnvironmentBranch.id
  objects : ∀ r ∈ refs, ∃ o ∈ listing, o.id = r.id ∧ m'.liveObject r = o
  fresh : ∀ r ∈ refs, m.liveObjects.next ≤ r.addr ∧ r.addr < m'.liveObjects.next
  distinct : (refs.map Ref.addr).Nodup
  kept : ∀ l : Ref, l.addr < m.liveObjects.next → m'.liveObject l = m.liveObject l
  grown : m.liveObjects.next ≤ m'.liveObjects.next
  rest : m' = { m with liveObjects := m'.liveObjects }

theorem adopted_newLiveObjects (m : Manager) (listing : List EnvironmentBranch) :
    Adopted m listing (newLiveObjects listing m).1 (newLiveObjects listing m).2 := by
  induction listing generalizing m with
  | nil =>
    exact ⟨rfl, fun r hr => absurd hr List.not_mem_nil, fun r hr => absurd hr List.not_mem_nil, List.nodup_nil,
      fun _ _ => rfl, le_rfl, rfl⟩
  | cons branch listing ih =>
    have h := ih (m.newLiveObject branch).2
    have hnext : (m.newLiveObject branch).2.liveObjects.next = m.liveObjects.next + 1 := rfl
    have hgrown := h.grown
    rw [hnext] at hgrown
    constructor
    case ids => exact congrArg (branch.id :: ·) h.ids
    case objects =>
      intro r hr
      rcases List.mem_cons.mp hr with rfl | hr
      · refine ⟨branch, List.mem_cons_self .., rfl, ?_⟩
        exact (h.kept _ (by rw [hnext]; exact Nat.lt_succ_self _)).trans (liveObject_newLiveObject_self m branch)
      · obtain ⟨o, ho, hid, hobject⟩ := h.objects r hr
        exact ⟨o, List.mem_cons_of_mem _ ho, hid, hobject⟩
    case fresh =>
      intro r hr
      rcases List.mem_cons.mp hr with rfl | hr
      · exact ⟨le_rfl, hgrown⟩
      · obtain ⟨hle, hlt⟩ := h.fresh r hr
        rw [hnext] at hle
        exact ⟨by omega, hlt⟩
    case distinct =>
      refine List.nodup_cons.mpr ⟨fun hmem => ?_, h.distinct⟩
      obtain ⟨r, hr, haddr⟩ := List.mem_map.mp hmem
      have hle := (h.fresh r hr).1
      rw [hnext, haddr] at hle
      exact Nat.not_succ_le_self _ hle
    case kept =>
      intro l hl
      refine (h.kept l (by rw [hnext]; omega)).trans ?_
      exact Heap.cell_alloc_of_lt _ _ hl
    case grown => exact (Nat.le_succ _).trans hgrown
    case rest =>
      have hrest := h.rest
      show (newLiveObjects listing (m.newLiveObject branch).2).2 = _
      rw [hrest]
      rfl

end Manager

/-- `reconcile` keeps the live objects and their registry, and registers the branch. -/
theorem Manager.reconcile_frame (m : Manager) (r : Ref) :
    (m.reconcile r).liveObjects = m.liveObjects ∧ (m.reconcile r).liveBranches = m.liveBranches ∧
      r.id ∈ (m.reconcile r).branches.keys := by
  unfold Manager.reconcile
  dsimp only
  generalize (if (m.liveObject r).baseSnapshotId = "" then none else some (m.liveObject r).baseSnapshotId) = base
  have hobjects (m : Manager) (b : String) (base : Option String) :
      (m.registerBranch b base).2.liveObjects = m.liveObjects := by
    unfold Manager.registerBranch
    split <;> rfl
  have hmem := Dict.mem_keys_of_get? (m.get?_registerBranch r.id base)
  split_ifs
  · exact ⟨hobjects _ _ _, m.liveBranches_registerBranch _ _, hmem⟩
  · refine ⟨(hobjects _ _ _).trans (hobjects _ _ _), ?_, (Grows.setBranchPosition _ _ _).mem_keys hmem⟩
    exact (Manager.liveBranches_registerBranch _ _ _).trans (m.liveBranches_registerBranch _ _)

namespace Tracks

variable {skip : String → Prop} {base : String → Option String} {m m' : Manager}

theorem adopted (h : Tracks skip base m) {listing : List EnvironmentBranch} {refs : List Ref}
    (ha : Manager.Adopted m listing refs m') : Tracks skip base m' := by
  have hlive : m'.liveBranches = m.liveBranches := by rw [ha.rest]
  have hlooks : m'.branches = m.branches ∧ m'.records = m.records ∧ m'.snapshots = m.snapshots ∧
      m'.snapshotGraph = m.snapshotGraph ∧ m'.currentBranchId = m.currentBranchId := by
    rw [ha.rest]
    exact ⟨rfl, rfl, rfl, rfl, rfl⟩
  obtain ⟨hbranches, hrecords, hsnapshots, hgraph, hcurrent⟩ := hlooks
  constructor
  case regular => exact h.regular.congr hbranches (by rw [hrecords]) hgraph
  case position =>
    unfold Manager.record
    rw [hbranches, hrecords]
    exact h.position
  case live =>
    intro b l hl
    rw [hlive] at hl
    obtain ⟨haddr, hbase⟩ := h.live b l hl
    rw [ha.kept l haddr]
    exact ⟨haddr.trans_le ha.grown, hbase⟩
  case liveDistinct =>
    rw [hlive]
    exact h.liveDistinct
  case main =>
    rw [hbranches]
    exact h.main
  case current =>
    rw [hbranches, hcurrent]
    exact h.current
  case baseNamed => exact h.baseNamed
  case snapshotsNamed =>
    rw [hsnapshots]
    exact h.snapshotsNamed
  case nodesNamed =>
    rw [hgraph]
    exact h.nodesNamed

/-- The live registry is replaced by objects that are where the backend has the branches. -/
theorem replaceLive (h : Tracks skip base m) {refs : List Ref} (hdistinct : (refs.map Ref.addr).Nodup)
    (hrefs : ∀ r ∈ refs, r.addr < m.liveObjects.next ∧ base r.id = some (m.liveObject r).baseSnapshotId) :
    Tracks skip base (m.replaceLive refs) := by
  have hget {b : String} {l : Ref} (hl : (m.replaceLive refs).liveBranches.get? b = some l) : l ∈ refs ∧ l.id = b := by
    obtain ⟨r, hr, he⟩ := List.mem_map.mp (Dict.mem_of_get?_ofList hl)
    cases he
    exact ⟨hr, rfl⟩
  refine { h with regular := h.regular.congr rfl rfl rfl, live := fun b l hl => ?_, liveDistinct := ?_ }
  · obtain ⟨hmem, rfl⟩ := hget hl
    obtain ⟨haddr, hbase⟩ := hrefs l hmem
    exact ⟨haddr, _, hbase, fun _ => rfl⟩
  · intro b b' l l' hl hl' haddr
    obtain ⟨hmem, rfl⟩ := hget hl
    obtain ⟨hmem', rfl⟩ := hget hl'
    rw [List.inj_on_of_nodup_map hdistinct hmem hmem' haddr]

/-- A listed branch is registered and moved to where the backend has it. -/
theorem reconcile (h : Tracks skip base m) {r : Ref} (hr : base r.id = some (m.liveObject r).baseSnapshotId) :
    Tracks skip base (m.reconcile r) := by
  have hnamed : (m.liveObject r).baseSnapshotId ≠ "" := fun he => h.baseNamed r.id (he ▸ hr)
  unfold Manager.reconcile
  simp only [hnamed, if_false, false_or]
  split_ifs
  · exact h.registerBranch hr
  · exact (h.registerBranch hr).setBranchPosition hr

/-- What `_list_branches` does with a truthful listing: the manager still follows the backend, and now every
live branch is registered. -/
theorem relist (h : Tracks skip base m) {listing : List EnvironmentBranch} (hl : Truthful base listing) :
    Tracks skip base (m.relist listing) ∧ LiveRegistered (m.relist listing) ∧ Grows m (m.relist listing) := by
  have ha := Manager.adopted_newLiveObjects m listing
  unfold Manager.relist
  dsimp only
  set refs := (Manager.newLiveObjects listing m).1
  set m₁ := (Manager.newLiveObjects listing m).2
  have hbase : ∀ r ∈ refs, base r.id = some (m₁.liveObject r).baseSnapshotId := by
    intro r hr
    obtain ⟨o, ho, hid, hobject⟩ := ha.objects r hr
    exact (hl.exact _ _).mpr ⟨o, ho, hid, by rw [hobject]⟩
  have hadopted : Tracks skip base m₁ := h.adopted ha
  -- nothing that is live is missing from the listing
  have hstale : m₁.liveBranches.keys.filter (fun b => b ∉ refs.map Ref.id) = [] := by
    rw [List.filter_eq_nil_iff]
    intro b hb
    obtain ⟨l, hget⟩ := Dict.mem_keys_iff.mp hb
    obtain ⟨-, id, hid, -⟩ := hadopted.live b l hget
    obtain ⟨o, ho, rfl, -⟩ := (hl.exact b id).mp hid
    rw [ha.ids]
    simpa using ⟨o, ho, rfl⟩
  rw [hstale, List.foldl_nil]
  have hreplaced := hadopted.replaceLive ha.distinct fun r hr => ⟨(ha.fresh r hr).2, hbase r hr⟩
  have hgrows : Grows m (m₁.replaceLive refs) := by
    have hrest := ha.rest
    refine ⟨fun b r hr => ?_, ?_, ?_⟩
    · show m₁.branches.get? b = some r
      rw [hrest]
      exact hr
    · show m₁.snapshotGraph = m.snapshotGraph
      rw [hrest]
    · show m₁.currentBranchId = m.currentBranchId
      rw [hrest]
  -- the loop keeps the objects, and registers the branches one by one
  have hloop : ∀ (done todo : List Ref) (m₂ : Manager), done ++ todo = refs → Tracks skip base m₂ →
      m₂.liveObjects = m₁.liveObjects → m₂.liveBranches = (m₁.replaceLive refs).liveBranches →
      (∀ r ∈ done, r.id ∈ m₂.branches.keys) →
      Tracks skip base (todo.foldl Manager.reconcile m₂) ∧ LiveRegistered (todo.foldl Manager.reconcile m₂) := by
    intro done todo
    induction todo generalizing done with
    | nil =>
      intro m₂ hsplit htracks _ hlive hdone
      refine ⟨htracks, fun b hb => ?_⟩
      rw [List.foldl_nil, hlive] at hb
      obtain ⟨l, hget⟩ := Dict.mem_keys_iff.mp hb
      obtain ⟨r, hr, he⟩ := List.mem_map.mp (Dict.mem_of_get?_ofList hget)
      obtain ⟨rfl, -⟩ := Prod.mk.inj he
      rw [List.append_nil] at hsplit
      exact hdone r (hsplit ▸ hr)
    | cons r todo ih =>
      intro m₂ hsplit htracks hobjects hlive hdone
      have hr : r ∈ refs := hsplit ▸ List.mem_append_right _ (List.mem_cons_self ..)
      have hsame : m₂.liveObject r = m₁.liveObject r := by
        unfold Manager.liveObject
        rw [hobjects]
      have hframe := m₂.reconcile_frame r
      refine ih (done ++ [r]) (m₂.reconcile r) (by rw [List.append_assoc]; exact hsplit) ?_
        (hframe.1.trans hobjects) (hframe.2.1.trans hlive) ?_
      · exact htracks.reconcile (by rw [hsame]; exact hbase r hr)
      · intro r' hr'
        rcases List.mem_append.mp hr' with hold | hnew
        · exact (Grows.reconcile m₂ r).mem_keys (hdone r' hold)
        · rw [List.mem_singleton.mp hnew]
          exact hframe.2.2
  obtain ⟨htracks, hregistered⟩ := hloop [] refs _ rfl hreplaced rfl rfl fun r hr => absurd hr List.not_mem_nil
  exact ⟨htracks, hregistered, hgrows.trans (Grows.foldl Grows.reconcile refs _)⟩

end Tracks

end StateFork
