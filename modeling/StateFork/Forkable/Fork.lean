import StateFork.Concurrency.Locking
import StateFork.Forkable.Effects

/-!
# Where a forked branch starts

`fork` refuses ids that are live, but it registers what the backend returns in the dictionary of records,
and that one keeps a record which is already there. `_list_branches` keeps the record of the current
branch when the backend no longer lists it, so a later fork may find it: the new branch then starts
where the old one ended, unless the old record happens to be a clean one of the same snapshot.
-/

namespace StateFork

open Conc Conc.Prog

/-- The record of a branch that has just started from a snapshot, but for `active`. -/
structure BranchState.StartsAt (r : BranchState) (snapshotId : String) : Prop where
  current : r.currentSnapshotId = some snapshotId
  last : r.lastSnapshotId = some snapshotId
  log : r.commandLog = []
  time : r.cumulativeExecTime = 0

namespace Manager

/-- A branch with a record that has just started from a snapshot. -/
def Fresh (m : Manager) (branchId snapshotId : String) : Prop :=
  ∃ r, m.branches.get? branchId = some r ∧ (m.record r).StartsAt snapshotId ∧ (m.record r).active = true

/-- What is registered under the id, if anything, is as good as new. -/
def CleanFor (m : Manager) (branchId snapshotId : String) : Prop :=
  ∀ r, m.branches.get? branchId = some r → (m.record r).StartsAt snapshotId

end Manager

section

variable {W : Type} (B : ForkableBackend W)

/-- The branches that `_core_fork` returns for a `fork`, if it is called. -/
def forkAnswer (snapshotId : String) (n : Int) (ids : Option (List String)) (s : Sys W) :
    List EnvironmentBranch :=
  match forkRequest s.mgr snapshotId n ids with
  | none => []
  | some requestedIds =>
    match B.fork snapshotId requestedIds s.world with
    | (.ok outcomes, _) => outcomes.map Prod.fst
    | (.error _, _) => []

open ForkableEnvironmentManager in
/-- Every branch that `fork` returns is fresh, and the next snapshot that is taken on it records the
forked snapshot as its parent. -/
def ForkedFresh (snapshotId : String) (n : Int) (ids : Option (List String)) (s : Sys W) : Prop :=
  let r := (fork B.hooks snapshotId n ids).run s
  ∀ l, r.1 = .ok l → ∀ b ∈ l, r.2.mgr.Fresh b.id snapshotId ∧
    ∀ id s', (snapshotBranch B.hooks b.id false).run r.2 = (.ok (some id), s') →
      ∃ node, s'.mgr.snapshotGraph.get? id = some node ∧ node.parentId = some snapshotId

end

namespace Regular

variable {m : Manager}

/-- The record under an id is the one that existed, or one that has just started. -/
theorem record_registerBranch (h : Regular m) (b : String) (base : Option String) {b' : String} {r : Ref}
    (hr : (m.registerBranch b base).2.branches.get? b' = some r) :
    (m.branches.get? b' = some r ∧ (m.registerBranch b base).2.record r = m.record r) ∨
      (m.branches.get? b = none ∧ b' = b ∧
        (m.registerBranch b base).2.record r = { currentSnapshotId := base, lastSnapshotId := base }) := by
  unfold Manager.registerBranch at hr ⊢
  cases hb : m.branches.get? b with
  | some r₀ =>
    rw [hb] at hr
    exact .inl ⟨hr, rfl⟩
  | none =>
    rw [hb] at hr
    dsimp only at hr ⊢
    rw [Dict.get?_set] at hr
    split_ifs at hr with he
    · obtain rfl := Option.some.inj hr
      exact .inr ⟨rfl, he, by simp [Manager.record]⟩
    · have hne := Nat.ne_of_lt (h.allocated b' r hr)
      refine .inl ⟨hr, ?_⟩
      simp only [Manager.record]
      exact Heap.cell_alloc_of_ne _ _ hne

theorem newLiveObject (h : Regular m) (branch : EnvironmentBranch) : Regular (m.newLiveObject branch).2 :=
  h.congr rfl rfl rfl

theorem registerOutcome (h : Regular m) (activate : Bool) (outcome : EnvironmentBranch × ℚ) :
    Regular (m.registerOutcome activate outcome) := by
  rw [Manager.registerOutcome_eq]
  exact ((h.newLiveObject outcome.1).registerBranch outcome.1.id (some outcome.1.baseSnapshotId)).congr rfl rfl rfl

/-- The record of a branch that was just forked: the old one, or one that starts from its base. -/
theorem record_registerOutcome_self (m : Manager) (activate : Bool) (outcome : EnvironmentBranch × ℚ) :
    ∃ r, (m.registerOutcome activate outcome).branches.get? outcome.1.id = some r ∧
      ((m.branches.get? outcome.1.id = some r ∧
          (m.registerOutcome activate outcome).record r = { m.record r with active := activate }) ∨
        (m.branches.get? outcome.1.id = none ∧
          (m.registerOutcome activate outcome).record r =
            { BranchState.positionedAt (some outcome.1.baseSnapshotId) with active := activate })) := by
  rw [Manager.registerOutcome_eq]
  unfold Manager.registerBranch
  dsimp only [Manager.newLiveObject]
  cases hb : m.branches.get? outcome.1.id with
  | some r =>
    refine ⟨r, hb, .inl ⟨rfl, ?_⟩⟩
    simp [Manager.record, Manager.modifyRecord, Manager.addEntry]
  | none =>
    refine ⟨⟨outcome.1.id, m.records.next⟩, ?_, .inr ⟨rfl, ?_⟩⟩
    · simp [Manager.modifyRecord, Manager.addEntry]
    · simp [Manager.record, Manager.modifyRecord, Manager.addEntry, BranchState.positionedAt]

/-- Forking a branch does not touch the records of the others. -/
theorem record_registerOutcome_of_ne (h : Regular m) (activate : Bool) (outcome : EnvironmentBranch × ℚ)
    {b : String} (hb : b ≠ outcome.1.id) :
    (m.registerOutcome activate outcome).branches.get? b = m.branches.get? b ∧
      ∀ r, m.branches.get? b = some r → (m.registerOutcome activate outcome).record r = m.record r := by
  rw [Manager.registerOutcome_eq]
  unfold Manager.registerBranch
  dsimp only [Manager.newLiveObject]
  cases ho : m.branches.get? outcome.1.id with
  | some r₀ =>
    refine ⟨rfl, fun r hr => ?_⟩
    have hne : r.addr ≠ r₀.addr := fun he => hb (h.distinct b _ r r₀ hr ho he)
    simp [Manager.record, Manager.modifyRecord, Manager.addEntry, Heap.cell_modify_of_ne _ _ hne]
  | none =>
    refine ⟨Dict.get?_set_of_ne _ _ hb, fun r hr => ?_⟩
    have hne : r.addr ≠ m.records.next := Nat.ne_of_lt (h.allocated b r hr)
    simp [Manager.record, Manager.modifyRecord, Manager.addEntry, Heap.cell_modify_of_ne _ _ hne,
      Heap.cell_alloc_of_ne _ _ hne]

theorem registerOutcomes (h : Regular m) (activate : Bool) (outcomes : List (EnvironmentBranch × ℚ)) :
    Regular (outcomes.foldl (Manager.registerOutcome activate) m) := by
  induction outcomes generalizing m with
  | nil => exact h
  | cons o outcomes ih => exact ih (h.registerOutcome activate o)

theorem record_registerOutcomes_of_notMem (h : Regular m) (activate : Bool)
    (outcomes : List (EnvironmentBranch × ℚ)) {b : String} (hb : b ∉ outcomes.map fun o => o.1.id) :
    (outcomes.foldl (Manager.registerOutcome activate) m).branches.get? b = m.branches.get? b ∧
      ∀ r, m.branches.get? b = some r →
        (outcomes.foldl (Manager.registerOutcome activate) m).record r = m.record r := by
  induction outcomes generalizing m with
  | nil => exact ⟨rfl, fun _ _ => rfl⟩
  | cons o outcomes ih =>
    rw [List.map_cons, List.mem_cons, not_or] at hb
    obtain ⟨hget, hrec⟩ := h.record_registerOutcome_of_ne activate o hb.1
    obtain ⟨hget', hrec'⟩ := ih (h.registerOutcome activate o) hb.2
    refine ⟨hget'.trans hget, fun r hr => ?_⟩
    exact (hrec' r (hget.trans hr)).trans (hrec r hr)

/-- The record of one of the branches that were just forked under distinct ids. -/
theorem record_registerOutcomes (h : Regular m) (activate : Bool) {outcomes : List (EnvironmentBranch × ℚ)}
    (hnodup : (outcomes.map fun o => o.1.id).Nodup) {o : EnvironmentBranch × ℚ} (ho : o ∈ outcomes) :
    let m' := outcomes.foldl (Manager.registerOutcome activate) m
    ∃ r, m'.branches.get? o.1.id = some r ∧
      ((m.branches.get? o.1.id = some r ∧ m'.record r = { m.record r with active := activate }) ∨
        (m.branches.get? o.1.id = none ∧
          m'.record r = { BranchState.positionedAt (some o.1.baseSnapshotId) with active := activate })) := by
  induction outcomes generalizing m with
  | nil => exact absurd ho (List.not_mem_nil)
  | cons o' outcomes ih =>
    rw [List.map_cons, List.nodup_cons] at hnodup
    rcases List.mem_cons.mp ho with rfl | ho
    · obtain ⟨r, hr, hcase⟩ := record_registerOutcome_self m activate o
      obtain ⟨hget, hrec⟩ :=
        (h.registerOutcome activate o).record_registerOutcomes_of_notMem activate outcomes hnodup.1
      refine ⟨r, hget.trans hr, ?_⟩
      have hkept := hrec r hr
      rw [List.foldl_cons, hkept]
      exact hcase
    · have hne : o.1.id ≠ o'.1.id := fun he => hnodup.1 (he ▸ List.mem_map_of_mem ho)
      obtain ⟨hget, hrec⟩ := h.record_registerOutcome_of_ne activate o' hne
      obtain ⟨r, hr, hcase⟩ := ih (h.registerOutcome activate o') hnodup.2 ho
      refine ⟨r, hr, ?_⟩
      rcases hcase with ⟨hold, hrecord⟩ | ⟨hnew, hrecord⟩
      · rw [hget] at hold
        exact .inl ⟨hold, hrecord.trans (by rw [hrec r hold])⟩
      · exact .inr ⟨hget.symm.trans hnew, hrecord⟩

/-- After a fork under distinct ids a branch is fresh exactly if nothing else was registered under its id. -/
theorem fresh_registerOutcomes_iff (h : Regular m) {snapshotId : String}
    {outcomes : List (EnvironmentBranch × ℚ)} (hnodup : (outcomes.map fun o => o.1.id).Nodup)
    {o : EnvironmentBranch × ℚ} (ho : o ∈ outcomes) (hbase : o.1.baseSnapshotId = snapshotId) :
    (outcomes.foldl (Manager.registerOutcome true) m).Fresh o.1.id snapshotId ↔
      m.CleanFor o.1.id snapshotId := by
  obtain ⟨r, hr, hcase⟩ := h.record_registerOutcomes true hnodup ho
  constructor
  · rintro ⟨r', hr', hstarts, -⟩ r₀ hr₀
    obtain rfl := Option.some.inj (hr.symm.trans hr')
    rcases hcase with ⟨hold, hrecord⟩ | ⟨hnew, -⟩
    · obtain rfl := Option.some.inj (hold.symm.trans hr₀)
      rw [hrecord] at hstarts
      exact ⟨hstarts.current, hstarts.last, hstarts.log, hstarts.time⟩
    · exact absurd (hnew.symm.trans hr₀) (by simp)
  · intro hclean
    refine ⟨r, hr, ?_⟩
    rcases hcase with ⟨hold, hrecord⟩ | ⟨-, hrecord⟩
    · rw [hrecord]
      have hstarts := hclean r hold
      exact ⟨⟨hstarts.current, hstarts.last, hstarts.log, hstarts.time⟩, rfl⟩
    · rw [hrecord, hbase]
      exact ⟨⟨rfl, rfl, rfl, rfl⟩, rfl⟩

end Regular

open ForkableEnvironmentManager in
/-- In every state that public operations lead to, and whatever branches listings dropped in between:
`fork` returns fresh branches exactly if every branch that the backend returns is unregistered or has a
clean record of the same snapshot. -/
theorem forkedFresh_iff {W : Type} (B : ForkableBackend W) (s₀ : Sys W) (h₀ : Regular s₀.mgr)
    (ops : List PublicOp) (snapshotId : String) (n : Int) (ids : Option (List String)) :
    let s := runOps B.hooks ops s₀
    (∀ b ∈ forkAnswer B snapshotId n ids s, b.baseSnapshotId = snapshotId) →
      ((forkAnswer B snapshotId n ids s).map EnvironmentBranch.id).Nodup →
      (ForkedFresh B snapshotId n ids s ↔
        ∀ b ∈ forkAnswer B snapshotId n ids s, s.mgr.CleanFor b.id snapshotId) := by
  intro s hbase hnodup
  have hs : Regular s.mgr := regular_runOps B.hooks_conduct ops h₀
  unfold ForkedFresh
  unfold forkAnswer at hbase hnodup ⊢
  dsimp only
  rw [B.run_fork]
  cases hreq : forkRequest s.mgr snapshotId n ids with
  | none => simp
  | some requestedIds =>
    rw [hreq] at hbase hnodup
    dsimp only [ForkableBackend.materialized] at hbase hnodup ⊢
    rcases hout : B.fork snapshotId requestedIds s.world with ⟨e | outcomes, w⟩
    · simp
    · rw [hout] at hbase hnodup
      dsimp only at hbase hnodup ⊢
      rw [List.map_map] at hnodup
      have hiff {o : EnvironmentBranch × ℚ} (ho : o ∈ outcomes) :=
        hs.fresh_registerOutcomes_iff hnodup ho (hbase o.1 (List.mem_map_of_mem ho))
      constructor
      · intro hfresh b hb
        obtain ⟨o, ho, rfl⟩ := List.mem_map.mp hb
        exact (hiff ho).mp (hfresh _ rfl o.1 hb).1
      · rintro hclean l hl b hb
        obtain rfl := Except.ok.inj hl
        obtain ⟨o, ho, rfl⟩ := List.mem_map.mp hb
        have hfresh := (hiff ho).mpr (hclean o.1 hb)
        refine ⟨hfresh, fun id s' hsnapshot => ?_⟩
        obtain ⟨r, hr, hparent⟩ := parentId_of_snapshot B.hooks (snapshotBranch_returns B.hooks hsnapshot)
        obtain ⟨r', hr', hstarts, -⟩ := hfresh
        obtain rfl := Option.some.inj (hr'.symm.trans hr)
        rw [hstarts.last, Option.map_eq_some_iff] at hparent
        exact hparent

/-- `restore` moves to a new branch, which is snapshotted; another manager destroys it, and a listing drops
it from the live registry only; `restore` moves on. -/
def staleRun : List PublicOp := [.restore "base", .snapshot, .listBranches, .restore "base"]

def staleStart : Sys Fleet := Fleet.start ["3f2a", "9c41", "b07d"] [["3f2a"]]

theorem forkedFresh_of_newId :
    ForkedFresh (Fleet.backend false) "base" 1 (some ["5e1d"])
      (ForkableEnvironmentManager.runOps (Fleet.backend false).hooks staleRun staleStart) :=
  (forkedFresh_iff (Fleet.backend false) staleStart (Regular.seeded "base" "base") staleRun "base" 1
    (some ["5e1d"]) (by decide +kernel) (by decide +kernel)).mpr fun b hb r hr => by
      have hid : b = ⟨"5e1d", "base", "running"⟩ := by
        have hanswer : forkAnswer (Fleet.backend false) "base" 1 (some ["5e1d"])
            (ForkableEnvironmentManager.runOps (Fleet.backend false).hooks staleRun staleStart) =
              [⟨"5e1d", "base", "running"⟩] := by decide +kernel
        rw [hanswer] at hb
        exact List.mem_singleton.mp hb
      have hnew : (ForkableEnvironmentManager.runOps (Fleet.backend false).hooks staleRun
          staleStart).mgr.branches.get? "5e1d" = none := by decide +kernel
      rw [hid] at hr
      exact absurd (hnew.symm.trans hr) (by simp)

/-- The destroyed branch is not live, and the backend forks a new one of its name from `base`; the
controller believes it to stand on `9c41`. -/
theorem not_forkedFresh_of_staleRecord :
    let s := ForkableEnvironmentManager.runOps (Fleet.backend false).hooks staleRun staleStart
    ¬ ForkedFresh (Fleet.backend false) "base" 1 (some ["3f2a"]) s ∧
      s.world.live.get? "3f2a" = none ∧
      forkAnswer (Fleet.backend false) "base" 1 (some ["3f2a"]) s = [⟨"3f2a", "base", "running"⟩] := by
  refine ⟨fun h => ?_, by decide +kernel, by decide +kernel⟩
  obtain ⟨⟨r, hr, hstarts, -⟩, -⟩ := h _ rfl ⟨"3f2a", "base", "running"⟩ (by decide +kernel)
  have hcurrent := hstarts.current
  cases hr
  exact absurd hcurrent (by decide +kernel)

end StateFork
