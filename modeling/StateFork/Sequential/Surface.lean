import StateFork.Sequential.Backend

/-!
# Failures of the commands behind a template

`Commands` says of the hooks of a backend whether their command is issued and succeeds. The templates surface a failure
(`Surfaces`) exactly if the hook that they call tells of it (`surfaces_iff`): what the hook raises, they raise, and what
it reports as a success, they record.
-/

namespace StateFork

/-- Whether the command of a hook is issued and succeeds. -/
structure Commands (W : Type) where
  captured : W → Prop
  restored (snapshotId resource : String) : W → Prop

variable {W : Type} (B : SequentialBackend W) (C : Commands W)

/-- `_core_snapshot` returns an id only if the command succeeded, and otherwise none, without raising. -/
def SnapshotTells (w : W) : Prop :=
  let r := (B.snapshot defaultBranchId w).1
  (∀ captured elapsed, r = .ok (some captured, elapsed) → C.captured w) ∧
    (¬ C.captured w → ∃ elapsed, r = .ok (none, elapsed))

def RestoreTells (snapshotId resource : String) (w : W) : Prop :=
  let r := (B.restore snapshotId resource defaultBranchId w).1
  (∀ elapsed, r = .ok (true, elapsed) → C.restored snapshotId resource w) ∧
    (¬ C.restored snapshotId resource w → ∃ elapsed, r = .ok (false, elapsed))

/-- A condition on the hook that an operation calls: on `_core_snapshot` for a physical snapshot, and on `_core_restore`
for a snapshot whose physical ancestor has a resource. -/
def OfHook (snapshot : W → Prop) (restore : String → String → W → Prop) : SeqOp → Sys W → Prop
  | .exec _ _, _ => True
  | .snapshot, s =>
    let d := B.decide ⟨s.mgr.main.cumulativeExecTime⟩ s.world
    d.1 = true → snapshot d.2
  | .restore id, s => ∀ ancestor commands resource, s.mgr.physicalAncestor id = .ok (ancestor, commands) →
      s.mgr.snapshots.get? ancestor.snapshotId = some resource → restore ancestor.snapshotId resource s.world

/-- The command of a restore is issued and succeeds. -/
def Restored (id : String) (s : Sys W) : Prop :=
  ∃ ancestor commands resource, s.mgr.physicalAncestor id = .ok (ancestor, commands) ∧
    s.mgr.snapshots.get? ancestor.snapshotId = some resource ∧ C.restored ancestor.snapshotId resource s.world

/-- `x` is the result of an operation on the manager `m` that leaves `m'`: it is a success only if the command
succeeded, it is the failure value if the command did not, and short of a success the manager is unchanged. -/
def Reports {α : Type} (succeeds : Prop) (success : α → Prop) (failure : α) (x : Except PyError α) (m m' : Manager) : Prop :=
  (∀ a, x = .ok a → success a → succeeds) ∧ (¬ succeeds → x = .ok failure) ∧ ((∀ a, x = .ok a → ¬ success a) → m' = m)

/-- The templates return the failure values where the command of the backend fails, and then change nothing. -/
def Surfaces : SeqOp → Sys W → Prop
  | .exec _ _, _ => True
  | .snapshot, s =>
    let d := B.decide ⟨s.mgr.main.cumulativeExecTime⟩ s.world
    let r := (SeqOp.snapshot.prog B).run s
    d.1 = true → Reports (C.captured d.2) (· ≠ .snapshotId none) (.snapshotId none) r.1 s.mgr r.2.mgr
  | .restore id, s =>
    let r := ((SeqOp.restore id).prog B).run s
    Reports (Restored C id s) (· ≠ .flag false) (.flag false) r.1 s.mgr r.2.mgr

/-- The failures surface at every operation of a run. -/
def FailuresSurface (ops : List SeqOp) (s : Sys W) : Prop := EachStep B (Surfaces B C) ops s

/-- The hooks that a run calls meet their conditions. -/
def EachHook (snapshot : W → Prop) (restore : String → String → W → Prop) (ops : List SeqOp) (s : Sys W) : Prop :=
  EachStep B (OfHook B snapshot restore) ops s

variable {B C} {s : Sys W}

theorem surfaces_snapshot_iff (hs : Solo s.mgr) :
    Surfaces B C .snapshot s ↔ OfHook B (SnapshotTells B C) (RestoreTells B C) .snapshot s := by
  dsimp only [Surfaces, OfHook]
  rw [SeqOp.run_prog_snapshot B hs]
  unfold SequentialBackend.snapshotEffect
  generalize B.decide ⟨s.mgr.main.cumulativeExecTime⟩ s.world = d
  refine imp_congr_right fun hphysical => ?_
  simp only [hphysical, if_true]
  unfold SnapshotTells
  rcases B.snapshot defaultBranchId d.2 with ⟨_ | ⟨_ | ⟨id, resource⟩, elapsed⟩, w⟩
  · simp [Reports, Except.map]
  · simp [Reports, Except.map]
  · simp [Reports, Except.map]

section Walk

variable {id : String} {ancestor : SnapshotNode} {commands : List Command} {resource : String}

theorem restored_iff (walk : s.mgr.physicalAncestor id = .ok (ancestor, commands))
    (registered : s.mgr.snapshots.get? ancestor.snapshotId = some resource) :
    Restored C id s ↔ C.restored ancestor.snapshotId resource s.world := by
  constructor
  · rintro ⟨ancestor', commands', resource', walk', registered', h⟩
    obtain ⟨rfl, -⟩ := Prod.mk.inj (Except.ok.inj (walk.symm.trans walk'))
    obtain rfl := Option.some.inj (registered.symm.trans registered')
    exact h
  · intro h
    exact ⟨ancestor, commands, resource, walk, registered, h⟩

theorem ofHook_restore_iff {snapshot : W → Prop} {restore : String → String → W → Prop}
    (walk : s.mgr.physicalAncestor id = .ok (ancestor, commands))
    (registered : s.mgr.snapshots.get? ancestor.snapshotId = some resource) :
    OfHook B snapshot restore (.restore id) s ↔ restore ancestor.snapshotId resource s.world := by
  constructor
  · intro h
    exact h ancestor commands resource walk registered
  · intro h ancestor' commands' resource' walk' registered'
    obtain ⟨rfl, -⟩ := Prod.mk.inj (Except.ok.inj (walk.symm.trans walk'))
    obtain rfl := Option.some.inj (registered.symm.trans registered')
    exact h

end Walk

theorem surfaces_restore_iff (hs : Solo s.mgr) (id : String) :
    Surfaces B C (.restore id) s ↔ OfHook B (SnapshotTells B C) (RestoreTells B C) (.restore id) s := by
  dsimp only [Surfaces]
  rw [SeqOp.run_prog_restore B hs]
  unfold SequentialBackend.restoreEffect
  rcases walk : s.mgr.physicalAncestor id with e | ⟨ancestor, commands⟩
  · refine iff_of_true (by simp [Reports, Except.map]) fun ancestor commands resource walk' => ?_
    rw [walk] at walk'
    cases walk'
  · dsimp only
    rcases registered : s.mgr.snapshots.get? ancestor.snapshotId with _ | resource
    · refine iff_of_true (by simp [Reports, Except.map]) fun ancestor' commands' resource walk' registered' => ?_
      obtain ⟨rfl, -⟩ := Prod.mk.inj (Except.ok.inj (walk.symm.trans walk'))
      rw [registered] at registered'
      cases registered'
    · rw [ofHook_restore_iff walk registered, restored_iff walk registered]
      unfold RestoreTells
      dsimp only
      rcases B.restore ancestor.snapshotId resource defaultBranchId s.world with ⟨_ | ⟨_ | _, elapsed⟩, w⟩
      · simp [Reports, Except.map]
      · simp [Reports, Except.map]
      · simp [Reports, Except.map]

/-- The templates surface a failure exactly if the hook tells of it. -/
theorem surfaces_iff (hs : Solo s.mgr) (op : SeqOp) :
    Surfaces B C op s ↔ OfHook B (SnapshotTells B C) (RestoreTells B C) op s := by
  cases op with
  | exec => exact Iff.rfl
  | snapshot => exact surfaces_snapshot_iff hs
  | restore id => exact surfaces_restore_iff hs id

/-- Conditions on the hooks decide about the run. -/
theorem failuresSurface_iff {snapshot : W → Prop} {restore : String → String → W → Prop}
    (hsnapshot : ∀ w, SnapshotTells B C w ↔ snapshot w)
    (hrestore : ∀ id resource w, RestoreTells B C id resource w ↔ restore id resource w) (hs : Solo s.mgr)
    (ops : List SeqOp) : FailuresSurface B C ops s ↔ EachHook B snapshot restore ops s := by
  refine eachStep_congr hs fun op s hs => (surfaces_iff hs op).trans ?_
  cases op with
  | exec => exact Iff.rfl
  | snapshot => exact imp_congr_right fun _ => hsnapshot _
  | restore id =>
    exact forall₃_congr fun ancestor _ resource => forall₂_congr fun _ _ => hrestore ancestor.snapshotId resource s.world

end StateFork
