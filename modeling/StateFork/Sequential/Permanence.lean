import StateFork.Controller.Permanence
import StateFork.Sequential.Lineage

/-!
# Colliding ids of a sequential manager

The hook and the template cut the ids of snapshots from uuids and record them without a look into the graph. The
snapshots of a run are permanent exactly if every id that is supplied to a snapshot is new (`sequential_permanent_iff`).
-/

namespace StateFork

open EnvironmentManager

variable {W : Type} (B : SequentialBackend W)

/-- The id that a snapshot gets: from the hook if the decider wants it physical, and else seven digits of a uuid. -/
def Supplied (s : Sys W) (id : String) : Prop :=
  let d := B.decide ⟨s.mgr.main.cumulativeExecTime⟩ s.world
  (d.1 = true ∧ ∃ resource elapsed, (B.snapshot defaultBranchId d.2).1 = .ok (some (id, resource), elapsed)) ∨
    (d.1 = false ∧ id = "v" ++ ((B.uuid4Hex d.2).1.take 7).toString)

/-- A snapshot gets an id that no node has. -/
def SuppliesNew (op : SeqOp) (s : Sys W) : Prop :=
  op = .snapshot → ∀ id, Supplied B s id → id ∉ s.mgr.snapshotGraph.keys

/-- The walk works, and the default branch stands on a node. -/
structure Anchored (m : Manager) : Prop where
  walkable : Walkable m.snapshotGraph
  last : ∃ p, m.main.lastSnapshotId = some p ∧ p ∈ m.snapshotGraph.keys

theorem Anchored.startedAt (root resource : String) : Anchored (Manager.startedAt root resource) := by
  have hget := Lineage.get?_startedAt root resource
  have hfound : (Manager.startedAt root resource).snapshotGraph.get? root = some ⟨root, none, [], false, []⟩ := by
    rw [hget, if_pos rfl]
  refine ⟨⟨fun id node hn => ?_, fun id node hn kind => ?_⟩, root, rfl, Dict.mem_keys_of_get? hfound⟩
  · rw [hget] at hn
    split_ifs at hn with hid
    rw [← Option.some.inj hn, hid]
  · rw [hget] at hn
    split_ifs at hn with hid
    rw [← Option.some.inj hn] at kind
    exact absurd kind (by simp)

variable {B} {s : Sys W}

/-- What a snapshot returns is what it was supplied with. -/
theorem snapshotEffect_returns_iff (s : Sys W) (id : String) :
    (B.snapshotEffect s).1 = .ok (some id) ↔ Supplied B s id := by
  have hcase := B.snapshotEffect_cases s
  unfold Supplied
  dsimp only
  generalize B.snapshotEffect s = r at hcase ⊢
  cases hcase with
  | raised decided hook => simp [decided, hook]
  | failed decided hook => simp [decided, hook]
  | physical decided hook =>
    simp only [decided, hook, true_and, Bool.true_eq_false, false_and, or_false, Except.ok.injEq, Option.some.injEq,
      Prod.mk.injEq]
    exact ⟨fun he => ⟨_, _, ⟨he, rfl⟩, rfl⟩, fun ⟨_, _, ⟨he, _⟩, _⟩ => he⟩
  | virtual decided uuid =>
    simp only [decided, uuid, Bool.false_eq_true, false_and, false_or, true_and, Except.ok.injEq, Option.some.injEq]
    exact eq_comm

/-- The graph after the node of a snapshot was recorded under the position of the branch. -/
theorem Anchored.record {m m' : Manager} (h : Anchored m) (node : SnapshotNode)
    (hparent : node.parentId = m.main.lastSnapshotId) (hnew : node.snapshotId ∉ m.snapshotGraph.keys)
    (hgraph : m'.snapshotGraph = Manager.recordNode m.snapshotGraph node)
    (hlast : m'.main.lastSnapshotId = some node.snapshotId) : Anchored m' := by
  obtain ⟨p, hp, hmem⟩ := h.last
  have hwalkable := Manager.walkable_recordNode h.walkable hnew fun _ => ⟨p, hparent.trans hp, hmem⟩
  refine ⟨hgraph ▸ hwalkable, node.snapshotId, hlast, ?_⟩
  rw [hgraph]
  exact Manager.mem_keys_recordNode.mpr (.inl rfl)

/-- One operation whose snapshot gets a new id. -/
theorem Anchored.effect (h : Anchored s.mgr) {op : SeqOp} (hnew : SuppliesNew B op s) :
    Anchored (op.effect B s).mgr ∧ s.mgr.Preserves (op.effect B s).mgr := by
  cases op with
  | exec c t =>
    refine ⟨⟨h.walkable, ?_⟩, (Manager.undisturbed_of_eq rfl rfl).preserves h.walkable⟩
    show ∃ p, (B.afterExec c t s).mgr.main.lastSnapshotId = some p ∧ p ∈ s.mgr.snapshotGraph.keys
    rw [SequentialBackend.afterExec, Manager.main_logExec]
    exact h.last
  | snapshot =>
    show Anchored (B.snapshotEffect s).2.mgr ∧ s.mgr.Preserves (B.snapshotEffect s).2.mgr
    have hreturns := snapshotEffect_returns_iff (B := B) s
    have hcase := B.snapshotEffect_cases s
    generalize B.snapshotEffect s = r at hcase hreturns ⊢
    cases hcase with
    | raised => exact ⟨h, .refl _⟩
    | failed => exact ⟨h, .refl _⟩
    | @physical _ _ id resource elapsed =>
      have hfresh : id ∉ s.mgr.snapshotGraph.keys := hnew rfl id ((hreturns id).mp rfl)
      set m := SequentialBackend.afterPhysical s.mgr id resource elapsed with hm
      have hanchored : Anchored m := by
        refine h.record (SequentialBackend.snapshotNode s.mgr id true) rfl hfresh rfl ?_
        rw [hm, SequentialBackend.afterPhysical, Manager.main_advance]
      refine ⟨hanchored, Manager.preserves_record h.walkable hanchored.walkable hfresh rfl fun i hi => ?_⟩
      exact (Manager.undisturbed_registerSnapshotResource hfresh resource).2 i hi
    | @virtual _ _ hex =>
      set id := "v" ++ (hex.take 7).toString
      have hfresh : id ∉ s.mgr.snapshotGraph.keys := hnew rfl id ((hreturns id).mp rfl)
      have hanchored : Anchored (SequentialBackend.afterVirtual s.mgr id) := by
        refine h.record (SequentialBackend.snapshotNode s.mgr id false) rfl hfresh rfl ?_
        rw [SequentialBackend.afterVirtual, Manager.main_advance]
      exact ⟨hanchored, Manager.preserves_record h.walkable hanchored.walkable hfresh rfl fun _ _ => rfl⟩
  | restore target =>
    show Anchored (B.restoreEffect target s).2.mgr ∧ s.mgr.Preserves (B.restoreEffect target s).2.mgr
    have hcase := B.restoreEffect_cases target s
    generalize B.restoreEffect target s = r at hcase ⊢
    cases hcase with
    | refused => exact ⟨h, .refl _⟩
    | raised => exact ⟨h, .refl _⟩
    | failed => exact ⟨h, .refl _⟩
    | @restored ancestor commands _ elapsed w walk =>
      obtain ⟨hgraph, hsnapshots⟩ := B.afterRestore_graph target ancestor.snapshotId commands elapsed { s with world := w }
      refine ⟨⟨hgraph ▸ h.walkable, target, ?_, ?_⟩, (Manager.undisturbed_of_eq hgraph hsnapshots).preserves h.walkable⟩
      · rw [B.afterRestore_main]
        rfl
      · rw [hgraph]
        exact (Manager.physicalAncestor_ok h.walkable.agree walk).2.mem_keys

/-- The operation is a snapshot. -/
def SeqOp.takes : SeqOp → Bool
  | .snapshot => true
  | _ => false

/-- A snapshot that was supplied with a new id has recorded it. -/
theorem recorded_of_returns {id : String} (hid : (B.snapshotEffect s).1 = .ok (some id)) :
    id ∈ (B.snapshotEffect s).2.mgr.snapshotGraph.keys := by
  have hcase := B.snapshotEffect_cases s
  generalize B.snapshotEffect s = r at hcase hid ⊢
  cases hcase with
  | raised => cases hid
  | failed => cases hid
  | physical =>
    cases hid
    exact Manager.mem_keys_recordNode.mpr (.inl rfl)
  | virtual =>
    cases hid
    exact Manager.mem_keys_recordNode.mpr (.inl rfl)

/-- The snapshots of a run are permanent exactly if every id supplied to one is new. -/
theorem sequential_permanent_iff (hs : Solo s.mgr) (h : Anchored s.mgr) (ops : List SeqOp) :
    Permanent (SeqOp.prog B) SeqOp.takes ops s ↔ EachStep B (SuppliesNew B) ops s := by
  constructor
  · intro hpermanent
    refine Run.eachStep_of_forall fun before op after he hop id hid => ?_
    subst hop
    have hsolo : Solo (runOps B before s).mgr := runOps_solo B before hs
    have hreturned := (snapshot_returns_iff B hsolo id).mpr ((snapshotEffect_returns_iff _ id).mpr hid)
    exact (hpermanent before .snapshot [] after id he rfl hreturned).1
  · refine permanent_of_eachStep (I := fun s => Solo s.mgr ∧ Anchored s.mgr) ?_ ?_ ⟨hs, h⟩
    · rintro op s ⟨hs, h⟩ hnew
      rw [op.run_prog B hs]
      obtain ⟨hnext, hpreserves⟩ := h.effect hnew
      exact ⟨⟨op.effect_solo B hs, hnext⟩, hpreserves⟩
    · rintro op s id ⟨hs, h⟩ hnew htakes hid
      cases op with
      | exec => cases htakes
      | restore => cases htakes
      | snapshot =>
        have hreturned := (snapshot_returns_iff B hs id).mp hid
        refine ⟨hnew rfl id ((snapshotEffect_returns_iff s id).mp hreturned), ?_⟩
        rw [SeqOp.run_prog B hs]
        exact recorded_of_returns hreturned

end StateFork
