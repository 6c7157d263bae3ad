import StateFork.Controller.Ancestry
import StateFork.Sequential.Tape

/-!
# The lineage of a sequential manager

`Lineage` is the joint invariant of the resource table, the snapshot graph and the position of the
default branch. Commands and failed hooks leave the three alone, a snapshot records one node under
the position and moves there, and a restore moves to a node the walk started from. The walk
succeeds because parents were recorded before their children.
-/

namespace StateFork

/-- The three stores agree on one forest, and the branch stands on one of its nodes. -/
structure Lineage (root : String) (m : Manager) : Prop where
  agree : KeysAgree m.snapshotGraph
  nonempty : "" ∉ m.snapshotGraph.keys
  rooted : ∃ node, m.snapshotGraph.get? root = some node ∧ node.parentId = none ∧ node.isVirtual = false
  parent : ∀ id node, m.snapshotGraph.get? id = some node → id ≠ root →
    ∃ p, node.parentId = some p ∧ RecordedBefore m.snapshotGraph p id
  children : ∀ p parent, m.snapshotGraph.get? p = some parent →
    parent.children.Nodup ∧
      ∀ c, c ∈ parent.children ↔ ∃ node, m.snapshotGraph.get? c = some node ∧ node.parentId = some p
  resources : ∀ id, id ∈ m.snapshots.keys ↔
    ∃ node, m.snapshotGraph.get? id = some node ∧ node.isVirtual = false
  position : ∃ id, m.main.currentSnapshotId = some id ∧ m.main.lastSnapshotId = some id ∧
    id ∈ m.snapshotGraph.keys

namespace Lineage

variable {root : String} {m m' : Manager}

theorem get?_startedAt (root resource id : String) :
    (Manager.startedAt root resource).snapshotGraph.get? id =
      if id = root then some ⟨root, none, [], false, []⟩ else none :=
  Manager.get?_recordNode (by simp) id

theorem startedAt (resource : String) (h : root ≠ "") : Lineage root (Manager.startedAt root resource) := by
  have hget := get?_startedAt root resource
  have hfound : (Manager.startedAt root resource).snapshotGraph.get? root =
      some ⟨root, none, [], false, []⟩ := by rw [hget, if_pos rfl]
  have honly {id : String} {node : SnapshotNode}
      (hn : (Manager.startedAt root resource).snapshotGraph.get? id = some node) :
      id = root ∧ node = ⟨root, none, [], false, []⟩ := by
    rw [hget] at hn
    split_ifs at hn with hid
    exact ⟨hid, (Option.some.inj hn).symm⟩
  exact {
    agree := fun id node hn => by
      obtain ⟨rfl, rfl⟩ := honly hn
      rfl
    nonempty := fun hmem => by
      obtain ⟨node, hn⟩ := Dict.mem_keys_iff.mp hmem
      exact h (honly hn).1.symm
    rooted := ⟨_, hfound, rfl, rfl⟩
    parent := fun id node hn hid => absurd (honly hn).1 hid
    children := fun p parent hp => by
      obtain ⟨rfl, rfl⟩ := honly hp
      refine ⟨List.nodup_nil, fun c => ⟨fun hc => absurd hc (by simp), ?_⟩⟩
      rintro ⟨node, hn, hnp⟩
      obtain ⟨-, rfl⟩ := honly hn
      exact absurd hnp (by simp)
    resources := fun id => by
      have hkeys : (Manager.startedAt root resource).snapshots.keys = [root] :=
        Dict.keys_set_of_not_mem List.not_mem_nil resource
      rw [hkeys, List.mem_singleton]
      constructor
      · rintro rfl
        exact ⟨_, hfound, rfl⟩
      · rintro ⟨node, hn, -⟩
        exact (honly hn).1
    position := ⟨root, rfl, rfl, Dict.mem_keys_of_get? hfound⟩ }

/-- A change that keeps the snapshots and the graph only has to keep the position on a node. -/
theorem congr (h : Lineage root m) (hgraph : m'.snapshotGraph = m.snapshotGraph)
    (hsnapshots : m'.snapshots = m.snapshots)
    (hposition : ∃ id, m'.main.currentSnapshotId = some id ∧ m'.main.lastSnapshotId = some id ∧
      id ∈ m.snapshotGraph.keys) : Lineage root m' where
  agree := by rw [hgraph]; exact h.agree
  nonempty := by rw [hgraph]; exact h.nonempty
  rooted := by rw [hgraph]; exact h.rooted
  parent := by rw [hgraph]; exact h.parent
  children := by rw [hgraph]; exact h.children
  resources := by rw [hgraph, hsnapshots]; exact h.resources
  position := by rw [hgraph]; exact hposition

/-- A recorded parent is a node. -/
theorem parent_mem (h : Lineage root m) {id p : String} {node : SnapshotNode}
    (found : m.snapshotGraph.get? id = some node) (hp : node.parentId = some p) :
    p ∈ m.snapshotGraph.keys := by
  by_cases hid : id = root
  · obtain ⟨node', found', hnone, -⟩ := h.rooted
    rw [hid, found'] at found
    rw [← Option.some.inj found, hnone] at hp
    exact absurd hp (by simp)
  · obtain ⟨q, hq, hbefore⟩ := h.parent id node found hid
    exact Option.some.inj (hq.symm.trans hp) ▸ hbefore.mem

/-- A new node under the position is not its own parent. -/
theorem parent_ne (h : Lineage root m) {node : SnapshotNode}
    (hparent : node.parentId = m.main.lastSnapshotId) (hfresh : node.snapshotId ∉ m.snapshotGraph.keys) :
    node.parentId ≠ some node.snapshotId := by
  obtain ⟨p, -, hlast, hp⟩ := h.position
  rw [hparent, hlast]
  exact fun he => hfresh (Option.some.inj he ▸ hp)

/-- The children of an old node after a new node was recorded under `p`. -/
theorem mem_children_linkChild (h : Lineage root m) {node parent : SnapshotNode} {p id : String}
    (hparent : node.parentId = some p) (hfresh : node.snapshotId ∉ m.snapshotGraph.keys)
    (found : m.snapshotGraph.get? id = some parent) :
    (Manager.linkChild node id parent).children.Nodup ∧
      ∀ c, c ∈ (Manager.linkChild node id parent).children ↔
        c ∈ parent.children ∨ (c = node.snapshotId ∧ id = p) := by
  obtain ⟨hnodup, hiff⟩ := h.children id parent found
  have hnotmem : node.snapshotId ∉ parent.children := fun hmem => by
    obtain ⟨n, hn, -⟩ := (hiff _).mp hmem
    exact hfresh (Dict.mem_keys_of_get? hn)
  have hid : id ≠ "" := fun he => h.nonempty (he ▸ Dict.mem_keys_of_get? found)
  unfold Manager.linkChild
  split_ifs with hcond
  · have hpid : p = id := Option.some.inj (hparent.symm.trans hcond.1)
    refine ⟨List.Nodup.append hnodup (List.nodup_singleton _) (by simpa using hnotmem), fun c => ?_⟩
    simp [hpid]
  · have hpid : id ≠ p := fun he => hcond ⟨he ▸ hparent, hid, hnotmem⟩
    exact ⟨hnodup, fun c => by simp [hpid]⟩

/-- Recording a new node under a node of the graph and moving to it. -/
theorem record (h : Lineage root m) {node : SnapshotNode} {p : String}
    (hparent : node.parentId = some p) (hp : p ∈ m.snapshotGraph.keys)
    (hempty : node.snapshotId ≠ "") (hfresh : node.snapshotId ∉ m.snapshotGraph.keys)
    (hchildren : node.children = [])
    (hgraph : m'.snapshotGraph = Manager.recordNode m.snapshotGraph node)
    (hresources : ∀ id, id ∈ m'.snapshots.keys ↔
      id ∈ m.snapshots.keys ∨ (id = node.snapshotId ∧ node.isVirtual = false))
    (hcurrent : m'.main.currentSnapshotId = some node.snapshotId)
    (hlast : m'.main.lastSnapshotId = some node.snapshotId) : Lineage root m' := by
  have hne {id : String} (hid : id ∈ m.snapshotGraph.keys) : id ≠ node.snapshotId :=
    fun he => hfresh (he ▸ hid)
  have hself : node.parentId ≠ some node.snapshotId := by
    rw [hparent]
    exact fun he => hne hp (Option.some.inj he)
  have hget : ∀ id, (Manager.recordNode m.snapshotGraph node).get? id = _ := Manager.get?_recordNode hself
  have hkeys := Manager.keys_recordNode hfresh
  rw [← hgraph] at hget hkeys
  have hnew : m'.snapshotGraph.get? node.snapshotId = some node := by rw [hget, if_pos rfl]
  have hold {id : String} {old : SnapshotNode} (ho : m.snapshotGraph.get? id = some old) :
      m'.snapshotGraph.get? id = some (Manager.linkChild node id old) := by
    rw [hget, if_neg (hne (Dict.mem_keys_of_get? ho)), ho, Option.map_some]
  -- every node of the new graph is the new one or an old one
  have hcases {id : String} {n : SnapshotNode} (hn : m'.snapshotGraph.get? id = some n) :
      (id = node.snapshotId ∧ n = node) ∨
        ∃ old, m.snapshotGraph.get? id = some old ∧ n = Manager.linkChild node id old := by
    rw [hget] at hn
    split_ifs at hn with hid
    · exact .inl ⟨hid, (Option.some.inj hn).symm⟩
    · obtain ⟨old, ho, rfl⟩ := Option.map_eq_some_iff.mp hn
      exact .inr ⟨old, ho, rfl⟩
  have hlink (id : String) (old : SnapshotNode) :
      (Manager.linkChild node id old).parentId = old.parentId ∧
        (Manager.linkChild node id old).isVirtual = old.isVirtual := by
    rw [Manager.linkChild_eq]
    exact ⟨rfl, rfl⟩
  obtain ⟨rootNode, hroot, hrootParent, hrootKind⟩ := h.rooted
  constructor
  case agree =>
    rw [hgraph]
    exact Manager.keysAgree_recordNode h.agree
  case nonempty =>
    rw [hkeys, List.mem_append, List.mem_singleton]
    exact fun he => he.elim h.nonempty fun he => hempty he.symm
  case rooted =>
    exact ⟨_, hold hroot, (hlink ..).1.trans hrootParent, (hlink ..).2.trans hrootKind⟩
  case parent =>
    intro id n hn hid
    obtain ⟨rfl, rfl⟩ | ⟨old, ho, rfl⟩ := hcases hn
    · exact ⟨p, hparent, recordedBefore_last hkeys hp hfresh⟩
    · obtain ⟨q, hq, hbefore⟩ := h.parent id old ho hid
      exact ⟨q, (hlink ..).1.trans hq, recordedBefore_append hkeys hbefore (Dict.mem_keys_of_get? ho)⟩
  case children =>
    intro q parent hq
    obtain ⟨rfl, rfl⟩ | ⟨old, ho, rfl⟩ := hcases hq
    · rw [hchildren]
      refine ⟨List.nodup_nil, fun c => ⟨fun hc => absurd hc (by simp), ?_⟩⟩
      rintro ⟨n, hn, hnp⟩
      obtain ⟨rfl, rfl⟩ | ⟨old, ho, rfl⟩ := hcases hn
      · exact absurd hnp hself
      · exact absurd rfl (hne (h.parent_mem ho ((hlink ..).1.symm.trans hnp)))
    · obtain ⟨hnodup, hmem⟩ := h.mem_children_linkChild hparent hfresh ho
      refine ⟨hnodup, fun c => (hmem c).trans ⟨?_, ?_⟩⟩
      · rintro (hc | ⟨rfl, rfl⟩)
        · obtain ⟨n, hn, hnp⟩ := ((h.children q old ho).2 c).mp hc
          exact ⟨_, hold hn, (hlink ..).1.trans hnp⟩
        · exact ⟨node, hnew, hparent⟩
      · rintro ⟨n, hn, hnp⟩
        obtain ⟨rfl, rfl⟩ | ⟨n', hn', rfl⟩ := hcases hn
        · exact .inr ⟨rfl, Option.some.inj (hnp.symm.trans hparent)⟩
        · exact .inl (((h.children q old ho).2 c).mpr ⟨n', hn', (hlink ..).1.symm.trans hnp⟩)
  case resources =>
    intro id
    rw [hresources, h.resources]
    constructor
    · rintro (⟨n, hn, hkind⟩ | ⟨rfl, hkind⟩)
      · exact ⟨_, hold hn, (hlink ..).2.trans hkind⟩
      · exact ⟨node, hnew, hkind⟩
    · rintro ⟨n, hn, hkind⟩
      obtain ⟨rfl, rfl⟩ | ⟨old, ho, rfl⟩ := hcases hn
      · exact .inr ⟨rfl, hkind⟩
      · exact .inl ⟨old, ho, (hlink ..).2.symm.trans hkind⟩
  case position =>
    exact ⟨_, hcurrent, hlast, Dict.mem_keys_of_get? hnew⟩

theorem ordered (h : Lineage root m) : Ordered m.snapshotGraph := by
  intro id node found kind
  refine h.parent id node found fun he => ?_
  obtain ⟨n, hn, -, hkind⟩ := h.rooted
  rw [he, hn] at found
  rw [← Option.some.inj found, hkind] at kind
  exact absurd kind (by simp)

/-- The walk of `restore` succeeds from every node, at a registered physical node. -/
theorem physicalAncestor (h : Lineage root m) {id : String} (hid : id ∈ m.snapshotGraph.keys) :
    ∃ ancestor commands, m.physicalAncestor id = .ok (ancestor, commands) ∧
      ancestor.isVirtual = false ∧ ancestor.snapshotId ∈ m.snapshots.keys := by
  obtain ⟨⟨ancestor, commands⟩, hwalk⟩ := Manager.physicalAncestor_of_ordered h.agree h.ordered hid
  obtain ⟨hanc, hchain⟩ := Manager.physicalAncestor_ok h.agree hwalk
  obtain ⟨node, hnode, hkind⟩ := hchain.ancestor
  obtain rfl := Option.some.inj (hanc.symm.trans hnode)
  exact ⟨ancestor, commands, hwalk, hkind, (h.resources _).mpr ⟨_, hanc, hkind⟩⟩

/-! ### Steps and runs -/

variable {W : Type} (B : SequentialBackend W) {s : Sys W}

theorem afterExec (h : Lineage root s.mgr) (c : Command) (t : Option ℚ) :
    Lineage root (B.afterExec c t s).mgr := by
  obtain ⟨id, hcurrent, hlast, hid⟩ := h.position
  refine h.congr rfl rfl ⟨id, ?_, ?_, hid⟩
  · rw [← hcurrent, SequentialBackend.afterExec, Manager.main_logExec]
  · rw [← hlast, SequentialBackend.afterExec, Manager.main_logExec]

theorem restoreEffect (h : Lineage root s.mgr) (snapshotId : String) :
    Lineage root (B.restoreEffect snapshotId s).2.mgr := by
  have hcase := B.restoreEffect_cases snapshotId s
  generalize B.restoreEffect snapshotId s = r at hcase ⊢
  cases hcase with
  | refused => exact h
  | raised => exact h
  | failed => exact h
  | @restored ancestor commands _ elapsed w walk =>
    obtain ⟨hgraph, hsnapshots⟩ :=
      B.afterRestore_graph snapshotId ancestor.snapshotId commands elapsed { s with world := w }
    refine h.congr hgraph hsnapshots ⟨snapshotId, ?_, ?_, ?_⟩
    · rw [B.afterRestore_main]
      rfl
    · rw [B.afterRestore_main]
      rfl
    · exact (Manager.physicalAncestor_ok h.agree walk).2.mem_keys

/-- A snapshot with a new id records a node under the position. -/
theorem snapshotEffect (h : Lineage root s.mgr)
    (hf : ∀ id, (B.snapshotEffect s).1 = .ok (some id) → FreshId s.mgr id) :
    Lineage root (B.snapshotEffect s).2.mgr := by
  obtain ⟨p, -, hlast, hp⟩ := h.position
  have hcase := B.snapshotEffect_cases s
  generalize B.snapshotEffect s = r at hcase hf ⊢
  cases hcase with
  | raised => exact h
  | failed => exact h
  | @physical _ _ snapshotId resource elapsed =>
    obtain ⟨hempty, hfresh⟩ := hf snapshotId rfl
    have hparent : (SequentialBackend.snapshotNode s.mgr snapshotId true).parentId = some p := hlast
    refine h.record hparent hp hempty hfresh rfl rfl (fun id => ?_) ?_ ?_
    · rw [show id ∈ (SequentialBackend.afterPhysical s.mgr snapshotId resource elapsed).snapshots.keys ↔
        id = snapshotId ∨ id ∈ s.mgr.snapshots.keys from Dict.mem_keys_set]
      simp [or_comm]
    · rw [SequentialBackend.afterPhysical, Manager.main_advance]
    · rw [SequentialBackend.afterPhysical, Manager.main_advance]
  | @virtual _ _ hex =>
    obtain ⟨hempty, hfresh⟩ := hf _ rfl
    have hparent : (SequentialBackend.snapshotNode s.mgr ("v" ++ (hex.take 7).toString) false).parentId =
        some p := hlast
    refine h.record hparent hp hempty hfresh rfl rfl (fun id => ?_) ?_ ?_
    · exact (or_iff_left fun he => absurd he.2 (by simp)).symm
    · rw [SequentialBackend.afterVirtual, Manager.main_advance]
    · rw [SequentialBackend.afterVirtual, Manager.main_advance]

/-- One operation keeps the lineage. -/
theorem effect (h : Lineage root s.mgr) (op : SeqOp)
    (hf : op = .snapshot → ∀ id, (B.snapshotEffect s).1 = .ok (some id) → FreshId s.mgr id) :
    Lineage root (op.effect B s).mgr := by
  cases op with
  | exec c t => exact h.afterExec B c t
  | snapshot => exact h.snapshotEffect B (hf rfl)
  | restore id => exact h.restoreEffect B id

/-- A run with new ids keeps the lineage. -/
theorem runOps (h : Lineage root s.mgr) (hs : Solo s.mgr) {ops : List SeqOp}
    (hf : FreshIds B ops s) : Lineage root (runOps B ops s).mgr :=
  runOps_induction B (fun s => Lineage root s.mgr) (fun op _ _ h hf => h.effect B op hf) hs h hf

/-- An operation keeps the recorded nodes. -/
theorem effect_extends (h : Lineage root s.mgr) (op : SeqOp)
    (hf : op = .snapshot → ∀ id, (B.snapshotEffect s).1 = .ok (some id) → FreshId s.mgr id) :
    Extends s.mgr.snapshotGraph (op.effect B s).mgr.snapshotGraph := by
  have hrecord (node : SnapshotNode) (hparent : node.parentId = s.mgr.main.lastSnapshotId)
      (hfresh : node.snapshotId ∉ s.mgr.snapshotGraph.keys) :
      Extends s.mgr.snapshotGraph (Manager.recordNode s.mgr.snapshotGraph node) :=
    Manager.extends_recordNode hfresh (h.parent_ne hparent hfresh)
  cases op with
  | exec c t => exact .refl _
  | restore id =>
    show Extends _ (B.restoreEffect id s).2.mgr.snapshotGraph
    rw [(B.restoreEffect_graph id s).1]
    exact .refl _
  | snapshot =>
    replace hf := hf rfl
    show Extends _ (B.snapshotEffect s).2.mgr.snapshotGraph
    have hcase := B.snapshotEffect_cases s
    generalize B.snapshotEffect s = r at hcase hf ⊢
    cases hcase with
    | raised => exact .refl _
    | failed => exact .refl _
    | @physical _ _ snapshotId =>
      exact hrecord (SequentialBackend.snapshotNode s.mgr snapshotId true) rfl (hf _ rfl).2
    | @virtual _ _ hex =>
      exact hrecord (SequentialBackend.snapshotNode s.mgr ("v" ++ (hex.take 7).toString) false) rfl
        (hf _ rfl).2

theorem runOps_extends (h : Lineage root s.mgr) (hs : Solo s.mgr) {ops : List SeqOp}
    (hf : FreshIds B ops s) : Extends s.mgr.snapshotGraph (StateFork.runOps B ops s).mgr.snapshotGraph :=
  (runOps_induction B
    (fun s' => Lineage root s'.mgr ∧ Extends s.mgr.snapshotGraph s'.mgr.snapshotGraph)
    (fun op _ _ h' hf => ⟨h'.1.effect B op hf, h'.2.trans (h'.1.effect_extends B op hf)⟩)
    hs ⟨h, .refl _⟩ hf).2

/-- A returned id is the id of a node. -/
theorem mem_of_snapshotEffect {id : String} (hid : (B.snapshotEffect s).1 = .ok (some id))
    (hfresh : FreshId s.mgr id) : id ∈ (B.snapshotEffect s).2.mgr.snapshotGraph.keys := by
  have hcase := B.snapshotEffect_cases s
  generalize B.snapshotEffect s = r at hcase hid ⊢
  cases hcase with
  | raised => exact absurd hid (by simp)
  | failed => exact absurd hid (by simp)
  | @physical _ _ snapshotId resource elapsed =>
    obtain rfl : snapshotId = id := by simpa using hid
    have hkeys : (SequentialBackend.afterPhysical s.mgr snapshotId resource elapsed).snapshotGraph.keys =
        s.mgr.snapshotGraph.keys ++ [snapshotId] := Manager.keys_recordNode hfresh.2
    rw [hkeys]
    simp
  | @virtual _ _ hex =>
    obtain rfl : "v" ++ (hex.take 7).toString = id := by simpa using hid
    have hkeys : (SequentialBackend.afterVirtual s.mgr ("v" ++ (hex.take 7).toString)).snapshotGraph.keys =
        s.mgr.snapshotGraph.keys ++ ["v" ++ (hex.take 7).toString] := Manager.keys_recordNode hfresh.2
    rw [hkeys]
    simp

end Lineage

/-- `snapshot()` returned `id` during a run. -/
def Returned {W : Type} (B : SequentialBackend W) (ops : List SeqOp) (s : Sys W) (id : String) : Prop :=
  ∃ before after, ops = before ++ SeqOp.snapshot :: after ∧
    ((SeqOp.snapshot.prog B).run (runOps B before s)).1 = .ok (.snapshotId (some id))

/-- Every run of a manager that starts with one physical root keeps the lineage, and the walk of
`restore` succeeds from every id that `snapshot()` returned. -/
theorem lineage_of_run {W : Type} (B : SequentialBackend W) {root : String} (hroot : root ≠ "")
    (resource : String) (w : W) (ops : List SeqOp)
    (hf : FreshIds B ops (Sys.startedAt root resource w)) :
    Lineage root (runOps B ops (Sys.startedAt root resource w)).mgr ∧
      ∀ id, Returned B ops (Sys.startedAt root resource w) id →
        ∃ ancestor commands,
          (runOps B ops (Sys.startedAt root resource w)).mgr.physicalAncestor id =
            .ok (ancestor, commands) ∧
          ancestor.isVirtual = false ∧
          ancestor.snapshotId ∈ (runOps B ops (Sys.startedAt root resource w)).mgr.snapshots.keys := by
  have hstart : Lineage root (Sys.startedAt root resource w).mgr := Lineage.startedAt resource hroot
  have hsolo := Sys.startedAt_solo root resource w
  have hend := hstart.runOps B hsolo hf
  refine ⟨hend, ?_⟩
  rintro id ⟨before, after, rfl, hid⟩
  refine hend.physicalAncestor ?_
  obtain ⟨hbefore, hsnapshot, hafter⟩ := (freshIds_append B).mp hf
  -- the state in which the snapshot was taken
  have hthen := hstart.runOps B hsolo hbefore
  have hsoloThen := runOps_solo B before hsolo
  rw [runOps_append, runOps_cons B hsoloThen]
  rw [SeqOp.run_prog B hsoloThen] at hafter
  rw [snapshot_returns_iff B hsoloThen] at hid
  have hfresh : ∀ id, (B.snapshotEffect (runOps B before _)).1 = .ok (some id) → FreshId _ id :=
    fun id h => hsnapshot id ((snapshot_returns_iff B hsoloThen id).mpr h)
  have hmem := Lineage.mem_of_snapshotEffect B hid (hfresh id hid)
  have hnext := hthen.snapshotEffect B hfresh
  exact (hnext.runOps_extends B (B.snapshotEffect_solo hsoloThen) hafter).mem_keys hmem

/-- A run that branches: a virtual snapshot, a physical one below it, and a virtual one beside that. -/
def branchingRun : List SeqOp :=
  [.exec (.line "make") none, .snapshot, .snapshot, .restore "v3f2a", .snapshot]

theorem lineage_of_branchingRun :
    let s := runOps Tape.backend branchingRun
      (Sys.startedAt "base" "base" (Tape.start ["3f2a", "9c41", "77e0"] [false, true, false] []))
    Lineage "base" s.mgr ∧
      ∀ id, Returned Tape.backend branchingRun
        (Sys.startedAt "base" "base" (Tape.start ["3f2a", "9c41", "77e0"] [false, true, false] [])) id →
        ∃ ancestor commands, s.mgr.physicalAncestor id = .ok (ancestor, commands) ∧
          ancestor.isVirtual = false ∧ ancestor.snapshotId ∈ s.mgr.snapshots.keys := by
  refine lineage_of_run Tape.backend (by decide) "base" _ branchingRun ⟨?_, ?_, ?_, ?_, ?_, trivial⟩ <;>
    intro id h <;> cases h <;> exact ⟨by decide, by decide⟩

end StateFork
