import StateFork.Controller.Links
import StateFork.Sequential.Lineage

/-!
# What `list_snapshots` lists

`restore` and `print_snapshot_tree` read the snapshot graph, and `list_snapshots` reads the table of backend
resources. Every snapshot goes into the graph, so what `restore` accepts and what the tree shows are the initial id and
the ids that `snapshot()` returned (`accepted_iff`, `shown_iff`, `mem_graph_runOps`). The table gets an id from the hook
of a physical snapshot only: the listing is complete as long as no snapshot is virtual (`listsEvery_iff`).
-/

namespace StateFork

open Conc Conc.Prog EnvironmentManager

variable {W : Type} (B : SequentialBackend W)

/-- `list_snapshots` returns a list with the id. -/
def Listed (s : Sys W) (id : String) : Prop :=
  ∃ ids, ((listSnapshots : M W (List String)).run s).1 = .ok ids ∧ id ∈ ids

/-- The backend, with a hook that restores whatever it is asked for. -/
def SequentialBackend.granting : SequentialBackend W := { B with restore := fun _ _ _ w => (.ok (true, 0), w) }

/-- `restore` accepts the id: it succeeds if the backend does. -/
def Accepted (s : Sys W) (id : String) : Prop :=
  (((SeqOp.restore id).prog B.granting).run s).1 = .ok (.flag true)

/-- `print_snapshot_tree` shows the id, in a line of the tree that it prints, if the stack is large enough. -/
def Shown (s : Sys W) (id : String) : Prop :=
  ∃ limit entries depth,
    s.mgr.printSnapshotTree limit = .ok ("\n".intercalate ("Snapshot Tree:" :: entries.map s.mgr.line) ++ "\n") ∧
      s.mgr.printedEntries limit = .ok entries ∧ (id, depth) ∈ entries

/-- `list_snapshots` returns the initial id, the ids that `snapshot()` returned and no others, which are the ids that
`restore` accepts and that `print_snapshot_tree` shows. -/
def ListsEvery (root : String) (ops : List SeqOp) (s : Sys W) : Prop :=
  ∀ id, (Listed (runOps B ops s) id ↔ id = root ∨ Returned B ops s id) ∧
    (Listed (runOps B ops s) id ↔ Accepted B (runOps B ops s) id) ∧
    (Listed (runOps B ops s) id ↔ Shown (runOps B ops s) id)

/-- A snapshot is a physical one: the decider asks for that. -/
def TakesPhysical (op : SeqOp) (s : Sys W) : Prop :=
  op = .snapshot → (B.decide ⟨s.mgr.main.cumulativeExecTime⟩ s.world).1 = true

variable {B} {s : Sys W} {id root : String}

theorem listed_iff : Listed s id ↔ id ∈ s.mgr.snapshots.keys := by
  unfold Listed listSnapshots
  simp only [run_readState, Except.ok.injEq, exists_eq_left']

/-! ### What `restore` accepts -/

theorem accepted_iff (hl : Lineage root s.mgr) (hs : Solo s.mgr) : Accepted B s id ↔ id ∈ s.mgr.snapshotGraph.keys := by
  unfold Accepted
  rw [restore_returns_iff B.granting hs id true]
  constructor
  · intro haccepted
    by_contra hid
    have hwalk : s.mgr.physicalAncestor id = .error .notFound := by
      unfold Manager.physicalAncestor
      rw [Dict.get?_eq_none_iff.mpr hid]
    unfold SequentialBackend.restoreEffect at haccepted
    rw [hwalk] at haccepted
    cases haccepted
  · intro hid
    obtain ⟨ancestor, commands, hwalk, -, hregistered⟩ := hl.physicalAncestor hid
    obtain ⟨resource, hresource⟩ := Dict.mem_keys_iff.mp hregistered
    unfold SequentialBackend.restoreEffect
    rw [hwalk]
    dsimp only
    rw [hresource]
    rfl

/-! ### What the tree shows -/

namespace Lineage

variable {m : Manager}

theorem graphLinked (h : Lineage root m) : m.GraphLinked := by
  have hchildren {p : String} {parent : SnapshotNode} (hp : m.snapshotGraph.get? p = some parent) :
      m.childrenOf p = parent.children := by
    unfold Manager.childrenOf
    rw [hp]
    rfl
  constructor
  case mem_children =>
    intro p c hp
    obtain ⟨parent, hp⟩ := Dict.mem_keys_iff.mp hp
    rw [hchildren hp, (h.children p parent hp).2 c]
    constructor
    · rintro ⟨node, hnode, hparent⟩
      refine ⟨Dict.mem_keys_of_get? hnode, ?_⟩
      unfold Manager.parentOf
      rw [hnode]
      exact hparent
    · rintro ⟨hc, hparent⟩
      obtain ⟨node, hnode⟩ := Dict.mem_keys_iff.mp hc
      unfold Manager.parentOf at hparent
      rw [hnode] at hparent
      exact ⟨node, hnode, hparent⟩
  case nodup =>
    intro p hp
    obtain ⟨parent, hp⟩ := Dict.mem_keys_iff.mp hp
    rw [hchildren hp]
    exact (h.children p parent hp).1

/-- A node has as many ancestors as there are nodes recorded before it, at most. -/
theorem rootedAt (h : Lineage root m) (hid : id ∈ m.snapshotGraph.keys) :
    ∃ n ≤ m.snapshotGraph.keys.idxOf id, m.RootedAt n id := by
  induction hindex : m.snapshotGraph.keys.idxOf id using Nat.strong_induction_on generalizing id with
  | _ index ih =>
    obtain ⟨node, hnode⟩ := Dict.mem_keys_iff.mp hid
    have hparentOf : m.parentOf id = node.parentId := by
      unfold Manager.parentOf
      rw [hnode]
      rfl
    by_cases hroot : id = root
    · obtain ⟨node', hnode', hparent, -⟩ := h.rooted
      obtain rfl := Option.some.inj ((hroot ▸ hnode).symm.trans hnode')
      exact ⟨0, Nat.zero_le _, .root hid (hparentOf.trans hparent)⟩
    · obtain ⟨p, hparent, hbefore⟩ := h.parent id node hnode hroot
      have hlt : m.snapshotGraph.keys.idxOf p < index := hindex ▸ hbefore
      obtain ⟨n, hn, hrooted⟩ := ih _ hlt hbefore.mem rfl
      exact ⟨n + 1, by omega, .child hid (hparentOf.trans hparent) hrooted⟩

end Lineage

theorem shown_iff (hl : Lineage root s.mgr) : Shown s id ↔ id ∈ s.mgr.snapshotGraph.keys := by
  have hne : s.mgr.snapshotGraph.keys ≠ [] := by
    obtain ⟨node, hnode, -⟩ := hl.rooted
    exact List.ne_nil_of_mem (Dict.mem_keys_of_get? hnode)
  constructor
  · rintro ⟨limit, entries, depth, -, hentries, hline⟩
    obtain ⟨-, rfl⟩ := (Manager.printedEntries_eq_ok hl.graphLinked).mp hentries
    exact (Forest.rooted_of_mem_preorderAll hl.graphLinked (fun _ => Manager.mem_roots) hline).1.node
  · intro hid
    have hprints : s.mgr.PrintsCompletely s.mgr.snapshotGraph.keys.length := by
      refine (Manager.printsCompletely_iff hl.graphLinked hne hl.nonempty).mpr fun id' hid' => ?_
      obtain ⟨n, hn, hrooted⟩ := hl.rootedAt hid'
      exact ⟨n, lt_of_le_of_lt hn (List.idxOf_lt_length_iff.mpr hid'), hrooted⟩
    obtain ⟨entries, htext, hentries, hcomplete⟩ := hprints
    obtain ⟨⟨_, depth⟩, hline, rfl⟩ := List.mem_map.mp (hcomplete.once.mem_iff.mpr hid)
    exact ⟨_, entries, depth, htext, hentries, hline⟩

/-! ### The graph -/

theorem returned_cons (hs : Solo s.mgr) (op : SeqOp) (ops : List SeqOp) :
    Returned B (op :: ops) s id ↔
      (op = .snapshot ∧ (B.snapshotEffect s).1 = .ok (some id)) ∨ Returned B ops (op.effect B s) id := by
  constructor
  · rintro ⟨before, after, he, hid⟩
    rcases List.cons_eq_append_iff.mp he with ⟨rfl, hop⟩ | ⟨before, rfl, hops⟩
    · obtain ⟨rfl, -⟩ := List.cons.inj hop
      exact .inl ⟨rfl, (snapshot_returns_iff B hs id).mp hid⟩
    · rw [runOps_cons B hs] at hid
      exact .inr ⟨before, after, hops, hid⟩
  · rintro (⟨rfl, hid⟩ | ⟨before, after, rfl, hid⟩)
    · exact ⟨[], ops, rfl, (snapshot_returns_iff B hs id).mpr hid⟩
    · refine ⟨op :: before, after, rfl, ?_⟩
      rw [runOps_cons B hs]
      exact hid

/-- Only a snapshot changes the two stores, and it records the id that it returns. -/
theorem mem_graph_effect (op : SeqOp) :
    id ∈ (op.effect B s).mgr.snapshotGraph.keys ↔
      id ∈ s.mgr.snapshotGraph.keys ∨ (op = .snapshot ∧ (B.snapshotEffect s).1 = .ok (some id)) := by
  cases op with
  | exec c t => exact (or_iff_left fun h => by cases h.1).symm
  | restore target =>
    rw [or_iff_left fun h => by cases h.1]
    show id ∈ (B.restoreEffect target s).2.mgr.snapshotGraph.keys ↔ _
    rw [(B.restoreEffect_graph target s).1]
  | snapshot =>
    rw [and_iff_right rfl]
    show id ∈ (B.snapshotEffect s).2.mgr.snapshotGraph.keys ↔ _
    have hcase := B.snapshotEffect_cases s
    generalize B.snapshotEffect s = r at hcase ⊢
    cases hcase with
    | raised => simp
    | failed => simp
    | @physical _ _ snapshotId resource elapsed =>
      have hkeys : id ∈ (SequentialBackend.afterPhysical s.mgr snapshotId resource elapsed).snapshotGraph.keys ↔
          id = snapshotId ∨ id ∈ s.mgr.snapshotGraph.keys := Manager.mem_keys_recordNode
      rw [hkeys]
      simp [or_comm, eq_comm]
    | @virtual _ _ hex =>
      have hkeys : id ∈ (SequentialBackend.afterVirtual s.mgr ("v" ++ (hex.take 7).toString)).snapshotGraph.keys ↔
          id = "v" ++ (hex.take 7).toString ∨ id ∈ s.mgr.snapshotGraph.keys := Manager.mem_keys_recordNode
      rw [hkeys]
      simp [or_comm, eq_comm]

/-- The graph has the ids it started with and those that were returned. -/
theorem mem_graph_runOps (hs : Solo s.mgr) (ops : List SeqOp) :
    id ∈ (runOps B ops s).mgr.snapshotGraph.keys ↔ id ∈ s.mgr.snapshotGraph.keys ∨ Returned B ops s id := by
  induction ops generalizing s with
  | nil =>
    refine (or_iff_left ?_).symm
    rintro ⟨before, after, he, -⟩
    exact absurd he (by simp)
  | cons op ops ih =>
    rw [runOps_cons B hs, ih (op.effect_solo B hs), returned_cons hs, mem_graph_effect, or_assoc]

/-! ### The two stores -/

/-- The table of resources and the graph have the same ids. -/
def SameIds (s : Sys W) : Prop := ∀ id, id ∈ s.mgr.snapshots.keys ↔ id ∈ s.mgr.snapshotGraph.keys

theorem sameIds_snapshot (h : SameIds s) (hf : ∀ id, (B.snapshotEffect s).1 = .ok (some id) → FreshId s.mgr id) :
    SameIds (SeqOp.snapshot.effect B s) ↔ TakesPhysical B .snapshot s := by
  have hgraph (id : String) : id ∈ (B.snapshotEffect s).2.mgr.snapshotGraph.keys ↔
      id ∈ s.mgr.snapshotGraph.keys ∨ (SeqOp.snapshot = .snapshot ∧ (B.snapshotEffect s).1 = .ok (some id)) :=
    mem_graph_effect .snapshot
  show SameIds (B.snapshotEffect s).2 ↔ _
  have hcase := B.snapshotEffect_cases s
  generalize B.snapshotEffect s = r at hcase hgraph hf ⊢
  have hphysical {w : W} (decided : B.decide ⟨s.mgr.main.cumulativeExecTime⟩ s.world = (true, w)) :
      TakesPhysical B .snapshot s := fun _ => by rw [decided]
  cases hcase with
  | raised decided => exact iff_of_true h (hphysical decided)
  | failed decided => exact iff_of_true h (hphysical decided)
  | @physical _ _ snapshotId resource elapsed decided =>
    refine iff_of_true (fun id => ?_) (hphysical decided)
    have hsnapshots : id ∈ (SequentialBackend.afterPhysical s.mgr snapshotId resource elapsed).snapshots.keys ↔
        id = snapshotId ∨ id ∈ s.mgr.snapshots.keys := Dict.mem_keys_set
    rw [hsnapshots, hgraph, h id]
    simp [or_comm, eq_comm]
  | @virtual w w' hex decided uuid =>
    refine iff_of_false (fun hsame => ?_) fun hphysical => ?_
    · -- the new id is in the graph only
      have hnew := (hf _ rfl).2
      rw [← h] at hnew
      exact hnew ((hsame _).mpr ((hgraph _).mpr (.inr ⟨rfl, rfl⟩)))
    · have htrue := hphysical rfl
      rw [decided] at htrue
      cases htrue

theorem sameIds_effect (op : SeqOp) (h : SameIds s)
    (hf : op = .snapshot → ∀ id, (B.snapshotEffect s).1 = .ok (some id) → FreshId s.mgr id) :
    SameIds (op.effect B s) ↔ TakesPhysical B op s := by
  cases op with
  | exec c t => exact iff_of_true h fun he => by cases he
  | snapshot => exact sameIds_snapshot h (hf rfl)
  | restore target =>
    refine iff_of_true ?_ fun he => by cases he
    show SameIds (B.restoreEffect target s).2
    obtain ⟨hgraph, hsnapshots⟩ := B.restoreEffect_graph target s
    intro id
    rw [hgraph, hsnapshots]
    exact h id

/-- In every state of a run with new ids the listing is complete, exactly if every snapshot of the run is physical. -/
theorem listsEvery_iff (B : SequentialBackend W) (hroot : root ≠ "") (resource : String) (w : W) (ops : List SeqOp)
    (hf : FreshIds B ops (Sys.startedAt root resource w)) :
    (∀ before after, ops = before ++ after → ListsEvery B root before (Sys.startedAt root resource w)) ↔
      EachStep B (TakesPhysical B) ops (Sys.startedAt root resource w) := by
  have hs := Sys.startedAt_solo root resource w
  have hl : Lineage root (Sys.startedAt root resource w).mgr := Lineage.startedAt resource hroot
  have hsnapshots : (Sys.startedAt root resource w).mgr.snapshots.keys = [root] :=
    Dict.keys_set_of_not_mem List.not_mem_nil resource
  have hgraph : (Sys.startedAt root resource w).mgr.snapshotGraph.keys = [root] :=
    Manager.keys_recordNode List.not_mem_nil
  have hstart : SameIds (Sys.startedAt root resource w) := fun id => by rw [hsnapshots, hgraph]
  rw [← throughout_iff_of_fresh hs (fun op _ s _ h hf => sameIds_effect op h hf) hf hstart]
  refine forall_congr' fun before => forall_congr' fun after => forall_congr' fun hops => ?_
  subst hops
  have hl' := hl.runOps B hs ((freshIds_append B).mp hf).1
  have hs' := runOps_solo B before hs
  show ListsEvery B root before (Sys.startedAt root resource w) ↔
    SameIds (runOps B before (Sys.startedAt root resource w))
  unfold ListsEvery SameIds
  refine forall_congr' fun id => ?_
  rw [listed_iff, accepted_iff hl' hs', shown_iff hl', mem_graph_runOps hs, hgraph, List.mem_singleton, and_self, and_self]

/-- Physical snapshots, of which the second stands on the first one again after a restore. -/
def physicalRun : List SeqOp := [.snapshot, .exec (.line "make") none, .restore "3f2a", .snapshot]

theorem freshIds_physicalRun :
    FreshIds Tape.backend physicalRun (Sys.startedAt "base" "base" (Tape.start ["3f2a", "9c41"] [true, true] [])) := by
  refine ⟨?_, ?_, ?_, ?_, trivial⟩
  · intro id h
    cases h
    exact ⟨by decide, by decide⟩
  · exact SeqOp.returnsFresh_of_ne _ (by decide)
  · exact SeqOp.returnsFresh_of_ne _ (by decide)
  · intro id h
    cases h
    exact ⟨by decide, by decide⟩

theorem physical_physicalRun :
    EachStep Tape.backend (TakesPhysical Tape.backend) physicalRun
      (Sys.startedAt "base" "base" (Tape.start ["3f2a", "9c41"] [true, true] [])) :=
  ⟨fun _ => rfl, fun h => (by cases h), fun h => (by cases h), fun _ => rfl, trivial⟩

theorem listsEvery_physicalRun :
    let start := Sys.startedAt "base" "base" (Tape.start ["3f2a", "9c41"] [true, true] [])
    EachStep Tape.backend (TakesPhysical Tape.backend) physicalRun start ∧
      ∀ before after, physicalRun = before ++ after → ListsEvery Tape.backend "base" before start :=
  ⟨physical_physicalRun,
    (listsEvery_iff Tape.backend (by decide) "base" _ physicalRun freshIds_physicalRun).mpr physical_physicalRun⟩

/-- A virtual snapshot is returned, accepted by `restore` and shown in the tree, but the listing does not have it. -/
theorem not_listsEvery_virtual :
    let start := Sys.startedAt "base" "base" (Tape.start ["3f2a"] [false] [])
    let s := runOps Tape.backend [.snapshot] start
    FreshIds Tape.backend [.snapshot] start ∧ ¬ ListsEvery Tape.backend "base" [.snapshot] start ∧
      Returned Tape.backend [.snapshot] start "v3f2a" ∧ ¬ Listed s "v3f2a" ∧
      (((SeqOp.restore "v3f2a").prog Tape.backend).run s).1 = .ok (.flag true) ∧
      s.mgr.printSnapshotTree 1000 = .ok "Snapshot Tree:\n - base\n   - v3f2a (current: main)\n" := by
  have hreturned : Returned Tape.backend [.snapshot]
      (Sys.startedAt "base" "base" (Tape.start ["3f2a"] [false] [])) "v3f2a" := ⟨[], [], rfl, rfl⟩
  have hunlisted : ¬ Listed (runOps Tape.backend [.snapshot]
      (Sys.startedAt "base" "base" (Tape.start ["3f2a"] [false] []))) "v3f2a" := by
    rw [listed_iff]
    decide
  refine ⟨⟨?_, trivial⟩, fun h => hunlisted (((h "v3f2a").1).mpr (.inr hreturned)), hreturned, hunlisted, rfl, ?_⟩
  · intro id h
    cases h
    exact ⟨by decide, by decide⟩
  · decide +kernel

end StateFork
