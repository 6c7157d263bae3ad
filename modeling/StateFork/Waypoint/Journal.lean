import StateFork.Controller.Links
import StateFork.Waypoint.Backend

/-!
# Journals

The history of a Waypoint session is a journal: its checkpoints, in the order in which they were created, each after
its parent. A snapshot graph is charted by the journal if its nodes are checkpoints that come after their parents.
Such a graph has no cycles, so that it is printed completely as soon as it has the parents of its nodes; and
`sync_snapshot_tree` gives it all of them.
-/

namespace StateFork

/-- The checkpoints of a session and their parents, oldest first. -/
abbrev Journal := List (String × Option String)

namespace Journal

variable {H H' : Journal} {p id : String}

def ids (H : Journal) : List String := H.map Prod.fst

/-- The checkpoint `p` was there before the checkpoint `id`. -/
def Earlier (H : Journal) (p id : String) : Prop := p ∈ H.ids ∧ H.ids.idxOf p < H.ids.idxOf id

/-- Checkpoints have names of their own and come after their parents. -/
structure Sound (H : Journal) : Prop where
  nodup : H.ids.Nodup
  named : "" ∉ H.ids
  parents : ∀ id p, (id, some p) ∈ H → H.Earlier p id

theorem ids_append (H later : Journal) : ids (H ++ later) = H.ids ++ ids later := List.map_append

theorem ids_mono (h : H <+: H') (hid : id ∈ H.ids) : id ∈ H'.ids := by
  obtain ⟨later, rfl⟩ := h
  rw [ids_append]
  exact List.mem_append_left _ hid

theorem Earlier.mono (h : H.Earlier p id) (hgrows : H <+: H') : H'.Earlier p id := by
  obtain ⟨later, rfl⟩ := hgrows
  refine ⟨ids_mono (List.prefix_append ..) h.1, ?_⟩
  rw [ids_append, List.idxOf_append_of_mem h.1]
  by_cases hid : id ∈ H.ids
  · rw [List.idxOf_append_of_mem hid]
    exact h.2
  · rw [List.idxOf_append_of_notMem hid]
    exact (List.idxOf_lt_length_iff.mpr h.1).trans_le (Nat.le_add_right ..)

/-- What is in the journal was there before what is not. -/
theorem earlier_of_notMem (hp : p ∈ H.ids) (hid : id ∉ H.ids) : H.Earlier p id :=
  ⟨hp, by rw [List.idxOf_eq_length hid]; exact List.idxOf_lt_length_iff.mpr hp⟩

end Journal

namespace Manager

variable {H : Journal} {graph graph' : Dict String SnapshotNode}

/-- Every node of the graph is a checkpoint of the journal, after its parent. -/
def Charted (H : Journal) (graph : Dict String SnapshotNode) : Prop :=
  ∀ id node, graph.get? id = some node → id ∈ H.ids ∧ ∀ p, node.parentId = some p → H.Earlier p id

/-- The graph has the parents of its nodes. -/
def ParentsKnown (graph : Dict String SnapshotNode) : Prop :=
  ∀ id node p, graph.get? id = some node → node.parentId = some p → p ∈ graph.keys

theorem Charted.mono {H' : Journal} (h : Charted H graph) (hgrows : H <+: H') : Charted H' graph :=
  fun id node hn => ⟨Journal.ids_mono hgrows (h id node hn).1, fun p hp => ((h id node hn).2 p hp).mono hgrows⟩

theorem Charted.mem_ids (h : Charted H graph) {id : String} (hid : id ∈ graph.keys) : id ∈ H.ids := by
  obtain ⟨node, hnode⟩ := Dict.mem_keys_iff.mp hid
  exact (h id node hnode).1

/-- A node's entry of the graph after `node` was recorded. -/
theorem Charted.recordNode {node : SnapshotNode} (h : Charted H graph) (hid : node.snapshotId ∈ H.ids)
    (hparent : ∀ p, node.parentId = some p → H.Earlier p node.snapshotId) : Charted H (recordNode graph node) := by
  intro id n hn
  have hparents := parentId_recordNode graph node id
  rw [hn, Option.map_some] at hparents
  split_ifs at hparents with he
  · rw [he, Option.some.inj hparents]
    exact ⟨hid, hparent⟩
  · obtain ⟨old, hold, hsame⟩ := Option.map_eq_some_iff.mp hparents.symm
    rw [← hsame]
    exact h id old hold

/-- Under a parent that the graph has, or none. -/
theorem ParentsKnown.recordNode {node : SnapshotNode} (h : ParentsKnown graph)
    (hparent : ∀ p, node.parentId = some p → p ∈ graph.keys) : ParentsKnown (recordNode graph node) := by
  intro id n p hn hp
  refine mem_keys_recordNode.mpr (.inr ?_)
  have hparents := parentId_recordNode graph node id
  rw [hn, Option.map_some] at hparents
  split_ifs at hparents
  · exact hparent p (Option.some.inj hparents ▸ hp)
  · obtain ⟨old, hold, hsame⟩ := Option.map_eq_some_iff.mp hparents.symm
    exact h id old p hold (hsame.trans hp)

/-- A charted graph that has the parents of its nodes has no node deeper than the journal is long. -/
theorem rootedAt_of_charted {m : Manager} (h : Charted H m.snapshotGraph) (hknown : ParentsKnown m.snapshotGraph)
    {id : String} (hid : id ∈ m.snapshotGraph.keys) : ∃ n < H.length, m.RootedAt n id := by
  suffices hrooted : ∃ n ≤ H.ids.idxOf id, m.RootedAt n id by
    obtain ⟨n, hn, hrooted⟩ := hrooted
    have hlt : H.ids.idxOf id < H.ids.length := List.idxOf_lt_length_iff.mpr (h.mem_ids hid)
    rw [Journal.ids, List.length_map] at hlt
    exact ⟨n, hn.trans_lt hlt, hrooted⟩
  -- the parent of a node comes earlier in the journal
  induction hrank : H.ids.idxOf id using Nat.strong_induction_on generalizing id with
  | _ rank ih =>
    obtain ⟨node, hnode⟩ := Dict.mem_keys_iff.mp hid
    have hparentOf : m.parentOf id = node.parentId := by
      unfold parentOf
      rw [hnode]
      rfl
    cases hparent : node.parentId with
    | none => exact ⟨0, Nat.zero_le _, .root hid (hparentOf.trans hparent)⟩
    | some p =>
      have hlt := ((h id node hnode).2 p hparent).2
      obtain ⟨n, hn, hrooted⟩ := ih _ (hrank ▸ hlt) (hknown id node p hnode hparent) rfl
      exact ⟨n + 1, hrank ▸ hn.trans_lt hlt, .child hid (hparentOf.trans hparent) hrooted⟩

theorem Charted.unnamed (h : Charted H graph) (hsound : H.Sound) : "" ∉ graph.keys :=
  fun hempty => hsound.named (h.mem_ids hempty)

/-! ### Hydrating -/

/-- What the first pass keeps: children name their parents, but not all of them are linked. -/
structure Hydrating (H : Journal) (graph : Dict String SnapshotNode) : Prop where
  charted : Charted H graph
  half : HalfLinked graph
  physical : ∀ id node, graph.get? id = some node → node.snapshotId = id ∧ node.isVirtual = false

theorem Hydrating.linking {node : SnapshotNode} (h : Hydrating H graph) (hlinking : Linking graph graph' node) :
    Hydrating H graph' where
  charted id n hn := by
    obtain ⟨old, hold, -, hparent⟩ := hlinking.get? hn
    rw [hparent]
    exact h.charted id old hold
  half := hlinking.halfLinked h.half
  physical id n hn := by
    obtain ⟨old, hold, rfl, -⟩ := hlinking.get? hn
    rw [linkChild_eq]
    exact h.physical id old hold

/-- A checkpoint that the graph does not know yet. -/
theorem Hydrating.set {node : SnapshotNode} (h : Hydrating H graph) (hnew : node.snapshotId ∉ graph.keys)
    (hchildren : node.children = []) (hphysical : node.isVirtual = false) (hid : node.snapshotId ∈ H.ids)
    (hparent : ∀ p, node.parentId = some p → H.Earlier p node.snapshotId) :
    Hydrating H (graph.set node.snapshotId node) where
  charted id n hn := by
    rw [Dict.get?_set] at hn
    split_ifs at hn with he
    · obtain rfl := Option.some.inj hn
      rw [he]
      exact ⟨hid, hparent⟩
    · exact h.charted id n hn
  half := h.half.set hnew hchildren
  physical id n hn := by
    rw [Dict.get?_set] at hn
    split_ifs at hn with he
    · obtain rfl := Option.some.inj hn
      exact ⟨he.symm, hphysical⟩
    · exact h.physical id n hn

theorem Hydrating.recordNode {node : SnapshotNode} (h : Hydrating H graph) (hnew : node.snapshotId ∉ graph.keys)
    (hchildren : node.children = []) (hphysical : node.isVirtual = false) (hid : node.snapshotId ∈ H.ids)
    (hparent : ∀ p, node.parentId = some p → H.Earlier p node.snapshotId) : Hydrating H (recordNode graph node) :=
  (h.set hnew hchildren hphysical hid hparent).linking linking_recordNode

/-- What a pass over the listing leaves alone. -/
def TreeOnly (m m' : Manager) : Prop := ∃ snapshots snapshotGraph, m' = { m with snapshots, snapshotGraph }

theorem TreeOnly.trans {m m' m'' : Manager} (h : m.TreeOnly m') (h' : m'.TreeOnly m'') : m.TreeOnly m'' := by
  obtain ⟨_, _, rfl⟩ := h
  obtain ⟨snapshots, snapshotGraph, rfl⟩ := h'
  exact ⟨snapshots, snapshotGraph, rfl⟩

theorem treeOnly_hydrate (m : Manager) (entry : Checkpoint) : m.TreeOnly (m.hydrate entry) := by
  unfold hydrate
  dsimp only
  split_ifs
  · exact ⟨_, _, rfl⟩
  · exact ⟨_, _, rfl⟩

/-- One checkpoint of the journal. -/
theorem Hydrating.hydrate {m : Manager} (h : Hydrating H m.snapshotGraph) (hsound : H.Sound) {entry : Checkpoint}
    (hentry : (entry.id, entry.parent) ∈ H) :
    Hydrating H (m.hydrate entry).snapshotGraph ∧
      ∀ id, id ∈ (m.hydrate entry).snapshotGraph.keys ↔ id = entry.id ∨ id ∈ m.snapshotGraph.keys := by
  unfold Manager.hydrate
  dsimp only
  split_ifs with hknown
  · refine ⟨h, fun id => ⟨.inr, ?_⟩⟩
    rintro (rfl | hid)
    · exact hknown
    · exact hid
  · refine ⟨h.recordNode hknown rfl rfl (List.mem_map.mpr ⟨_, hentry, rfl⟩) fun p hp => ?_, fun id => mem_keys_recordNode⟩
    exact hsound.parents _ _ (hp ▸ hentry)

theorem Hydrating.hydrateAll {entries : List Checkpoint} (hsound : H.Sound)
    (hentries : ∀ c ∈ entries, (c.id, c.parent) ∈ H) {m : Manager} (h : Hydrating H m.snapshotGraph) :
    m.TreeOnly (entries.foldl Manager.hydrate m) ∧ Hydrating H (entries.foldl Manager.hydrate m).snapshotGraph ∧
      ∀ id, id ∈ (entries.foldl Manager.hydrate m).snapshotGraph.keys ↔
        id ∈ entries.map Checkpoint.id ∨ id ∈ m.snapshotGraph.keys := by
  induction entries generalizing m with
  | nil => exact ⟨⟨_, _, rfl⟩, h, fun id => by simp⟩
  | cons entry entries ih =>
    obtain ⟨hfirst, hkeys⟩ := h.hydrate hsound (hentries entry (List.mem_cons_self ..))
    obtain ⟨honly, hrest, hkeys'⟩ := ih (fun c hc => hentries c (List.mem_cons_of_mem _ hc)) hfirst
    refine ⟨(treeOnly_hydrate m entry).trans honly, hrest, fun id => ?_⟩
    rw [List.foldl_cons, hkeys', hkeys, List.map_cons, List.mem_cons]
    tauto

/-! ### Linking -/

/-- The second pass puts a node among the children of its parent, if the graph has the parent. -/
theorem linkEntry_spec {id : String} {node : SnapshotNode} (hnode : graph.get? id = some node)
    (hid : node.snapshotId = id) : ∃ graph', linkEntry graph id = .ok graph' ∧ Linking graph graph' node := by
  subst hid
  unfold linkEntry
  rw [hnode]
  dsimp only
  cases hparent : node.parentId with
  | none => exact ⟨graph, rfl, linking_same hnode fun p _ hp => by rw [hparent] at hp; cases hp⟩
  | some p =>
    dsimp only
    split_ifs with hempty
    · refine ⟨graph, rfl, linking_same hnode fun p' _ hp' hnamed => ?_⟩
      obtain rfl := Option.some.inj (hparent.symm.trans hp')
      exact absurd hempty hnamed
    · cases hp : graph.get? p with
      | none =>
        refine ⟨graph, rfl, linking_same hnode fun p' _ hp' _ hget => ?_⟩
        obtain rfl := Option.some.inj (hparent.symm.trans hp')
        rw [hp] at hget
        cases hget
      | some parent =>
        dsimp only
        split_ifs with hlisted
        · refine ⟨graph, rfl, linking_same hnode fun p' parent' hp' _ hget => ?_⟩
          obtain rfl := Option.some.inj (hparent.symm.trans hp')
          obtain rfl := Option.some.inj (hp.symm.trans hget)
          exact hlisted
        · exact ⟨_, rfl, linking_append hnode hparent hempty hp hlisted⟩

theorem Hydrating.linkEntries {ids : List String} (hsound : H.Sound) (hids : ∀ id ∈ ids, id ∈ graph.keys)
    (h : Hydrating H graph) :
    ∃ graph', Manager.linkEntries ids graph = (.ok (), graph') ∧ Hydrating H graph' ∧
      (∀ id, id ∈ graph'.keys ↔ id ∈ graph.keys) ∧ ∀ c, c ∈ ids ∨ LinkedUp graph c → LinkedUp graph' c := by
  induction ids generalizing graph with
  | nil => exact ⟨graph, rfl, h, fun _ => Iff.rfl, fun c hc => hc.resolve_left List.not_mem_nil⟩
  | cons id ids ih =>
    obtain ⟨node, hnode⟩ := Dict.mem_keys_iff.mp (hids id (List.mem_cons_self ..))
    have hid := (h.physical id node hnode).1
    obtain ⟨graph₁, hfirst, hlinking⟩ := linkEntry_spec hnode hid
    have hids₁ : ∀ id' ∈ ids, id' ∈ graph₁.keys := fun id' hid' =>
      hlinking.mem_keys.mpr (hids id' (List.mem_cons_of_mem _ hid'))
    obtain ⟨graph', hrest, hhydrating, hkeys, hup⟩ := ih hids₁ (h.linking hlinking)
    refine ⟨graph', ?_, hhydrating, fun id' => (hkeys id').trans hlinking.mem_keys, fun c hc => hup c ?_⟩
    · simp only [Manager.linkEntries, hfirst, hrest]
    · rcases hc with hc | hc
      · rcases List.mem_cons.mp hc with rfl | hc
        · rw [← hid]
          refine .inr (hlinking.linkedUp_self fun hempty => hsound.named ?_)
          exact ((h.charted c node hnode).2 "" hempty).1
        · exact .inl hc
      · exact .inr (hlinking.linkedUp hc)

/-- A synchronization with the whole journal leaves a graph that has all checkpoints and is linked throughout. -/
theorem synced_spec {m : Manager} {checkpoints : List Checkpoint} (hsound : H.Sound)
    (hlisting : (checkpoints.map fun c => (c.id, c.parent)).Perm H) (h : Hydrating H m.snapshotGraph) :
    m.TreeOnly (WaypointAttachManager.synced checkpoints m) ∧
      Charted H (WaypointAttachManager.synced checkpoints m).snapshotGraph ∧
      (WaypointAttachManager.synced checkpoints m).GraphLinked ∧
      (∀ id node, (WaypointAttachManager.synced checkpoints m).snapshotGraph.get? id = some node →
        node.snapshotId = id ∧ node.isVirtual = false) ∧
      ∀ id, id ∈ (WaypointAttachManager.synced checkpoints m).snapshotGraph.keys ↔ id ∈ H.ids := by
  have hmem (c : Checkpoint) (hc : c ∈ checkpoints) : (c.id, c.parent) ∈ H :=
    hlisting.mem_iff.mp (List.mem_map.mpr ⟨c, hc, rfl⟩)
  have hentries : checkpoints.filter (fun c => c.id ≠ "") = checkpoints := by
    refine List.filter_eq_self.mpr fun c hc => decide_eq_true fun hempty => hsound.named ?_
    exact hempty ▸ List.mem_map.mpr ⟨_, hmem c hc, rfl⟩
  have hids (id : String) : id ∈ checkpoints.map Checkpoint.id ↔ id ∈ H.ids := by
    rw [Journal.ids, ← (hlisting.map Prod.fst).mem_iff, List.map_map]
    rfl
  unfold WaypointAttachManager.synced
  rw [hentries]
  obtain ⟨honly, hhydrated, hkeys⟩ := h.hydrateAll hsound hmem
  have hlisted : ∀ id ∈ checkpoints.map Checkpoint.id, id ∈ (checkpoints.foldl hydrate m).snapshotGraph.keys :=
    fun id hid => (hkeys id).mpr (.inl hid)
  obtain ⟨graph', hlinked, hlinkedAll, hkeys', hup⟩ := hhydrated.linkEntries hsound hlisted
  have hall (id : String) : id ∈ graph'.keys ↔ id ∈ H.ids := by
    rw [hkeys', hkeys, hids]
    exact ⟨fun hid => hid.elim (fun hid => hid) h.charted.mem_ids, .inl⟩
  have hlink : ((checkpoints.foldl hydrate m).linkChildren (checkpoints.map Checkpoint.id)).2 =
      { checkpoints.foldl hydrate m with snapshotGraph := graph' } := by
    unfold linkChildren
    rw [hlinked]
  rw [hlink]
  refine ⟨honly.trans ⟨_, _, rfl⟩, hlinkedAll.charted, graphLinked_iff.mpr ⟨hlinkedAll.half, fun c => ?_⟩,
    hlinkedAll.physical, hall⟩
  -- a node that is not in the graph is linked for lack of an entry
  by_cases hc : c ∈ graph'.keys
  · exact hup c (.inl ((hids c).mpr ((hall c).mp hc)))
  · exact fun child p parent hchild => absurd (Dict.mem_keys_of_get? hchild) hc

end Manager

end StateFork
