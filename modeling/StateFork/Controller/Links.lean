import StateFork.Controller.Ancestry
import StateFork.Controller.PrintedTree

/-!
# The links of the snapshot graph

A node names its parent, and the parent lists its children. `_record_snapshot_node` links a new node to its parent if
the graph knows the parent, but it does not look for nodes that have been waiting for the new one: they stay without
a link until `sync_snapshot_tree` links them. So there are two halves to the agreement of children and parents
(`graphLinked_iff`): the listed children name the parent (`HalfLinked`), and a node whose parent is there is listed
(`LinkedUp`).
-/

namespace StateFork

namespace Manager

variable {graph graph' : Dict String SnapshotNode} {node : SnapshotNode}

/-- A listed child names the node as its parent, and is listed once. -/
structure HalfLinked (graph : Dict String SnapshotNode) : Prop where
  sound : ∀ p parent, graph.get? p = some parent → ∀ c ∈ parent.children,
    ∃ child, graph.get? c = some child ∧ child.parentId = some p
  nodup : ∀ p parent, graph.get? p = some parent → parent.children.Nodup

/-- The node is among the children of its parent, if the graph has the parent. -/
def LinkedUp (graph : Dict String SnapshotNode) (c : String) : Prop :=
  ∀ child p parent, graph.get? c = some child → child.parentId = some p → graph.get? p = some parent → c ∈ parent.children

theorem graphLinked_iff {m : Manager} :
    m.GraphLinked ↔ HalfLinked m.snapshotGraph ∧ ∀ c, LinkedUp m.snapshotGraph c := by
  have hchildren {p : String} {parent : SnapshotNode} (hp : m.snapshotGraph.get? p = some parent) :
      m.childrenOf p = parent.children := by
    unfold childrenOf
    rw [hp]
    rfl
  have hparent {c : String} {child : SnapshotNode} (hc : m.snapshotGraph.get? c = some child) :
      m.parentOf c = child.parentId := by
    unfold parentOf
    rw [hc]
    rfl
  constructor
  · intro h
    refine ⟨⟨fun p parent hp c hc => ?_, fun p parent hp => ?_⟩, fun c child p parent hc hparentId hp => ?_⟩
    · rw [← hchildren hp] at hc
      obtain ⟨hmem, hparentId⟩ := (h.mem_children p c (Dict.mem_keys_of_get? hp)).mp hc
      obtain ⟨child, hchild⟩ := Dict.mem_keys_iff.mp hmem
      exact ⟨child, hchild, (hparent hchild).symm.trans hparentId⟩
    · rw [← hchildren hp]
      exact h.nodup p (Dict.mem_keys_of_get? hp)
    · rw [← hchildren hp]
      exact (h.mem_children p c (Dict.mem_keys_of_get? hp)).mpr ⟨Dict.mem_keys_of_get? hc, (hparent hc).trans hparentId⟩
  · rintro ⟨hhalf, hup⟩
    constructor
    case mem_children =>
      intro p c hp
      obtain ⟨parent, hp⟩ := Dict.mem_keys_iff.mp hp
      rw [hchildren hp]
      constructor
      · intro hc
        obtain ⟨child, hchild, hparentId⟩ := hhalf.sound p parent hp c hc
        exact ⟨Dict.mem_keys_of_get? hchild, (hparent hchild).trans hparentId⟩
      · rintro ⟨hc, hparentId⟩
        obtain ⟨child, hchild⟩ := Dict.mem_keys_iff.mp hc
        rw [hparent hchild] at hparentId
        exact hup c child p parent hchild hparentId hp
    case nodup =>
      intro p hp
      obtain ⟨parent, hp⟩ := Dict.mem_keys_iff.mp hp
      rw [hchildren hp]
      exact hhalf.nodup p parent hp

/-! ### Adding a node, and linking it -/

/-- A new node that nobody lists yet. -/
theorem HalfLinked.set (h : HalfLinked graph) (hnew : node.snapshotId ∉ graph.keys) (hnode : node.children = []) :
    HalfLinked (graph.set node.snapshotId node) := by
  constructor
  case sound =>
    intro p parent hp c hc
    rw [Dict.get?_set] at hp
    split_ifs at hp
    · obtain rfl := Option.some.inj hp
      rw [hnode] at hc
      exact absurd hc List.not_mem_nil
    · obtain ⟨child, hchild, hparentId⟩ := h.sound p parent hp c hc
      have hne : c ≠ node.snapshotId := fun he => hnew (he ▸ Dict.mem_keys_of_get? hchild)
      exact ⟨child, (Dict.get?_set_of_ne _ _ hne).trans hchild, hparentId⟩
  case nodup =>
    intro p parent hp
    rw [Dict.get?_set] at hp
    split_ifs at hp
    · obtain rfl := Option.some.inj hp
      rw [hnode]
      exact List.nodup_nil
    · exact h.nodup p parent hp

theorem LinkedUp.set {c : String} (h : LinkedUp graph c) (hc : c ≠ node.snapshotId)
    (hparent : ∀ child, graph.get? c = some child → child.parentId ≠ some node.snapshotId) :
    LinkedUp (graph.set node.snapshotId node) c := by
  intro child p parent hchild hparentId hp
  rw [Dict.get?_set_of_ne _ _ hc] at hchild
  have hne : p ≠ node.snapshotId := fun he => hparent child hchild (he ▸ hparentId)
  rw [Dict.get?_set_of_ne _ _ hne] at hp
  exact h child p parent hchild hparentId hp

/-- `graph'` is `graph` with `node` among the children of its parent. -/
def Linking (graph graph' : Dict String SnapshotNode) (node : SnapshotNode) : Prop :=
  graph.get? node.snapshotId = some node ∧ ∀ id, graph'.get? id = (graph.get? id).map (linkChild node id)

theorem linkChild_parentId (id : String) (old : SnapshotNode) : (linkChild node id old).parentId = old.parentId := by
  rw [linkChild_eq]

/-- The nodes of a graph and their parents do not change when one is linked. -/
theorem Linking.get? (h : Linking graph graph' node) {id : String} {n : SnapshotNode} (hn : graph'.get? id = some n) :
    ∃ old, graph.get? id = some old ∧ n = linkChild node id old ∧ n.parentId = old.parentId := by
  rw [h.2] at hn
  obtain ⟨old, hold, rfl⟩ := Option.map_eq_some_iff.mp hn
  exact ⟨old, hold, rfl, linkChild_parentId id old⟩

theorem Linking.mem_keys (h : Linking graph graph' node) {id : String} : id ∈ graph'.keys ↔ id ∈ graph.keys := by
  rw [Dict.mem_keys_iff, Dict.mem_keys_iff]
  simp only [h.2 id, Option.map_eq_some_iff]
  constructor
  · rintro ⟨n, old, hold, -⟩
    exact ⟨old, hold⟩
  · rintro ⟨old, hold⟩
    exact ⟨_, old, hold, rfl⟩

theorem Linking.halfLinked (h : Linking graph graph' node) (hhalf : HalfLinked graph) : HalfLinked graph' := by
  constructor
  case sound =>
    intro p parent hp c hc
    obtain ⟨old, hold, rfl, -⟩ := h.get? hp
    have hcase : c ∈ old.children ∨ (c = node.snapshotId ∧ node.parentId = some p) := by
      unfold linkChild at hc
      split_ifs at hc with hlinks
      · rcases List.mem_append.mp hc with hc | hc
        · exact .inl hc
        · exact .inr ⟨List.mem_singleton.mp hc, hlinks.1⟩
      · exact .inl hc
    rcases hcase with hc | ⟨rfl, hparentId⟩
    · obtain ⟨child, hchild, hparentId⟩ := hhalf.sound p old hold c hc
      exact ⟨linkChild node c child, by rw [h.2, hchild]; rfl, (linkChild_parentId _ _).trans hparentId⟩
    · exact ⟨linkChild node node.snapshotId node, by rw [h.2, h.1]; rfl, (linkChild_parentId _ _).trans hparentId⟩
  case nodup =>
    intro p parent hp
    obtain ⟨old, hold, rfl, -⟩ := h.get? hp
    have hnodup := hhalf.nodup p old hold
    unfold linkChild
    split_ifs with hlinks
    · refine List.nodup_append.mpr ⟨hnodup, List.nodup_singleton _, ?_⟩
      intro c hc c' hc' he
      rw [List.mem_singleton.mp hc'] at he
      exact hlinks.2.2 (he ▸ hc)
    · exact hnodup

theorem subset_linkChild (id : String) (old : SnapshotNode) : old.children ⊆ (linkChild node id old).children := by
  intro c hc
  unfold linkChild
  split_ifs
  · exact List.mem_append_left _ hc
  · exact hc

theorem Linking.linkedUp (h : Linking graph graph' node) {c : String} (hc : LinkedUp graph c) : LinkedUp graph' c := by
  intro child p parent hchild hparentId hp
  obtain ⟨child₀, hchild₀, -, hsame⟩ := h.get? hchild
  obtain ⟨parent₀, hp₀, rfl, -⟩ := h.get? hp
  exact subset_linkChild p parent₀ (hc child₀ p parent₀ hchild₀ (hsame.symm.trans hparentId) hp₀)

theorem Linking.linkedUp_self (h : Linking graph graph' node) (hnamed : node.parentId ≠ some "") :
    LinkedUp graph' node.snapshotId := by
  intro child p parent hchild hparentId hp
  obtain ⟨child₀, hchild₀, -, hsame⟩ := h.get? hchild
  obtain ⟨parent₀, hp₀, rfl, -⟩ := h.get? hp
  obtain rfl := Option.some.inj (h.1.symm.trans hchild₀)
  rw [hsame] at hparentId
  unfold linkChild
  split_ifs with hlinks
  · exact List.mem_append_right _ (List.mem_singleton_self _)
  · by_contra hc
    refine hlinks ⟨hparentId, ?_, hc⟩
    rintro rfl
    exact hnamed hparentId

/-- There is nothing to link. -/
theorem linking_same (hnode : graph.get? node.snapshotId = some node)
    (h : ∀ p parent, node.parentId = some p → p ≠ "" → graph.get? p = some parent → node.snapshotId ∈ parent.children) :
    Linking graph graph node := by
  refine ⟨hnode, fun id => ?_⟩
  cases hold : graph.get? id with
  | none => rfl
  | some old =>
    rw [Option.map_some, linkChild, if_neg]
    rintro ⟨hparent, hnamed, hnot⟩
    exact hnot (h id old hparent hnamed hold)

/-- The node goes to the end of its parent's children. -/
theorem linking_append {p : String} {parent : SnapshotNode} (hnode : graph.get? node.snapshotId = some node)
    (hparent : node.parentId = some p) (hnamed : p ≠ "") (hp : graph.get? p = some parent)
    (hnot : node.snapshotId ∉ parent.children) :
    Linking graph (graph.set p { parent with children := parent.children ++ [node.snapshotId] }) node := by
  refine ⟨hnode, fun id => ?_⟩
  rw [Dict.get?_set]
  split_ifs with he
  · rw [he, hp, Option.map_some, linkChild, if_pos ⟨hparent, hnamed, hnot⟩]
  · cases hold : graph.get? id with
    | none => rfl
    | some old =>
      rw [Option.map_some, linkChild, if_neg]
      rintro ⟨hp', -, -⟩
      exact he (Option.some.inj (hparent.symm.trans hp')).symm

/-- Recording a node adds and links it. -/
theorem linking_recordNode : Linking (graph.set node.snapshotId node) (recordNode graph node) node := by
  have hnode : (graph.set node.snapshotId node).get? node.snapshotId = some node := Dict.get?_set_self ..
  unfold recordNode
  dsimp only
  cases hparent : node.parentId with
  | none => exact linking_same hnode fun p _ hp => by rw [hparent] at hp; cases hp
  | some p =>
    dsimp only
    split_ifs with hempty
    · refine linking_same hnode fun p' _ hp' hnamed => ?_
      obtain rfl := Option.some.inj (hparent.symm.trans hp')
      exact absurd hempty hnamed
    · cases hp : (graph.set node.snapshotId node).get? p with
      | none =>
        refine linking_same hnode fun p' _ hp' _ hget => ?_
        obtain rfl := Option.some.inj (hparent.symm.trans hp')
        rw [hp] at hget
        cases hget
      | some parent =>
        dsimp only
        split_ifs with hlisted
        · refine linking_same hnode fun p' parent' hp' _ hget => ?_
          obtain rfl := Option.some.inj (hparent.symm.trans hp')
          obtain rfl := Option.some.inj (hp.symm.trans hget)
          exact hlisted
        · exact linking_append hnode hparent hempty hp hlisted

theorem mem_keys_recordNode {id : String} : id ∈ (recordNode graph node).keys ↔ id = node.snapshotId ∨ id ∈ graph.keys := by
  have hparent := parentId_recordNode graph node id
  rw [Dict.mem_keys_iff, Dict.mem_keys_iff]
  constructor
  · rintro ⟨n, hn⟩
    by_cases hid : id = node.snapshotId
    · exact .inl hid
    · rw [hn, if_neg hid] at hparent
      obtain ⟨old, hold, -⟩ := Option.map_eq_some_iff.mp hparent.symm
      exact .inr ⟨old, hold⟩
  · rintro (hid | ⟨old, hold⟩)
    · rw [if_pos hid] at hparent
      obtain ⟨n, hn, -⟩ := Option.map_eq_some_iff.mp hparent
      exact ⟨n, hn⟩
    · by_cases hid : id = node.snapshotId
      · rw [if_pos hid] at hparent
        obtain ⟨n, hn, -⟩ := Option.map_eq_some_iff.mp hparent
        exact ⟨n, hn⟩
      · rw [if_neg hid, hold] at hparent
        obtain ⟨n, hn, -⟩ := Option.map_eq_some_iff.mp hparent
        exact ⟨n, hn⟩

/-- A new node that no node has been waiting for keeps children and parents in agreement. -/
theorem GraphLinked.recordSnapshotNode {m : Manager} (h : m.GraphLinked) (hnew : node.snapshotId ∉ m.snapshotGraph.keys)
    (hchildren : node.children = []) (hnamed : node.parentId ≠ some "")
    (hawaited : ∀ id n, m.snapshotGraph.get? id = some n → n.parentId ≠ some node.snapshotId) :
    (m.recordSnapshotNode node).GraphLinked := by
  obtain ⟨hhalf, hup⟩ := graphLinked_iff.mp h
  have hlinking : Linking (m.snapshotGraph.set node.snapshotId node) (recordNode m.snapshotGraph node) node :=
    linking_recordNode
  refine graphLinked_iff.mpr ⟨hlinking.halfLinked (hhalf.set hnew hchildren), fun c => ?_⟩
  by_cases hc : c = node.snapshotId
  · rw [hc]
    exact hlinking.linkedUp_self hnamed
  · exact hlinking.linkedUp ((hup c).set hc fun child hchild => hawaited c child hchild)

end Manager

end StateFork
