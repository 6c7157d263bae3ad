import StateFork.Forkable.Commute
import StateFork.Waypoint.Shared

/-!
# What a synchronization leaves behind

`sync_snapshot_tree` makes two passes over a listing. What they leave in the graph can be said without an order
(`Hydrated`): the nodes that were known, with what they had, and the listed ones; and a node is among the children of
another one if it was so before, or if it is listed and names the other one as its parent. So the order of the listing
does not matter, and a second synchronization finds nothing to do (`sync_hydrates`).
-/

namespace StateFork

open Conc Conc.Prog EnvironmentManager

/-- A node apart from its children. -/
def SnapshotNode.bare (n : SnapshotNode) : SnapshotNode := { n with children := [] }

/-- The node of a checkpoint that the graph does not know. -/
def Checkpoint.node (c : Checkpoint) : SnapshotNode := { snapshotId := c.id, parentId := c.parent }

theorem Checkpoint.parent_ne_empty (c : Checkpoint) : c.parent ≠ some "" := by
  unfold parent
  split_ifs with h
  · exact nofun
  · exact h

namespace Manager

variable {graph₀ graph graph' : Dict String SnapshotNode} {listed : List Checkpoint} {node : SnapshotNode} {c : Checkpoint}

/-- `graph` has the nodes of `graph₀` and of the checkpoints, and no links that these do not account for. -/
structure Hydrated (graph₀ : Dict String SnapshotNode) (listed : List Checkpoint) (graph : Dict String SnapshotNode) :
    Prop where
  known : ∀ id n, graph₀.get? id = some n → (graph.get? id).map SnapshotNode.bare = some n.bare
  added : ∀ c ∈ listed, c.id ∉ graph₀.keys → (graph.get? c.id).map SnapshotNode.bare = some c.node
  keys : ∀ id, id ∈ graph.keys ↔ id ∈ graph₀.keys ∨ id ∈ listed.map Checkpoint.id
  half : HalfLinked graph
  kept : ∀ p parent₀ parent, graph₀.get? p = some parent₀ → graph.get? p = some parent → parent₀.children ⊆ parent.children
  accounted : ∀ p parent, graph.get? p = some parent → ∀ id ∈ parent.children,
    (id ∈ listed.map Checkpoint.id ∧ p ≠ "") ∨ ∃ parent₀, graph₀.get? p = some parent₀ ∧ id ∈ parent₀.children

theorem bare_linkChild (id : String) (old : SnapshotNode) : (linkChild node id old).bare = old.bare := by
  rw [linkChild_eq]
  rfl

theorem Linking.bare (h : Linking graph graph' node) (id : String) :
    (graph'.get? id).map SnapshotNode.bare = (graph.get? id).map SnapshotNode.bare := by
  rw [h.2, Option.map_map]
  cases graph.get? id with
  | none => rfl
  | some old => exact congrArg some (bare_linkChild id old)

namespace Hydrated

theorem refl (h : HalfLinked graph₀) : Hydrated graph₀ [] graph₀ where
  known id n hn := by rw [hn, Option.map_some]
  added c hc := absurd hc List.not_mem_nil
  keys id := by simp
  half := h
  kept p parent₀ parent hp₀ hp := by
    obtain rfl := Option.some.inj (hp₀.symm.trans hp)
    exact List.Subset.refl _
  accounted p parent hp id hid := .inr ⟨parent, hp, hid⟩

theorem agree (hk : KeysAgree graph₀) (h : Hydrated graph₀ listed graph) : KeysAgree graph := by
  intro id n hn
  by_cases hold : id ∈ graph₀.keys
  · obtain ⟨n₀, hn₀⟩ := Dict.mem_keys_iff.mp hold
    have hknown := h.known id n₀ hn₀
    rw [hn, Option.map_some] at hknown
    have hbare : n.bare = n₀.bare := Option.some.inj hknown
    have hsame : n.bare.snapshotId = n₀.bare.snapshotId := congrArg SnapshotNode.snapshotId hbare
    exact hsame.trans (hk id n₀ hn₀)
  · have hid := ((h.keys id).mp (Dict.mem_keys_of_get? hn)).resolve_left hold
    obtain ⟨c, hc, rfl⟩ := List.mem_map.mp hid
    have hadded := h.added c hc hold
    rw [hn, Option.map_some] at hadded
    have hbare : n.bare = c.node := Option.some.inj hadded
    exact congrArg SnapshotNode.snapshotId hbare

/-- A listed checkpoint that the graph does not know. -/
theorem set (h : Hydrated graph₀ listed graph) (hnew : c.id ∉ graph.keys) :
    Hydrated graph₀ (listed ++ [c]) (graph.set c.id c.node) where
  known id n hn := by
    have hne : id ≠ c.id := fun he => hnew (he ▸ (h.keys id).mpr (.inl (Dict.mem_keys_of_get? hn)))
    rw [Dict.get?_set_of_ne _ _ hne]
    exact h.known id n hn
  added c' hc' hnot := by
    rcases List.mem_append.mp hc' with hc' | hc'
    · have hne : c'.id ≠ c.id := fun he => hnew (he ▸ (h.keys c'.id).mpr (.inr (List.mem_map.mpr ⟨c', hc', rfl⟩)))
      rw [Dict.get?_set_of_ne _ _ hne]
      exact h.added c' hc' hnot
    · obtain rfl := List.mem_singleton.mp hc'
      rw [Dict.get?_set_self]
      rfl
  keys id := by
    rw [Dict.mem_keys_set, h.keys]
    simp only [List.map_append, List.map_cons, List.map_nil, List.mem_append, List.mem_singleton]
    tauto
  half := by
    have hset : HalfLinked (graph.set c.node.snapshotId c.node) := h.half.set hnew rfl
    exact hset
  kept p parent₀ parent hp₀ hp := by
    have hne : p ≠ c.id := fun he => hnew (he ▸ (h.keys p).mpr (.inl (Dict.mem_keys_of_get? hp₀)))
    rw [Dict.get?_set_of_ne _ _ hne] at hp
    exact h.kept p parent₀ parent hp₀ hp
  accounted p parent hp id hid := by
    rw [Dict.get?_set] at hp
    split_ifs at hp
    · obtain rfl := Option.some.inj hp
      exact absurd hid List.not_mem_nil
    · rcases h.accounted p parent hp id hid with ⟨hlisted, hnamed⟩ | hold
      · exact .inl ⟨List.map_subset _ (List.subset_append_left ..) hlisted, hnamed⟩
      · exact .inr hold

/-- A listed checkpoint that the graph knows. -/
theorem skip (h : Hydrated graph₀ listed graph) (hknown : c.id ∈ graph.keys) (hdistinct : c.id ∉ listed.map Checkpoint.id) :
    Hydrated graph₀ (listed ++ [c]) graph where
  known := h.known
  added c' hc' hnot := by
    rcases List.mem_append.mp hc' with hc' | hc'
    · exact h.added c' hc' hnot
    · obtain rfl := List.mem_singleton.mp hc'
      exact absurd (((h.keys c'.id).mp hknown).resolve_left hnot) hdistinct
  keys id := by
    rw [h.keys]
    simp only [List.map_append, List.map_cons, List.map_nil, List.mem_append, List.mem_singleton]
    constructor
    · rintro (hid | hid)
      · exact .inl hid
      · exact .inr (.inl hid)
    · rintro (hid | hid | rfl)
      · exact .inl hid
      · exact .inr hid
      · exact (h.keys c.id).mp hknown
  half := h.half
  kept := h.kept
  accounted p parent hp id hid := by
    rcases h.accounted p parent hp id hid with ⟨hlisted, hnamed⟩ | hold
    · exact .inl ⟨List.map_subset _ (List.subset_append_left ..) hlisted, hnamed⟩
    · exact .inr hold

/-- A listed checkpoint is linked. -/
theorem linking (h : Hydrated graph₀ listed graph) (hlinking : Linking graph graph' node)
    (hlisted : node.snapshotId ∈ listed.map Checkpoint.id) : Hydrated graph₀ listed graph' where
  known id n hn := (hlinking.bare id).trans (h.known id n hn)
  added c hc hnot := (hlinking.bare c.id).trans (h.added c hc hnot)
  keys id := hlinking.mem_keys.trans (h.keys id)
  half := hlinking.halfLinked h.half
  kept p parent₀ parent hp₀ hp := by
    obtain ⟨old, hold, rfl, -⟩ := hlinking.get? hp
    exact List.Subset.trans (h.kept p parent₀ old hp₀ hold) (subset_linkChild p old)
  accounted p parent hp id hid := by
    obtain ⟨old, hold, rfl, -⟩ := hlinking.get? hp
    unfold linkChild at hid
    split_ifs at hid with hlinks
    · rcases List.mem_append.mp hid with hid | hid
      · exact h.accounted p old hold id hid
      · obtain rfl := List.mem_singleton.mp hid
        exact .inl ⟨hlisted, hlinks.2.1⟩
    · exact h.accounted p old hold id hid

/-! ### The first pass -/

theorem hydrate {m : Manager} (h : Hydrated graph₀ listed m.snapshotGraph) (hdistinct : c.id ∉ listed.map Checkpoint.id) :
    Hydrated graph₀ (listed ++ [c]) (m.hydrate c).snapshotGraph := by
  unfold Manager.hydrate
  dsimp only
  split_ifs with hknown
  · exact h.skip hknown hdistinct
  · have hlinking : Linking (m.snapshotGraph.set c.id c.node) (recordNode m.snapshotGraph c.node) c.node :=
      linking_recordNode
    exact (h.set hknown).linking hlinking (by simp [Checkpoint.node])

theorem hydrateAll {entries : List Checkpoint} {m : Manager} (h : Hydrated graph₀ listed m.snapshotGraph)
    (hnodup : ((listed ++ entries).map Checkpoint.id).Nodup) :
    Hydrated graph₀ (listed ++ entries) (entries.foldl Manager.hydrate m).snapshotGraph := by
  induction entries generalizing listed m with
  | nil =>
    rw [List.append_nil]
    exact h
  | cons c entries ih =>
    have hdistinct : c.id ∉ listed.map Checkpoint.id := by
      rw [List.map_append, List.map_cons] at hnodup
      exact fun hc => (List.nodup_append.mp hnodup).2.2 _ hc _ (List.mem_cons_self ..) rfl
    have happend : listed ++ c :: entries = (listed ++ [c]) ++ entries := by simp
    rw [happend] at hnodup ⊢
    exact ih (h.hydrate hdistinct) hnodup

/-! ### The second pass -/

/-- The node is linked, or it names a parent that is never linked. -/
def Done (graph : Dict String SnapshotNode) (id : String) : Prop :=
  ∀ n, graph.get? id = some n → n.parentId ≠ some "" → LinkedUp graph id

theorem linkEntries {ids : List String} (hk : KeysAgree graph₀) (h : Hydrated graph₀ listed graph)
    (hids : ∀ id ∈ ids, id ∈ listed.map Checkpoint.id) :
    ∃ graph', Manager.linkEntries ids graph = (.ok (), graph') ∧ Hydrated graph₀ listed graph' ∧
      ∀ id, id ∈ ids ∨ Done graph id → Done graph' id := by
  induction ids generalizing graph with
  | nil => exact ⟨graph, rfl, h, fun id hid => hid.resolve_left List.not_mem_nil⟩
  | cons id ids ih =>
    have hlisted := hids id (List.mem_cons_self ..)
    obtain ⟨node, hnode⟩ := Dict.mem_keys_iff.mp ((h.keys id).mpr (.inr hlisted))
    have hid := h.agree hk id node hnode
    obtain ⟨graph₁, hfirst, hlinking⟩ := linkEntry_spec hnode hid
    obtain ⟨graph', hrest, hhydrated, hdone⟩ :=
      ih (h.linking hlinking (hid ▸ hlisted)) fun id' hid' => hids id' (List.mem_cons_of_mem _ hid')
    refine ⟨graph', ?_, hhydrated, fun id' hid' => hdone id' ?_⟩
    · simp only [Manager.linkEntries, hfirst, hrest]
    · rcases hid' with hid' | hid'
      · rcases List.mem_cons.mp hid' with rfl | hid'
        · refine .inr fun n hn hnamed => ?_
          obtain ⟨old, hold, -, hparent⟩ := hlinking.get? hn
          obtain rfl := Option.some.inj (hold.symm.trans hnode)
          rw [← hid]
          exact hlinking.linkedUp_self (hparent ▸ hnamed)
        · exact .inl hid'
      · refine .inr fun n hn hnamed => ?_
        obtain ⟨old, hold, -, hparent⟩ := hlinking.get? hn
        exact hlinking.linkedUp (hid' old hold (hparent ▸ hnamed))

end Hydrated

/-! ### Both passes -/

/-- The graph after both passes: what is listed is linked. -/
structure Synced (graph₀ : Dict String SnapshotNode) (listed : List Checkpoint) (graph : Dict String SnapshotNode) :
    Prop extends Hydrated graph₀ listed graph where
  linked : ∀ c ∈ listed, LinkedUp graph c.id

theorem Hydrated.synced (h : Hydrated graph₀ listed graph) (hup : ∀ id, LinkedUp graph₀ id)
    (hnamed : ∀ c ∈ listed, c.id ≠ "") (hdone : ∀ c ∈ listed, Hydrated.Done graph c.id) : Synced graph₀ listed graph where
  toHydrated := h
  linked := by
    intro c hc child p parent hchild hparentId hp
    by_cases hempty : p = ""
    · -- a listed checkpoint names no parent then, so the node and its parent were known
      subst hempty
      have hnot : "" ∉ listed.map Checkpoint.id := fun hmem => by
        obtain ⟨c', hc', he⟩ := List.mem_map.mp hmem
        exact hnamed c' hc' he
      obtain ⟨parent₀, hp₀⟩ := Dict.mem_keys_iff.mp (((h.keys "").mp (Dict.mem_keys_of_get? hp)).resolve_right hnot)
      by_cases hold : c.id ∈ graph₀.keys
      · obtain ⟨n₀, hn₀⟩ := Dict.mem_keys_iff.mp hold
        have hknown := h.known c.id n₀ hn₀
        rw [hchild, Option.map_some] at hknown
        have hbare : child.bare = n₀.bare := Option.some.inj hknown
        have hsame : child.bare.parentId = n₀.bare.parentId := congrArg SnapshotNode.parentId hbare
        exact h.kept "" parent₀ parent hp₀ hp (hup c.id n₀ "" parent₀ hn₀ (hsame.symm.trans hparentId) hp₀)
      · have hadded := h.added c hc hold
        rw [hchild, Option.map_some] at hadded
        have hbare : child.bare = c.node := Option.some.inj hadded
        have hsame : child.bare.parentId = c.node.parentId := congrArg SnapshotNode.parentId hbare
        exact absurd (hsame.symm.trans hparentId) c.parent_ne_empty
    · exact hdone c hc child hchild (by rw [hparentId]; simpa using hempty) child p parent hchild hparentId hp

namespace Synced

/-- A listed node occurs in the children of its parent once, and nowhere else. -/
theorem count (h : Synced graph₀ listed graph) (hc : c ∈ listed) {child : SnapshotNode} (hchild : graph.get? c.id = some child)
    {p : String} {parent : SnapshotNode} (hp : graph.get? p = some parent) :
    parent.children.count c.id = if child.parentId = some p then 1 else 0 := by
  split_ifs with hparentId
  · exact List.count_eq_one_of_mem (h.half.nodup p parent hp) (h.linked c hc child p parent hchild hparentId hp)
  · refine List.count_eq_zero.mpr fun hmem => hparentId ?_
    obtain ⟨child', hchild', hparentId'⟩ := h.half.sound p parent hp c.id hmem
    obtain rfl := Option.some.inj (hchild.symm.trans hchild')
    exact hparentId'

theorem mem_children (h : Synced graph₀ listed graph) {p : String} {parent : SnapshotNode} (hp : graph.get? p = some parent)
    (id : String) : id ∈ parent.children ↔
      (id ∈ listed.map Checkpoint.id ∧ p ≠ "" ∧ ∃ child, (graph.get? id).map SnapshotNode.bare = some child ∧
        child.parentId = some p) ∨ ∃ parent₀, graph₀.get? p = some parent₀ ∧ id ∈ parent₀.children := by
  constructor
  · intro hid
    rcases h.accounted p parent hp id hid with ⟨hlisted, hnamed⟩ | hold
    · obtain ⟨child, hchild, hparentId⟩ := h.half.sound p parent hp id hid
      exact .inl ⟨hlisted, hnamed, child.bare, by rw [hchild, Option.map_some], hparentId⟩
    · exact .inr hold
  · rintro (⟨hlisted, -, child, hchild, hparentId⟩ | ⟨parent₀, hp₀, hid⟩)
    · obtain ⟨c, hc, rfl⟩ := List.mem_map.mp hlisted
      obtain ⟨child', hchild', rfl⟩ := Option.map_eq_some_iff.mp hchild
      exact h.linked c hc child' p parent hchild' hparentId hp
    · exact h.kept p parent₀ parent hp₀ hp hid

/-- Only the listed checkpoints count, not their order. -/
theorem alike {listed' : List Checkpoint} (h : Synced graph₀ listed graph) (h' : Synced graph₀ listed' graph')
    (hperm : listed.Perm listed') (id : String) : Option.Rel SnapshotNode.Alike (graph.get? id) (graph'.get? id) := by
  have hids := hperm.map Checkpoint.id
  have hbare (id : String) : (graph.get? id).map SnapshotNode.bare = (graph'.get? id).map SnapshotNode.bare := by
    by_cases hold : id ∈ graph₀.keys
    · obtain ⟨n₀, hn₀⟩ := Dict.mem_keys_iff.mp hold
      rw [h.known id n₀ hn₀, h'.known id n₀ hn₀]
    · by_cases hlisted : id ∈ listed.map Checkpoint.id
      · obtain ⟨c, hc, rfl⟩ := List.mem_map.mp hlisted
        rw [h.added c hc hold, h'.added c (hperm.mem_iff.mp hc) hold]
      · have hnot : graph.get? id = none :=
          Dict.get?_eq_none_iff.mpr fun hk => ((h.keys id).mp hk).elim hold hlisted
        have hnot' : graph'.get? id = none :=
          Dict.get?_eq_none_iff.mpr fun hk => ((h'.keys id).mp hk).elim hold fun hl => hlisted (hids.mem_iff.mpr hl)
        rw [hnot, hnot']
  have hchildren {p : String} {parent parent' : SnapshotNode} (hp : graph.get? p = some parent)
      (hp' : graph'.get? p = some parent') : parent.children.Perm parent'.children := by
    refine (List.perm_ext_iff_of_nodup (h.half.nodup p parent hp) (h'.half.nodup p parent' hp')).mpr fun id => ?_
    rw [h.mem_children hp, h'.mem_children hp', hbare, hids.mem_iff]
  have hb := hbare id
  cases hn : graph.get? id with
  | none =>
    cases hn' : graph'.get? id with
    | none => exact .none
    | some n' => rw [hn, hn'] at hb; cases hb
  | some n =>
    cases hn' : graph'.get? id with
    | none => rw [hn, hn'] at hb; cases hb
    | some n' =>
      rw [hn, hn', Option.map_some, Option.map_some] at hb
      have hsame : n.bare = n'.bare := Option.some.inj hb
      have hsnapshotId : n.bare.snapshotId = n'.bare.snapshotId := congrArg SnapshotNode.snapshotId hsame
      have hparentId : n.bare.parentId = n'.bare.parentId := congrArg SnapshotNode.parentId hsame
      have hvirtual : n.bare.isVirtual = n'.bare.isVirtual := congrArg SnapshotNode.isVirtual hsame
      have hreplay : n.bare.replayCommands = n'.bare.replayCommands := congrArg SnapshotNode.replayCommands hsame
      exact .some ⟨hsnapshotId, hparentId, hchildren hn hn', hvirtual, hreplay⟩

end Synced

/-- What is linked stays as it is. -/
theorem linkEntry_of_linked {id : String} (hnode : graph.get? id = some node) (hid : node.snapshotId = id)
    (h : LinkedUp graph id) : linkEntry graph id = .ok graph := by
  unfold linkEntry
  rw [hnode]
  dsimp only
  cases hparent : node.parentId with
  | none => rfl
  | some p =>
    dsimp only
    split_ifs with hempty
    · rfl
    · cases hp : graph.get? p with
      | none => rfl
      | some parent =>
        dsimp only
        rw [if_pos (hid.symm ▸ h node p parent hnode hparent hp)]

theorem linkEntries_of_linked {ids : List String} (hk : KeysAgree graph) (hids : ∀ id ∈ ids, id ∈ graph.keys)
    (h : ∀ id ∈ ids, LinkedUp graph id) : linkEntries ids graph = (.ok (), graph) := by
  induction ids with
  | nil => rfl
  | cons id ids ih =>
    obtain ⟨node, hnode⟩ := Dict.mem_keys_iff.mp (hids id (List.mem_cons_self ..))
    have hfirst := linkEntry_of_linked hnode (hk id node hnode) (h id (List.mem_cons_self ..))
    simp only [linkEntries, hfirst]
    exact ih (fun id' hid' => hids id' (List.mem_cons_of_mem _ hid')) fun id' hid' => h id' (List.mem_cons_of_mem _ hid')

/-! ### The registry -/

theorem snapshots_hydrate (m : Manager) (c : Checkpoint) : (m.hydrate c).snapshots = m.snapshots.set c.id c.id := by
  unfold hydrate
  dsimp only
  split_ifs <;> rfl

/-- A listed checkpoint is its own resource. -/
theorem get?_snapshots_hydrateAll (entries : List Checkpoint) (m : Manager) (id : String) :
    (entries.foldl hydrate m).snapshots.get? id =
      if id ∈ entries.map Checkpoint.id then some id else m.snapshots.get? id := by
  induction entries generalizing m with
  | nil => rfl
  | cons c entries ih =>
    rw [List.foldl_cons, ih, snapshots_hydrate, Dict.get?_set, List.map_cons]
    by_cases hlater : id ∈ entries.map Checkpoint.id
    · simp [hlater]
    · by_cases he : id = c.id
      · simp [he]
      · simp [hlater, he]

/-- A node that is known and registered. -/
theorem hydrate_of_known {m : Manager} (hknown : c.id ∈ m.snapshotGraph.keys) (hregistered : m.snapshots.get? c.id = some c.id) :
    m.hydrate c = m := by
  have hsame : m.registerSnapshotResource c.id c.id = m := by
    unfold registerSnapshotResource
    rw [Dict.set_of_get? hregistered]
  unfold hydrate
  rw [hsame]
  exact if_pos hknown

theorem hydrateAll_of_known {entries : List Checkpoint} {m : Manager} (hknown : ∀ c ∈ entries, c.id ∈ m.snapshotGraph.keys)
    (hregistered : ∀ c ∈ entries, m.snapshots.get? c.id = some c.id) : entries.foldl hydrate m = m := by
  induction entries with
  | nil => rfl
  | cons c entries ih =>
    rw [List.foldl_cons, hydrate_of_known (hknown c (List.mem_cons_self ..)) (hregistered c (List.mem_cons_self ..))]
    exact ih (fun c' hc' => hknown c' (List.mem_cons_of_mem _ hc')) fun c' hc' => hregistered c' (List.mem_cons_of_mem _ hc')

theorem mem_keys_hydrate {m : Manager} {id : String} :
    id ∈ (m.hydrate c).snapshotGraph.keys ↔ id = c.id ∨ id ∈ m.snapshotGraph.keys := by
  unfold hydrate
  dsimp only
  split_ifs with hknown
  · refine ⟨.inr, ?_⟩
    rintro (rfl | hid)
    · exact hknown
    · exact hid
  · exact mem_keys_recordNode

/-- What a synchronization with the checkpoints makes of `m`. -/
structure Hydrates (m : Manager) (checkpoints : List Checkpoint) (m' : Manager) : Prop where
  treeOnly : m.TreeOnly m'
  known : ∀ id node, m.snapshotGraph.get? id = some node → ∃ node', m'.snapshotGraph.get? id = some node' ∧
    node'.snapshotId = node.snapshotId ∧ node'.parentId = node.parentId ∧ node'.isVirtual = node.isVirtual ∧
      node'.replayCommands = node.replayCommands
  added : ∀ c ∈ checkpoints, c.id ∉ m.snapshotGraph.keys → ∃ node', m'.snapshotGraph.get? c.id = some node' ∧
    node'.snapshotId = c.id ∧ node'.parentId = c.parent ∧ node'.isVirtual = false ∧ node'.replayCommands = []
  keys : ∀ id, id ∈ m'.snapshotGraph.keys ↔ id ∈ m.snapshotGraph.keys ∨ id ∈ checkpoints.map Checkpoint.id
  registered : ∀ id, m'.snapshots.get? id = if id ∈ checkpoints.map Checkpoint.id then some id else m.snapshots.get? id
  /-- A listed node occurs in the children of its parent once, and nowhere else. -/
  count : ∀ c ∈ checkpoints, ∀ node p parent, m'.snapshotGraph.get? c.id = some node →
    m'.snapshotGraph.get? p = some parent → parent.children.count c.id = if node.parentId = some p then 1 else 0

end Manager

namespace WaypointAttachManager

variable {W : Type} {B : WaypointBackend W} {m : Manager} {checkpoints : List Checkpoint}

/-- The first pass counts what it adds. -/
theorem run_hydrateAll_count {entries : List Checkpoint} (hnodup : (entries.map Checkpoint.id).Nodup) (s : Sys W) :
    ∃ added, (collect entries hydrate : M W (List Bool)).run s =
        (.ok added, { s with mgr := entries.foldl Manager.hydrate s.mgr }) ∧
      (added.filter id).length = entries.countP (·.id ∉ s.mgr.snapshotGraph.keys) := by
  induction entries generalizing s with
  | nil => exact ⟨[], rfl, rfl⟩
  | cons c entries ih =>
    obtain ⟨hfirst, hrest⟩ := List.nodup_cons.mp hnodup
    obtain ⟨added, hrun, hcount⟩ := ih hrest { s with mgr := s.mgr.hydrate c }
    refine ⟨decide (c.id ∉ s.mgr.snapshotGraph.keys) :: added, ?_, ?_⟩
    · simp only [collect, run_bind, run_hydrate, run_afterValue_ok, hrun, run_ret]
      rfl
    · have hsame : entries.countP (·.id ∉ (s.mgr.hydrate c).snapshotGraph.keys) =
          entries.countP (·.id ∉ s.mgr.snapshotGraph.keys) := by
        refine List.countP_congr fun c' hc' => ?_
        have hne : c'.id ≠ c.id := fun he => hfirst (he ▸ List.mem_map.mpr ⟨c', hc', rfl⟩)
        simp [Manager.mem_keys_hydrate, hne]
      rw [hsame] at hcount
      rw [List.countP_cons, ← hcount]
      by_cases hknown : c.id ∈ s.mgr.snapshotGraph.keys
      · simp [hknown]
      · simp [hknown]

/-- Both passes over checkpoints with names of their own. -/
theorem synced_graph (hk : KeysAgree m.snapshotGraph) (hlinked : m.GraphLinked)
    (hnodup : (checkpoints.map Checkpoint.id).Nodup) (hnamed : ∀ c ∈ checkpoints, c.id ≠ "") :
    ∃ graph, (checkpoints.foldl Manager.hydrate m).linkChildren (checkpoints.map Checkpoint.id) =
        (.ok (), { checkpoints.foldl Manager.hydrate m with snapshotGraph := graph }) ∧
      Manager.Synced m.snapshotGraph checkpoints graph := by
  obtain ⟨hhalf, hup⟩ := Manager.graphLinked_iff.mp hlinked
  have hfirst := (Manager.Hydrated.refl hhalf).hydrateAll (by simpa using hnodup)
  rw [List.nil_append] at hfirst
  obtain ⟨graph, hrun, hhydrated, hdone⟩ := hfirst.linkEntries hk fun _ hid => hid
  refine ⟨graph, ?_, hhydrated.synced hup hnamed fun c hc => hdone c.id (.inl (List.mem_map.mpr ⟨c, hc, rfl⟩))⟩
  unfold Manager.linkChildren
  rw [hrun]

/-- A whole synchronization. -/
theorem run_sync {s : Sys W} {w : W} (hk : KeysAgree s.mgr.snapshotGraph) (hlinked : s.mgr.GraphLinked)
    (hnodup : (checkpoints.map Checkpoint.id).Nodup) (hnamed : ∀ c ∈ checkpoints, c.id ≠ "")
    (hlisting : B.checkpoints s.world = (.ok (some checkpoints), w)) :
    ∃ graph, (syncSnapshotTree B).run s = (.ok (checkpoints.countP (·.id ∉ s.mgr.snapshotGraph.keys)),
        ⟨{ checkpoints.foldl Manager.hydrate s.mgr with snapshotGraph := graph }, w⟩) ∧
      Manager.Synced s.mgr.snapshotGraph checkpoints graph := by
  have hentries : checkpoints.filter (fun c => c.id ≠ "") = checkpoints :=
    List.filter_eq_self.mpr fun c hc => decide_eq_true (hnamed c hc)
  obtain ⟨added, hfirst, hcount⟩ := run_hydrateAll_count (W := W) hnodup ⟨s.mgr, w⟩
  obtain ⟨graph, hsecond, hsynced⟩ := synced_graph hk hlinked hnodup hnamed
  refine ⟨graph, ?_, hsynced⟩
  simp only [syncSnapshotTree, run_bind, run_tryWorld, hlisting, run_afterValue_ok, hentries, hfirst, run_tryState,
    hsecond, run_pure, hcount]

/-- A synchronization with checkpoints that are known, registered and linked. -/
theorem run_resync {s : Sys W} {w : W} (hk : KeysAgree s.mgr.snapshotGraph)
    (hknown : ∀ c ∈ checkpoints, c.id ∈ s.mgr.snapshotGraph.keys)
    (hregistered : ∀ c ∈ checkpoints, s.mgr.snapshots.get? c.id = some c.id)
    (hlinked : ∀ c ∈ checkpoints, Manager.LinkedUp s.mgr.snapshotGraph c.id)
    (hnodup : (checkpoints.map Checkpoint.id).Nodup) (hnamed : ∀ c ∈ checkpoints, c.id ≠ "")
    (hlisting : B.checkpoints s.world = (.ok (some checkpoints), w)) :
    (syncSnapshotTree B).run s = (.ok 0, { s with world := w }) := by
  have hentries : checkpoints.filter (fun c => c.id ≠ "") = checkpoints :=
    List.filter_eq_self.mpr fun c hc => decide_eq_true (hnamed c hc)
  obtain ⟨added, hfirst, hcount⟩ := run_hydrateAll_count (W := W) hnodup ⟨s.mgr, w⟩
  have hnone : checkpoints.countP (·.id ∉ s.mgr.snapshotGraph.keys) = 0 :=
    List.countP_eq_zero.mpr fun c hc => by simpa using hknown c hc
  rw [Manager.hydrateAll_of_known hknown hregistered] at hfirst
  have hids : ∀ id ∈ checkpoints.map Checkpoint.id, id ∈ s.mgr.snapshotGraph.keys := by
    rintro id hid
    obtain ⟨c, hc, rfl⟩ := List.mem_map.mp hid
    exact hknown c hc
  have hup : ∀ id ∈ checkpoints.map Checkpoint.id, Manager.LinkedUp s.mgr.snapshotGraph id := by
    rintro id hid
    obtain ⟨c, hc, rfl⟩ := List.mem_map.mp hid
    exact hlinked c hc
  have hsecond : s.mgr.linkChildren (checkpoints.map Checkpoint.id) = (.ok (), s.mgr) := by
    unfold Manager.linkChildren
    rw [Manager.linkEntries_of_linked hk hids hup]
  simp only [syncSnapshotTree, run_bind, run_tryWorld, hlisting, run_afterValue_ok, hentries, hfirst, run_tryState,
    hsecond, run_pure, hcount, hnone]

theorem treeOnly_hydrateAll (entries : List Checkpoint) (m : Manager) : m.TreeOnly (entries.foldl Manager.hydrate m) := by
  induction entries generalizing m with
  | nil => exact ⟨_, _, rfl⟩
  | cons c entries ih => exact (Manager.treeOnly_hydrate m c).trans (ih (m.hydrate c))

theorem hydrates_of_synced {graph : Dict String SnapshotNode} (h : Manager.Synced m.snapshotGraph checkpoints graph) :
    m.Hydrates checkpoints { checkpoints.foldl Manager.hydrate m with snapshotGraph := graph } where
  treeOnly := (treeOnly_hydrateAll checkpoints m).trans ⟨_, _, rfl⟩
  known := by
    intro id node hnode
    obtain ⟨node', hnode', hbare⟩ := Option.map_eq_some_iff.mp (h.known id node hnode)
    have hid : node'.bare.snapshotId = node.bare.snapshotId := congrArg SnapshotNode.snapshotId hbare
    have hparentId : node'.bare.parentId = node.bare.parentId := congrArg SnapshotNode.parentId hbare
    have hvirtual : node'.bare.isVirtual = node.bare.isVirtual := congrArg SnapshotNode.isVirtual hbare
    have hreplay : node'.bare.replayCommands = node.bare.replayCommands := congrArg SnapshotNode.replayCommands hbare
    exact ⟨node', hnode', hid, hparentId, hvirtual, hreplay⟩
  added := by
    intro c hc hnew
    obtain ⟨node', hnode', hbare⟩ := Option.map_eq_some_iff.mp (h.added c hc hnew)
    have hid : node'.bare.snapshotId = c.node.snapshotId := congrArg SnapshotNode.snapshotId hbare
    have hparentId : node'.bare.parentId = c.node.parentId := congrArg SnapshotNode.parentId hbare
    have hvirtual : node'.bare.isVirtual = c.node.isVirtual := congrArg SnapshotNode.isVirtual hbare
    have hreplay : node'.bare.replayCommands = c.node.replayCommands := congrArg SnapshotNode.replayCommands hbare
    exact ⟨node', hnode', hid, hparentId, hvirtual, hreplay⟩
  keys := h.keys
  registered := Manager.get?_snapshots_hydrateAll checkpoints m
  count := fun c hc node p parent hnode hp => h.count hc hnode hp

end WaypointAttachManager

open WaypointAttachManager in
/-- A synchronization adds the listed checkpoints and links them; the order of the listing does not matter, and a second
synchronization changes nothing. -/
theorem sync_hydrates {W : Type} {B : WaypointBackend W} {s : Sys W} {checkpoints : List Checkpoint} {w : W}
    (hk : KeysAgree s.mgr.snapshotGraph) (hlinked : s.mgr.GraphLinked) (hnodup : (checkpoints.map Checkpoint.id).Nodup)
    (hnamed : ∀ c ∈ checkpoints, c.id ≠ "") (hlisting : B.checkpoints s.world = (.ok (some checkpoints), w)) :
    ∃ m, (syncSnapshotTree B).run s = (.ok (checkpoints.countP (·.id ∉ s.mgr.snapshotGraph.keys)), ⟨m, w⟩) ∧
      s.mgr.Hydrates checkpoints m ∧
      (∀ (B' : WaypointBackend W) (checkpoints' : List Checkpoint) (v v' : W), checkpoints.Perm checkpoints' →
        B'.checkpoints v = (.ok (some checkpoints'), v') →
        ∃ m', (syncSnapshotTree B').run ⟨s.mgr, v⟩ =
            (.ok (checkpoints.countP (·.id ∉ s.mgr.snapshotGraph.keys)), ⟨m', v'⟩) ∧ m.AgreeUpToOrder m') ∧
      ∀ (B' : WaypointBackend W) (v v' : W), B'.checkpoints v = (.ok (some checkpoints), v') →
        (syncSnapshotTree B').run ⟨m, v⟩ = (.ok 0, ⟨m, v'⟩) := by
  obtain ⟨graph, hrun, hsynced⟩ := run_sync hk hlinked hnodup hnamed hlisting
  have hhydrates := hydrates_of_synced hsynced
  refine ⟨_, hrun, hhydrates, ?_, ?_⟩
  · intro B' checkpoints' v v' hperm hlisting'
    have hnodup' := (hperm.map Checkpoint.id).nodup_iff.mp hnodup
    have hnamed' : ∀ c ∈ checkpoints', c.id ≠ "" := fun c hc => hnamed c (hperm.mem_iff.mpr hc)
    obtain ⟨graph', hrun', hsynced'⟩ := run_sync (s := ⟨s.mgr, v⟩) hk hlinked hnodup' hnamed' hlisting'
    have hhydrates' := hydrates_of_synced hsynced'
    refine ⟨_, by rw [hrun', hperm.countP_eq], ?_⟩
    obtain ⟨snapshots, _, hm⟩ := treeOnly_hydrateAll checkpoints s.mgr
    obtain ⟨snapshots', _, hm'⟩ := treeOnly_hydrateAll checkpoints' s.mgr
    have hregistered (id : String) : (checkpoints.foldl Manager.hydrate s.mgr).snapshots.get? id =
        (checkpoints'.foldl Manager.hydrate s.mgr).snapshots.get? id := by
      rw [Manager.get?_snapshots_hydrateAll, Manager.get?_snapshots_hydrateAll]
      simp only [(hperm.map Checkpoint.id).mem_iff]
    have hgraph := hsynced.alike hsynced' hperm
    rw [hm, hm'] at hregistered ⊢
    exact ⟨hregistered, hgraph, .refl _, rfl, rfl, rfl, rfl, rfl, rfl⟩
  · intro B' v v' hlisting'
    exact run_resync (hsynced.agree hk) (fun c hc => (hsynced.keys c.id).mpr (.inr (List.mem_map.mpr ⟨c, hc, rfl⟩)))
      (fun c hc => (hhydrates.registered c.id).trans (if_pos (List.mem_map.mpr ⟨c, hc, rfl⟩))) hsynced.linked hnodup hnamed
      hlisting'

/-- A session that lists a child before its parent, and a checkpoint that is its own parent. -/
def tangledSession : WaypointBackend Shared :=
  { Shared.backend with
    checkpoints := fun w => (.ok (some [⟨"c2", some "c1"⟩, ⟨"c1", some "base"⟩, ⟨"loop", some "loop"⟩]), w) }

theorem seeded_linked : KeysAgree (Manager.seeded "base" "base").snapshotGraph ∧ (Manager.seeded "base" "base").GraphLinked := by
  have hgraph : (Manager.seeded "base" "base").snapshotGraph =
      Dict.empty.set "base" { snapshotId := "base", parentId := none } := rfl
  have honly {id : String} {n : SnapshotNode} (hn : (Manager.seeded "base" "base").snapshotGraph.get? id = some n) :
      id = "base" ∧ n = { snapshotId := "base", parentId := none } := by
    rw [hgraph, Dict.get?_set] at hn
    split_ifs at hn with he
    · exact ⟨he, (Option.some.inj hn).symm⟩
    · rw [Dict.get?_empty] at hn
      cases hn
  refine ⟨fun id n hn => ?_, Manager.graphLinked_iff.mpr ⟨⟨fun p parent hp c hc => ?_, fun p parent hp => ?_⟩,
    fun c child p parent hchild hparentId hp => ?_⟩⟩
  · obtain ⟨rfl, rfl⟩ := honly hn
    rfl
  · obtain ⟨-, rfl⟩ := honly hp
    exact absurd hc List.not_mem_nil
  · obtain ⟨-, rfl⟩ := honly hp
    exact List.nodup_nil
  · obtain ⟨-, rfl⟩ := honly hchild
    cases hparentId

theorem sync_hydrates_tangled :
    ∃ m, (WaypointAttachManager.syncSnapshotTree tangledSession).run ⟨Manager.seeded "base" "base", Shared.start [] []⟩ =
        (.ok 3, ⟨m, Shared.start [] []⟩) ∧
      (∀ node p parent, m.snapshotGraph.get? "loop" = some node → m.snapshotGraph.get? p = some parent →
        parent.children.count "loop" = if node.parentId = some p then 1 else 0) ∧
      (WaypointAttachManager.syncSnapshotTree tangledSession).run ⟨m, Shared.start [] []⟩ =
        (.ok 0, ⟨m, Shared.start [] []⟩) := by
  obtain ⟨hk, hlinked⟩ := seeded_linked
  have hlisting : tangledSession.checkpoints (Shared.start [] []) =
      (.ok (some [⟨"c2", some "c1"⟩, ⟨"c1", some "base"⟩, ⟨"loop", some "loop"⟩]), Shared.start [] []) := rfl
  obtain ⟨m, hrun, hhydrates, -, hagain⟩ := sync_hydrates (s := ⟨Manager.seeded "base" "base", Shared.start [] []⟩) hk hlinked
    (by decide) (by decide) hlisting
  have hloop : (⟨"loop", some "loop"⟩ : Checkpoint) ∈
      ([⟨"c2", some "c1"⟩, ⟨"c1", some "base"⟩, ⟨"loop", some "loop"⟩] : List Checkpoint) := by simp
  exact ⟨m, hrun, hhydrates.count _ hloop, hagain tangledSession _ _ rfl⟩

end StateFork
