import Mathlib.Data.List.Perm.Subperm
import StateFork.Controller.State

/-!
# The ancestor walk

`Chain graph s a commands` says that `a` is the nearest physical ancestor of `s` and that replaying
`commands` leads from `a` to `s`. It is a relation between finitely many nodes of the graph, so it
survives whatever is recorded later (`Chain.mono`), which the walk with its fuel and its visited set
does not show. `physicalAncestor_ok` says that the walk only finds chains. It finds one from every
node of a graph in which the parents of virtual nodes were recorded earlier
(`physicalAncestor_of_ordered`), and it always has enough fuel (`physicalAncestor_ne_outOfFuel`).
-/

namespace StateFork

/-- Nodes are stored under their own ids. -/
def KeysAgree (graph : Dict String SnapshotNode) : Prop :=
  ∀ id node, graph.get? id = some node → node.snapshotId = id

/-- Parent and nearest physical ancestor, by the commands in between. -/
inductive Chain (graph : Dict String SnapshotNode) : String → String → List Command → Prop
  | physical {id : String} {node : SnapshotNode} (found : graph.get? id = some node)
      (kind : node.isVirtual = false) : Chain graph id id []
  | virtual {id p a : String} {node : SnapshotNode} {commands : List Command}
      (found : graph.get? id = some node) (kind : node.isVirtual = true)
      (parent : node.parentId = some p) (above : Chain graph p a commands) :
      Chain graph id a (commands ++ node.replayCommands)

/-- `graph'` keeps the nodes of `graph`, except for their children. -/
def Extends (graph graph' : Dict String SnapshotNode) : Prop :=
  ∀ id node, graph.get? id = some node → ∃ node', graph'.get? id = some node' ∧
    node'.isVirtual = node.isVirtual ∧ node'.parentId = node.parentId ∧
    node'.replayCommands = node.replayCommands

/-- `p` was recorded before `id`: dictionaries keep the order of insertion. -/
def RecordedBefore (graph : Dict String SnapshotNode) (p id : String) : Prop :=
  graph.keys.idxOf p < graph.keys.idxOf id

/-- Every virtual node has a parent that was recorded before it. -/
def Ordered (graph : Dict String SnapshotNode) : Prop :=
  ∀ id node, graph.get? id = some node → node.isVirtual = true →
    ∃ p, node.parentId = some p ∧ RecordedBefore graph p id

namespace Extends

variable {graph graph' graph'' : Dict String SnapshotNode}

theorem refl (graph : Dict String SnapshotNode) : Extends graph graph :=
  fun _ node found => ⟨node, found, rfl, rfl, rfl⟩

theorem trans (h : Extends graph graph') (h' : Extends graph' graph'') : Extends graph graph'' := by
  intro id node found
  obtain ⟨node', found', kind, parent, replay⟩ := h id node found
  obtain ⟨node'', found'', kind', parent', replay'⟩ := h' id node' found'
  exact ⟨node'', found'', kind'.trans kind, parent'.trans parent, replay'.trans replay⟩

theorem mem_keys (h : Extends graph graph') {id : String} (hid : id ∈ graph.keys) : id ∈ graph'.keys := by
  obtain ⟨node, found⟩ := Dict.mem_keys_iff.mp hid
  obtain ⟨node', found', -⟩ := h id node found
  exact Dict.mem_keys_of_get? found'

end Extends

theorem RecordedBefore.mem {graph : Dict String SnapshotNode} {p id : String}
    (h : RecordedBefore graph p id) : p ∈ graph.keys :=
  List.idxOf_lt_length_iff.mp (Nat.lt_of_lt_of_le h List.idxOf_le_length)

theorem recordedBefore_append {graph graph' : Dict String SnapshotNode} {p id : String} {l : List String}
    (hkeys : graph'.keys = graph.keys ++ l) (h : RecordedBefore graph p id) (hid : id ∈ graph.keys) :
    RecordedBefore graph' p id := by
  have hp := h.mem
  unfold RecordedBefore at h ⊢
  rw [hkeys, List.idxOf_append_of_mem hid, List.idxOf_append_of_mem hp]
  exact h

theorem recordedBefore_last {graph graph' : Dict String SnapshotNode} {p id : String}
    (hkeys : graph'.keys = graph.keys ++ [id]) (hp : p ∈ graph.keys) (hid : id ∉ graph.keys) :
    RecordedBefore graph' p id := by
  have hlt := List.idxOf_lt_length_iff.mpr hp
  unfold RecordedBefore
  rw [hkeys, List.idxOf_append_of_mem hp, List.idxOf_append_of_notMem hid]
  omega

namespace Chain

variable {graph graph' : Dict String SnapshotNode} {id a a' : String} {commands commands' : List Command}

/-- A node has one nearest physical ancestor. -/
theorem unique (h : Chain graph id a commands) (h' : Chain graph id a' commands') :
    a = a' ∧ commands = commands' := by
  induction h generalizing a' commands' with
  | physical found kind =>
    cases h' with
    | physical => exact ⟨rfl, rfl⟩
    | virtual found' kind' => simp [found] at found'; simp [← found', kind] at kind'
  | virtual found kind parent above ih =>
    cases h' with
    | physical found' kind' => simp [found] at found'; simp [← found', kind] at kind'
    | virtual found' kind' parent' above' =>
      obtain rfl : _ = _ := Option.some.inj (found.symm.trans found')
      obtain rfl : _ = _ := Option.some.inj (parent.symm.trans parent')
      obtain ⟨rfl, rfl⟩ := ih above'
      exact ⟨rfl, rfl⟩

theorem mono (h : Chain graph id a commands) (hext : Extends graph graph') :
    Chain graph' id a commands := by
  induction h with
  | physical found kind =>
    obtain ⟨node', found', kind', -, -⟩ := hext _ _ found
    exact .physical found' (kind'.trans kind)
  | virtual found kind parent above ih =>
    obtain ⟨node', found', kind', parent', replay'⟩ := hext _ _ found
    rw [← replay']
    exact .virtual found' (kind'.trans kind) (parent'.trans parent) ih

theorem mem_keys (h : Chain graph id a commands) : id ∈ graph.keys := by
  cases h with
  | physical found => exact Dict.mem_keys_of_get? found
  | virtual found => exact Dict.mem_keys_of_get? found

/-- The chain ends at a physical node. -/
theorem ancestor (h : Chain graph id a commands) :
    ∃ node, graph.get? a = some node ∧ node.isVirtual = false := by
  induction h with
  | physical found kind => exact ⟨_, found, kind⟩
  | virtual _ _ _ _ ih => exact ih

end Chain

/-- The nearest physical ancestor of a node is `n` steps above it. -/
def Climbs (graph : Dict String SnapshotNode) : Nat → String → Prop
  | 0, id => ∃ node, graph.get? id = some node ∧ node.isVirtual = false
  | n + 1, id => ∃ node p, graph.get? id = some node ∧ node.isVirtual = true ∧ node.parentId = some p ∧ Climbs graph n p

section

variable {graph : Dict String SnapshotNode} {id : String}

theorem Climbs.unique {n n' : Nat} (h : Climbs graph n id) (h' : Climbs graph n' id) : n = n' := by
  induction n generalizing n' id with
  | zero =>
    obtain ⟨node, found, kind⟩ := h
    cases n' with
    | zero => rfl
    | succ n' =>
      obtain ⟨node', _, found', kind', -⟩ := h'
      obtain rfl := Option.some.inj (found.symm.trans found')
      rw [kind] at kind'
      cases kind'
  | succ n ih =>
    obtain ⟨node, p, found, kind, parent, habove⟩ := h
    cases n' with
    | zero =>
      obtain ⟨node', found', kind'⟩ := h'
      obtain rfl := Option.some.inj (found.symm.trans found')
      rw [kind] at kind'
      cases kind'
    | succ n' =>
      obtain ⟨node', p', found', -, parent', habove'⟩ := h'
      obtain rfl := Option.some.inj (found.symm.trans found')
      obtain rfl := Option.some.inj (parent.symm.trans parent')
      rw [ih habove habove']

theorem Chain.climbs {a : String} {commands : List Command} (h : Chain graph id a commands) :
    ∃ n, Climbs graph n id := by
  induction h with
  | physical found kind => exact ⟨0, _, found, kind⟩
  | virtual found kind parent _ ih =>
    obtain ⟨n, hn⟩ := ih
    exact ⟨n + 1, _, _, found, kind, parent, hn⟩

end

namespace Manager

variable {graph : Dict String SnapshotNode}

/-! ### The walk -/

/-- What the walk finds is a chain, in front of the commands collected so far. -/
theorem walkFrom_ok (hk : KeysAgree graph) {fuel : Nat} {node : SnapshotNode} {visited : List String}
    {collected : List Command} {ancestor : SnapshotNode} {commands : List Command} {id : String}
    (found : graph.get? id = some node)
    (h : walkFrom graph fuel node visited collected = .ok (ancestor, commands)) :
    graph.get? ancestor.snapshotId = some ancestor ∧
      ∃ above, commands = above ++ collected ∧ Chain graph id ancestor.snapshotId above := by
  induction fuel generalizing node visited collected id with
  | zero => simp [walkFrom] at h
  | succ fuel ih =>
    have hid := hk _ _ found
    unfold walkFrom at h
    split_ifs at h with hv hmem
    · obtain ⟨rfl, rfl⟩ : node = ancestor ∧ collected = commands := by simpa using h
      exact ⟨hid.symm ▸ found, [], rfl, hid.symm ▸ .physical found hv⟩
    · split at h
      · exact absurd h (by simp)
      · next p hp =>
        split at h
        · exact absurd h (by simp)
        · next parent hparent =>
          obtain ⟨hanc, above, rfl, hchain⟩ := ih hparent h
          refine ⟨hanc, above ++ node.replayCommands, by rw [List.append_assoc], ?_⟩
          exact .virtual found (by simpa using hv) hp hchain

/-- The walk of `restore` finds the chain of a snapshot. -/
theorem physicalAncestor_ok {m : Manager} (hk : KeysAgree m.snapshotGraph) {id : String}
    {ancestor : SnapshotNode} {commands : List Command}
    (h : m.physicalAncestor id = .ok (ancestor, commands)) :
    m.snapshotGraph.get? ancestor.snapshotId = some ancestor ∧
      Chain m.snapshotGraph id ancestor.snapshotId commands := by
  unfold physicalAncestor at h
  split at h
  · exact absurd h (by simp)
  · next node found =>
    obtain ⟨hanc, above, habove, hchain⟩ := walkFrom_ok hk found h
    rw [List.append_nil] at habove
    exact ⟨hanc, habove ▸ hchain⟩

/-- The visited ids are distinct ids of the graph, so the walk leaves its loop before the fuel is
used up. -/
theorem walkFrom_ne_outOfFuel (hk : KeysAgree graph) {fuel : Nat} {node : SnapshotNode}
    {visited : List String} {collected : List Command} {id : String}
    (found : graph.get? id = some node) (hnodup : visited.Nodup) (hsub : visited ⊆ graph.keys)
    (hfuel : graph.keys.length < visited.length + fuel) :
    walkFrom graph fuel node visited collected ≠ .error .outOfFuel := by
  induction fuel generalizing node visited collected id with
  | zero =>
    have hle := (List.subperm_of_subset hnodup hsub).length_le
    omega
  | succ fuel ih =>
    have hid : node.snapshotId ∈ graph.keys := by
      rw [hk _ _ found]
      exact Dict.mem_keys_of_get? found
    unfold walkFrom
    split_ifs with hv hmem
    · simp
    · simp
    · split
      · simp
      · split
        · simp
        · next parent hparent =>
          refine ih hparent (List.nodup_cons.mpr ⟨hmem, hnodup⟩) ?_ ?_
          · exact List.cons_subset.mpr ⟨hid, hsub⟩
          · rw [List.length_cons]
            omega

theorem physicalAncestor_ne_outOfFuel {m : Manager} (hk : KeysAgree m.snapshotGraph) (id : String) :
    m.physicalAncestor id ≠ .error .outOfFuel := by
  unfold physicalAncestor
  split
  · simp
  · next node found =>
    refine walkFrom_ne_outOfFuel hk found List.nodup_nil (by simp) ?_
    simp [Dict.keys]

/-- The visited nodes are farther from their ancestor than the next one, so no node is met twice. -/
theorem walkFrom_of_climbs (hk : KeysAgree graph) {fuel n : Nat} {node : SnapshotNode} {visited : List String}
    {collected : List Command} {id : String} (found : graph.get? id = some node) (h : Climbs graph n id)
    (hvisited : ∀ v ∈ visited, ∃ k, n < k ∧ Climbs graph k v) :
    (∃ r, walkFrom graph fuel node visited collected = .ok r) ∨
      walkFrom graph fuel node visited collected = .error .outOfFuel := by
  induction fuel generalizing n node visited collected id with
  | zero => exact .inr rfl
  | succ fuel ih =>
    have hid := hk _ _ found
    unfold walkFrom
    split_ifs with hv hmem
    · exact .inl ⟨_, rfl⟩
    · obtain ⟨k, hlt, hk⟩ := hvisited _ hmem
      exact absurd (h.unique (hid ▸ hk)) (by omega)
    · cases n with
      | zero =>
        obtain ⟨node', found', kind⟩ := h
        obtain rfl := Option.some.inj (found.symm.trans found')
        exact absurd kind hv
      | succ n =>
        have hself := h
        obtain ⟨node', p, found', -, parent, habove⟩ := h
        obtain rfl := Option.some.inj (found.symm.trans found')
        obtain ⟨parentNode, hparent⟩ : ∃ parentNode, graph.get? p = some parentNode := by
          cases n with
          | zero => exact habove.imp fun _ h => h.1
          | succ n => exact habove.imp fun _ ⟨_, h⟩ => h.1
        simp only [parent, hparent]
        refine ih hparent habove fun v hv' => ?_
        rcases List.mem_cons.mp hv' with rfl | hv'
        · exact ⟨n + 1, n.lt_succ_self, hid ▸ hself⟩
        · obtain ⟨k, hlt, hk⟩ := hvisited v hv'
          exact ⟨k, by omega, hk⟩

/-- The walk finds every chain. -/
theorem physicalAncestor_of_chain {m : Manager} (hk : KeysAgree m.snapshotGraph) {id a : String} {commands : List Command}
    (h : Chain m.snapshotGraph id a commands) :
    ∃ ancestor, ancestor.snapshotId = a ∧ m.physicalAncestor id = .ok (ancestor, commands) := by
  obtain ⟨node, found⟩ := Dict.mem_keys_iff.mp h.mem_keys
  obtain ⟨n, hn⟩ := h.climbs
  have hfuel := physicalAncestor_ne_outOfFuel hk id
  have hwalk : ∃ r, m.physicalAncestor id = .ok r := by
    unfold physicalAncestor at hfuel ⊢
    rw [found] at hfuel ⊢
    exact (walkFrom_of_climbs hk found hn (by simp)).resolve_right hfuel
  obtain ⟨⟨ancestor, commands'⟩, hr⟩ := hwalk
  obtain ⟨hancestor, hcommands⟩ := (physicalAncestor_ok hk hr).2.unique h
  exact ⟨ancestor, hancestor, hcommands ▸ hr⟩

/-- Ids get smaller along the walk, so no id is met twice and none is missing. -/
theorem walkFrom_of_ordered (hk : KeysAgree graph) (ho : Ordered graph) {fuel : Nat}
    {node : SnapshotNode} {visited : List String} {collected : List Command} {id : String}
    (found : graph.get? id = some node) (hfuel : graph.keys.idxOf id < fuel)
    (hvisited : ∀ v ∈ visited, RecordedBefore graph id v) :
    ∃ r, walkFrom graph fuel node visited collected = .ok r := by
  induction fuel generalizing node visited collected id with
  | zero => omega
  | succ fuel ih =>
    have hid := hk _ _ found
    unfold walkFrom
    split_ifs with hv hmem
    · exact ⟨_, rfl⟩
    · exact absurd (hvisited _ hmem) (by rw [hid]; exact lt_irrefl _)
    · obtain ⟨p, hp, hbefore⟩ := ho _ _ found (by simpa using hv)
      obtain ⟨parent, hparent⟩ := Dict.mem_keys_iff.mp hbefore.mem
      simp only [hp, hparent]
      refine ih hparent (Nat.lt_of_lt_of_le hbefore (Nat.le_of_lt_succ hfuel)) fun v hmem' => ?_
      rcases List.mem_cons.mp hmem' with rfl | hmem'
      · rw [hid]
        exact hbefore
      · exact lt_trans hbefore (hvisited v hmem')

theorem physicalAncestor_of_ordered {m : Manager} (hk : KeysAgree m.snapshotGraph)
    (ho : Ordered m.snapshotGraph) {id : String} (h : id ∈ m.snapshotGraph.keys) :
    ∃ r, m.physicalAncestor id = .ok r := by
  obtain ⟨node, found⟩ := Dict.mem_keys_iff.mp h
  simp only [physicalAncestor, found]
  refine walkFrom_of_ordered hk ho found ?_ (by simp)
  have hlt := List.idxOf_lt_length_iff.mpr h
  have hlen : m.snapshotGraph.keys.length = m.snapshotGraph.entries.length := List.length_map ..
  omega

/-! ### Recording a node -/

/-- An old node after `node` was recorded. -/
def linkChild (node : SnapshotNode) (id : String) (old : SnapshotNode) : SnapshotNode :=
  if node.parentId = some id ∧ id ≠ "" ∧ node.snapshotId ∉ old.children then
    { old with children := old.children ++ [node.snapshotId] }
  else old

variable {node : SnapshotNode}

/-- The graph after a node was recorded whose id is not its own parent's. -/
theorem get?_recordNode (hself : node.parentId ≠ some node.snapshotId) (id : String) :
    (recordNode graph node).get? id =
      if id = node.snapshotId then some node else (graph.get? id).map (linkChild node id) := by
  have hset (h : ∀ old, graph.get? id = some old → linkChild node id old = old) :
      (graph.set node.snapshotId node).get? id =
        if id = node.snapshotId then some node else (graph.get? id).map (linkChild node id) := by
    rw [Dict.get?_set]
    cases hg : graph.get? id with
    | none => rfl
    | some old => rw [Option.map_some, h old hg]
  unfold recordNode
  cases hp : node.parentId with
  | none => exact hset fun old _ => by simp [linkChild, hp]
  | some p =>
    have hpn : p ≠ node.snapshotId := fun h => hself (hp.trans (congrArg some h))
    dsimp only
    rw [Dict.get?_set_of_ne _ _ hpn]
    by_cases hempty : p = ""
    · rw [if_pos hempty]
      exact hset fun old _ => if_neg fun h => h.2.1 (Option.some.inj (h.1.symm.trans hp) ▸ hempty)
    · rw [if_neg hempty]
      cases hparent : graph.get? p with
      | none =>
        refine hset fun old hold => if_neg fun h => ?_
        rw [Option.some.inj (h.1.symm.trans hp), hparent] at hold
        exact absurd hold (by simp)
      | some parent =>
        dsimp only
        by_cases hchild : node.snapshotId ∈ parent.children
        · rw [if_pos hchild]
          refine hset fun old hold => if_neg fun h => ?_
          rw [Option.some.inj (h.1.symm.trans hp), hparent] at hold
          exact h.2.2 (Option.some.inj hold ▸ hchild)
        · rw [if_neg hchild, Dict.get?_set]
          by_cases hid : id = p
          · subst hid
            rw [if_pos rfl, if_neg hpn, hparent, Option.map_some, linkChild, if_pos ⟨hp, hempty, hchild⟩]
          · rw [if_neg hid]
            exact hset fun old _ => if_neg fun h => hid (Option.some.inj (h.1.symm.trans hp))

theorem get?_recordNode_self (hself : node.parentId ≠ some node.snapshotId) :
    (recordNode graph node).get? node.snapshotId = some node := by
  rw [get?_recordNode hself, if_pos rfl]

theorem keys_recordNode (h : node.snapshotId ∉ graph.keys) :
    (recordNode graph node).keys = graph.keys ++ [node.snapshotId] := by
  have hset := Dict.keys_set_of_not_mem h node
  unfold recordNode
  dsimp only
  split
  · exact hset
  · split_ifs
    · exact hset
    · split
      · exact hset
      · next parent hparent =>
        split_ifs
        · exact hset
        · rw [Dict.keys_set_of_mem (Dict.mem_keys_of_get? hparent), hset]

@[simp] theorem linkChild_snapshotId (id : String) (old : SnapshotNode) :
    (linkChild node id old).snapshotId = old.snapshotId := by
  unfold linkChild
  split_ifs <;> rfl

/-- Only the children of a node can change when another node is recorded. -/
theorem linkChild_eq (id : String) (old : SnapshotNode) :
    linkChild node id old = { old with children := (linkChild node id old).children } := by
  unfold linkChild
  split_ifs <;> rfl

/-- A recorded node does not disturb the others. -/
theorem extends_recordNode (h : node.snapshotId ∉ graph.keys)
    (hself : node.parentId ≠ some node.snapshotId) : Extends graph (recordNode graph node) := by
  intro id old hold
  have hne : id ≠ node.snapshotId := fun he => h (he ▸ Dict.mem_keys_of_get? hold)
  refine ⟨linkChild node id old, ?_, ?_⟩
  · rw [get?_recordNode hself, if_neg hne, hold, Option.map_some]
  · rw [linkChild_eq]
    exact ⟨rfl, rfl, rfl⟩

/-- What holds of all nodes, whatever their children, holds after a node was recorded of which it holds. -/
theorem forall_recordNode {P : String → SnapshotNode → Prop}
    (hP : ∀ id n children, P id n → P id { n with children := children })
    (hgraph : ∀ id n, graph.get? id = some n → P id n) (hnode : P node.snapshotId node) :
    ∀ id n, (recordNode graph node).get? id = some n → P id n := by
  have hset : ∀ id n, (graph.set node.snapshotId node).get? id = some n → P id n := by
    intro id n hn
    rw [Dict.get?_set] at hn
    split_ifs at hn with hid
    · rw [hid, ← Option.some.inj hn]
      exact hnode
    · exact hgraph id n hn
  unfold recordNode
  dsimp only
  split
  · exact hset
  · split_ifs
    · exact hset
    · split
      · exact hset
      · next parent hparent =>
        split_ifs
        · exact hset
        · intro id n hn
          rw [Dict.get?_set] at hn
          split_ifs at hn with hid
          · rw [hid, ← Option.some.inj hn]
            exact hP _ _ _ (hset _ _ hparent)
          · exact hset id n hn

/-- Recording a node sets its parent and no other one. -/
theorem parentId_recordNode (graph : Dict String SnapshotNode) (node : SnapshotNode) (id : String) :
    ((recordNode graph node).get? id).map SnapshotNode.parentId =
      if id = node.snapshotId then some node.parentId else (graph.get? id).map SnapshotNode.parentId := by
  have hset : ((graph.set node.snapshotId node).get? id).map SnapshotNode.parentId =
      if id = node.snapshotId then some node.parentId else (graph.get? id).map SnapshotNode.parentId := by
    rw [Dict.get?_set]
    split_ifs <;> rfl
  rw [← hset]
  unfold recordNode
  dsimp only
  split
  · rfl
  · split_ifs
    · rfl
    · split
      · rfl
      · next parent hparent =>
        split_ifs
        · rfl
        · rw [Dict.get?_set]
          split_ifs with hid
          · rw [hid, hparent]
            rfl
          · rfl

theorem keysAgree_recordNode (hk : KeysAgree graph) : KeysAgree (recordNode graph node) :=
  forall_recordNode (fun _ _ _ h => h) hk rfl

end Manager

end StateFork
