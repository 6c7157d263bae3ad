import StateFork.Lib.Run
import StateFork.Controller.Base
import StateFork.Controller.Links

/-!
# Snapshots that stay what they are

A snapshot is its node and what a restore of it leads to: a backend resource and the commands to replay on it
(`denotes`). `Preserves` says that no recorded snapshot has changed, but for children that it has gained. A manager
whose walk works preserves its snapshots when it records a node under a new id; nothing else may record one.
-/

namespace StateFork

open Conc Conc.Prog

/-- The nodes are under their own ids, and the walk of `restore` works from each of them. -/
structure Walkable (graph : Dict String SnapshotNode) : Prop where
  agree : KeysAgree graph
  ordered : Ordered graph

namespace Manager

variable {m m' m'' : Manager} {id : String} {node : SnapshotNode} {graph : Dict String SnapshotNode}

/-- The physical snapshot that a restore starts from with its resource, and the commands that it replays. -/
def denotes (m : Manager) (id : String) : Option (String × String × List Command) :=
  match m.physicalAncestor id with
  | .ok (ancestor, commands) =>
    (m.snapshots.get? ancestor.snapshotId).map fun resource => (ancestor.snapshotId, resource, commands)
  | .error _ => none

/-- The snapshot is recorded as it was, has lost no child, and denotes the same state. -/
def Kept (id : String) (m m' : Manager) : Prop :=
  ∃ node node', m.snapshotGraph.get? id = some node ∧ m'.snapshotGraph.get? id = some node' ∧
    node'.parentId = node.parentId ∧ node'.isVirtual = node.isVirtual ∧ node'.replayCommands = node.replayCommands ∧
    node.children ⊆ node'.children ∧ m'.denotes id = m.denotes id

/-- Every recorded snapshot is kept. -/
def Preserves (m m' : Manager) : Prop := ∀ id ∈ m.snapshotGraph.keys, Kept id m m'

theorem Kept.mem_keys (h : Kept id m m') : id ∈ m'.snapshotGraph.keys := by
  obtain ⟨-, node', -, found', -⟩ := h
  exact Dict.mem_keys_of_get? found'

theorem Kept.trans (h : Kept id m m') (h' : Kept id m' m'') : Kept id m m'' := by
  obtain ⟨node, node', found, found', parent, kind, replay, children, same⟩ := h
  obtain ⟨_, node'', found₁, found'', parent', kind', replay', children', same'⟩ := h'
  obtain rfl := Option.some.inj (found'.symm.trans found₁)
  exact ⟨node, node'', found, found'', parent'.trans parent, kind'.trans kind, replay'.trans replay,
    List.Subset.trans children children', same'.trans same⟩

namespace Preserves

theorem refl (m : Manager) : m.Preserves m := by
  intro id hid
  obtain ⟨node, found⟩ := Dict.mem_keys_iff.mp hid
  exact ⟨node, node, found, found, rfl, rfl, rfl, List.Subset.refl _, rfl⟩

theorem trans (h : m.Preserves m') (h' : m'.Preserves m'') : m.Preserves m'' := fun id hid =>
  (h id hid).trans (h' id (h id hid).mem_keys)

end Preserves

/-! ### What a chain denotes -/

theorem denotes_of_chain (hw : Walkable m.snapshotGraph) {a : String} {commands : List Command}
    (h : Chain m.snapshotGraph id a commands) :
    m.denotes id = (m.snapshots.get? a).map fun resource => (a, resource, commands) := by
  obtain ⟨⟨ancestor, commands'⟩, hwalk⟩ := physicalAncestor_of_ordered hw.agree hw.ordered h.mem_keys
  obtain ⟨-, hchain⟩ := physicalAncestor_ok hw.agree hwalk
  obtain ⟨rfl, rfl⟩ := h.unique hchain
  unfold denotes
  rw [hwalk]

/-- Where the nodes stay and their resources do, each denotes what it did. -/
theorem denotes_extends (hw : Walkable m.snapshotGraph) (hw' : Walkable m'.snapshotGraph)
    (hext : Extends m.snapshotGraph m'.snapshotGraph)
    (hresources : ∀ i ∈ m.snapshotGraph.keys, m'.snapshots.get? i = m.snapshots.get? i) (hid : id ∈ m.snapshotGraph.keys) :
    m'.denotes id = m.denotes id := by
  obtain ⟨⟨ancestor, commands⟩, hwalk⟩ := physicalAncestor_of_ordered hw.agree hw.ordered hid
  obtain ⟨hfound, hchain⟩ := physicalAncestor_ok hw.agree hwalk
  rw [denotes_of_chain hw hchain, denotes_of_chain hw' (hchain.mono hext), hresources _ (Dict.mem_keys_of_get? hfound)]

/-! ### Steps that preserve the snapshots -/

/-- The graph is the same, and the resources of its nodes are. -/
def Undisturbed (m m' : Manager) : Prop :=
  m'.snapshotGraph = m.snapshotGraph ∧ ∀ id ∈ m.snapshotGraph.keys, m'.snapshots.get? id = m.snapshots.get? id

theorem undisturbed_of_eq (hgraph : m'.snapshotGraph = m.snapshotGraph) (hsnapshots : m'.snapshots = m.snapshots) :
    m.Undisturbed m' := ⟨hgraph, fun _ _ => by rw [hsnapshots]⟩

theorem Undisturbed.preserves (h : m.Undisturbed m') (hw : Walkable m.snapshotGraph) : m.Preserves m' := by
  obtain ⟨hgraph, hresources⟩ := h
  intro id hid
  obtain ⟨node, found⟩ := Dict.mem_keys_iff.mp hid
  have hext : Extends m.snapshotGraph m'.snapshotGraph := by
    rw [hgraph]
    exact .refl _
  refine ⟨node, node, found, by rw [hgraph]; exact found, rfl, rfl, rfl, List.Subset.refl _, ?_⟩
  exact denotes_extends hw (hgraph ▸ hw) hext hresources hid

/-- Registering the resource of a snapshot that is not recorded yet. -/
theorem undisturbed_registerSnapshotResource (hnew : id ∉ m.snapshotGraph.keys) (resource : String) :
    m.Undisturbed (m.registerSnapshotResource id resource) :=
  ⟨rfl, fun _ hi => Dict.get?_set_of_ne _ _ fun he => hnew (he ▸ hi)⟩

/-- A node under a new id is linked to its parent, and no other node changes. -/
theorem get?_recordNode_old (hnew : node.snapshotId ∉ graph.keys) {old : SnapshotNode} (hold : graph.get? id = some old) :
    (recordNode graph node).get? id = some (linkChild node id old) := by
  have hne : id ≠ node.snapshotId := fun he => hnew (he ▸ Dict.mem_keys_of_get? hold)
  rw [linking_recordNode.2, Dict.get?_set_of_ne _ _ hne, hold, Option.map_some]

theorem walkable_recordNode (hw : Walkable graph) (hnew : node.snapshotId ∉ graph.keys)
    (hparent : node.isVirtual = true → ∃ p, node.parentId = some p ∧ p ∈ graph.keys) :
    Walkable (recordNode graph node) := by
  have hkeys := keys_recordNode hnew
  refine ⟨keysAgree_recordNode hw.agree, fun id n hn kind => ?_⟩
  obtain ⟨old, hold, rfl, hsame⟩ := linking_recordNode.get? hn
  rw [hsame]
  rw [linkChild_eq] at kind
  rw [Dict.get?_set] at hold
  split_ifs at hold with hid
  · obtain rfl := Option.some.inj hold
    obtain ⟨p, hp, hmem⟩ := hparent kind
    exact ⟨p, hp, hid ▸ recordedBefore_last hkeys hmem hnew⟩
  · obtain ⟨p, hp, hbefore⟩ := hw.ordered id old hold kind
    exact ⟨p, hp, recordedBefore_append hkeys hbefore (Dict.mem_keys_of_get? hold)⟩

/-- A node is recorded under a new id. -/
theorem preserves_record (hw : Walkable m.snapshotGraph) (hw' : Walkable m'.snapshotGraph)
    (hnew : node.snapshotId ∉ m.snapshotGraph.keys) (hgraph : m'.snapshotGraph = recordNode m.snapshotGraph node)
    (hresources : ∀ i ∈ m.snapshotGraph.keys, m'.snapshots.get? i = m.snapshots.get? i) : m.Preserves m' := by
  have hget {id : String} {old : SnapshotNode} (hold : m.snapshotGraph.get? id = some old) :
      m'.snapshotGraph.get? id = some (linkChild node id old) := by
    rw [hgraph]
    exact get?_recordNode_old hnew hold
  have hsame (id : String) (old : SnapshotNode) : (linkChild node id old).isVirtual = old.isVirtual ∧
      (linkChild node id old).parentId = old.parentId ∧ (linkChild node id old).replayCommands = old.replayCommands := by
    rw [linkChild_eq]
    exact ⟨rfl, rfl, rfl⟩
  have hext : Extends m.snapshotGraph m'.snapshotGraph := fun id old hold => ⟨_, hget hold, hsame id old⟩
  intro id hid
  obtain ⟨old, hold⟩ := Dict.mem_keys_iff.mp hid
  obtain ⟨kind, parent, replay⟩ := hsame id old
  exact ⟨old, _, hold, hget hold, parent, kind, replay, subset_linkChild id old, denotes_extends hw hw' hext hresources hid⟩

end Manager

/-! ### Runs -/

section Runs

variable {W Op : Type} (prog : Op → M W Outcome) (takes : Op → Bool)

/-- What the taking operations of a run return is not recorded before, and is recorded and kept in every later state. -/
def Permanent (ops : List Op) (s₀ : Sys W) : Prop :=
  ∀ before op between later id, ops = before ++ op :: (between ++ later) → takes op = true →
    let s := before.foldl (fun s op => ((prog op).run s).2) s₀
    let taken := ((prog op).run s).2
    ((prog op).run s).1 = .ok (.snapshotId (some id)) →
      id ∉ s.mgr.snapshotGraph.keys ∧
        Manager.Kept id taken.mgr (between.foldl (fun s op => ((prog op).run s).2) taken).mgr

variable {prog takes} {I : Sys W → Prop} {C : Op → Sys W → Prop}

/-- Every step keeps what is recorded, and records what it returns. -/
theorem permanent_of_eachStep
    (hstep : ∀ op s, I s → C op s → I ((prog op).run s).2 ∧ s.mgr.Preserves ((prog op).run s).2.mgr)
    (hreturn : ∀ op s id, I s → C op s → takes op = true → ((prog op).run s).1 = .ok (.snapshotId (some id)) →
      id ∉ s.mgr.snapshotGraph.keys ∧ id ∈ ((prog op).run s).2.mgr.snapshotGraph.keys)
    {ops : List Op} {s₀ : Sys W} (h₀ : I s₀)
    (hsteps : Run.EachStep (fun s op => ((prog op).run s).2) C ops s₀) : Permanent prog takes ops s₀ := by
  rintro before op between later id rfl htakes s taken hid
  obtain ⟨hbefore, hop, hafter⟩ := Run.eachStep_append.mp hsteps
  obtain ⟨hI, -⟩ := Run.related_of_eachStep (R := fun s s' : Sys W => s.mgr.Preserves s'.mgr) (fun s => .refl s.mgr)
    (fun h h' => h.trans h') hstep h₀ hbefore
  obtain ⟨hnew, hrecorded⟩ := hreturn op s id hI hop htakes hid
  obtain ⟨hI', -⟩ := hstep op s hI hop
  obtain ⟨-, hkept⟩ := Run.related_of_eachStep (R := fun s s' : Sys W => s.mgr.Preserves s'.mgr) (fun s => .refl s.mgr)
    (fun h h' => h.trans h') hstep hI' (Run.eachStep_append.mp hafter).1
  exact ⟨hnew, hkept id hrecorded⟩

end Runs

end StateFork
