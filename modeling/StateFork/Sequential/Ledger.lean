import StateFork.Controller.Links
import StateFork.Sequential.Lineage

/-!
# What a run knew about its commands

A `Ledger` keeps, next to a run, one note for every command that was executed: how long it took, or
whether it succeeded. The manager stores the commands in the nodes of virtual snapshots, and the
ledger keeps the notes under the ids of the same nodes, so that the notes behind a snapshot are those
of the commands that a restore of it replays. Replayed commands are not noted again.
-/

namespace StateFork

structure Ledger (γ : Type) where
  /-- The notes of the commands between a snapshot and its parent. -/
  ofNode : String → List γ := fun _ => []
  /-- The notes of the commands since the last snapshot or restore. -/
  pending : List γ := []
  /-- The notes behind the snapshot that was restored last, until a physical snapshot is taken. -/
  carried : List γ := []

namespace Ledger

variable {γ W : Type}

/-- The notes on the way from the nearest physical ancestor to a snapshot. -/
def behindFrom (graph : Dict String SnapshotNode) (ofNode : String → List γ) : Nat → String → List γ
  | 0, _ => []
  | fuel + 1, id =>
    match graph.get? id with
    | none => []
    | some node =>
      if node.isVirtual = false then []
      else
        match node.parentId with
        | none => []
        | some p => behindFrom graph ofNode fuel p ++ ofNode id

def behind (l : Ledger γ) (m : Manager) (id : String) : List γ :=
  behindFrom m.snapshotGraph l.ofNode (m.snapshotGraph.keys.length + 1) id

/-- Whether a snapshot is recorded as a physical one. -/
def isPhysical (m : Manager) (id : String) : Bool :=
  match m.snapshotGraph.get? id with
  | some node => !node.isVirtual
  | none => false

variable (B : SequentialBackend W) (observe : Command → Option ℚ → Sys W → γ)

/-- The ledger after an operation that starts in `s`. -/
def after (op : SeqOp) (s : Sys W) (l : Ledger γ) : Ledger γ :=
  match op with
  | .exec c t => { l with pending := l.pending ++ [observe c t s] }
  | .snapshot =>
    match (SeqOp.snapshot.prog B).run s with
    | (.ok (.snapshotId (some id)), s') =>
      { ofNode := Function.update l.ofNode id l.pending
        pending := []
        carried := if isPhysical s'.mgr id then [] else l.carried }
    | _ => l
  | .restore id =>
    match ((SeqOp.restore id).prog B).run s with
    | (.ok (.flag true), _) => { l with pending := [], carried := l.behind s.mgr id }
    | _ => l

/-- The ledger after a run. -/
def run : List SeqOp → Sys W → Ledger γ → Ledger γ
  | [], _, l => l
  | op :: ops, s, l => run ops ((op.prog B).run s).2 (after B observe op s l)

/-! ### The notes behind a snapshot -/

variable {graph graph' : Dict String SnapshotNode} {ofNode ofNode' : String → List γ}

/-- Fuel beyond the index of a node plays no role. -/
theorem behindFrom_fuel (ho : Ordered graph) {fuel fuel' : Nat} {id : String}
    (h : graph.keys.idxOf id < fuel) (h' : graph.keys.idxOf id < fuel') :
    behindFrom graph ofNode fuel id = behindFrom graph ofNode fuel' id := by
  induction fuel generalizing fuel' id with
  | zero => omega
  | succ fuel ih =>
    cases fuel' with
    | zero => omega
    | succ fuel' =>
      unfold behindFrom
      cases found : graph.get? id with
      | none => rfl
      | some node =>
        dsimp only
        split_ifs with hv
        · rfl
        · obtain ⟨p, hp, hbefore⟩ := ho id node found (by simpa using hv)
          have hlt : graph.keys.idxOf p < fuel := Nat.lt_of_lt_of_le hbefore (Nat.le_of_lt_succ h)
          have hlt' : graph.keys.idxOf p < fuel' := Nat.lt_of_lt_of_le hbefore (Nat.le_of_lt_succ h')
          simp only [hp]
          rw [ih hlt hlt']

/-- What is recorded later does not change the notes behind a node. -/
theorem behindFrom_mono (ho : Ordered graph) (hext : Extends graph graph')
    (hnotes : ∀ i ∈ graph.keys, ofNode' i = ofNode i) {fuel : Nat} {id : String} (hid : id ∈ graph.keys) :
    behindFrom graph' ofNode' fuel id = behindFrom graph ofNode fuel id := by
  induction fuel generalizing id with
  | zero => rfl
  | succ fuel ih =>
    obtain ⟨node, found⟩ := Dict.mem_keys_iff.mp hid
    obtain ⟨node', found', hkind, hparent, -⟩ := hext id node found
    unfold behindFrom
    simp only [found, found', hkind, hparent]
    split_ifs with hv
    · rfl
    · obtain ⟨p, hp, hbefore⟩ := ho id node found (by simpa using hv)
      simp only [hp]
      rw [ih hbefore.mem, hnotes id hid]

variable {l l' : Ledger γ} {m m' : Manager} {id p : String} {node : SnapshotNode}

theorem behind_mono (ho : Ordered m.snapshotGraph) (ho' : Ordered m'.snapshotGraph)
    (hext : Extends m.snapshotGraph m'.snapshotGraph)
    (hnotes : ∀ i ∈ m.snapshotGraph.keys, l'.ofNode i = l.ofNode i) (hid : id ∈ m.snapshotGraph.keys) :
    l'.behind m' id = l.behind m id := by
  have hlt := List.idxOf_lt_length_iff.mpr hid
  have hlt' := List.idxOf_lt_length_iff.mpr (hext.mem_keys hid)
  unfold behind
  rw [behindFrom_fuel ho' (Nat.lt_succ_of_lt hlt')
      (Nat.lt_of_lt_of_le hlt' (Nat.le_add_right _ (m.snapshotGraph.keys.length + 1))),
    behindFrom_mono ho hext hnotes hid]
  exact behindFrom_fuel ho (by omega) (by omega)

theorem behind_physical (found : m.snapshotGraph.get? id = some node) (kind : node.isVirtual = false) :
    l.behind m id = [] := by
  unfold behind behindFrom
  simp only [found, kind, if_true]

theorem behind_virtual (ho : Ordered m.snapshotGraph) (found : m.snapshotGraph.get? id = some node)
    (kind : node.isVirtual = true) (parent : node.parentId = some p) :
    l.behind m id = l.behind m p ++ l.ofNode id := by
  obtain ⟨q, hq, hbefore⟩ := ho id node found kind
  obtain rfl := Option.some.inj (hq.symm.trans parent)
  have hlt := List.idxOf_lt_length_iff.mpr (Dict.mem_keys_of_get? found)
  have hlt' := List.idxOf_lt_length_iff.mpr hbefore.mem
  show behindFrom m.snapshotGraph l.ofNode (m.snapshotGraph.keys.length + 1) id = _
  unfold behindFrom
  simp only [found, kind, parent, Bool.true_eq_false, if_false]
  rw [behind, behindFrom_fuel ho hlt' (Nat.lt_succ_of_lt hlt')]

/-- A snapshot that has just been recorded is physical exactly if its node says so. -/
theorem isPhysical_record (m : Manager) (node : SnapshotNode)
    (hgraph : m'.snapshotGraph = Manager.recordNode m.snapshotGraph node) :
    isPhysical m' node.snapshotId = !node.isVirtual := by
  have hlinking : Manager.Linking _ (Manager.recordNode m.snapshotGraph node) node := Manager.linking_recordNode
  rw [isPhysical, hgraph, hlinking.2, hlinking.1, Option.map_some, Manager.linkChild_eq]

/-! ### The ledger after a snapshot or a restore -/

variable {B observe} {s : Sys W}

theorem after_snapshot (h : Solo s.mgr) (l : Ledger γ) :
    after B observe .snapshot s l =
      match B.snapshotEffect s with
      | (.ok (some id), s') =>
        { ofNode := Function.update l.ofNode id l.pending
          pending := []
          carried := if isPhysical s'.mgr id then [] else l.carried }
      | _ => l := by
  dsimp only [after]
  rw [SeqOp.run_prog_snapshot B h]
  rcases B.snapshotEffect s with ⟨_ | _ | id, s'⟩ <;> rfl

theorem after_restore (h : Solo s.mgr) (l : Ledger γ) (id : String) :
    after B observe (.restore id) s l =
      match B.restoreEffect id s with
      | (.ok true, _) => { l with pending := [], carried := l.behind s.mgr id }
      | _ => l := by
  dsimp only [after]
  rw [SeqOp.run_prog_restore B h]
  rcases B.restoreEffect id s with ⟨_ | _ | _, s'⟩ <;> rfl

theorem run_cons (h : Solo s.mgr) (op : SeqOp) (ops : List SeqOp) (l : Ledger γ) :
    run B observe (op :: ops) s l = run B observe ops (op.effect B s) (after B observe op s l) := by
  show run B observe ops ((op.prog B).run s).2 _ = _
  rw [op.run_prog B h]

/-! ### Notes and commands -/

variable {key : γ → Command} {collected commands : List Command} {visited : List String} {ancestor : SnapshotNode}

/-- Every note belongs to the command that the manager keeps in the same place. -/
structure Noted (key : γ → Command) (l : Ledger γ) (m : Manager) : Prop where
  agree : KeysAgree m.snapshotGraph
  nodes : ∀ id node, m.snapshotGraph.get? id = some node → node.isVirtual = true →
    (l.ofNode id).map key = node.replayCommands
  pending : l.pending.map key = m.main.commandLog

/-- The walk of `restore` collects the commands of the notes. -/
theorem map_behindFrom (hk : KeysAgree graph)
    (hnodes : ∀ id node, graph.get? id = some node → node.isVirtual = true →
      (ofNode id).map key = node.replayCommands)
    {fuel fuel' : Nat} (found : graph.get? id = some node) (hnodup : visited.Nodup)
    (hsub : visited ⊆ graph.keys) (hfuel : graph.keys.length < visited.length + fuel')
    (h : Manager.walkFrom graph fuel node visited collected = .ok (ancestor, commands)) :
    (behindFrom graph ofNode fuel' id).map key ++ collected = commands := by
  induction fuel generalizing fuel' id node visited collected with
  | zero => simp [Manager.walkFrom] at h
  | succ fuel ih =>
    cases fuel' with
    | zero =>
      have hle := (List.subperm_of_subset hnodup hsub).length_le
      omega
    | succ fuel' =>
      have hid := hk _ _ found
      unfold Manager.walkFrom at h
      unfold behindFrom
      simp only [found]
      split_ifs at h with hv hmem
      · rw [if_pos hv]
        exact congrArg Prod.snd (Except.ok.inj h)
      · rw [if_neg hv]
        cases hp : node.parentId with
        | none =>
          rw [hp] at h
          cases h
        | some p =>
          rw [hp] at h
          dsimp only at h ⊢
          cases hparent : graph.get? p with
          | none =>
            rw [hparent] at h
            cases h
          | some parent =>
            rw [hparent] at h
            have hnew : node.snapshotId ∈ graph.keys := hid.symm ▸ Dict.mem_keys_of_get? found
            have hlt : graph.keys.length < (node.snapshotId :: visited).length + fuel' := by
              rw [List.length_cons]
              omega
            have habove := ih hparent (List.nodup_cons.mpr ⟨hmem, hnodup⟩) (List.cons_subset.mpr ⟨hnew, hsub⟩) hlt h
            rw [List.map_append, hnodes id node found (by simpa using hv), List.append_assoc]
            exact habove

/-- The notes behind a snapshot are those of the commands that a restore of it replays. -/
theorem Noted.behind (h : Noted key l m) (hwalk : m.physicalAncestor id = .ok (ancestor, commands)) :
    (l.behind m id).map key = commands := by
  unfold Manager.physicalAncestor at hwalk
  split at hwalk
  · exact absurd hwalk (by simp)
  · next node found =>
    have hlt : m.snapshotGraph.keys.length < ([] : List String).length + (m.snapshotGraph.keys.length + 1) := by
      rw [List.length_nil]
      omega
    have hall := map_behindFrom h.agree h.nodes found List.nodup_nil (List.nil_subset _) hlt hwalk
    rwa [List.append_nil] at hall

/-- Recording a node with the pending commands, or a physical one, under the pending notes. -/
theorem Noted.record (h : Noted key l m) (node : SnapshotNode) (hgraph : m'.snapshotGraph = Manager.recordNode m.snapshotGraph node)
    (hlog : m'.main.commandLog = []) (hnode : node.isVirtual = true → node.replayCommands = m.main.commandLog)
    (hnotes : l'.ofNode = Function.update l.ofNode node.snapshotId l.pending) (hpending : l'.pending = []) :
    Noted key l' m' := by
  constructor
  case agree =>
    rw [hgraph]
    exact Manager.keysAgree_recordNode h.agree
  case pending =>
    rw [hlog, hpending]
    rfl
  case nodes =>
    intro i n hn kind
    rw [hgraph] at hn
    obtain ⟨old, hold, rfl, -⟩ := Manager.linking_recordNode.get? hn
    rw [Manager.linkChild_eq] at kind ⊢
    rw [Dict.get?_set] at hold
    rw [hnotes]
    split_ifs at hold with hi
    · obtain rfl := Option.some.inj hold
      rw [hi, Function.update_self, h.pending]
      exact (hnode kind).symm
    · rw [Function.update_of_ne hi]
      exact h.nodes i old hold kind

/-- One operation keeps the notes with their commands. -/
theorem Noted.effect (hobserve : ∀ c t s, key (observe c t s) = c) (hs : Solo s.mgr) (h : Noted key l s.mgr)
    (op : SeqOp) : Noted key (after B observe op s l) (op.effect B s).mgr := by
  cases op with
  | exec c t =>
    refine ⟨h.agree, h.nodes, ?_⟩
    show (l.pending ++ [observe c t s]).map key = (B.afterExec c t s).mgr.main.commandLog
    rw [SequentialBackend.afterExec, Manager.main_logExec, List.map_append, h.pending, List.map_singleton, hobserve]
  | snapshot =>
    rw [after_snapshot hs]
    show Noted key _ (B.snapshotEffect s).2.mgr
    have hcase := B.snapshotEffect_cases s
    generalize B.snapshotEffect s = r at hcase ⊢
    cases hcase with
    | raised => exact h
    | failed => exact h
    | @physical _ _ snapshotId =>
      refine h.record (SequentialBackend.snapshotNode s.mgr snapshotId true) rfl ?_ (by simp) rfl rfl
      rw [SequentialBackend.afterPhysical, Manager.main_advance]
    | @virtual _ _ hex =>
      refine h.record (SequentialBackend.snapshotNode s.mgr ("v" ++ (hex.take 7).toString) false) rfl ?_
        (fun _ => rfl) rfl rfl
      rw [SequentialBackend.afterVirtual, Manager.main_advance]
  | restore target =>
    rw [after_restore hs]
    show Noted key _ (B.restoreEffect target s).2.mgr
    have hcase := B.restoreEffect_cases target s
    generalize B.restoreEffect target s = r at hcase ⊢
    cases hcase with
    | refused => exact h
    | raised => exact h
    | failed => exact h
    | @restored ancestor commands _ elapsed w =>
      have hgraph := (B.afterRestore_graph target ancestor.snapshotId commands elapsed { s with world := w }).1
      refine ⟨?_, ?_, ?_⟩
      · rw [hgraph]
        exact h.agree
      · rw [hgraph]
        exact h.nodes
      · rw [B.afterRestore_main]
        rfl

theorem Noted.run (hobserve : ∀ c t s, key (observe c t s) = c) (hs : Solo s.mgr) (h : Noted key l s.mgr)
    (ops : List SeqOp) : Noted key (run B observe ops s l) (runOps B ops s).mgr := by
  induction ops generalizing s l with
  | nil => exact h
  | cons op ops ih =>
    rw [run_cons hs, runOps_cons B hs]
    exact ih (op.effect_solo B hs) (h.effect hobserve hs op)

theorem noted_startedAt (root resource : String) (w : W) : Noted key {} (Sys.startedAt root resource w).mgr := by
  have hget := Lineage.get?_startedAt root resource
  refine ⟨fun id node found => ?_, fun id node found kind => ?_, rfl⟩
  · change (Manager.startedAt root resource).snapshotGraph.get? id = _ at found
    rw [hget] at found
    split_ifs at found with hid
    rw [← Option.some.inj found, hid]
  · change (Manager.startedAt root resource).snapshotGraph.get? id = _ at found
    rw [hget] at found
    split_ifs at found with hid
    rw [← Option.some.inj found] at kind
    exact absurd kind (by simp)

end Ledger

end StateFork
