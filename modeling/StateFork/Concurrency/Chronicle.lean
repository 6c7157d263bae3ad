import StateFork.Concurrency.Locking
import StateFork.Concurrency.Sections
import StateFork.Sequential.Tape

/-!
# Many threads on one branch

`exec_command`, `snapshot`, `copy_in` and `copy_out` of a sequential manager, called by any number of threads. A
`Chronicle` is what these calls do to the branch, as a list of deeds: each snapshot hangs below the one before it, and
a virtual one carries the commands that were run since then. `branch_linearizes` says that the branch has a chronicle
whenever nobody is in a section of its operation lock. That lock alone orders the calls: the theorem is also about the
templates that do not take the current-branch lock.
-/

namespace StateFork

open Conc Conc.Prog Conc.Protocol EnvironmentManager

variable {W : Type}

/-! ### Chronicles -/

/-- What is done to a branch: a command is run, or a snapshot is taken. -/
inductive Deed where
  | ran (command : Command)
  | took (node : SnapshotNode)

namespace Deed

def commands (deeds : List Deed) : List Command :=
  deeds.filterMap fun
    | ran command => some command
    | took _ => none

def nodes (deeds : List Deed) : List SnapshotNode :=
  deeds.filterMap fun
    | ran _ => none
    | took node => some node

/-- The last snapshot of a branch that stood on `start`. -/
def position (start : Option String) (deeds : List Deed) : Option String :=
  (nodes deeds).foldl (fun _ node => some node.snapshotId) start

/-- The commands since the last snapshot, of a branch whose log was `log`. -/
def pending (log : List Command) (deeds : List Deed) : List Command :=
  deeds.foldl (fun l => fun
    | ran command => l ++ [command]
    | took _ => []) log

@[simp] theorem commands_ran (l : List Deed) (c : Command) : commands (l ++ [ran c]) = commands l ++ [c] := by
  simp [commands]

@[simp] theorem commands_took (l : List Deed) (node : SnapshotNode) : commands (l ++ [took node]) = commands l := by
  simp [commands]

@[simp] theorem nodes_ran (l : List Deed) (c : Command) : nodes (l ++ [ran c]) = nodes l := by
  simp [nodes]

@[simp] theorem nodes_took (l : List Deed) (node : SnapshotNode) : nodes (l ++ [took node]) = nodes l ++ [node] := by
  simp [nodes]

@[simp] theorem position_ran (start : Option String) (l : List Deed) (c : Command) :
    position start (l ++ [ran c]) = position start l := by
  simp [position]

@[simp] theorem position_took (start : Option String) (l : List Deed) (node : SnapshotNode) :
    position start (l ++ [took node]) = some node.snapshotId := by
  simp [position]

@[simp] theorem pending_ran (log : List Command) (l : List Deed) (c : Command) :
    pending log (l ++ [ran c]) = pending log l ++ [c] := by
  simp [pending]

@[simp] theorem pending_took (log : List Command) (l : List Deed) (node : SnapshotNode) :
    pending log (l ++ [took node]) = [] := by
  simp [pending]

end Deed

open Deed

/-- The deeds of a branch that stood on `start` with the log `log`. -/
inductive Chronicle (start : Option String) (log : List Command) : List Deed → Prop
  | nil : Chronicle start log []
  | ran {deeds : List Deed} (command : Command) (before : Chronicle start log deeds) :
      Chronicle start log (deeds ++ [.ran command])
  /-- A snapshot hangs below the one before it; if it is virtual, it carries the commands in between. -/
  | took {deeds : List Deed} {node : SnapshotNode} (before : Chronicle start log deeds)
      (parent : node.parentId = position start deeds) (leaf : node.children = [])
      (replay : node.replayCommands = if node.isVirtual then pending log deeds else []) :
      Chronicle start log (deeds ++ [.took node])

/-- The snapshots that were announced, with their branches and parents. -/
def advances (events : List Event) : List (String × String × Option String) :=
  events.filterMap fun
    | .advanced branchId snapshotId parentId => some (branchId, snapshotId, parentId)
    | _ => none

/-- The backend, which in addition notes the commands that its `_core_exec` is called with. -/
def SequentialBackend.recording (B : SequentialBackend W) : SequentialBackend (W × List Command) where
  snapshot b w := ((B.snapshot b w.1).1, (B.snapshot b w.1).2, w.2)
  restore snapshotId resource b w := ((B.restore snapshotId resource b w.1).1, (B.restore snapshotId resource b w.1).2, w.2)
  exec command timeout b w := ((B.exec command timeout b w.1).1, (B.exec command timeout b w.1).2, w.2 ++ [command])
  copy b hostPath envPath into w := ((B.copy b hostPath envPath into w.1).1, (B.copy b hostPath envPath into w.1).2, w.2)
  cleanup w := ((B.cleanup w.1).1, (B.cleanup w.1).2, w.2)
  decide context w := ((B.decide context w.1).1, (B.decide context w.1).2, w.2)
  time w := ((B.time w.1).1, (B.time w.1).2, w.2)
  uuid4Hex w := ((B.uuid4Hex w.1).1, (B.uuid4Hex w.1).2, w.2)

/-- What a system that started as `m₀` shows after the deeds, when `ran` is what was run and `recorded` what was entered
in the graph. -/
structure Midway (m₀ : Manager) (deeds : List Deed) (ran : List Command) (recorded : List SnapshotNode)
    (v : View (Sys (W × List Command)) Event) : Prop where
  lawful : Chronicle m₀.main.lastSnapshotId m₀.main.commandLog deeds
  ran : v.state.world.2 = ran
  graph : v.state.mgr.snapshotGraph = recorded.foldl Manager.recordNode m₀.snapshotGraph
  advanced : advances v.events = (nodes deeds).map fun node => (defaultBranchId, node.snapshotId, node.parentId)
  current : v.state.mgr.main.currentSnapshotId = position m₀.main.currentSnapshotId deeds
  last : v.state.mgr.main.lastSnapshotId = position m₀.main.lastSnapshotId deeds
  log : v.state.mgr.main.commandLog = pending m₀.main.commandLog deeds

/-- The deeds are what the system has done: what was run, the graph, the announced snapshots and the branch record
agree with them. -/
def Tells (m₀ : Manager) (deeds : List Deed) (v : View (Sys (W × List Command)) Event) : Prop :=
  Midway m₀ deeds (commands deeds) (nodes deeds) v

/-! ### The operations -/

/-- The operations on the current branch, but for `restore`. -/
inductive BranchOp where
  | exec (command : Command) (timeout : Option ℚ)
  | snapshot
  | copyIn (hostSrc path : String)
  | copyOut (path hostDst : String)

namespace BranchOp

/-- The public method. -/
def prog (H : Hooks W) : BranchOp → M W Outcome
  | exec c t => (fun r => .exec r.1 r.2.1 r.2.2) <$> execCommand H c t
  | snapshot => Outcome.snapshotId <$> EnvironmentManager.snapshot H
  | copyIn h p => Outcome.flag <$> EnvironmentManager.copyIn H h p
  | copyOut p h => Outcome.flag <$> EnvironmentManager.copyOut H p h

/-- The template behind it, on the default branch. -/
def template (H : Hooks W) : BranchOp → M W Outcome
  | exec c t => (fun r => .exec r.1 r.2.1 r.2.2) <$> execBranch H defaultBranchId c t
  | snapshot => Outcome.snapshotId <$> snapshotBranch H defaultBranchId false
  | copyIn h p => Outcome.flag <$> copyBranch H defaultBranchId h p true
  | copyOut p h => Outcome.flag <$> copyBranch H defaultBranchId h p false

end BranchOp

/-! ### The protocol -/

namespace Strand

/-- Nothing happened to the branch. -/
structure Same (v v' : View (Sys (W × List Command)) Event) : Prop where
  main : v'.state.mgr.main = v.state.mgr.main
  graph : v'.state.mgr.snapshotGraph = v.state.mgr.snapshotGraph
  ran : v'.state.world.2 = v.state.world.2
  advances : advances v'.events = advances v.events

theorem Same.refl (v : View (Sys (W × List Command)) Event) : Same v v := ⟨rfl, rfl, rfl, rfl⟩

theorem Same.trans {v v' v'' : View (Sys (W × List Command)) Event} (h : Same v v') (h' : Same v' v'') : Same v v'' :=
  ⟨h'.main.trans h.main, h'.graph.trans h.graph, h'.ran.trans h.ran, h'.advances.trans h.advances⟩

theorem midway_of_same {m₀ : Manager} {deeds : List Deed} {ran : List Command} {recorded : List SnapshotNode}
    {v v' : View (Sys (W × List Command)) Event} (h : Same v v') (hv : Midway m₀ deeds ran recorded v) :
    Midway m₀ deeds ran recorded v' where
  lawful := hv.lawful
  ran := h.ran.trans hv.ran
  graph := h.graph.trans hv.graph
  advanced := h.advances.trans hv.advanced
  current := by rw [h.main, hv.current]
  last := by rw [h.main, hv.last]
  log := by rw [h.main, hv.log]

/-- The branch belongs to whoever holds its operation lock, and has a chronicle when nobody does. -/
def protocol (m₀ : Manager) : Protocol (Sys (W × List Command)) Lock Event where
  valid v := Solo v.state.mgr
  rely H v v' := .operation mainRef ∈ H → Same v v'
  guar H _ _ v v' := Same v v' ∨ .operation mainRef ∈ H
  acq _ _ _ := True
  inv l v := l = .operation mainRef → ∃ deeds, Tells m₀ deeds v

variable {m₀ : Manager}

theorem protocol_coherent : (protocol (W := W) m₀).Coherent where
  refl _ v _ := .refl v
  trans _ _ _ _ h h' hl := (h hl).trans (h' hl)
  guar_rely _ _ _ _ _ _ hdisjoint _ hg hl := hg.resolve_right fun hl' => hdisjoint _ hl' hl
  guar_inv H h ev v v' l _ hg hl hinv he := by
    subst he
    obtain ⟨deeds, hdeeds⟩ := hinv rfl
    exact ⟨deeds, midway_of_same (hg.resolve_right hl) hdeeds⟩

theorem plain {l : Lock} (hl : l ≠ .operation mainRef) : (protocol (W := W) m₀).Plain l where
  acq _ _ := trivial
  inv _ he := absurd he hl
  rely _ _ _ h hmem := h (List.mem_cons_of_mem _ hmem)
  guar _ _ _ _ _ hg := hg.imp_right (List.mem_cons_of_mem _)

theorem plain_state : (protocol (W := W) m₀).Plain .state := plain (by simp)

theorem plain_stats : (protocol (W := W) m₀).Plain .stats := plain (by simp)

variable {v : View (Sys (W × List Command)) Event} {s : Sys (W × List Command)} {ev : List Event} {H : List Lock}
  {F : List Event → View (Sys (W × List Command)) Event → Prop}

theorem quiet (hs : Solo s.mgr) (hsame : Same v (v.step ev s)) : (protocol m₀).Quiet ev v s :=
  ⟨hs, fun _ _ => .inl hsame, fun _ _ => hsame⟩

theorem quiet_read (v : View (Sys (W × List Command)) Event) (hv : Solo v.state.mgr) :
    (protocol m₀).Quiet [] v v.state :=
  quiet hv (by rw [View.step_nil]; exact .refl v)

/-- A step that emits something else and leaves the manager and the list of commands. -/
theorem quiet_other (hv : Solo v.state.mgr) {w : W × List Command} (hw : w.2 = v.state.world.2)
    (hev : advances ev = []) : (protocol m₀).Quiet ev v { v.state with world := w } :=
  quiet hv ⟨rfl, rfl, hw, by simp [View.step, advances, List.filterMap_append] at hev ⊢; exact hev⟩

theorem frame_midway (m₀ : Manager) (deeds : List Deed) (ran : List Command) (recorded : List SnapshotNode)
    (hl : .operation mainRef ∈ H) : (protocol m₀).Frame H fun _ v => Midway (W := W) m₀ deeds ran recorded v where
  stable _ _ _ hr hv := midway_of_same (hr hl) hv
  log _ _ _ hv := hv

theorem frame_true : (protocol (W := W) m₀).Frame H fun _ _ => True := ⟨fun _ _ _ _ hp => hp, fun _ _ _ hp => hp⟩

/-! ### The sections of the operation lock -/

section Bodies

variable (B : SequentialBackend W) (hl : .operation mainRef ∈ H) (hF : (protocol m₀).Frame H F)

include hF

/-- The clock does not raise. -/
theorem triple_time : (protocol m₀).Triple H F B.recording.hooks.time fun r h v => F h v ∧ ∃ t, r = .ok t := by
  have hstable : ∀ r : Except PyError ℚ, (protocol m₀).Stable H fun h v => F h v ∧ ∃ t, r = .ok t :=
    fun r h v v' hr hp => ⟨hF.stable h v v' hr hp.1, hp.2⟩
  refine triple_access hstable fun h v hv hp => ?_
  have hq : (protocol m₀).Quiet [] v { v.state with world := (B.recording.time v.state.world).2 } :=
    quiet_other hv rfl rfl
  exact ⟨.of_quiet hq h, hq.frame_nil hF hp, _, rfl⟩

theorem keep_addEntry (operation target : String) (elapsed : ℚ) (b : String) :
    (protocol m₀).Keep H F (addEntry operation target elapsed b : M (W × List Command) Unit) :=
  StateFork.keep_addEntry hF plain_stats fun v hv => quiet (hv.addEntry ..) ⟨rfl, rfl, rfl, by simp [View.step]⟩

theorem keep_active : (protocol m₀).Triple H F (readState fun m => (m.record mainRef).active : M (W × List Command) Bool)
    fun r h v => F h v ∧ r = .ok true := by
  refine triple_readState plain_state (fun h v _ => .inl (.refl v)) hF.stable (fun r h v v' hr hp => ?_) fun h v hv hp => ?_
  · exact ⟨hF.stable h v v' hr hp.1, hp.2⟩
  · exact ⟨hp, congrArg _ hv.active⟩

omit hF in
include hl in
/-- Both exits of `_core_exec` put the command into the log. -/
theorem triple_logCommand {deeds : List Deed} (command : Command) (elapsed counted : ℚ) :
    (protocol m₀).Triple H (fun _ v => Midway (W := W) m₀ deeds (commands deeds ++ [command]) (nodes deeds) v)
      (logCommand defaultBranchId mainRef command elapsed counted)
      fun _ _ v => Tells m₀ (deeds ++ [.ran command]) v := by
  have hF := frame_midway (W := W) m₀ deeds (commands deeds ++ [command]) (nodes deeds) hl
  have hF' := frame_midway (W := W) m₀ (deeds ++ [.ran command]) (commands (deeds ++ [.ran command])) (nodes (deeds ++ [.ran command])) hl
  refine triple_bind (Q := fun _ _ v => Tells m₀ (deeds ++ [.ran command]) v) ?_ (fun target => ?_) fun _ _ _ h => h
  · refine triple_withState plain_state hF.stable (fun _ => hF'.stable) fun h v hv hp => ?_
    refine ⟨⟨hv.modifyRecord _ hv.active, .inr hl⟩, ?_⟩
    constructor
    case lawful => exact hp.lawful.ran command
    case ran => exact hp.ran.trans (commands_ran ..).symm
    case graph => exact hp.graph.trans (by rw [nodes_ran])
    case advanced =>
      rw [nodes_ran, ← hp.advanced]
      simp [View.step]
    case current =>
      rw [position_ran, ← hp.current]
      simp [View.step]
    case last =>
      rw [position_ran, ← hp.last]
      simp [View.step]
    case log =>
      rw [pending_ran, ← hp.log]
      simp [View.step]
  · exact keep_addEntry hF' _ _ _ _

end Bodies

/-- A template finds the record of the branch, takes its lock and leads from a chronicle to a chronicle. -/
theorem triple_template {α : Type} {body : Ref → M (W × List Command) α} (hl : .operation mainRef ∉ H)
    (hbody : ∀ deeds, (protocol m₀).Triple (.operation mainRef :: H) (fun _ v => Tells m₀ deeds v) (body mainRef)
      fun _ _ v => ∃ deeds, Tells m₀ deeds v) :
    (protocol m₀).Keep H (fun _ _ => True) (getBranchState (some defaultBranchId) >>= fun state =>
      announce (.lookedUp state) >>= fun _ => withLock (.operation state) (body state)) := by
  have hmem : Lock.operation mainRef ∈ Lock.operation mainRef :: H := List.mem_cons_self ..
  refine triple_bind (Q := fun r _ _ => r = .ok mainRef) ?_ (fun state => ?_) fun _ _ _ _ => trivial
  · exact triple_getBranchState plain_state (fun h v _ => .inl (.refl v)) frame_true.stable (fun _ _ _ _ _ hp => hp)
      fun h v hv _ => hv.getBranchState_main
  refine triple_of_fact (fun _ _ hp => hp) fun hstate => ?_
  cases hstate
  refine Triple.weaken (P := fun _ _ => True) ?_ (fun _ _ _ => trivial) fun _ _ _ h => h
  refine keep_bind (keep_announce frame_true fun v hv => quiet_other hv rfl rfl) fun _ => ?_
  have htells : (protocol m₀).Stable (.operation mainRef :: H) fun _ v => ∃ deeds, Tells (W := W) m₀ deeds v := by
    rintro h v v' hr ⟨deeds, hdeeds⟩
    exact ⟨deeds, midway_of_same (hr hmem) hdeeds⟩
  refine triple_withLock hl (fun _ _ _ _ => trivial) htells
    (fun _ _ _ hinv _ => hinv rfl) ?_ (fun _ _ _ _ hq _ => hq) (fun _ => frame_true.stable) fun _ _ _ _ _ => trivial
  · rintro h v ⟨deeds, hdeeds⟩
    exact hbody deeds h v hdeeds

variable (B : SequentialBackend W)

theorem keep_execBranch (hl : .operation mainRef ∉ H) (command : Command) (timeout : Option ℚ) :
    (protocol m₀).Keep H (fun _ _ => True) (execBranch B.recording.hooks defaultBranchId command timeout) := by
  refine triple_template hl fun deeds => ?_
  have hmem : Lock.operation mainRef ∈ Lock.operation mainRef :: H := List.mem_cons_self ..
  have hF := frame_midway (W := W) m₀ deeds (commands deeds) (nodes deeds) hmem
  have hF' := frame_midway (W := W) m₀ deeds (commands deeds ++ [command]) (nodes deeds) hmem
  refine triple_bind (keep_active hF) (fun active => ?_) fun _ _ _ hp => ⟨deeds, hp.1⟩
  refine triple_of_fact (fun _ _ hp => hp.2) fun hactive => ?_
  cases hactive
  refine Triple.weaken (P := fun _ v => Tells m₀ deeds v) ?_ (fun _ _ hp => hp.1) fun _ _ _ h => h
  refine triple_bind (triple_time B hF) (fun start => ?_) fun _ _ _ hp => ⟨deeds, hp.1⟩
  refine Triple.weaken (P := fun _ v => Tells m₀ deeds v) ?_ (fun _ _ hp => hp.1) fun _ _ _ h => h
  refine Keep.bind (keep_announce hF fun v hv => quiet_other hv rfl rfl) (fun _ => ?_) fun _ _ _ hp => ⟨deeds, hp⟩
  have hexec : (protocol m₀).Triple (.operation mainRef :: H) (fun _ v => Tells m₀ deeds v)
      (B.recording.hooks.coreExec command timeout defaultBranchId)
      fun _ _ v => Midway m₀ deeds (commands deeds ++ [command]) (nodes deeds) v := by
    show (protocol m₀).Triple _ _ (tryWorld (B.recording.exec command timeout defaultBranchId) fun _ => []) _
    refine triple_tryWorld (fun _ => hF'.stable) fun h v hv hp => ⟨⟨hv, .inr hmem⟩, ?_⟩
    refine ⟨hp.lawful, ?_, hp.graph, ?_, hp.current, hp.last, hp.log⟩
    · exact congrArg (· ++ [command]) hp.ran
    · rw [← hp.advanced]
      simp [View.step]
  refine triple_bind (triple_attempt hexec) (fun result => ?_) ?_
  · refine Triple.weaken (P := fun _ v => Midway m₀ deeds (commands deeds ++ [command]) (nodes deeds) v)
      (Q := fun _ _ v => Tells m₀ (deeds ++ [.ran command]) v) ?_ ?_ fun _ _ _ hq => ⟨_, hq⟩
    · refine triple_bind (triple_time B hF') (fun stop => ?_) ?_
      · refine Triple.weaken (P := fun _ v => Midway m₀ deeds (commands deeds ++ [command]) (nodes deeds) v) ?_
          (fun _ _ hp => hp.1) fun _ _ _ h => h
        cases result with
        | error e => exact triple_bind (triple_logCommand hmem command _ _) (fun _ => keep_ret _) fun _ _ _ hq => hq
        | ok answer => exact triple_bind (triple_logCommand hmem command _ _) (fun _ => keep_ret _) fun _ _ _ hq => hq
      · rintro e h v ⟨-, t, he⟩
        cases he
    · rintro h v ⟨r', -, hp⟩
      exact hp
  · rintro e h v ⟨r', he, -⟩
    cases he

theorem keep_copyBranch (hl : .operation mainRef ∉ H) (hostPath envPath : String) (into : Bool) :
    (protocol m₀).Keep H (fun _ _ => True) (copyBranch B.recording.hooks defaultBranchId hostPath envPath into) := by
  refine triple_template hl fun deeds => ?_
  have hmem : Lock.operation mainRef ∈ Lock.operation mainRef :: H := List.mem_cons_self ..
  have hF := frame_midway (W := W) m₀ deeds (commands deeds) (nodes deeds) hmem
  have hcopy : (protocol m₀).Keep (.operation mainRef :: H) (fun _ v => Tells m₀ deeds v)
      (tryWorld (B.recording.copy defaultBranchId hostPath envPath into) fun _ => []) :=
    keep_tryWorld hF fun v hv => quiet_other hv rfl rfl
  have htime : (protocol m₀).Keep (.operation mainRef :: H) (fun _ v => Tells m₀ deeds v) B.recording.hooks.time :=
    Triple.weaken (triple_time B hF) (fun _ _ hp => hp) fun _ _ _ hp => hp.1
  refine Triple.weaken (Q := fun _ _ v => Tells m₀ deeds v) ?_ (fun _ _ hp => hp) fun _ _ _ hq => ⟨deeds, hq⟩
  refine keep_bind (keep_readState hF plain_state quiet_read) fun target => ?_
  cases target with
  | none => exact keep_ret _
  | some target =>
    refine keep_bind htime fun start => ?_
    refine keep_bind (keep_announce hF fun v hv => quiet_other hv rfl rfl) fun _ => ?_
    refine keep_bind (keep_attempt hcopy) fun result => ?_
    cases result with
    | error e => exact keep_ret _
    | ok answer =>
      refine keep_bind htime fun stop => ?_
      exact keep_bind (keep_addEntry hF _ _ _ _) fun _ => keep_ret _

/-- What `_snapshot_branch` reads at its start. -/
theorem triple_seen (hl : .operation mainRef ∈ H) (deeds : List Deed) :
    (protocol m₀).Triple H (fun _ v => Tells (W := W) m₀ deeds v)
      (readState fun m =>
        let r := m.record mainRef
        if r.active then some (r.lastSnapshotId, r.cumulativeExecTime, r.commandLog) else none)
      fun r _ v => Tells m₀ deeds v ∧ ∃ time, r = .ok (some (position m₀.main.lastSnapshotId deeds, time,
        pending m₀.main.commandLog deeds)) := by
  have hF := frame_midway (W := W) m₀ deeds (commands deeds) (nodes deeds) hl
  refine triple_readState plain_state (fun h v _ => .inl (.refl v)) hF.stable
    (fun r h v v' hr hp => ⟨hF.stable h v v' hr hp.1, hp.2⟩) fun h v hv hp => ⟨hp, v.state.mgr.main.cumulativeExecTime, ?_⟩
  have hactive : (v.state.mgr.record mainRef).active = true := hv.active
  simp only [hactive, if_true, ← hp.last, ← hp.log]

/-- What the two captures promise of a node. -/
structure NodeFor (m₀ : Manager) (deeds : List Deed) (node : SnapshotNode) : Prop where
  parent : node.parentId = position m₀.main.lastSnapshotId deeds
  leaf : node.children = []
  replay : node.replayCommands = if node.isVirtual then pending m₀.main.commandLog deeds else []

theorem triple_capturePhysical (hl : .operation mainRef ∈ H) (deeds : List Deed) :
    (protocol m₀).Triple H (fun _ v => Tells m₀ deeds v)
      (capturePhysical B.recording.hooks defaultBranchId mainRef (position m₀.main.lastSnapshotId deeds))
      fun r _ v => Tells m₀ deeds v ∧ ∀ node, r = .ok (some node) → NodeFor m₀ deeds node := by
  have hF := frame_midway (W := W) m₀ deeds (commands deeds) (nodes deeds) hl
  have hsnapshot : (protocol m₀).Keep H (fun _ v => Tells m₀ deeds v)
      (B.recording.hooks.coreSnapshot defaultBranchId) := by
    refine keep_bind (keep_tryWorld hF fun v hv => quiet_other hv rfl rfl) fun captured => ?_
    rcases captured with ⟨_ | ⟨snapshotId, resource⟩, elapsed⟩
    · exact keep_ret _
    · refine keep_bind (keep_updateState hF plain_state fun v hv => ?_) fun _ => keep_ret _
      exact quiet ⟨hv.current, hv.registered, hv.active⟩ ⟨rfl, rfl, rfl, by simp [View.step]⟩
  refine Keep.bind (keep_announce hF fun v hv => quiet_other hv rfl rfl) (fun _ => ?_) fun _ _ _ hp => ⟨hp, by simp⟩
  refine Keep.bind hsnapshot (fun captured => ?_) fun _ _ _ hp => ⟨hp, by simp⟩
  rcases captured with ⟨_ | snapshotId, elapsed⟩
  · exact triple_ret fun _ _ hp => ⟨hp, by simp⟩
  · refine Keep.bind (keep_addEntry hF _ _ _ _) (fun _ => ?_) fun _ _ _ hp => ⟨hp, by simp⟩
    refine triple_ret fun _ _ hp => ⟨hp, ?_⟩
    rintro _ ⟨⟩
    exact ⟨rfl, rfl, rfl⟩

theorem triple_captureVirtual (hl : .operation mainRef ∈ H) (deeds : List Deed) :
    (protocol m₀).Triple H (fun _ v => Tells m₀ deeds v)
      (captureVirtual B.recording.hooks (position m₀.main.lastSnapshotId deeds) (pending m₀.main.commandLog deeds))
      fun r _ v => Tells m₀ deeds v ∧ ∀ node, r = .ok (some node) → NodeFor m₀ deeds node := by
  have hF := frame_midway (W := W) m₀ deeds (commands deeds) (nodes deeds) hl
  have huuid : (protocol m₀).Keep H (fun _ v => Tells m₀ deeds v) B.recording.hooks.uuid4Hex :=
    keep_access hF fun v hv => quiet_other hv rfl rfl
  refine huuid.bind (fun hex => ?_) fun _ _ _ hp => ⟨hp, by simp⟩
  refine triple_ret fun _ _ hp => ⟨hp, ?_⟩
  rintro _ ⟨⟩
  exact ⟨rfl, rfl, rfl⟩

/-- The node is entered, then the branch moves to it. -/
theorem triple_commitSnapshot (hl : .operation mainRef ∈ H) {deeds : List Deed} {node : SnapshotNode}
    (hnode : NodeFor m₀ deeds node) (takePhysical : Bool) :
    (protocol m₀).Triple H (fun _ v => Tells m₀ deeds v)
      (commitSnapshot B.recording.hooks defaultBranchId mainRef takePhysical node)
      fun _ _ v => ∃ deeds, Tells m₀ deeds v := by
  have hF := frame_midway (W := W) m₀ deeds (commands deeds) (nodes deeds) hl
  have hentered := frame_midway (W := W) m₀ deeds (commands deeds) (nodes deeds ++ [node]) hl
  have hmoved := frame_midway (W := W) m₀ (deeds ++ [.took node]) (commands (deeds ++ [.took node])) (nodes (deeds ++ [.took node])) hl
  refine triple_bind (Q := fun r _ v => Midway m₀ deeds (commands deeds) (nodes deeds ++ [node]) v ∧ r = .ok ()) ?_
    (fun _ => ?_) fun _ _ _ hp => absurd hp.2 (by simp)
  · show (protocol m₀).Triple H _ (withState fun m => ((), m.recordSnapshotNode node)) _
    refine triple_withState plain_state hF.stable (fun r h v v' hr hp => ⟨hentered.stable h v v' hr hp.1, hp.2⟩)
      fun h v hv hp => ?_
    refine ⟨⟨hv.recordSnapshotNode node, .inr hl⟩, ⟨hp.lawful, hp.ran, ?_, ?_, hp.current, hp.last, hp.log⟩, rfl⟩
    · rw [List.foldl_append, ← hp.graph]
      rfl
    · rw [← hp.advanced]
      simp [View.step]
  · refine Triple.weaken (Q := fun _ _ v => Tells m₀ (deeds ++ [.took node]) v) ?_ (fun _ _ hp => hp)
      fun _ _ _ hq => ⟨_, hq⟩
    refine triple_bind (Q := fun _ _ v => Tells m₀ (deeds ++ [.took node]) v) ?_ (fun _ => ?_) fun _ _ _ h => h
    · refine Triple.weaken (P := fun _ v => Midway m₀ deeds (commands deeds) (nodes deeds ++ [node]) v) ?_
        (fun _ _ hp => hp.1) fun _ _ _ h => h
      refine triple_updateStateEmit plain_state hentered.stable (fun _ => hmoved.stable) fun h v hv hp => ?_
      refine ⟨⟨hv.modifyRecord _ hv.active, .inr hl⟩, ?_⟩
      constructor
      case lawful => exact hp.lawful.took hnode.parent hnode.leaf hnode.replay
      case ran => exact hp.ran.trans (commands_took ..).symm
      case graph => exact hp.graph.trans (by rw [nodes_took])
      case advanced =>
        rw [nodes_took, List.map_append, ← hp.advanced]
        simp [View.step, advances, List.filterMap_append]
      case current => simp [View.step]
      case last => simp [View.step]
      case log => simp [View.step]
    · refine keep_bind (keep_ret ()) fun _ => ?_
      refine keep_bind (keep_access hmoved fun v hv => ?_) fun _ => keep_ret _
      exact quiet ⟨hv.current, hv.registered, hv.active⟩ ⟨rfl, rfl, rfl, by simp [View.step]⟩

/-- `_snapshot_branch` after the decider has answered. -/
theorem triple_captured (hl : .operation mainRef ∈ H) (deeds : List Deed) (takePhysical : Bool) :
    (protocol m₀).Triple H (fun _ v => Tells m₀ deeds v) (do
      let node ←
        if takePhysical then
          capturePhysical B.recording.hooks defaultBranchId mainRef (position m₀.main.lastSnapshotId deeds)
        else
          captureVirtual B.recording.hooks (position m₀.main.lastSnapshotId deeds) (pending m₀.main.commandLog deeds)
      commitCaptured B.recording.hooks defaultBranchId mainRef takePhysical node)
      fun _ _ v => ∃ deeds, Tells m₀ deeds v := by
  have hcommit : ∀ captured : Option SnapshotNode, (protocol m₀).Triple H
      (fun _ v => Tells m₀ deeds v ∧ ∀ node, (.ok captured : Except PyError _) = .ok (some node) → NodeFor m₀ deeds node)
      (commitCaptured B.recording.hooks defaultBranchId mainRef takePhysical captured)
      fun _ _ v => ∃ deeds, Tells m₀ deeds v := by
    intro captured
    cases captured with
    | none => exact triple_ret fun _ _ hp => ⟨deeds, hp.1⟩
    | some node =>
      refine triple_of_fact (fun _ _ hp => hp.2 node rfl) fun hnode => ?_
      exact Triple.weaken (triple_commitSnapshot B hl hnode takePhysical) (fun _ _ hp => hp.1) fun _ _ _ h => h
  cases takePhysical with
  | true => exact triple_bind (triple_capturePhysical B hl deeds) hcommit fun _ _ _ hp => ⟨deeds, hp.1⟩
  | false => exact triple_bind (triple_captureVirtual B hl deeds) hcommit fun _ _ _ hp => ⟨deeds, hp.1⟩

theorem keep_snapshotBranch (hl : .operation mainRef ∉ H) (forcePhysical : Bool) :
    (protocol m₀).Keep H (fun _ _ => True) (snapshotBranch B.recording.hooks defaultBranchId forcePhysical) := by
  refine triple_template hl fun deeds => ?_
  have hmem : Lock.operation mainRef ∈ Lock.operation mainRef :: H := List.mem_cons_self ..
  have hF := frame_midway (W := W) m₀ deeds (commands deeds) (nodes deeds) hmem
  refine triple_bind (triple_seen hmem deeds) (fun seen => ?_) fun _ _ _ hp => ⟨deeds, hp.1⟩
  refine triple_of_fact (fun _ _ hp => hp.2) fun ⟨time, hseen⟩ => ?_
  cases hseen
  refine Triple.weaken (P := fun _ v => Tells m₀ deeds v) ?_ (fun _ _ hp => hp.1) fun _ _ _ h => h
  cases forcePhysical with
  | true => exact (keep_ret true).bind (triple_captured B hmem deeds) fun _ _ _ hp => ⟨deeds, hp⟩
  | false =>
    have hdecide : (protocol m₀).Keep (.operation mainRef :: H) (fun _ v => Tells m₀ deeds v)
        (B.recording.hooks.decide ⟨time⟩) := keep_access hF fun v hv => quiet_other hv rfl rfl
    exact hdecide.bind (triple_captured B hmem deeds) fun _ _ _ hp => ⟨deeds, hp⟩

/-- The public methods call the templates under the current-branch lock. -/
theorem keep_onCurrent {α : Type} (hl : .operation mainRef ∉ H) {p : String → M (W × List Command) α}
    (hp : ∀ H, .operation mainRef ∉ H → (protocol m₀).Keep H (fun _ _ => True) (p defaultBranchId)) :
    (protocol m₀).Keep H (fun _ _ => True) (withLock .currentBranch (getCurrentBranchId >>= p)) := by
  refine triple_plain (plain (by simp)) frame_true.stable (fun _ => frame_true.stable) ?_
  refine triple_bind (Q := fun r _ _ => r = .ok defaultBranchId) ?_ (fun b => ?_) fun _ _ _ _ => trivial
  · exact triple_readState plain_state (fun h v _ => .inl (.refl v)) frame_true.stable (fun _ _ _ _ _ hp => hp)
      fun h v hv _ => congrArg _ hv.current
  · refine triple_of_fact (fun _ _ hq => hq) fun hb => ?_
    cases hb
    exact Triple.weaken (hp _ (by simp [hl])) (fun _ _ _ => trivial) fun _ _ _ h => h

theorem keep_prog (op : BranchOp) : (protocol m₀).Keep [] (fun _ _ => True) (op.prog B.recording.hooks) := by
  have hnil : Lock.operation mainRef ∉ [] := by simp
  cases op with
  | exec c t => exact keep_bind (keep_onCurrent hnil fun H hl => keep_execBranch B hl c t) fun _ => keep_ret _
  | snapshot => exact keep_bind (keep_onCurrent hnil fun H hl => keep_snapshotBranch B hl false) fun _ => keep_ret _
  | copyIn h p => exact keep_bind (keep_onCurrent hnil fun H hl => keep_copyBranch B hl h p true) fun _ => keep_ret _
  | copyOut p h => exact keep_bind (keep_onCurrent hnil fun H hl => keep_copyBranch B hl h p false) fun _ => keep_ret _

theorem keep_template (op : BranchOp) : (protocol m₀).Keep [] (fun _ _ => True) (op.template B.recording.hooks) := by
  have hnil : Lock.operation mainRef ∉ [] := by simp
  cases op with
  | exec c t => exact keep_bind (keep_execBranch B hnil c t) fun _ => keep_ret _
  | snapshot => exact keep_bind (keep_snapshotBranch B hnil false) fun _ => keep_ret _
  | copyIn h p => exact keep_bind (keep_copyBranch B hnil h p true) fun _ => keep_ret _
  | copyOut p h => exact keep_bind (keep_copyBranch B hnil h p false) fun _ => keep_ret _

end Strand

/-- Whenever no thread holds the operation lock of the branch, what the threads have done so far is a chronicle. -/
theorem branch_linearizes (B : SequentialBackend W) {m₀ : Manager} (h₀ : Solo m₀) (w : W)
    {c : Config (Sys (W × List Command)) Lock Event PyError Outcome}
    (h : Config.Reach (fun p => ∃ op : BranchOp, p = op.prog B.recording.hooks ∨ p = op.template B.recording.hooks)
      Lock.reentrant ⟨m₀, w, []⟩ c)
    (hfree : c.owner (.operation mainRef) = none) : ∃ deeds, Tells m₀ deeds c.view := by
  have hsafe : c.Safe (Strand.protocol m₀) := by
    refine Config.safe_reach (s := ⟨m₀, w, []⟩) Strand.protocol_coherent ?_ h₀ (fun l _ => ?_) h
    · rintro p ⟨op, rfl | rfl⟩ v
      · exact (Strand.keep_prog B op [] v trivial).mono fun _ _ _ _ hr => hr.1
      · exact (Strand.keep_template B op [] v trivial).mono fun _ _ _ _ hr => hr.1
    · exact ⟨[], .nil, rfl, rfl, rfl, rfl, rfl, rfl⟩
  exact hsafe.free _ hfree rfl

/-- A snapshot has looked up the branch when a command is run; it is virtual, and another command follows. -/
def overlapping : List (Config.Move (Sys (Tape × List Command)) Lock Event PyError Outcome) :=
  .start 1 (BranchOp.snapshot.template Tape.backend.recording.hooks) :: List.replicate 4 (.run 1) ++
    .start 0 ((BranchOp.exec (.line "a") none).prog Tape.backend.recording.hooks) :: List.replicate 25 (.run 0) ++
    List.replicate 15 (.run 1) ++
    .start 0 ((BranchOp.exec (.line "b") none).prog Tape.backend.recording.hooks) :: List.replicate 25 (.run 0)

theorem branch_linearizes_overlapping :
    ∃ c : Config (Sys (Tape × List Command)) Lock Event PyError Outcome,
      c.state.world.2 = [.line "a", .line "b"] ∧ c.state.mgr.main.commandLog = [.line "b"] ∧
        (c.state.mgr.snapshotGraph.get? "v0123456").map SnapshotNode.replayCommands = some [.line "a"] ∧
        ∃ deeds, Tells (Manager.startedAt "base" "base") deeds c.view := by
  have hmenu : ∀ t p, Config.Move.start t p ∈ overlapping → ∃ op : BranchOp,
      p = op.prog Tape.backend.recording.hooks ∨ p = op.template Tape.backend.recording.hooks := by
    intro t p hp
    simp only [overlapping, List.mem_cons, List.mem_append, List.mem_replicate, Config.Move.start.injEq, reduceCtorEq,
      and_false, or_false] at hp
    rcases hp with (⟨-, rfl⟩ | ⟨-, rfl⟩) | ⟨-, rfl⟩
    · exact ⟨_, .inr rfl⟩
    · exact ⟨_, .inl rfl⟩
    · exact ⟨_, .inl rfl⟩
  let q : Config (Sys (Tape × List Command)) Lock Event PyError Outcome → Bool := fun c => decide
    (c.owner (.operation mainRef) = none ∧ c.state.world.2 = [.line "a", .line "b"] ∧
      c.state.mgr.main.commandLog = [.line "b"] ∧
      (c.state.mgr.snapshotGraph.get? "v0123456").map SnapshotNode.replayCommands = some [.line "a"])
  have hplay : (Config.play Lock.reentrant overlapping
      { state := ⟨Manager.startedAt "base" "base", Tape.start ["0123456789"] [false] [], []⟩ }).any q = true := by
    decide +kernel
  obtain ⟨c, hreach, hq⟩ := Config.exists_reach_of_play hmenu hplay
  obtain ⟨hfree, hran, hlog, hreplay⟩ := of_decide_eq_true hq
  exact ⟨c, hran, hlog, hreplay, branch_linearizes Tape.backend (Manager.startedAt_solo "base" "base") _ hreach hfree⟩

end StateFork
