import StateFork.Lib.Run
import StateFork.Controller.Base

/-!
# Sequential managers

A `SequentialBackend` gives the hooks of a manager with one environment as functions on its world,
so that they can touch the controller only as their documented contract allows: a successful
`_core_snapshot` registers its resource, and no hook does anything else to it. `SeqOp` are the
operations of a run; `runOps` executes them one after the other.

The `run_*` lemmas say what each template does to a manager in the state `Solo`, where the default
branch is registered, current and active.
-/

namespace StateFork

open Conc Conc.Prog

/-- The primitives of a backend with one environment. -/
structure SequentialBackend (W : Type) where
  /-- On success the new id and its backend resource. -/
  snapshot (branchId : String) : W → Except PyError (Option (String × String) × ℚ) × W
  restore (snapshotId resource branchId : String) : W → Except PyError (Bool × ℚ) × W
  exec (command : Command) (timeout : Option ℚ) (branchId : String) :
    W → Except PyError (Int × String × String) × W
  copy (branchId hostPath envPath : String) (into : Bool) : W → Except PyError (Bool × String) × W
  cleanup : W → Except PyError (Option Bool) × W
  decide (context : DecisionContext) : W → Bool × W
  time : W → ℚ × W
  uuid4Hex : W → String × W

namespace SequentialBackend

open EnvironmentManager

variable {W : Type} (B : SequentialBackend W)

/-- The hooks of the backend. -/
def hooks : Hooks W where
  coreSnapshot branchId := do
    let (captured, elapsed) ← tryWorld (B.snapshot branchId) fun _ => []
    match captured with
    | none => return (none, elapsed)
    | some (snapshotId, resource) =>
      registerSnapshotResource snapshotId resource
      return (some snapshotId, elapsed)
  coreRestore snapshotId branchId := do
    match ← snapshotResource snapshotId with
    | none => return (false, 0)
    | some resource => tryWorld (B.restore snapshotId resource branchId) fun _ => []
  coreCleanup := tryWorld B.cleanup fun _ => []
  coreExec command timeout branchId := tryWorld (B.exec command timeout branchId) fun _ => []
  coreCopy branchId hostPath envPath into :=
    tryWorld (B.copy branchId hostPath envPath into) fun _ => []
  afterSnapshot _ _ := pure ()
  decide context := world (B.decide context)
  time := world B.time
  uuid4Hex := world B.uuid4Hex

/-- `_core_exec` between two readings of the clock: outcome, elapsed time, world. -/
def timedExec (command : Command) (timeout : Option ℚ) (w : W) :
    Except PyError (Int × String × String) × ℚ × W :=
  let start := B.time w
  let result := B.exec command timeout defaultBranchId start.2
  let stop := B.time result.2
  (result.1, stop.1 - start.1, stop.2)

end SequentialBackend

/-- The record of the default branch, which a manager allocates first. -/
def mainRef : Ref := ⟨defaultBranchId, 0⟩

/-- The default branch is registered, current and active. -/
structure Solo (m : Manager) : Prop where
  current : m.currentBranchId = defaultBranchId
  registered : m.branches.get? defaultBranchId = some mainRef
  active : (m.record mainRef).active = true

namespace Manager

/-- The fields of the default branch's record. -/
abbrev main (m : Manager) : BranchState := m.record mainRef

/-- A manager right after a constructor registered its first, physical snapshot. -/
def startedAt (root resource : String) : Manager :=
  ((init.registerSnapshotResource root resource).recordSnapshotNode ⟨root, none, [], false, []⟩).modifyRecord
    mainRef fun r => { r with currentSnapshotId := some root, lastSnapshotId := some root }

theorem startedAt_solo (root resource : String) : Solo (startedAt root resource) :=
  ⟨rfl, rfl, rfl⟩

/-- What a command leaves behind in the controller. -/
def logExec (m : Manager) (command : Command) (elapsed counted : ℚ) : Manager :=
  (m.modifyRecord mainRef fun r =>
    { r with
      cumulativeExecTime := r.cumulativeExecTime + counted
      commandLog := r.commandLog ++ [command] }).addEntry "exec" m.main.targetSnapshot elapsed
    defaultBranchId

/-- The manager after `commitSnapshot`. -/
def advance (m : Manager) (node : SnapshotNode) (takePhysical : Bool) : Manager :=
  { (m.recordSnapshotNode node).modifyRecord mainRef fun r =>
      { r with
        currentSnapshotId := some node.snapshotId
        lastSnapshotId := some node.snapshotId
        commandLog := []
        cumulativeExecTime := if takePhysical then 0 else r.cumulativeExecTime } with
    isCleanedUp := false }

/-- `_set_branch_position` on the default branch. -/
def reposition (m : Manager) (snapshotId : String) : Manager :=
  m.modifyRecord mainRef fun _ => .positionedAt (some snapshotId)

variable (m : Manager)

@[simp] theorem main_modifyRecord (f : BranchState → BranchState) :
    (m.modifyRecord mainRef f).main = f m.main :=
  Heap.cell_modify_self m.records mainRef.addr f

@[simp] theorem main_addEntry (operation targetId : String) (elapsed : ℚ) (branchId : String) :
    (m.addEntry operation targetId elapsed branchId).main = m.main := rfl

@[simp] theorem main_logExec (command : Command) (elapsed counted : ℚ) :
    (m.logExec command elapsed counted).main =
      { m.main with
        cumulativeExecTime := m.main.cumulativeExecTime + counted
        commandLog := m.main.commandLog ++ [command] } :=
  m.main_modifyRecord fun r =>
    { r with
      cumulativeExecTime := r.cumulativeExecTime + counted
      commandLog := r.commandLog ++ [command] }

@[simp] theorem main_advance (node : SnapshotNode) (takePhysical : Bool) :
    (m.advance node takePhysical).main =
      { m.main with
        currentSnapshotId := some node.snapshotId
        lastSnapshotId := some node.snapshotId
        commandLog := []
        cumulativeExecTime := if takePhysical then 0 else m.main.cumulativeExecTime } :=
  (m.recordSnapshotNode node).main_modifyRecord fun r =>
    { r with
      currentSnapshotId := some node.snapshotId
      lastSnapshotId := some node.snapshotId
      commandLog := []
      cumulativeExecTime := if takePhysical then 0 else r.cumulativeExecTime }

end Manager

/-- The time the template counts for a command: none when `_core_exec` raised. -/
def countedTime {α : Type} (r : Except PyError α) (elapsed : ℚ) : ℚ :=
  match r with
  | .ok _ => elapsed
  | .error _ => 0

/-- The tuple the template returns for a command. -/
def execResult : Except PyError (Int × String × String) → Int × String × String
  | .ok r => r
  | .error e => (-1, "", e.text)

namespace Solo

variable {m : Manager}

theorem modifyRecord (h : Solo m) (f : BranchState → BranchState) (hf : (f m.main).active = true) :
    Solo (m.modifyRecord mainRef f) :=
  ⟨h.current, h.registered, by simpa [Manager.record, Manager.modifyRecord] using hf⟩

theorem addEntry (h : Solo m) (operation target : String) (elapsed : ℚ) (b : String) :
    Solo (m.addEntry operation target elapsed b) :=
  ⟨h.current, h.registered, h.active⟩

theorem logExec (h : Solo m) (c : Command) (x y : ℚ) : Solo (m.logExec c x y) := by
  unfold Manager.logExec
  exact (h.modifyRecord _ h.active).addEntry ..

theorem recordSnapshotNode (h : Solo m) (node : SnapshotNode) : Solo (m.recordSnapshotNode node) :=
  ⟨h.current, h.registered, h.active⟩

theorem advance (h : Solo m) (node : SnapshotNode) (b : Bool) : Solo (m.advance node b) := by
  have h' := (h.recordSnapshotNode node).modifyRecord (fun r =>
    { r with
      currentSnapshotId := some node.snapshotId
      lastSnapshotId := some node.snapshotId
      commandLog := []
      cumulativeExecTime := if b then 0 else r.cumulativeExecTime }) (h.recordSnapshotNode node).active
  exact ⟨h'.current, h'.registered, h'.active⟩

theorem reposition (h : Solo m) (id : String) : Solo (m.reposition id) :=
  h.modifyRecord _ rfl

theorem getBranchState_main (h : Solo m) : m.getBranchState (some defaultBranchId) = .ok mainRef := by
  simp only [Manager.getBranchState, Option.getD_some, h.registered]

theorem getBranchState_current (h : Solo m) : m.getBranchState none = .ok mainRef := by
  simp only [Manager.getBranchState, Option.getD_none, h.current, h.registered]

end Solo

namespace SequentialBackend

variable {W : Type} (B : SequentialBackend W)

/-! ### The effect of each template -/

/-- The effect of `exec_command`. -/
def afterExec (command : Command) (timeout : Option ℚ) (s : Sys W) : Sys W :=
  let x := B.timedExec command timeout s.world
  ⟨s.mgr.logExec command x.2.1 (countedTime x.1 x.2.1), x.2.2⟩

/-- The effect of the replay loop. -/
def afterReplay (commands : List Command) (s : Sys W) : Sys W :=
  commands.foldl (fun s c => B.afterExec c none s) s

/-- The system before the replay loop of a restore whose hook took `elapsed`. -/
def beforeReplay (ancestorId : String) (elapsed : ℚ) (s : Sys W) : Sys W :=
  { s with mgr := s.mgr.addEntry "restore" ancestorId elapsed defaultBranchId }

/-- The effect of a restore whose hook succeeded. -/
def afterRestore (snapshotId ancestorId : String) (commands : List Command) (elapsed : ℚ) (s : Sys W) :
    Sys W :=
  let s' := B.afterReplay commands (beforeReplay ancestorId elapsed s)
  { s' with mgr := s'.mgr.reposition snapshotId }

/-- The outcome and effect of `restore`. -/
def restoreEffect (snapshotId : String) (s : Sys W) : Except PyError Bool × Sys W :=
  match s.mgr.physicalAncestor snapshotId with
  | .error _ => (.ok false, s)
  | .ok (ancestor, commands) =>
    match s.mgr.snapshots.get? ancestor.snapshotId with
    | none => (.ok false, s)
    | some resource =>
      match B.restore ancestor.snapshotId resource defaultBranchId s.world with
      | (.error e, w) => (.error e, { s with world := w })
      | (.ok (false, _), w) => (.ok false, { s with world := w })
      | (.ok (true, elapsed), w) =>
        (.ok true, B.afterRestore snapshotId ancestor.snapshotId commands elapsed { s with world := w })

/-- The node that a snapshot of the default branch records. -/
abbrev snapshotNode (m : Manager) (snapshotId : String) (takePhysical : Bool) : SnapshotNode :=
  ⟨snapshotId, m.main.lastSnapshotId, [], !takePhysical, if takePhysical then [] else m.main.commandLog⟩

/-- The manager after a physical snapshot. -/
def afterPhysical (m : Manager) (snapshotId resource : String) (elapsed : ℚ) : Manager :=
  ((m.registerSnapshotResource snapshotId resource).addEntry "snapshot" snapshotId elapsed
    defaultBranchId).advance (snapshotNode m snapshotId true) true

/-- The manager after a virtual snapshot. -/
def afterVirtual (m : Manager) (snapshotId : String) : Manager :=
  m.advance (snapshotNode m snapshotId false) false

/-- The outcome and effect of `snapshot`. -/
def snapshotEffect (s : Sys W) : Except PyError (Option String) × Sys W :=
  let d := B.decide ⟨s.mgr.main.cumulativeExecTime⟩ s.world
  if d.1 then
    match B.snapshot defaultBranchId d.2 with
    | (.error e, w) => (.error e, { s with world := w })
    | (.ok (none, _), w) => (.ok none, { s with world := w })
    | (.ok (some (snapshotId, resource), elapsed), w) =>
      (.ok (some snapshotId), ⟨afterPhysical s.mgr snapshotId resource elapsed, w⟩)
  else
    let u := B.uuid4Hex d.2
    let snapshotId := "v" ++ (u.1.take 7).toString
    (.ok (some snapshotId), ⟨afterVirtual s.mgr snapshotId, u.2⟩)

theorem afterExec_solo {s : Sys W} (h : Solo s.mgr) (c : Command) (t : Option ℚ) :
    Solo (B.afterExec c t s).mgr :=
  h.logExec _ _ _

theorem afterReplay_solo {s : Sys W} (h : Solo s.mgr) (commands : List Command) :
    Solo (B.afterReplay commands s).mgr := by
  induction commands generalizing s with
  | nil => exact h
  | cons c commands ih => exact ih (B.afterExec_solo h c none)

theorem afterRestore_solo {s : Sys W} (h : Solo s.mgr) (snapshotId ancestorId : String)
    (commands : List Command) (elapsed : ℚ) :
    Solo (B.afterRestore snapshotId ancestorId commands elapsed s).mgr :=
  (B.afterReplay_solo (h.addEntry ..) commands).reposition _

theorem restoreEffect_solo {s : Sys W} (h : Solo s.mgr) (snapshotId : String) :
    Solo (B.restoreEffect snapshotId s).2.mgr := by
  unfold restoreEffect
  split
  · exact h
  · split
    · exact h
    · split
      · exact h
      · exact h
      · next elapsed w _ =>
        have h' : Solo ({ s with world := w } : Sys W).mgr := h
        exact B.afterRestore_solo h' _ _ _ _

theorem snapshotEffect_solo {s : Sys W} (h : Solo s.mgr) : Solo (B.snapshotEffect s).2.mgr := by
  unfold snapshotEffect
  dsimp only
  split
  · split
    · exact h
    · exact h
    · next id res elapsed w _ =>
      have h' : Solo ((s.mgr.registerSnapshotResource id res).addEntry "snapshot" id elapsed
          defaultBranchId) := ⟨h.current, h.registered, h.active⟩
      exact h'.advance _ _
  · exact h.advance _ _

end SequentialBackend

namespace EnvironmentManager

variable {W : Type} (B : SequentialBackend W)

/-! ### What the templates do -/

theorem run_logCommand (s : Sys W) (c : Command) (x y : ℚ) :
    (logCommand defaultBranchId mainRef c x y).run s = (.ok (), { s with mgr := s.mgr.logExec c x y }) := by
  simp only [logCommand, run_bind, run_withState, run_afterValue_ok, run_addEntry]
  rfl

theorem run_execCommand {s : Sys W} (h : Solo s.mgr) (command : Command) (timeout : Option ℚ) :
    (execCommand B.hooks command timeout).run s =
      (.ok (execResult (B.timedExec command timeout s.world).1), B.afterExec command timeout s) := by
  have hactive : (s.mgr.record mainRef).active = true := h.active
  simp only [execCommand, getCurrentBranchId, run_withLock, run_bind, run_readState,
    run_afterValue_ok, h.current, execBranch, getBranchState, run_tryState, h.getBranchState_main,
    run_announce, hactive, if_true, SequentialBackend.hooks, run_world, run_attempt, run_tryWorld]
  simp only [SequentialBackend.afterExec, SequentialBackend.timedExec]
  rcases B.exec command timeout defaultBranchId (B.time s.world).2 with ⟨_ | r, w⟩
  · simp only [run_bind, run_logCommand, run_afterValue_ok, run_pure]
    rfl
  · simp only [run_bind, run_logCommand, run_afterValue_ok, run_pure]
    rfl

theorem run_replay {s : Sys W} (h : Solo s.mgr) (commands : List Command) :
    (replay B.hooks commands).run s = (.ok (), B.afterReplay commands s) := by
  induction commands generalizing s with
  | nil => rfl
  | cons c commands ih =>
    have hs := B.afterExec_solo h c none
    show (each (c :: commands) _).run s = _
    rw [run_each_cons, run_bind, run_bind, run_execCommand B h]
    exact ih hs

theorem run_setBranchPosition {s : Sys W} (h : Solo s.mgr) (snapshotId : String) :
    (setBranchPosition defaultBranchId (some snapshotId)).run s =
      (.ok (), { s with mgr := s.mgr.reposition snapshotId }) := by
  simp only [setBranchPosition, registerBranch, run_bind, run_withState, Manager.registerBranch,
    h.registered, run_afterValue_ok, run_updateStateEmit]
  rfl

theorem run_finishRestore {s : Sys W} (h : Solo s.mgr) (snapshotId ancestorId : String)
    (commands : List Command) (elapsed : ℚ) :
    (finishRestore B.hooks snapshotId ancestorId commands elapsed).run s =
      (.ok true, B.afterRestore snapshotId ancestorId commands elapsed s) := by
  have h' : Solo (SequentialBackend.beforeReplay ancestorId elapsed s).mgr := h.addEntry ..
  have hr := run_replay B h' commands
  have hp := run_setBranchPosition (B.afterReplay_solo h' commands) snapshotId
  unfold SequentialBackend.beforeReplay at hr hp
  simp only [finishRestore, getCurrentBranchId, run_bind, run_readState, run_afterValue_ok, h.current,
    run_addEntry, hr, hp, run_pure]
  rfl

theorem run_restore {s : Sys W} (h : Solo s.mgr) (snapshotId : String) :
    (restore B.hooks snapshotId).run s = B.restoreEffect snapshotId s := by
  simp only [restore, restoreCurrentBranch, getBranchState, run_withLock, run_bind, run_tryState,
    h.getBranchState_current, run_afterValue_ok, run_readState, SequentialBackend.restoreEffect]
  cases s.mgr.physicalAncestor snapshotId with
  | error e => rfl
  | ok walk =>
    obtain ⟨ancestor, commands⟩ := walk
    simp only [SequentialBackend.hooks, snapshotResource, run_bind, run_readState, run_afterValue_ok]
    cases s.mgr.snapshots.get? ancestor.snapshotId with
    | none => rfl
    | some resource =>
      simp only [run_tryWorld, mainRef]
      rcases hr : B.restore ancestor.snapshotId resource defaultBranchId s.world with
        ⟨_ | ⟨_ | _, elapsed⟩, w⟩
      · rfl
      · rfl
      · have h' : Solo ({ s with world := w } : Sys W).mgr := h
        exact run_finishRestore B h' _ _ _ _

theorem run_commitSnapshot (node : SnapshotNode) (b : Bool) (s : Sys W) :
    (commitSnapshot B.hooks defaultBranchId mainRef b node).run s =
      (.ok (some node.snapshotId), { s with mgr := s.mgr.advance node b }) := by
  simp only [commitSnapshot, recordSnapshotNode, run_bind, run_updateState, run_afterValue_ok,
    run_updateStateEmit, SequentialBackend.hooks, run_pure, run_poke]
  rfl

theorem run_snapshot {s : Sys W} (h : Solo s.mgr) : (snapshot B.hooks).run s = B.snapshotEffect s := by
  have hactive : (s.mgr.record mainRef).active = true := h.active
  simp only [snapshot, snapshotBranch, getCurrentBranchId, getBranchState, run_withLock, run_bind,
    run_readState, run_afterValue_ok, h.current, run_tryState, h.getBranchState_main, run_announce,
    hactive, if_true, SequentialBackend.snapshotEffect, Bool.false_eq_true, if_false]
  have hd : (B.hooks.decide ⟨(s.mgr.record mainRef).cumulativeExecTime⟩).run s =
      (.ok (B.decide ⟨s.mgr.main.cumulativeExecTime⟩ s.world).1,
        { s with world := (B.decide ⟨s.mgr.main.cumulativeExecTime⟩ s.world).2 }) := rfl
  simp only [hd, run_afterValue_ok]
  rcases B.decide ⟨s.mgr.main.cumulativeExecTime⟩ s.world with ⟨_ | _, w⟩
  · simp only [Bool.false_eq_true, if_false, captureVirtual, run_bind, run_world, run_afterValue_ok,
      run_pure, SequentialBackend.hooks]
    exact run_commitSnapshot B _ _ _
  · simp only [if_true, capturePhysical, run_bind, run_announce, run_afterValue_ok,
      SequentialBackend.hooks, run_tryWorld]
    rcases B.snapshot defaultBranchId w with ⟨_ | ⟨_ | ⟨id, res⟩, elapsed⟩, w⟩
    · rfl
    · rfl
    · simp only [run_afterValue_ok, registerSnapshotResource, run_bind, run_updateState, run_pure,
        run_addEntry]
      exact run_commitSnapshot B _ _ _

end EnvironmentManager

namespace SequentialBackend

variable {W : Type} (B : SequentialBackend W)

/-! ### What an operation can do -/

/-- The exits of `snapshot`. -/
inductive SnapshotCase (s : Sys W) : Except PyError (Option String) × Sys W → Prop
  | raised {w w' : W} {e : PyError}
      (decided : B.decide ⟨s.mgr.main.cumulativeExecTime⟩ s.world = (true, w))
      (hook : B.snapshot defaultBranchId w = (.error e, w')) :
      SnapshotCase s (.error e, { s with world := w' })
  | failed {w w' : W} {elapsed : ℚ}
      (decided : B.decide ⟨s.mgr.main.cumulativeExecTime⟩ s.world = (true, w))
      (hook : B.snapshot defaultBranchId w = (.ok (none, elapsed), w')) :
      SnapshotCase s (.ok none, { s with world := w' })
  | physical {w w' : W} {snapshotId resource : String} {elapsed : ℚ}
      (decided : B.decide ⟨s.mgr.main.cumulativeExecTime⟩ s.world = (true, w))
      (hook : B.snapshot defaultBranchId w = (.ok (some (snapshotId, resource), elapsed), w')) :
      SnapshotCase s (.ok (some snapshotId), ⟨afterPhysical s.mgr snapshotId resource elapsed, w'⟩)
  | virtual {w w' : W} {hex : String}
      (decided : B.decide ⟨s.mgr.main.cumulativeExecTime⟩ s.world = (false, w))
      (uuid : B.uuid4Hex w = (hex, w')) :
      SnapshotCase s
        (.ok (some ("v" ++ (hex.take 7).toString)),
          ⟨afterVirtual s.mgr ("v" ++ (hex.take 7).toString), w'⟩)

theorem snapshotEffect_cases (s : Sys W) : B.SnapshotCase s (B.snapshotEffect s) := by
  unfold snapshotEffect
  rcases hd : B.decide ⟨s.mgr.main.cumulativeExecTime⟩ s.world with ⟨_ | _, w⟩
  · exact .virtual hd rfl
  · simp only [if_true]
    rcases hs : B.snapshot defaultBranchId w with ⟨_ | ⟨_ | ⟨id, res⟩, elapsed⟩, w'⟩
    · exact .raised hd hs
    · exact .failed hd hs
    · exact .physical hd hs

/-- The exits of `restore`. -/
inductive RestoreCase (snapshotId : String) (s : Sys W) : Except PyError Bool × Sys W → Prop
  | refused : RestoreCase snapshotId s (.ok false, s)
  | raised {ancestor : SnapshotNode} {commands : List Command} {resource : String} {e : PyError} {w : W}
      (walk : s.mgr.physicalAncestor snapshotId = .ok (ancestor, commands))
      (registered : s.mgr.snapshots.get? ancestor.snapshotId = some resource)
      (hook : B.restore ancestor.snapshotId resource defaultBranchId s.world = (.error e, w)) :
      RestoreCase snapshotId s (.error e, { s with world := w })
  | failed {ancestor : SnapshotNode} {commands : List Command} {resource : String} {elapsed : ℚ} {w : W}
      (walk : s.mgr.physicalAncestor snapshotId = .ok (ancestor, commands))
      (registered : s.mgr.snapshots.get? ancestor.snapshotId = some resource)
      (hook : B.restore ancestor.snapshotId resource defaultBranchId s.world = (.ok (false, elapsed), w)) :
      RestoreCase snapshotId s (.ok false, { s with world := w })
  | restored {ancestor : SnapshotNode} {commands : List Command} {resource : String} {elapsed : ℚ} {w : W}
      (walk : s.mgr.physicalAncestor snapshotId = .ok (ancestor, commands))
      (registered : s.mgr.snapshots.get? ancestor.snapshotId = some resource)
      (hook : B.restore ancestor.snapshotId resource defaultBranchId s.world = (.ok (true, elapsed), w)) :
      RestoreCase snapshotId s
        (.ok true, B.afterRestore snapshotId ancestor.snapshotId commands elapsed { s with world := w })

theorem restoreEffect_cases (snapshotId : String) (s : Sys W) :
    B.RestoreCase snapshotId s (B.restoreEffect snapshotId s) := by
  unfold restoreEffect
  rcases hw : s.mgr.physicalAncestor snapshotId with _ | ⟨ancestor, commands⟩
  · exact .refused
  · dsimp only
    rcases hr : s.mgr.snapshots.get? ancestor.snapshotId with _ | resource
    · exact .refused
    · dsimp only
      rcases hb : B.restore ancestor.snapshotId resource defaultBranchId s.world with
        ⟨_ | ⟨_ | _, elapsed⟩, w⟩
      · exact .raised hw hr hb
      · exact .failed hw hr hb
      · exact .restored hw hr hb

/-! ### What a restore leaves of the manager -/

/-- Neither commands nor a repositioning touch the snapshots or the graph. -/
theorem afterReplay_graph (commands : List Command) (s : Sys W) :
    (B.afterReplay commands s).mgr.snapshotGraph = s.mgr.snapshotGraph ∧
      (B.afterReplay commands s).mgr.snapshots = s.mgr.snapshots := by
  induction commands generalizing s with
  | nil => exact ⟨rfl, rfl⟩
  | cons c commands ih => exact ih (B.afterExec c none s)

theorem afterRestore_graph (snapshotId ancestorId : String) (commands : List Command) (elapsed : ℚ)
    (s : Sys W) :
    (B.afterRestore snapshotId ancestorId commands elapsed s).mgr.snapshotGraph = s.mgr.snapshotGraph ∧
      (B.afterRestore snapshotId ancestorId commands elapsed s).mgr.snapshots = s.mgr.snapshots :=
  B.afterReplay_graph commands (beforeReplay ancestorId elapsed s)

/-- What `_core_exec` and the clock keep of the world, a command and a replay keep. -/
theorem afterExec_world {P : W → Prop} (hexec : ∀ c t w, P w → P (B.exec c t defaultBranchId w).2)
    (htime : ∀ w, P w → P (B.time w).2) {s : Sys W} (h : P s.world) (c : Command) (t : Option ℚ) :
    P (B.afterExec c t s).world :=
  htime _ (hexec c t _ (htime _ h))

theorem afterRestore_world {P : W → Prop} (hexec : ∀ c t w, P w → P (B.exec c t defaultBranchId w).2)
    (htime : ∀ w, P w → P (B.time w).2) {s : Sys W} (h : P s.world) (snapshotId ancestorId : String)
    (commands : List Command) (elapsed : ℚ) : P (B.afterRestore snapshotId ancestorId commands elapsed s).world := by
  have hreplay : ∀ s : Sys W, P s.world → P (B.afterReplay commands s).world := by
    induction commands with
    | nil => exact fun _ h => h
    | cons c commands ih => exact fun s h => ih (B.afterExec c none s) (B.afterExec_world hexec htime h c none)
  exact hreplay (beforeReplay ancestorId elapsed s) h

@[simp] theorem afterRestore_main (snapshotId ancestorId : String) (commands : List Command) (elapsed : ℚ)
    (s : Sys W) :
    (B.afterRestore snapshotId ancestorId commands elapsed s).mgr.main =
      .positionedAt (some snapshotId) :=
  Manager.main_modifyRecord _ _

/-- No restore touches the snapshots or the graph. -/
theorem restoreEffect_graph (snapshotId : String) (s : Sys W) :
    (B.restoreEffect snapshotId s).2.mgr.snapshotGraph = s.mgr.snapshotGraph ∧
      (B.restoreEffect snapshotId s).2.mgr.snapshots = s.mgr.snapshots := by
  have hcase := B.restoreEffect_cases snapshotId s
  generalize B.restoreEffect snapshotId s = r at hcase ⊢
  cases hcase with
  | refused => exact ⟨rfl, rfl⟩
  | raised => exact ⟨rfl, rfl⟩
  | failed => exact ⟨rfl, rfl⟩
  | restored => exact B.afterRestore_graph ..

/-- What the backend's functions keep of the world, a restore keeps. -/
theorem restoreEffect_world {P : W → Prop} (hrestore : ∀ id resource w, P w → P (B.restore id resource defaultBranchId w).2)
    (hexec : ∀ c t w, P w → P (B.exec c t defaultBranchId w).2) (htime : ∀ w, P w → P (B.time w).2) {s : Sys W}
    (h : P s.world) (snapshotId : String) : P (B.restoreEffect snapshotId s).2.world := by
  have hcase := B.restoreEffect_cases snapshotId s
  generalize B.restoreEffect snapshotId s = r at hcase ⊢
  cases hcase with
  | refused => exact h
  | @raised ancestor _ resource _ _ walk registered hook =>
    simpa only [hook] using hrestore ancestor.snapshotId resource s.world h
  | @failed ancestor _ resource _ _ walk registered hook =>
    simpa only [hook] using hrestore ancestor.snapshotId resource s.world h
  | @restored ancestor commands resource elapsed w walk registered hook =>
    have hrestored : P ({ s with world := w } : Sys W).world := by
      simpa only [hook] using hrestore ancestor.snapshotId resource s.world h
    exact B.afterRestore_world hexec htime hrestored snapshotId ancestor.snapshotId commands elapsed

end SequentialBackend

/-! ### Runs -/

/-- The operations of a run. -/
inductive SeqOp where
  | exec (command : Command) (timeout : Option ℚ)
  | snapshot
  | restore (snapshotId : String)
  deriving DecidableEq

namespace SeqOp

open EnvironmentManager

variable {W : Type} (B : SequentialBackend W)

/-- The program of an operation. -/
def prog : SeqOp → M W Outcome
  | exec c t => (fun r => .exec r.1 r.2.1 r.2.2) <$> execCommand B.hooks c t
  | snapshot => Outcome.snapshotId <$> EnvironmentManager.snapshot B.hooks
  | restore id => Outcome.flag <$> EnvironmentManager.restore B.hooks id

/-- The state after an operation, as its template computes it. -/
def effect : SeqOp → Sys W → Sys W
  | exec c t, s => B.afterExec c t s
  | snapshot, s => (B.snapshotEffect s).2
  | restore id, s => (B.restoreEffect id s).2

theorem effect_solo {s : Sys W} (h : Solo s.mgr) : ∀ op : SeqOp, Solo (op.effect B s).mgr
  | exec c t => B.afterExec_solo h c t
  | snapshot => B.snapshotEffect_solo h
  | restore id => B.restoreEffect_solo h id

theorem run_prog_snapshot {s : Sys W} (h : Solo s.mgr) :
    (snapshot.prog B).run s =
      ((B.snapshotEffect s).1.map Outcome.snapshotId, (B.snapshotEffect s).2) := by
  rw [prog, run_map, run_snapshot B h]

theorem run_prog_restore {s : Sys W} (h : Solo s.mgr) (id : String) :
    ((restore id).prog B).run s = ((B.restoreEffect id s).1.map Outcome.flag, (B.restoreEffect id s).2) := by
  rw [prog, run_map, run_restore B h]

theorem run_prog {s : Sys W} (h : Solo s.mgr) (op : SeqOp) :
    ((op.prog B).run s).2 = op.effect B s := by
  cases op with
  | exec c t => rw [prog, run_map, run_execCommand B h]; rfl
  | snapshot => rw [run_prog_snapshot B h]; rfl
  | restore id => rw [run_prog_restore B h]; rfl

/-- What every hook keeps of the world, every operation keeps. -/
theorem effect_world {P : W → Prop} (hdecide : ∀ context w, P w → P (B.decide context w).2)
    (hsnapshot : ∀ w, P w → P (B.snapshot defaultBranchId w).2)
    (hrestore : ∀ id resource w, P w → P (B.restore id resource defaultBranchId w).2)
    (hexec : ∀ c t w, P w → P (B.exec c t defaultBranchId w).2) (htime : ∀ w, P w → P (B.time w).2)
    (huuid : ∀ w, P w → P (B.uuid4Hex w).2) {s : Sys W} (h : P s.world) (op : SeqOp) : P (op.effect B s).world := by
  cases op with
  | exec c t => exact B.afterExec_world hexec htime h c t
  | snapshot =>
    have hdecided := hdecide ⟨s.mgr.main.cumulativeExecTime⟩ s.world h
    have hcase := B.snapshotEffect_cases s
    show P (B.snapshotEffect s).2.world
    generalize B.snapshotEffect s = r at hcase ⊢
    cases hcase with
    | raised decided hook =>
      rw [decided] at hdecided
      simpa only [hook] using hsnapshot _ hdecided
    | failed decided hook =>
      rw [decided] at hdecided
      simpa only [hook] using hsnapshot _ hdecided
    | physical decided hook =>
      rw [decided] at hdecided
      simpa only [hook] using hsnapshot _ hdecided
    | virtual decided uuid =>
      rw [decided] at hdecided
      simpa only [uuid] using huuid _ hdecided
  | restore id => exact B.restoreEffect_world hrestore hexec htime h id

/-- An operation leaves the snapshots alone, or registers what the hook captured. -/
theorem snapshots_effect (s : Sys W) (op : SeqOp) :
    (op.effect B s).mgr.snapshots = s.mgr.snapshots ∨
      ∃ w id resource elapsed, (B.snapshot defaultBranchId w).1 = .ok (some (id, resource), elapsed) ∧
        (op.effect B s).mgr.snapshots = s.mgr.snapshots.set id resource := by
  cases op with
  | exec c t => exact .inl rfl
  | snapshot =>
    have hcase := B.snapshotEffect_cases s
    show (B.snapshotEffect s).2.mgr.snapshots = _ ∨ _
    dsimp only [effect]
    generalize B.snapshotEffect s = r at hcase ⊢
    cases hcase with
    | raised decided hook => exact .inl rfl
    | failed decided hook => exact .inl rfl
    | @physical w w' id resource elapsed decided hook => exact .inr ⟨w, id, resource, elapsed, by rw [hook], rfl⟩
    | virtual decided uuid => exact .inl rfl
  | restore id => exact .inl (B.restoreEffect_graph id s).2

end SeqOp

section Runs

variable {W : Type} (B : SequentialBackend W)

/-- The state after a run; an operation that raises still leaves its effects. -/
def runOps (ops : List SeqOp) (s : Sys W) : Sys W := ops.foldl (fun s op => ((op.prog B).run s).2) s

theorem runOps_append (ops ops' : List SeqOp) (s : Sys W) :
    runOps B (ops ++ ops') s = runOps B ops' (runOps B ops s) :=
  List.foldl_append ..

theorem runOps_cons {s : Sys W} (h : Solo s.mgr) (op : SeqOp) (ops : List SeqOp) :
    runOps B (op :: ops) s = runOps B ops (op.effect B s) := by
  show runOps B ops ((op.prog B).run s).2 = _
  rw [op.run_prog B h]

theorem runOps_solo (ops : List SeqOp) {s : Sys W} (h : Solo s.mgr) : Solo (runOps B ops s).mgr := by
  induction ops generalizing s with
  | nil => exact h
  | cons op ops ih =>
    rw [runOps_cons B h]
    exact ih (op.effect_solo B h)

/-- A backend in the state `w` under a manager that has just been constructed. -/
def Sys.startedAt (root resource : String) (w : W) : Sys W := ⟨Manager.startedAt root resource, w⟩

theorem Sys.startedAt_solo (root resource : String) (w : W) :
    Solo (Sys.startedAt root resource w).mgr :=
  Manager.startedAt_solo root resource

/-- A new snapshot id: not the id of a node, and not the empty string, which the controller reads as
"no snapshot". -/
def FreshId (m : Manager) (id : String) : Prop := id ≠ "" ∧ id ∉ m.snapshotGraph.keys

/-- An id that the operation returns as a snapshot is new. -/
def SeqOp.ReturnsFresh (op : SeqOp) (s : Sys W) : Prop :=
  ∀ id, ((op.prog B).run s).1 = .ok (.snapshotId (some id)) → FreshId s.mgr id

theorem SeqOp.returnsFresh_of_eq {op : SeqOp} {s : Sys W} {id : String}
    (hr : ((op.prog B).run s).1 = .ok (.snapshotId (some id))) (hf : FreshId s.mgr id) :
    op.ReturnsFresh B s := by
  intro id' hid'
  rw [hr] at hid'
  cases hid'
  exact hf

theorem SeqOp.returnsFresh_of_ne {op : SeqOp} {s : Sys W} (h : op ≠ .snapshot) : op.ReturnsFresh B s := by
  intro id hid
  cases op with
  | snapshot => exact absurd rfl h
  | exec c t =>
    rw [SeqOp.prog, run_map] at hid
    cases hr : ((EnvironmentManager.execCommand B.hooks c t).run s).1 <;> simp [hr, Except.map] at hid
  | restore i =>
    rw [SeqOp.prog, run_map] at hid
    cases hr : ((EnvironmentManager.restore B.hooks i).run s).1 <;> simp [hr, Except.map] at hid

/-- Every id that a snapshot of the run returns is new when it is returned. -/
def FreshIds : List SeqOp → Sys W → Prop
  | [], _ => True
  | op :: ops, s => op.ReturnsFresh B s ∧ FreshIds ops ((op.prog B).run s).2

theorem freshIds_append {ops ops' : List SeqOp} {s : Sys W} :
    FreshIds B (ops ++ ops') s ↔ FreshIds B ops s ∧ FreshIds B ops' (runOps B ops s) := by
  induction ops generalizing s with
  | nil => simp [FreshIds, runOps]
  | cons op ops ih =>
    simp only [List.cons_append, FreshIds, ih, and_assoc]
    rfl

theorem snapshot_returns_iff {s : Sys W} (h : Solo s.mgr) (id : String) :
    ((SeqOp.snapshot.prog B).run s).1 = .ok (.snapshotId (some id)) ↔
      (B.snapshotEffect s).1 = .ok (some id) := by
  rw [SeqOp.run_prog_snapshot B h]
  cases (B.snapshotEffect s).1 with
  | error e => simp [Except.map]
  | ok r => simp [Except.map]

theorem restore_returns_iff {s : Sys W} (h : Solo s.mgr) (id : String) (ok : Bool) :
    (((SeqOp.restore id).prog B).run s).1 = .ok (.flag ok) ↔ (B.restoreEffect id s).1 = .ok ok := by
  rw [SeqOp.run_prog_restore B h]
  cases (B.restoreEffect id s).1 with
  | error e => simp [Except.map]
  | ok r => simp [Except.map]

/-- What every step with a fresh id keeps, a run with fresh ids keeps. -/
theorem runOps_induction (P : Sys W → Prop)
    (step : ∀ op s, Solo s.mgr → P s →
      (op = .snapshot → ∀ id, (B.snapshotEffect s).1 = .ok (some id) → FreshId s.mgr id) →
      P (SeqOp.effect B op s))
    {ops : List SeqOp} {s : Sys W} (hs : Solo s.mgr) (h : P s) (hf : FreshIds B ops s) :
    P (runOps B ops s) := by
  induction ops generalizing s with
  | nil => exact h
  | cons op ops ih =>
    obtain ⟨hop, hrest⟩ := hf
    rw [runOps_cons B hs]
    rw [op.run_prog B hs] at hrest
    refine ih (op.effect_solo B hs) (step op s hs h ?_) hrest
    rintro rfl id hid
    exact hop id ((snapshot_returns_iff B hs id).mpr hid)

/-- `P` holds in every state of the run. -/
def Throughout (P : Sys W → Prop) (ops : List SeqOp) (s : Sys W) : Prop :=
  Run.Throughout (fun s op => ((op.prog B).run s).2) P ops s

/-- `C` holds of every operation of the run and the state in which it starts. -/
def EachStep (C : SeqOp → Sys W → Prop) (ops : List SeqOp) (s : Sys W) : Prop :=
  Run.EachStep (fun s op => ((op.prog B).run s).2) C ops s

variable {B} {P : Sys W → Prop} {C C' : SeqOp → Sys W → Prop} {s : Sys W}

theorem solo_step (s : Sys W) (op : SeqOp) (hs : Solo s.mgr) : Solo ((op.prog B).run s).2.mgr := by
  rw [op.run_prog B hs]
  exact op.effect_solo B hs

/-- Where every step decides whether `P` goes on to hold, the steps decide about the run. -/
theorem throughout_iff (hs : Solo s.mgr) {ops : List SeqOp}
    (step : ∀ op ∈ ops, ∀ s, Solo s.mgr → P s → (P (op.effect B s) ↔ C op s)) (h : P s) :
    Throughout B P ops s ↔ EachStep B C ops s := by
  refine Run.throughout_iff hs solo_step (fun op hop s hs h => ?_) h
  rw [op.run_prog B hs]
  exact step op hop s hs h

/-- Where every step with a fresh id decides whether `P` goes on to hold, the steps decide about a run with fresh ids. -/
theorem throughout_iff_of_fresh (hs : Solo s.mgr) {ops : List SeqOp}
    (step : ∀ op ∈ ops, ∀ s, Solo s.mgr → P s →
      (op = .snapshot → ∀ id, (B.snapshotEffect s).1 = .ok (some id) → FreshId s.mgr id) →
      (P (op.effect B s) ↔ C op s)) (hf : FreshIds B ops s) (h : P s) :
    Throughout B P ops s ↔ EachStep B C ops s := by
  induction ops generalizing s with
  | nil => exact Run.throughout_nil.trans (iff_of_true h trivial)
  | cons op ops ih =>
    obtain ⟨hop, hlater⟩ := hf
    have hfirst : P ((op.prog B).run s).2 ↔ C op s := by
      rw [op.run_prog B hs]
      refine step op (List.mem_cons_self ..) s hs h ?_
      rintro rfl id hid
      exact hop id ((snapshot_returns_iff B hs id).mpr hid)
    have hrest : P ((op.prog B).run s).2 →
        (Throughout B P ops ((op.prog B).run s).2 ↔ EachStep B C ops ((op.prog B).run s).2) :=
      ih (solo_step s op hs) (fun op' hop' => step op' (List.mem_cons_of_mem _ hop')) hlater
    unfold Throughout
    rw [Run.throughout_cons, and_iff_right h]
    constructor
    · intro hrun
      exact ⟨hfirst.mp hrun.start, (hrest hrun.start).mp hrun⟩
    · rintro ⟨hC, hsteps⟩
      exact (hrest (hfirst.mpr hC)).mpr hsteps

/-- Two conditions that agree wherever the manager is usable agree about every run. -/
theorem eachStep_congr (hs : Solo s.mgr) (h : ∀ op s, Solo s.mgr → (C op s ↔ C' op s)) {ops : List SeqOp} :
    EachStep B C ops s ↔ EachStep B C' ops s :=
  Run.eachStep_congr hs solo_step h

end Runs

end StateFork
