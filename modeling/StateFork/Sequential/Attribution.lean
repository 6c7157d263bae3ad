import StateFork.Sequential.Tape

/-!
# Which snapshot an exec entry names

Every execution adds an entry to the log, with the position of the branch as its target. A replayed command goes the
way of any other command, and `restore` moves the branch only after its replay loop: the entries of the loop all name
the snapshot that is being left (`log_afterReplay`). So a run attributes its commands rightly exactly if no restore of
it replays a command, or, where a target on the way to the restored snapshot counts as right, if every restore that
replays leaves from such a snapshot (`attributed_iff`).
-/

namespace StateFork

variable {W : Type} (B : SequentialBackend W)

/-- The entries that an operation adds to the log. -/
def entriesOf (op : SeqOp) (s : Sys W) : List BenchmarkEntry :=
  ((op.prog B).run s).2.mgr.stats.log.drop s.mgr.stats.log.length

/-- The commands that `restore` replays and the state in which it starts to, when the walk finds a
registered ancestor and the hook restores it. -/
def replayStart (id : String) (s : Sys W) : Option (List Command × Sys W) :=
  match s.mgr.physicalAncestor id with
  | .error _ => none
  | .ok (ancestor, commands) =>
    match s.mgr.snapshots.get? ancestor.snapshotId with
    | none => none
    | some resource =>
      match B.restore ancestor.snapshotId resource defaultBranchId s.world with
      | (.ok (true, elapsed), w) =>
        some (commands, SequentialBackend.beforeReplay ancestor.snapshotId elapsed { s with world := w })
      | _ => none

/-- A snapshot on the way from the nearest physical ancestor of a snapshot to the snapshot. -/
inductive OnPath (graph : Dict String SnapshotNode) : String → String → Prop
  | here (id : String) : OnPath graph id id
  | above {id p target : String} {node : SnapshotNode} (found : graph.get? id = some node)
      (kind : node.isVirtual = true) (parent : node.parentId = some p) (path : OnPath graph p target) :
      OnPath graph id target

theorem OnPath.eq_or_above {graph : Dict String SnapshotNode} {id target : String} (h : OnPath graph id target) :
    target = id ∨ ∃ node p, graph.get? id = some node ∧ node.isVirtual = true ∧ node.parentId = some p ∧
      OnPath graph p target := by
  cases h with
  | here => exact .inl rfl
  | above found kind parent path => exact .inr ⟨_, _, found, kind, parent, path⟩

/-- On the path to the restored snapshot. -/
def OnWay (m : Manager) (id target : String) : Prop := OnPath m.snapshotGraph id target

/-- On the path to the restored snapshot, and not the snapshot that is being left. -/
def OnlyOnWay (m : Manager) (id target : String) : Prop :=
  OnPath m.snapshotGraph id target ∧ target ≠ m.main.targetSnapshot

/-- The exec entries of an operation name the position of the branch, or, when a restore replays them, a snapshot
that `admits` relates to the restored one. -/
def Attributed (admits : Manager → String → String → Prop) (op : SeqOp) (s : Sys W) : Prop :=
  ∀ e ∈ entriesOf B op s, e.operation = "exec" →
    match op with
    | .exec _ _ => s.mgr.main.currentSnapshotId = some e.targetId
    | .snapshot => False
    | .restore id => admits s.mgr id e.targetId

/-- The restore has no command to replay, or does not get to its replay loop. -/
def ReplaysNothing (id : String) (s : Sys W) : Prop :=
  ∀ commands s', replayStart B id s = some (commands, s') → commands = []

/-- Commands are executed on a snapshot whose id is not empty, and a restore that replays leaves from a snapshot that
`admits` relates to the restored one. -/
def LeavesFrom (admits : Manager → String → String → Prop) (op : SeqOp) (s : Sys W) : Prop :=
  match op with
  | .exec _ _ => ∃ id, s.mgr.main.currentSnapshotId = some id ∧ id ≠ ""
  | .snapshot => True
  | .restore id => ReplaysNothing B id s ∨ admits s.mgr id s.mgr.main.targetSnapshot

/-- Commands are executed on a snapshot whose id is not empty, and no restore replays. -/
def NeverReplays (op : SeqOp) (s : Sys W) : Prop :=
  match op with
  | .exec _ _ => ∃ id, s.mgr.main.currentSnapshotId = some id ∧ id ≠ ""
  | .snapshot => True
  | .restore id => ReplaysNothing B id s

variable {B} {s : Sys W} {id : String} {admits : Manager → String → String → Prop}

/-- `restore` returns `True` exactly if it gets to its replay loop. -/
theorem restoreEffect_ok_iff (id : String) (s : Sys W) :
    (B.restoreEffect id s).1 = .ok true ↔ (replayStart B id s).isSome := by
  unfold SequentialBackend.restoreEffect replayStart
  rcases s.mgr.physicalAncestor id with _ | ⟨ancestor, commands⟩
  · simp
  · dsimp only
    rcases s.mgr.snapshots.get? ancestor.snapshotId with _ | resource
    · simp
    · dsimp only
      rcases B.restore ancestor.snapshotId resource defaultBranchId s.world with ⟨_ | ⟨_ | _, elapsed⟩, w⟩
      · simp
      · simp
      · simp

/-! ### What the operations add to the log -/

theorem entriesOf_of_log (hs : Solo s.mgr) (op : SeqOp) {entries : List BenchmarkEntry}
    (hlog : (op.effect B s).mgr.stats.log = s.mgr.stats.log ++ entries) : entriesOf B op s = entries := by
  rw [entriesOf, op.run_prog B hs, hlog, List.drop_left]

theorem log_afterExec (c : Command) (t : Option ℚ) :
    (B.afterExec c t s).mgr.stats.log = s.mgr.stats.log ++
      [⟨s.mgr.stats.sequenceCounter + 1, "exec", s.mgr.main.targetSnapshot, (B.timedExec c t s.world).2.1,
        defaultBranchId⟩] := rfl

theorem targetSnapshot_afterExec (c : Command) (t : Option ℚ) :
    (B.afterExec c t s).mgr.main.targetSnapshot = s.mgr.main.targetSnapshot := by
  unfold BranchState.targetSnapshot
  rw [SequentialBackend.afterExec, Manager.main_logExec]

/-- The replay loop adds one entry for each command, under the position in which it starts. -/
theorem log_afterReplay (B : SequentialBackend W) (commands : List Command) (s : Sys W) :
    ∃ entries, (B.afterReplay commands s).mgr.stats.log = s.mgr.stats.log ++ entries ∧
      entries.length = commands.length ∧
      ∀ e ∈ entries, e.operation = "exec" ∧ e.targetId = s.mgr.main.targetSnapshot := by
  induction commands generalizing s with
  | nil => exact ⟨[], (List.append_nil _).symm, rfl, by simp⟩
  | cons c commands ih =>
    obtain ⟨entries, hlog, hlength, hall⟩ := ih (B.afterExec c none s)
    rw [log_afterExec, List.append_assoc] at hlog
    refine ⟨_, hlog, ?_, ?_⟩
    · simp [hlength]
    · intro e he
      rcases List.mem_cons.mp he with rfl | he
      · exact ⟨rfl, rfl⟩
      · rw [← targetSnapshot_afterExec c none]
        exact hall e he

/-- What a restore adds to the log: nothing but its own entry, or also an entry for each replayed command, all of
them under the snapshot that is being left. -/
inductive RestoreEntries (B : SequentialBackend W) (id : String) (s : Sys W) (entries : List BenchmarkEntry) : Prop
  | own (nothing : ReplaysNothing B id s) (others : ∀ e ∈ entries, e.operation ≠ "exec")
  | replayed (replays : ¬ ReplaysNothing B id s) (some : ∃ e ∈ entries, e.operation = "exec")
      (target : ∀ e ∈ entries, e.operation = "exec" → e.targetId = s.mgr.main.targetSnapshot)

theorem log_restoreEffect (B : SequentialBackend W) (id : String) (s : Sys W) :
    ∃ entries, (B.restoreEffect id s).2.mgr.stats.log = s.mgr.stats.log ++ entries ∧
      RestoreEntries B id s entries := by
  have hok := restoreEffect_ok_iff (B := B) id s
  have hcase := B.restoreEffect_cases id s
  generalize B.restoreEffect id s = r at hcase hok ⊢
  -- a restore that does not get to its replay loop
  have hnothing (hr : r.1 ≠ .ok true) : RestoreEntries B id s [] := by
    refine .own (fun commands s' hstart => ?_) (by simp)
    exact absurd (hok.mpr (by rw [hstart]; rfl)) hr
  cases hcase with
  | refused => exact ⟨[], (List.append_nil _).symm, hnothing (by simp)⟩
  | raised => exact ⟨[], (List.append_nil _).symm, hnothing (by simp)⟩
  | failed => exact ⟨[], (List.append_nil _).symm, hnothing (by simp)⟩
  | @restored ancestor commands resource elapsed w walk registered hook =>
    have hstart : replayStart B id s = some (commands,
        SequentialBackend.beforeReplay ancestor.snapshotId elapsed { s with world := w }) := by
      simp only [replayStart, walk, registered, hook]
    obtain ⟨entries, hlog, hlength, hall⟩ := log_afterReplay B commands
      (SequentialBackend.beforeReplay ancestor.snapshotId elapsed { s with world := w })
    refine ⟨_ :: entries, hlog.trans (List.append_assoc _ [_] _), ?_⟩
    have hown : "restore" ≠ "exec" := by decide
    cases commands with
    | nil =>
      obtain rfl := List.length_eq_zero_iff.mp hlength
      refine .own (fun commands s' h => ?_) fun e he => ?_
      · rw [hstart] at h
        exact (congrArg Prod.fst (Option.some.inj h)).symm
      · rw [List.mem_singleton.mp he]
        exact hown
    | cons c commands =>
      refine .replayed (fun h => List.cons_ne_nil _ _ (h _ _ hstart)) ?_ fun e he hop => ?_
      · obtain ⟨e, he⟩ := List.exists_mem_of_length_pos (hlength ▸ Nat.succ_pos commands.length : 0 < entries.length)
        exact ⟨e, List.mem_cons_of_mem _ he, (hall e he).1⟩
      · rcases List.mem_cons.mp he with rfl | he
        · exact absurd hop hown
        · exact (hall e he).2

theorem log_snapshotEffect (B : SequentialBackend W) (s : Sys W) :
    ∃ entries, (B.snapshotEffect s).2.mgr.stats.log = s.mgr.stats.log ++ entries ∧
      ∀ e ∈ entries, e.operation ≠ "exec" := by
  have hcase := B.snapshotEffect_cases s
  generalize B.snapshotEffect s = r at hcase ⊢
  cases hcase with
  | raised => exact ⟨[], (List.append_nil _).symm, by simp⟩
  | failed => exact ⟨[], (List.append_nil _).symm, by simp⟩
  | virtual => exact ⟨[], (List.append_nil _).symm, by simp⟩
  | physical =>
    refine ⟨[_], rfl, fun e he => ?_⟩
    rw [List.mem_singleton.mp he]
    show "snapshot" ≠ "exec"
    decide

/-- The log of a run consists of what its operations add. -/
theorem log_effect (hs : Solo s.mgr) (op : SeqOp) :
    (op.effect B s).mgr.stats.log = s.mgr.stats.log ++ entriesOf B op s := by
  have hlog : ∃ entries, (op.effect B s).mgr.stats.log = s.mgr.stats.log ++ entries := by
    cases op with
    | exec c t => exact ⟨_, log_afterExec c t⟩
    | snapshot =>
      obtain ⟨entries, hlog, -⟩ := log_snapshotEffect B s
      exact ⟨entries, hlog⟩
    | restore id =>
      obtain ⟨entries, hlog, -⟩ := log_restoreEffect B id s
      exact ⟨entries, hlog⟩
  obtain ⟨entries, hlog⟩ := hlog
  rw [entriesOf_of_log hs op hlog, hlog]

/-! ### Attribution -/

theorem targetSnapshot_eq_iff {r : BranchState} :
    r.currentSnapshotId = some r.targetSnapshot ↔ ∃ id, r.currentSnapshotId = some id ∧ id ≠ "" := by
  unfold BranchState.targetSnapshot
  cases r.currentSnapshotId with
  | none => simp
  | some id =>
    by_cases hid : id = ""
    · simp [hid]
    · simp [hid]

theorem attributed_effect (hs : Solo s.mgr) (op : SeqOp) : Attributed B admits op s ↔ LeavesFrom B admits op s := by
  cases op with
  | exec c t =>
    unfold Attributed
    rw [entriesOf_of_log hs (.exec c t) (log_afterExec c t)]
    refine Iff.trans ?_ targetSnapshot_eq_iff
    simp
  | snapshot =>
    obtain ⟨entries, hlog, hothers⟩ := log_snapshotEffect B s
    unfold Attributed
    rw [entriesOf_of_log hs .snapshot hlog]
    exact iff_of_true (fun e he hop => hothers e he hop) trivial
  | restore id =>
    obtain ⟨entries, hlog, hentries⟩ := log_restoreEffect B id s
    unfold Attributed
    rw [entriesOf_of_log hs (.restore id) hlog]
    show (∀ e ∈ entries, e.operation = "exec" → admits s.mgr id e.targetId) ↔ ReplaysNothing B id s ∨ _
    cases hentries with
    | own nothing others => exact iff_of_true (fun e he hop => absurd hop (others e he)) (.inl nothing)
    | replayed replays some target =>
      obtain ⟨e, he, hop⟩ := some
      rw [or_iff_right replays]
      constructor
      · intro h
        rw [← target e he hop]
        exact h e he hop
      · intro h e he hop
        rw [target e he hop]
        exact h

/-- Every run attributes its commands to the snapshots they ran on exactly if its restores replay nothing; and if a
target on the way counts as right also when it is the snapshot being left, exactly if its restores replay nothing or
leave from such a snapshot. -/
theorem attributed_iff (B : SequentialBackend W) (root resource : String) (w : W) (ops : List SeqOp) :
    (EachStep B (Attributed B OnlyOnWay) ops (Sys.startedAt root resource w) ↔
      EachStep B (NeverReplays B) ops (Sys.startedAt root resource w)) ∧
    (EachStep B (Attributed B OnWay) ops (Sys.startedAt root resource w) ↔
      EachStep B (LeavesFrom B OnWay) ops (Sys.startedAt root resource w)) := by
  have hs := Sys.startedAt_solo root resource w
  have hnever (op : SeqOp) (s : Sys W) : LeavesFrom B OnlyOnWay op s ↔ NeverReplays B op s := by
    cases op with
    | exec c t => exact Iff.rfl
    | snapshot => exact Iff.rfl
    | restore id => exact or_iff_left fun h => h.2 rfl
  constructor
  · exact eachStep_congr hs fun op s hs => (attributed_effect hs op).trans (hnever op s)
  · exact eachStep_congr hs fun op s hs => attributed_effect hs op

/-- A command, a virtual snapshot and a physical one below it. -/
def descendedRun : List SeqOp := [.exec (.line "make") none, .snapshot, .snapshot]

def descendedStart : Sys Tape := Sys.startedAt "base" "base" (Tape.start ["3f2a", "9c41"] [false, true] [])

/-- The restore of the virtual snapshot runs `make` on `base`, and its entry says `9c41`. -/
theorem not_attributed_descendedRun :
    let s := runOps Tape.backend descendedRun descendedStart
    ¬ EachStep Tape.backend (Attributed Tape.backend OnWay) (descendedRun ++ [.restore "v3f2a"]) descendedStart ∧
      (entriesOf Tape.backend (.restore "v3f2a") s).map (fun e => (e.operation, e.targetId)) =
        [("restore", "base"), ("exec", "9c41")] ∧
      ¬ OnWay s.mgr "v3f2a" "9c41" := by
  have hentries : (entriesOf Tape.backend (.restore "v3f2a") (runOps Tape.backend descendedRun descendedStart)).map
      (fun e => (e.operation, e.targetId)) = [("restore", "base"), ("exec", "9c41")] := rfl
  have hvirtual : (runOps Tape.backend descendedRun descendedStart).mgr.snapshotGraph.get? "v3f2a" =
      some ⟨"v3f2a", some "base", ["9c41"], true, [.line "make"]⟩ := by decide +kernel
  have hbase : (runOps Tape.backend descendedRun descendedStart).mgr.snapshotGraph.get? "base" =
      some ⟨"base", none, ["v3f2a"], false, []⟩ := by decide +kernel
  have hoff : ¬ OnWay (runOps Tape.backend descendedRun descendedStart).mgr "v3f2a" "9c41" := by
    intro h
    obtain he | ⟨node, p, found, -, parent, path⟩ := h.eq_or_above
    · exact absurd he (by decide)
    · obtain rfl := Option.some.inj (hvirtual.symm.trans found)
      obtain rfl := Option.some.inj parent
      obtain he | ⟨node, p, found, kind, -, -⟩ := path.eq_or_above
      · exact absurd he (by decide)
      · obtain rfl := Option.some.inj (hbase.symm.trans found)
        exact absurd kind (by decide)
  refine ⟨fun h => ?_, hentries, hoff⟩
  have hlast : Attributed Tape.backend OnWay (.restore "v3f2a") (runOps Tape.backend descendedRun descendedStart) :=
    h.2.2.2.1
  have hmem : ("exec", "9c41") ∈ [("restore", "base"), ("exec", "9c41")] := by decide
  rw [← hentries] at hmem
  obtain ⟨e, he, hop⟩ := List.mem_map.mp hmem
  obtain ⟨hexec, htarget⟩ := Prod.mk.inj hop
  have hway := hlast e he hexec
  rw [htarget] at hway
  exact hoff hway

end StateFork
