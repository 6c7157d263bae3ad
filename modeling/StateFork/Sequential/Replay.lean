import StateFork.Sequential.Lineage
import StateFork.Sequential.Tape

/-!
# Virtual snapshots are equivalent to physical ones

A `Deterministic` backend has an environment that commands change as a function of its state. Over
such a backend a recorded snapshot has a meaning: what replaying its chain over the stored state of
its physical ancestor gives. Meanings never change once a snapshot is recorded, and the environment
is at every moment the replay of the command log over the meaning of the last snapshot (`Grounded`).
A restore that returns `True` has replayed the chain of its snapshot, so it arrives at the meaning,
which is the state in which the snapshot was taken.
-/

namespace StateFork

/-- A backend whose environment is a deterministic state machine over `E`. -/
structure Deterministic {W : Type} (B : SequentialBackend W) (E : Type) where
  env : W → E
  /-- The state a physical snapshot has stored. -/
  stored : W → String → Option E
  step : E → Command → E
  exec_env : ∀ c t b w, env (B.exec c t b w).2 = step (env w) c
  exec_stored : ∀ c t b w, stored (B.exec c t b w).2 = stored w
  /-- The state that the hook leaves is the one it has stored. -/
  snapshot_ok : ∀ b w w' id resource elapsed,
    B.snapshot b w = (.ok (some (id, resource), elapsed), w') →
      stored w' = Function.update (stored w) id (some (env w'))
  snapshot_failed : ∀ b w w' r, B.snapshot b w = (r, w') →
    (∀ x elapsed, r ≠ .ok (some x, elapsed)) → env w' = env w ∧ stored w' = stored w
  restore_ok : ∀ id resource b w w' elapsed, B.restore id resource b w = (.ok (true, elapsed), w') →
    stored w' = stored w ∧ ∀ e, stored w id = some e → env w' = e
  restore_failed : ∀ id resource b w w' r, B.restore id resource b w = (r, w') →
    (∀ elapsed, r ≠ .ok (true, elapsed)) → env w' = env w ∧ stored w' = stored w
  decide : ∀ c w, env (B.decide c w).2 = env w ∧ stored (B.decide c w).2 = stored w
  time : ∀ w, env (B.time w).2 = env w ∧ stored (B.time w).2 = stored w
  uuid4Hex : ∀ w, env (B.uuid4Hex w).2 = env w ∧ stored (B.uuid4Hex w).2 = stored w

namespace Deterministic

variable {W E : Type} {B : SequentialBackend W} (D : Deterministic B E)

/-- The state a recorded snapshot stands for. -/
def Means (s : Sys W) (id : String) (e : E) : Prop :=
  ∃ a commands base, Chain s.mgr.snapshotGraph id a commands ∧ D.stored s.world a = some base ∧
    commands.foldl D.step base = e

/-- Every snapshot has a meaning, and the environment is the replay of the command log over the
meaning of the last one. -/
structure Grounded (s : Sys W) : Prop where
  meaning : ∀ id ∈ s.mgr.snapshotGraph.keys, ∃ e, D.Means s id e
  current : ∃ id e, s.mgr.main.lastSnapshotId = some id ∧ D.Means s id e ∧
    D.env s.world = s.mgr.main.commandLog.foldl D.step e

/-- The step from `s` to `s'` changes no meaning. -/
def Keeps (s s' : Sys W) : Prop := ∀ id e, D.Means s id e → D.Means s' id e

/-- Environment and stored states are the same in both worlds. -/
def SameState (w w' : W) : Prop := D.env w' = D.env w ∧ D.stored w' = D.stored w

variable {D} {s s' : Sys W} {id : String} {e e' : E}

theorem Means.unique (h : D.Means s id e) (h' : D.Means s id e') : e = e' := by
  obtain ⟨a, commands, base, hchain, hstored, rfl⟩ := h
  obtain ⟨a', commands', base', hchain', hstored', rfl⟩ := h'
  obtain ⟨rfl, rfl⟩ := hchain.unique hchain'
  rw [Option.some.inj (hstored.symm.trans hstored')]

theorem SameState.trans {w w' w'' : W} (h : D.SameState w w') (h' : D.SameState w' w'') :
    D.SameState w w'' :=
  ⟨h'.1.trans h.1, h'.2.trans h.2⟩

/-- Meanings survive a step that keeps the nodes and what the nodes have stored. -/
theorem keeps (hext : Extends s.mgr.snapshotGraph s'.mgr.snapshotGraph)
    (hstored : ∀ a ∈ s.mgr.snapshotGraph.keys, D.stored s'.world a = D.stored s.world a) :
    D.Keeps s s' := by
  rintro id e ⟨a, commands, base, hchain, hbase, rfl⟩
  obtain ⟨node, found, -⟩ := hchain.ancestor
  exact ⟨a, commands, base, hchain.mono hext,
    (hstored a (Dict.mem_keys_of_get? found)).trans hbase, rfl⟩

/-- A step of the world that an observer of the environment does not see. -/
theorem Grounded.quiet (h : D.Grounded s) {w : W} (hw : D.SameState s.world w) :
    D.Grounded { s with world := w } ∧ D.Keeps s { s with world := w } := by
  have hkeeps : D.Keeps s { s with world := w } := keeps (.refl _) fun a _ => congrFun hw.2 a
  refine ⟨⟨fun id hid => ?_, ?_⟩, hkeeps⟩
  · obtain ⟨e, he⟩ := h.meaning id hid
    exact ⟨e, hkeeps id e he⟩
  · obtain ⟨id, e, hlast, he, henv⟩ := h.current
    exact ⟨id, e, hlast, hkeeps id e he, hw.1.trans henv⟩

/-! ### Commands and restores -/

variable (D)

theorem timedExec_env (c : Command) (t : Option ℚ) (w : W) :
    D.env (B.timedExec c t w).2.2 = D.step (D.env w) c ∧
      D.stored (B.timedExec c t w).2.2 = D.stored w := by
  obtain ⟨henv, hstored⟩ := D.time w
  obtain ⟨henv', hstored'⟩ := D.time (B.exec c t defaultBranchId (B.time w).2).2
  rw [D.exec_env, henv] at henv'
  rw [D.exec_stored, hstored] at hstored'
  exact ⟨henv', hstored'⟩

/-- The replay loop folds the step function over its commands. -/
theorem afterReplay_env (commands : List Command) (s : Sys W) :
    D.env (B.afterReplay commands s).world = commands.foldl D.step (D.env s.world) ∧
      D.stored (B.afterReplay commands s).world = D.stored s.world := by
  induction commands generalizing s with
  | nil => exact ⟨rfl, rfl⟩
  | cons c commands ih =>
    obtain ⟨henv, hstored⟩ := D.timedExec_env c none s.world
    obtain ⟨ihenv, ihstored⟩ := ih (B.afterExec c none s)
    constructor
    · rw [List.foldl_cons, ← henv]
      exact ihenv
    · rw [← hstored]
      exact ihstored

variable {D}

theorem Grounded.afterExec (h : D.Grounded s) (c : Command) (t : Option ℚ) :
    D.Grounded (B.afterExec c t s) ∧ D.Keeps s (B.afterExec c t s) := by
  obtain ⟨hstep, hstored⟩ := D.timedExec_env c t s.world
  have hkeeps : D.Keeps s (B.afterExec c t s) := keeps (.refl _) fun a _ => congrFun hstored a
  refine ⟨⟨fun id hid => ?_, ?_⟩, hkeeps⟩
  · obtain ⟨e, he⟩ := h.meaning id hid
    exact ⟨e, hkeeps id e he⟩
  · obtain ⟨id, e, hlast, he, henv⟩ := h.current
    refine ⟨id, e, ?_, hkeeps id e he, ?_⟩
    · rw [SequentialBackend.afterExec, Manager.main_logExec]
      exact hlast
    · rw [SequentialBackend.afterExec, Manager.main_logExec, List.foldl_append, ← henv]
      exact hstep

/-- A restore that succeeds arrives at the meaning of its snapshot. -/
theorem Grounded.restoreEffect {root : String} (hl : Lineage root s.mgr) (h : D.Grounded s) (id : String) :
    D.Grounded (B.restoreEffect id s).2 ∧ D.Keeps s (B.restoreEffect id s).2 ∧
      ((B.restoreEffect id s).1 = .ok true → ∀ e, D.Means s id e →
        D.env (B.restoreEffect id s).2.world = e) := by
  have hcase := B.restoreEffect_cases id s
  generalize B.restoreEffect id s = r at hcase ⊢
  cases hcase with
  | refused => exact ⟨h, fun _ _ hm => hm, by simp⟩
  | raised _ _ hook =>
    obtain ⟨hg, hk⟩ := h.quiet (D.restore_failed _ _ _ _ _ _ hook (by simp))
    exact ⟨hg, hk, by simp⟩
  | failed _ _ hook =>
    obtain ⟨hg, hk⟩ := h.quiet (D.restore_failed _ _ _ _ _ _ hook (by simp))
    exact ⟨hg, hk, by simp⟩
  | @restored ancestor commands resource elapsed w walk registered hook =>
    obtain ⟨hanc, hchain⟩ := Manager.physicalAncestor_ok hl.agree walk
    obtain ⟨hstored, hcurrent⟩ := D.restore_ok _ _ _ _ _ _ hook
    obtain ⟨hreplay, hreplayStored⟩ := D.afterReplay_env commands
      (SequentialBackend.beforeReplay ancestor.snapshotId elapsed { s with world := w })
    have hgraph := (B.afterRestore_graph id ancestor.snapshotId commands elapsed { s with world := w }).1
    have hkeeps : D.Keeps s (B.afterRestore id ancestor.snapshotId commands elapsed { s with world := w }) := by
      refine keeps ?_ fun a _ => congrFun (hreplayStored.trans hstored) a
      rw [hgraph]
      exact .refl _
    -- the environment after the replay is the meaning of the snapshot
    have hmeans : ∀ e, D.Means s id e → D.env (B.afterRestore id ancestor.snapshotId commands elapsed
        { s with world := w }).world = e := by
      rintro e ⟨a, commands', base, hchain', hbase, rfl⟩
      obtain ⟨rfl, rfl⟩ := hchain.unique hchain'
      rw [← hcurrent base hbase]
      exact hreplay
    refine ⟨⟨fun i hi => ?_, ?_⟩, hkeeps, fun _ => hmeans⟩
    · rw [hgraph] at hi
      obtain ⟨e, he⟩ := h.meaning i hi
      exact ⟨e, hkeeps i e he⟩
    · obtain ⟨e, he⟩ := h.meaning id hchain.mem_keys
      refine ⟨id, e, ?_, hkeeps id e he, ?_⟩
      · rw [B.afterRestore_main]
        rfl
      · rw [hmeans e he, B.afterRestore_main]
        rfl

/-! ### Snapshots -/

/-- A snapshot records a node that means the environment. -/
theorem Grounded.record (h : D.Grounded s) {node : SnapshotNode}
    (hext : Extends s.mgr.snapshotGraph s'.mgr.snapshotGraph)
    (hkeys : s'.mgr.snapshotGraph.keys = s.mgr.snapshotGraph.keys ++ [node.snapshotId])
    (hstored : ∀ a ∈ s.mgr.snapshotGraph.keys, D.stored s'.world a = D.stored s.world a)
    (hlast : s'.mgr.main.lastSnapshotId = some node.snapshotId)
    (hlog : s'.mgr.main.commandLog = [])
    (hmeans : D.Means s' node.snapshotId (D.env s'.world)) : D.Grounded s' ∧ D.Keeps s s' := by
  have hkeeps : D.Keeps s s' := keeps hext hstored
  refine ⟨⟨fun id hid => ?_, _, _, hlast, hmeans, by rw [hlog]; rfl⟩, hkeeps⟩
  rw [hkeys, List.mem_append, List.mem_singleton] at hid
  obtain hid | rfl := hid
  · obtain ⟨e, he⟩ := h.meaning id hid
    exact ⟨e, hkeeps id e he⟩
  · exact ⟨_, hmeans⟩

theorem Grounded.snapshotEffect {root : String} (hl : Lineage root s.mgr) (h : D.Grounded s)
    (hf : ∀ id, (B.snapshotEffect s).1 = .ok (some id) → FreshId s.mgr id) :
    D.Grounded (B.snapshotEffect s).2 ∧ D.Keeps s (B.snapshotEffect s).2 ∧
      ∀ id, (B.snapshotEffect s).1 = .ok (some id) →
        D.Means (B.snapshotEffect s).2 id (D.env (B.snapshotEffect s).2.world) := by
  have hcase := B.snapshotEffect_cases s
  have hext := hl.effect_extends B .snapshot fun _ => hf
  change Extends _ (B.snapshotEffect s).2.mgr.snapshotGraph at hext
  have hdecide : D.SameState s.world (B.decide ⟨s.mgr.main.cumulativeExecTime⟩ s.world).2 := D.decide _ _
  generalize B.snapshotEffect s = r at hcase hf hext ⊢
  cases hcase with
  | raised decided hook =>
    rw [decided] at hdecide
    obtain ⟨hg, hk⟩ := h.quiet (hdecide.trans (D.snapshot_failed _ _ _ _ hook (by simp)))
    exact ⟨hg, hk, by simp⟩
  | failed decided hook =>
    rw [decided] at hdecide
    obtain ⟨hg, hk⟩ := h.quiet (hdecide.trans (D.snapshot_failed _ _ _ _ hook (by simp)))
    exact ⟨hg, hk, by simp⟩
  | @physical w w' id resource elapsed decided hook =>
    rw [decided] at hdecide
    have hfresh : (SequentialBackend.snapshotNode s.mgr id true).snapshotId ∉ _ := (hf id rfl).2
    have hstored : D.stored w' = Function.update (D.stored s.world) id (some (D.env w')) := by
      rw [D.snapshot_ok _ _ _ _ _ _ hook, hdecide.2]
    have hmain := Manager.main_advance ((s.mgr.registerSnapshotResource id resource).addEntry "snapshot" id
      elapsed defaultBranchId) (SequentialBackend.snapshotNode s.mgr id true) true
    have hmeans : D.Means ⟨SequentialBackend.afterPhysical s.mgr id resource elapsed, w'⟩ id (D.env w') := by
      refine ⟨id, [], _, .physical (Manager.get?_recordNode_self (hl.parent_ne rfl hfresh)) rfl, ?_, rfl⟩
      rw [hstored, Function.update_self]
    have hold : ∀ a ∈ s.mgr.snapshotGraph.keys, D.stored w' a = D.stored s.world a := fun a ha => by
      have hne : a ≠ id := fun he => hfresh (he ▸ ha)
      rw [hstored, Function.update_of_ne hne]
    obtain ⟨hg, hk⟩ := h.record hext (Manager.keys_recordNode hfresh) hold (congrArg _ hmain)
      (congrArg _ hmain) hmeans
    refine ⟨hg, hk, fun i hi => ?_⟩
    obtain rfl : id = i := by simpa using hi
    exact hmeans
  | @virtual w w' hex decided uuid =>
    rw [decided] at hdecide
    have huuid : D.SameState w w' := by
      have := D.uuid4Hex w
      rwa [uuid] at this
    have hstate := hdecide.trans huuid
    have hfresh : (SequentialBackend.snapshotNode s.mgr ("v" ++ (hex.take 7).toString) false).snapshotId ∉ _ :=
      (hf _ rfl).2
    have hmain := Manager.main_advance s.mgr
      (SequentialBackend.snapshotNode s.mgr ("v" ++ (hex.take 7).toString) false) false
    have hkeeps : D.Keeps s ⟨SequentialBackend.afterVirtual s.mgr ("v" ++ (hex.take 7).toString), w'⟩ :=
      keeps hext fun a _ => congrFun hstate.2 a
    have hmeans : D.Means ⟨SequentialBackend.afterVirtual s.mgr ("v" ++ (hex.take 7).toString), w'⟩
        ("v" ++ (hex.take 7).toString) (D.env w') := by
      obtain ⟨p, e, hlast, hp, henv⟩ := h.current
      obtain ⟨a, commands, base, hchain, hbase, rfl⟩ := hkeeps p e hp
      refine ⟨a, _, base, .virtual (Manager.get?_recordNode_self (hl.parent_ne rfl hfresh)) rfl hlast hchain,
        hbase, ?_⟩
      rw [List.foldl_append, hstate.1, henv]
      rfl
    obtain ⟨hg, hk⟩ := h.record hext (Manager.keys_recordNode hfresh) (fun a _ => congrFun hstate.2 a)
      (congrArg _ hmain) (congrArg _ hmain) hmeans
    refine ⟨hg, hk, fun i hi => ?_⟩
    obtain rfl : "v" ++ (hex.take 7).toString = i := by simpa using hi
    exact hmeans

/-! ### Runs -/

/-- One operation keeps the ground and all meanings. -/
theorem Grounded.effect {root : String} (hl : Lineage root s.mgr) (h : D.Grounded s) (op : SeqOp)
    (hf : op = .snapshot → ∀ id, (B.snapshotEffect s).1 = .ok (some id) → FreshId s.mgr id) :
    D.Grounded (op.effect B s) ∧ D.Keeps s (op.effect B s) := by
  cases op with
  | exec c t => exact h.afterExec c t
  | snapshot =>
    obtain ⟨hg, hk, -⟩ := h.snapshotEffect hl (hf rfl)
    exact ⟨hg, hk⟩
  | restore id =>
    obtain ⟨hg, hk, -⟩ := h.restoreEffect hl id
    exact ⟨hg, hk⟩

theorem Grounded.runOps {root : String} (hs : Solo s.mgr) (hl : Lineage root s.mgr) (h : D.Grounded s)
    {ops : List SeqOp} (hf : FreshIds B ops s) :
    Lineage root (runOps B ops s).mgr ∧ D.Grounded (runOps B ops s) ∧ D.Keeps s (runOps B ops s) := by
  refine runOps_induction B (fun s' => Lineage root s'.mgr ∧ D.Grounded s' ∧ D.Keeps s s')
    (fun op s' _ ⟨hl', h', hk'⟩ hf' => ?_) hs ⟨hl, h, fun _ _ hm => hm⟩ hf
  obtain ⟨hg, hk⟩ := h'.effect hl' op hf'
  exact ⟨hl'.effect B op hf', hg, fun id e hm => hk id e (hk' id e hm)⟩

theorem grounded_startedAt (root resource : String) {w : W} (hw : D.stored w root = some (D.env w)) :
    D.Grounded (Sys.startedAt root resource w) := by
  have hget := Lineage.get?_startedAt root resource
  have hmeans : D.Means (Sys.startedAt root resource w) root (D.env w) :=
    ⟨root, [], _, .physical ((hget root).trans (if_pos rfl)) rfl, hw, rfl⟩
  refine ⟨fun id hid => ?_, root, _, rfl, hmeans, rfl⟩
  obtain ⟨node, found⟩ := Dict.mem_keys_iff.mp hid
  rw [show (Sys.startedAt root resource w).mgr = Manager.startedAt root resource from rfl, hget] at found
  split_ifs at found with he
  rw [he]
  exact ⟨_, hmeans⟩

end Deterministic

/-- Whenever `restore(id)` returns `True`, the environment is in the state in which `snapshot()` returned
`id`: whatever was restored, snapshotted or executed in between, and however the snapshots of the
chain were taken. -/
theorem restore_returns_to_snapshot {W E : Type} {B : SequentialBackend W} (D : Deterministic B E)
    {root : String} (hroot : root ≠ "") (resource : String) (w : W)
    (hw : D.stored w root = some (D.env w)) (before after : List SeqOp) (id : String)
    (hf : FreshIds B (before ++ .snapshot :: after) (Sys.startedAt root resource w))
    (hsnapshot : ((SeqOp.snapshot.prog B).run (runOps B before (Sys.startedAt root resource w))).1 =
      .ok (.snapshotId (some id)))
    (hrestore : (((SeqOp.restore id).prog B).run
      (runOps B (before ++ .snapshot :: after) (Sys.startedAt root resource w))).1 = .ok (.flag true)) :
    D.env (((SeqOp.restore id).prog B).run
        (runOps B (before ++ .snapshot :: after) (Sys.startedAt root resource w))).2.world =
      D.env (runOps B (before ++ [.snapshot]) (Sys.startedAt root resource w)).world := by
  have hstart : Lineage root (Sys.startedAt root resource w).mgr := Lineage.startedAt resource hroot
  have hsolo := Sys.startedAt_solo root resource w
  obtain ⟨hbefore, hfresh, hafter⟩ := (freshIds_append B).mp hf
  obtain ⟨hl, hg, -⟩ := (Deterministic.grounded_startedAt root resource hw).runOps hsolo hstart hbefore
  have hsoloThen := runOps_solo B before hsolo
  -- the snapshot gives `id` the environment as its meaning
  have hf' : ∀ i, (B.snapshotEffect (runOps B before _)).1 = .ok (some i) → FreshId _ i :=
    fun i hi => hfresh i ((snapshot_returns_iff B hsoloThen i).mpr hi)
  obtain ⟨hg', -, hmeans⟩ := hg.snapshotEffect hl hf'
  have hl' := hl.snapshotEffect B hf'
  have hsolo' := B.snapshotEffect_solo hsoloThen
  replace hmeans := hmeans id ((snapshot_returns_iff B hsoloThen id).mp hsnapshot)
  rw [SeqOp.run_prog B hsoloThen] at hafter
  -- the rest of the run keeps the meaning
  obtain ⟨hl'', hg'', hkeeps⟩ := hg'.runOps hsolo' hl' hafter
  replace hmeans := hkeeps _ _ hmeans
  have hend : Solo (runOps B after (SeqOp.effect B .snapshot (runOps B before _))).mgr :=
    runOps_solo B after hsolo'
  obtain ⟨-, -, harrive⟩ := hg''.restoreEffect hl'' id
  rw [runOps_append, runOps_cons B hsoloThen] at hrestore ⊢
  rw [SeqOp.run_prog B hend, runOps_append, runOps_cons B hsoloThen]
  exact harrive ((restore_returns_iff B hend id true).mp hrestore) _ hmeans

/-- The environment of a tape is the list of executed commands. -/
def Tape.deterministic : Deterministic Tape.backend (List Command) where
  env := Tape.env
  stored w := w.saved.get?
  step e c := e ++ [c]
  exec_env _ _ _ _ := rfl
  exec_stored _ _ _ _ := rfl
  snapshot_ok _ w _ id resource elapsed h := by
    obtain ⟨env, saved, clock, ids, verdicts, codes⟩ := w
    cases ids with
    | nil => cases h
    | cons _ ids =>
      cases h
      funext k
      rw [Function.update_apply]
      exact Dict.get?_set saved id k env
  snapshot_failed _ w _ r h hr := by
    obtain ⟨env, saved, clock, ids, verdicts, codes⟩ := w
    cases ids with
    | nil => cases h; exact ⟨rfl, rfl⟩
    | cons i ids => cases h; exact absurd rfl (hr _ _)
  restore_ok id _ _ w _ elapsed h := by
    change Tape.restore id w = _ at h
    unfold Tape.restore at h
    split at h
    · cases h
    · next env henv =>
      cases h
      exact ⟨rfl, fun e he => Option.some.inj (henv.symm.trans he)⟩
  restore_failed id _ _ w _ r h hr := by
    change Tape.restore id w = _ at h
    unfold Tape.restore at h
    split at h
    · cases h; exact ⟨rfl, rfl⟩
    · cases h; exact absurd rfl (hr _)
  decide _ _ := ⟨rfl, rfl⟩
  time _ := ⟨rfl, rfl⟩
  uuid4Hex _ := ⟨rfl, rfl⟩

/-- Another branch is explored before the restore of a virtual snapshot. -/
theorem restore_returns_to_virtual_snapshot :
    Tape.deterministic.env
      (((SeqOp.restore "v3f2a").prog Tape.backend).run (runOps Tape.backend
        ([.exec (.line "make") none] ++ .snapshot ::
          [.exec (.line "false") none, .snapshot, .restore "base", .exec (.line "ls") none])
        (Sys.startedAt "base" "base" (Tape.start ["3f2a", "9c41"] [false, true] [])))).2.world =
    [.line "make"] := by
  have hfresh : FreshIds Tape.backend
      ([.exec (.line "make") none] ++ .snapshot ::
        [.exec (.line "false") none, .snapshot, .restore "base", .exec (.line "ls") none])
      (Sys.startedAt "base" "base" (Tape.start ["3f2a", "9c41"] [false, true] [])) := by
    refine ⟨?_, ?_, ?_, ?_, ?_, ?_, trivial⟩ <;> intro id h <;> cases h <;> exact ⟨by decide, by decide⟩
  exact (restore_returns_to_snapshot Tape.deterministic (by decide) "base" _ rfl _ _ "v3f2a" hfresh rfl
    rfl).trans rfl

end StateFork
