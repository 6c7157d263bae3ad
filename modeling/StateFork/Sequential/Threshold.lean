import Mathlib.Tactic.Linarith
import StateFork.Sequential.Ledger

/-!
# What `ThresholdDecider` bounds

The decider compares one counter with its threshold. A snapshot of either kind treats the counter as
the replay cost of the position, and a physical snapshot starts both from zero; but a restore zeroes
the counter whatever the restored snapshot costs to replay. `Balanced` relates the two: the replay
cost of the position is the counter plus the cost `carried` from the last restore. So the bound can
fail only where a virtual snapshot is taken with `counter < t ≤ carried + counter`, and there it does.
-/

namespace StateFork

open Ledger

/-- `ThresholdDecider.decide` -/
def ThresholdDecider.decide (threshold : ℚ) (context : DecisionContext) : Bool :=
  Decidable.decide (threshold ≤ context.cumulativeExecTime)

/-- The backend under a manager with `ThresholdDecider(threshold)`. -/
def SequentialBackend.withThreshold {W : Type} (B : SequentialBackend W) (threshold : ℚ) :
    SequentialBackend W :=
  { B with decide := fun context w => (ThresholdDecider.decide threshold context, w) }

section

variable {W : Type} (B : SequentialBackend W) (t : ℚ)

/-- The measured time of a command. -/
def elapsedOf (c : Command) (timeout : Option ℚ) (s : Sys W) : ℚ := (B.timedExec c timeout s.world).2.1

/-- The measured times behind every virtual snapshot sum up to less than `t`. -/
def BoundedReplay (l : Ledger ℚ) (m : Manager) : Prop :=
  ∀ id node, m.snapshotGraph.get? id = some node → node.isVirtual = true → (l.behind m id).sum < t

/-- No command of the run makes `_core_exec` raise. -/
def NoBackendException : List SeqOp → Sys W → Prop
  | [], _ => True
  | op :: ops, s =>
    (∀ c timeout, op = .exec c timeout → ∃ r, (B.timedExec c timeout s.world).1 = .ok r) ∧
      NoBackendException ops ((op.prog B).run s).2

/-- The counter together with what the last restore carries. -/
def Counts (s : Sys W) (l : Ledger ℚ) : Prop :=
  s.mgr.main.cumulativeExecTime < t → l.carried.sum + s.mgr.main.cumulativeExecTime < t

/-- Every snapshot of the run is taken where the counter decides about the carried cost as well. -/
def CountedSnapshots : List SeqOp → Sys W → Ledger ℚ → Prop
  | [], _, _ => True
  | op :: ops, s, l =>
    (op = .snapshot → Counts t s l) ∧
      CountedSnapshots ops ((op.prog B).run s).2 (Ledger.after B (elapsedOf B) op s l)

end

/-- The replay cost of the position is what the last restore carries plus the counter. -/
def Balanced (m : Manager) (l : Ledger ℚ) : Prop :=
  ∃ p, m.main.lastSnapshotId = some p ∧
    (l.behind m p).sum + l.pending.sum = l.carried.sum + m.main.cumulativeExecTime

variable {W : Type} {B : SequentialBackend W} {t : ℚ} {root : String} {s : Sys W} {l : Ledger ℚ}

/-! ### Snapshots -/

/-- A recorded node adds its own cost to the bound. -/
theorem boundedReplay_record {m m' : Manager} {l l' : Ledger ℚ} {node : SnapshotNode}
    (hl : Lineage root m) (hl' : Lineage root m')
    (hgraph : m'.snapshotGraph = Manager.recordNode m.snapshotGraph node)
    (hparent : node.parentId = m.main.lastSnapshotId) (hfresh : node.snapshotId ∉ m.snapshotGraph.keys)
    (hnotes : ∀ i ∈ m.snapshotGraph.keys, l'.ofNode i = l.ofNode i) :
    BoundedReplay t l' m' ↔
      BoundedReplay t l m ∧ (node.isVirtual = true → (l'.behind m' node.snapshotId).sum < t) := by
  have hself := hl.parent_ne hparent hfresh
  have hext : Extends m.snapshotGraph m'.snapshotGraph := hgraph ▸ Manager.extends_recordNode hfresh hself
  have hbehind {i : String} (hi : i ∈ m.snapshotGraph.keys) : l'.behind m' i = l.behind m i :=
    behind_mono hl.ordered hl'.ordered hext hnotes hi
  constructor
  · intro h
    refine ⟨fun id old hold kind => ?_, fun kind => ?_⟩
    · obtain ⟨old', hold', hkind, -⟩ := hext id old hold
      rw [← hbehind (Dict.mem_keys_of_get? hold)]
      exact h id old' hold' (hkind.trans kind)
    · exact h _ node (hgraph ▸ Manager.get?_recordNode_self hself) kind
  · rintro ⟨hold, hnew⟩ id n hn kind
    rw [hgraph, Manager.get?_recordNode hself] at hn
    split_ifs at hn with hid
    · obtain rfl := Option.some.inj hn
      exact hid ▸ hnew kind
    · obtain ⟨old, ho, rfl⟩ := Option.map_eq_some_iff.mp hn
      rw [hbehind (Dict.mem_keys_of_get? ho)]
      rw [Manager.linkChild_eq] at kind
      exact hold id old ho kind

/-- The notes behind a snapshot only depend on the graph and on the notes of the nodes. -/
theorem behind_congr {m m' : Manager} {l l' : Ledger ℚ} (hgraph : m'.snapshotGraph = m.snapshotGraph)
    (hnotes : l'.ofNode = l.ofNode) (id : String) : l'.behind m' id = l.behind m id := by
  rw [Ledger.behind, Ledger.behind, hgraph, hnotes]

theorem boundedReplay_congr {m m' : Manager} {l l' : Ledger ℚ} (hgraph : m'.snapshotGraph = m.snapshotGraph)
    (hnotes : l'.ofNode = l.ofNode) : BoundedReplay t l' m' ↔ BoundedReplay t l m := by
  simp only [BoundedReplay, hgraph, behind_congr hgraph hnotes]

/-! ### Steps -/

theorem balanced_exec (hb : Balanced s.mgr l) (c : Command) (timeout : Option ℚ)
    (hx : ∃ r, (B.timedExec c timeout s.world).1 = .ok r) :
    Balanced (B.afterExec c timeout s).mgr (after B (elapsedOf B) (.exec c timeout) s l) ∧
      (BoundedReplay t (after B (elapsedOf B) (.exec c timeout) s l) (B.afterExec c timeout s).mgr ↔
        BoundedReplay t l s.mgr) := by
  refine ⟨?_, boundedReplay_congr rfl rfl⟩
  obtain ⟨p, hlast, hsum⟩ := hb
  obtain ⟨r, hr⟩ := hx
  refine ⟨p, ?_, ?_⟩
  · rw [SequentialBackend.afterExec, Manager.main_logExec]
    exact hlast
  · have hcounted : countedTime (B.timedExec c timeout s.world).1 (B.timedExec c timeout s.world).2.1 =
        elapsedOf B c timeout s := by rw [hr]; rfl
    have hbehind : (after B (elapsedOf B) (.exec c timeout) s l).behind (B.afterExec c timeout s).mgr p =
        l.behind s.mgr p := behind_congr rfl rfl p
    rw [hbehind, SequentialBackend.afterExec, Manager.main_logExec]
    dsimp only [after]
    rw [hcounted, List.sum_append, List.sum_singleton]
    linarith

theorem balanced_restore (hs : Solo s.mgr) (hb : Balanced s.mgr l)
    (id : String) :
    Balanced (B.restoreEffect id s).2.mgr (after B (elapsedOf B) (.restore id) s l) ∧
      (BoundedReplay t (after B (elapsedOf B) (.restore id) s l) (B.restoreEffect id s).2.mgr ↔
        BoundedReplay t l s.mgr) := by
  rw [after_restore hs]
  have hcase := B.restoreEffect_cases id s
  generalize B.restoreEffect id s = r at hcase ⊢
  cases hcase with
  | refused => exact ⟨hb, Iff.rfl⟩
  | raised => exact ⟨hb, Iff.rfl⟩
  | failed => exact ⟨hb, Iff.rfl⟩
  | @restored ancestor commands _ elapsed w =>
    have hgraph := (B.afterRestore_graph id ancestor.snapshotId commands elapsed { s with world := w }).1
    refine ⟨⟨id, ?_, ?_⟩, boundedReplay_congr hgraph rfl⟩
    · rw [B.afterRestore_main]
      rfl
    · rw [B.afterRestore_main, behind_congr hgraph rfl]
      rfl

/-- A virtual snapshot is as expensive to replay as the position it is taken at, and a physical one
costs nothing. -/
theorem balanced_snapshot (hs : Solo s.mgr) (hl : Lineage root s.mgr) (hb : Balanced s.mgr l)
    (hf : ∀ id, ((B.withThreshold t).snapshotEffect s).1 = .ok (some id) → FreshId s.mgr id) :
    Balanced ((B.withThreshold t).snapshotEffect s).2.mgr
        (after (B.withThreshold t) (elapsedOf (B.withThreshold t)) .snapshot s l) ∧
      (BoundedReplay t (after (B.withThreshold t) (elapsedOf (B.withThreshold t)) .snapshot s l)
          ((B.withThreshold t).snapshotEffect s).2.mgr ↔
        BoundedReplay t l s.mgr ∧ Counts t s l) := by
  rw [after_snapshot hs]
  have hl' := hl.snapshotEffect (B.withThreshold t) hf
  have hcase := (B.withThreshold t).snapshotEffect_cases s
  obtain ⟨p, hlast, hsum⟩ := hb
  generalize (B.withThreshold t).snapshotEffect s = r at hcase hf hl' ⊢
  -- a physical snapshot, taken or not, is only decided on when the counter has reached the threshold
  have hreached {w : W}
      (decided : (B.withThreshold t).decide ⟨s.mgr.main.cumulativeExecTime⟩ s.world = (true, w)) :
      Counts t s l := by
    have hle : t ≤ s.mgr.main.cumulativeExecTime := of_decide_eq_true (congrArg Prod.fst decided)
    exact fun hlt => absurd hle (not_le.mpr hlt)
  cases hcase with
  | raised decided => exact ⟨⟨p, hlast, hsum⟩, (and_iff_left (hreached decided)).symm⟩
  | failed decided => exact ⟨⟨p, hlast, hsum⟩, (and_iff_left (hreached decided)).symm⟩
  | @physical _ w' id resource elapsed decided =>
    have hfresh : (SequentialBackend.snapshotNode s.mgr id true).snapshotId ∉ _ := (hf id rfl).2
    have hfound : (SequentialBackend.afterPhysical s.mgr id resource elapsed).snapshotGraph.get? id =
        some (SequentialBackend.snapshotNode s.mgr id true) :=
      Manager.get?_recordNode_self (hl.parent_ne rfl hfresh)
    have hphysical : isPhysical (SequentialBackend.afterPhysical s.mgr id resource elapsed) id = true :=
      isPhysical_record s.mgr (SequentialBackend.snapshotNode s.mgr id true) rfl
    have hmain := Manager.main_advance ((s.mgr.registerSnapshotResource id resource).addEntry "snapshot" id
      elapsed defaultBranchId) (SequentialBackend.snapshotNode s.mgr id true) true
    refine ⟨⟨id, congrArg _ hmain, ?_⟩, ?_⟩
    · rw [behind_physical hfound rfl]
      have hzero : (SequentialBackend.afterPhysical s.mgr id resource elapsed).main.cumulativeExecTime = 0 :=
        congrArg _ hmain
      simp only [hzero, hphysical, if_true, List.sum_nil, add_zero]
    · refine (boundedReplay_record hl hl' rfl rfl hfresh fun i hi => ?_).trans (and_congr_right fun _ => ?_)
      · exact Function.update_of_ne (fun he : i = id => hfresh (he ▸ hi)) _ _
      · exact ⟨fun _ => hreached decided, fun _ kind => absurd kind (by simp)⟩
  | @virtual w w' hex decided =>
    have hlt : s.mgr.main.cumulativeExecTime < t :=
      not_le.mp (of_decide_eq_false (congrArg Prod.fst decided))
    generalize "v" ++ (hex.take 7).toString = id at hf hl' ⊢
    have hfresh : (SequentialBackend.snapshotNode s.mgr id false).snapshotId ∉ _ := (hf id rfl).2
    have hself := hl.parent_ne (show (SequentialBackend.snapshotNode s.mgr id false).parentId = _ from rfl) hfresh
    have hfound : (SequentialBackend.afterVirtual s.mgr id).snapshotGraph.get? id =
        some (SequentialBackend.snapshotNode s.mgr id false) := Manager.get?_recordNode_self hself
    have hvirtual : isPhysical (SequentialBackend.afterVirtual s.mgr id) id = false :=
      isPhysical_record s.mgr (SequentialBackend.snapshotNode s.mgr id false) rfl
    have hnotes : ∀ i ∈ s.mgr.snapshotGraph.keys, Function.update l.ofNode id l.pending i = l.ofNode i :=
      fun i hi => Function.update_of_ne (fun he : i = id => hfresh (he ▸ hi)) _ _
    have hmain := Manager.main_advance s.mgr (SequentialBackend.snapshotNode s.mgr id false) false
    simp only [hvirtual, Bool.false_eq_true, if_false]
    -- the notes behind the new node are those behind the position and those since
    have hp : p ∈ s.mgr.snapshotGraph.keys := by
      obtain ⟨q, -, hq, hmem⟩ := hl.position
      exact Option.some.inj (hq.symm.trans hlast) ▸ hmem
    have hbehind : (⟨Function.update l.ofNode id l.pending, [], l.carried⟩ : Ledger ℚ).behind
        (SequentialBackend.afterVirtual s.mgr id) id = l.behind s.mgr p ++ l.pending := by
      rw [behind_virtual hl'.ordered hfound rfl hlast]
      congr 1
      · exact behind_mono hl.ordered hl'.ordered (Manager.extends_recordNode hfresh hself) hnotes hp
      · exact Function.update_self ..
    have hcost : ((⟨Function.update l.ofNode id l.pending, [], l.carried⟩ : Ledger ℚ).behind
        (SequentialBackend.afterVirtual s.mgr id) id).sum =
          l.carried.sum + s.mgr.main.cumulativeExecTime := by
      rw [hbehind, List.sum_append, hsum]
    refine ⟨⟨id, congrArg _ hmain, ?_⟩, ?_⟩
    · have hcount : (SequentialBackend.afterVirtual s.mgr id).main.cumulativeExecTime =
          s.mgr.main.cumulativeExecTime := by
        rw [SequentialBackend.afterVirtual, hmain]
        rfl
      rw [hcost, hcount, List.sum_nil, add_zero]
    · refine (boundedReplay_record hl hl' rfl rfl hfresh hnotes).trans (and_congr_right fun _ => ?_)
      show (_ → (Ledger.behind _ _ id).sum < t) ↔ _
      rw [hcost]
      exact ⟨fun h _ => h rfl, fun h _ => h hlt⟩

/-! ### Runs -/

theorem balanced_step (hs : Solo s.mgr) (hl : Lineage root s.mgr) (hb : Balanced s.mgr l) (op : SeqOp)
    (hf : op = .snapshot → ∀ id, ((B.withThreshold t).snapshotEffect s).1 = .ok (some id) → FreshId s.mgr id)
    (hx : ∀ c timeout, op = .exec c timeout →
      ∃ r, ((B.withThreshold t).timedExec c timeout s.world).1 = .ok r) :
    Balanced (op.effect (B.withThreshold t) s).mgr
        (after (B.withThreshold t) (elapsedOf (B.withThreshold t)) op s l) ∧
      (BoundedReplay t (after (B.withThreshold t) (elapsedOf (B.withThreshold t)) op s l)
          (op.effect (B.withThreshold t) s).mgr ↔
        BoundedReplay t l s.mgr ∧ (op = .snapshot → Counts t s l)) := by
  cases op with
  | exec c timeout =>
    obtain ⟨hbal, hbound⟩ := balanced_exec (t := t) hb c timeout (hx c timeout rfl)
    exact ⟨hbal, hbound.trans (and_iff_left fun he => by cases he).symm⟩
  | restore id =>
    obtain ⟨hbal, hbound⟩ := balanced_restore (t := t) hs hb id
    exact ⟨hbal, hbound.trans (and_iff_left fun he => by cases he).symm⟩
  | snapshot =>
    obtain ⟨hbal, hbound⟩ := balanced_snapshot hs hl hb (hf rfl)
    exact ⟨hbal, hbound.trans (and_congr_right fun _ => ⟨fun h _ => h, fun h => h rfl⟩)⟩

/-- The steps of a run decide, one by one, about the bound at its end. -/
theorem boundedReplay_run (hs : Solo s.mgr) (hl : Lineage root s.mgr) (hb : Balanced s.mgr l)
    {ops : List SeqOp} (hf : FreshIds (B.withThreshold t) ops s)
    (hx : NoBackendException (B.withThreshold t) ops s) :
    BoundedReplay t (Ledger.run (B.withThreshold t) (elapsedOf (B.withThreshold t)) ops s l)
        (runOps (B.withThreshold t) ops s).mgr ↔
      BoundedReplay t l s.mgr ∧ CountedSnapshots (B.withThreshold t) t ops s l := by
  induction ops generalizing s l with
  | nil => exact (and_iff_left trivial).symm
  | cons op ops ih =>
    obtain ⟨hop, hrest⟩ := hf
    obtain ⟨hxop, hxrest⟩ := hx
    rw [op.run_prog (B.withThreshold t) hs] at hrest hxrest
    have hf' : op = .snapshot → ∀ id, ((B.withThreshold t).snapshotEffect s).1 = .ok (some id) →
        FreshId s.mgr id := by
      rintro rfl id hid
      exact hop id ((snapshot_returns_iff (B.withThreshold t) hs id).mpr hid)
    obtain ⟨hb', hbound⟩ := balanced_step hs hl hb op hf' hxop
    rw [runOps_cons (B.withThreshold t) hs, Ledger.run_cons hs,
      ih (op.effect_solo (B.withThreshold t) hs) (hl.effect (B.withThreshold t) op hf') hb' hrest hxrest,
      hbound, and_assoc]
    show _ ↔ _ ∧ _ ∧ CountedSnapshots (B.withThreshold t) t ops
      ((op.prog (B.withThreshold t)).run s).2 _
    rw [op.run_prog (B.withThreshold t) hs]

/-- The bound holds in the state after a run, and so in every state of it, exactly if every snapshot
of the run is taken where the counter decides about the carried cost as well. -/
theorem boundedReplay_iff (B : SequentialBackend W) (t : ℚ) {root : String} (hroot : root ≠ "")
    (resource : String) (w : W) (ops : List SeqOp)
    (hf : FreshIds (B.withThreshold t) ops (Sys.startedAt root resource w))
    (hx : NoBackendException (B.withThreshold t) ops (Sys.startedAt root resource w)) :
    BoundedReplay t
        (Ledger.run (B.withThreshold t) (elapsedOf (B.withThreshold t)) ops
          (Sys.startedAt root resource w) {})
        (runOps (B.withThreshold t) ops (Sys.startedAt root resource w)).mgr ↔
      CountedSnapshots (B.withThreshold t) t ops (Sys.startedAt root resource w) {} := by
  have hget := Lineage.get?_startedAt root resource
  have hl : Lineage root (Sys.startedAt root resource w).mgr := Lineage.startedAt resource hroot
  have hb : Balanced (Sys.startedAt root resource w).mgr {} := by
    have hbehind : ({} : Ledger ℚ).behind (Sys.startedAt root resource w).mgr root = [] :=
      behind_physical ((hget root).trans (if_pos rfl)) rfl
    refine ⟨root, rfl, ?_⟩
    rw [hbehind]
    rfl
  rw [boundedReplay_run (Sys.startedAt_solo root resource w) hl hb hf hx]
  refine and_iff_right fun id node found kind => ?_
  change (Manager.startedAt root resource).snapshotGraph.get? id = _ at found
  rw [hget] at found
  split_ifs at found
  rw [← Option.some.inj found] at kind
  exact absurd kind (by simp)

/-- Continues from a restored virtual snapshot; every command takes one second. -/
def resumedRun : List SeqOp :=
  [.exec (.line "make") none, .snapshot, .restore "v3f2a", .exec (.line "make test") none, .snapshot]

def resumedStart : Sys Tape := Sys.startedAt "base" "base" (Tape.start ["3f2a", "9c41"] [] [])

theorem freshIds_resumedRun : FreshIds (Tape.backend.withThreshold 2) resumedRun resumedStart := by
  refine ⟨SeqOp.returnsFresh_of_ne _ (by decide), ?_, SeqOp.returnsFresh_of_ne _ (by decide),
    SeqOp.returnsFresh_of_ne _ (by decide), ?_, trivial⟩
  · have hr : ((SeqOp.snapshot.prog (Tape.backend.withThreshold 2)).run
        (runOps (Tape.backend.withThreshold 2) (resumedRun.take 1) resumedStart)).1 =
          .ok (.snapshotId (some "v3f2a")) := by decide +kernel
    exact SeqOp.returnsFresh_of_eq _ hr ⟨by decide, by decide +kernel⟩
  · have hr : ((SeqOp.snapshot.prog (Tape.backend.withThreshold 2)).run
        (runOps (Tape.backend.withThreshold 2) (resumedRun.take 4) resumedStart)).1 =
          .ok (.snapshotId (some "v9c41")) := by decide +kernel
    exact SeqOp.returnsFresh_of_eq _ hr ⟨by decide, by decide +kernel⟩

theorem noBackendException_resumedRun :
    NoBackendException (Tape.backend.withThreshold 2) resumedRun resumedStart := by
  refine ⟨?_, ?_, ?_, ?_, ?_, trivial⟩ <;> intro c timeout h <;> cases h <;> exact ⟨_, rfl⟩

theorem boundedReplay_iff_resumedRun :
    BoundedReplay 2
        (Ledger.run (Tape.backend.withThreshold 2) (elapsedOf (Tape.backend.withThreshold 2)) resumedRun
          resumedStart {})
        (runOps (Tape.backend.withThreshold 2) resumedRun resumedStart).mgr ↔
      CountedSnapshots (Tape.backend.withThreshold 2) 2 resumedRun resumedStart {} :=
  boundedReplay_iff Tape.backend 2 (by decide) "base" _ resumedRun freshIds_resumedRun
    noBackendException_resumedRun

/-- After the restore the counter starts from zero: a second virtual snapshot is taken, and restoring
it replays two seconds of commands. -/
theorem not_boundedReplay_resumedRun :
    FreshIds (Tape.backend.withThreshold 2) resumedRun resumedStart ∧
      NoBackendException (Tape.backend.withThreshold 2) resumedRun resumedStart ∧
      ¬ BoundedReplay 2
        (Ledger.run (Tape.backend.withThreshold 2) (elapsedOf (Tape.backend.withThreshold 2)) resumedRun
          resumedStart {})
        (runOps (Tape.backend.withThreshold 2) resumedRun resumedStart).mgr := by
  refine ⟨freshIds_resumedRun, noBackendException_resumedRun, fun h => ?_⟩
  have hfound : (runOps (Tape.backend.withThreshold 2) resumedRun resumedStart).mgr.snapshotGraph.get? "v9c41" =
      some ⟨"v9c41", some "v3f2a", [], true, [.line "make test"]⟩ := by decide +kernel
  have hbehind : ((Ledger.run (Tape.backend.withThreshold 2) (elapsedOf (Tape.backend.withThreshold 2))
      resumedRun resumedStart {}).behind
        (runOps (Tape.backend.withThreshold 2) resumedRun resumedStart).mgr "v9c41").sum = 2 := by
    decide +kernel
  exact absurd (h "v9c41" _ hfound rfl) (by rw [hbehind]; exact lt_irrefl 2)

end StateFork
