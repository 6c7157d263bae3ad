import StateFork.Forkable.Accounting
import StateFork.Forkable.TrueAncestry

/-!
# The history of a run

Every operation enters in the log what it did (`told`), so that the log of a run is the history of its operations
(`history_tells_run`). The snapshots that it names are the ones that the operations returned, each with its branch.
-/

namespace StateFork

open Conc Conc.Prog

/-- An entry of the log, without its number and its time. -/
structure LoggedFact where
  operation : String
  targetId : String
  branchId : String
  deriving DecidableEq

def BenchmarkEntry.fact (e : BenchmarkEntry) : LoggedFact := ⟨e.operation, e.targetId, e.branchId⟩

/-- What an entry tells of a capture: the branch and the id of the snapshot. -/
def LoggedFact.captured (f : LoggedFact) : Option (String × String) :=
  if f.operation = "snapshot" ∨ f.operation = "park" then some (f.branchId, f.targetId) else none

namespace BenchmarkStats

/-- The log gained entries for these facts. -/
inductive Gained : BenchmarkStats → List LoggedFact → BenchmarkStats → Prop
  | nil (stats : BenchmarkStats) : Gained stats [] stats
  | cons {stats stats' : BenchmarkStats} {facts : List LoggedFact} (f : LoggedFact) (elapsed : ℚ)
      (rest : Gained (stats.addEntry f.operation f.targetId elapsed f.branchId) facts stats') :
      Gained stats (f :: facts) stats'

variable {stats stats' stats'' : BenchmarkStats} {facts facts' : List LoggedFact}

theorem Gained.of_eq (h : stats' = stats) : Gained stats [] stats' := by
  rw [h]
  exact .nil stats

theorem Gained.entry (stats : BenchmarkStats) (operation targetId : String) (elapsed : ℚ) (branchId : String) :
    Gained stats [⟨operation, targetId, branchId⟩] (stats.addEntry operation targetId elapsed branchId) :=
  .cons _ elapsed (.nil _)

theorem Gained.append (h : Gained stats facts stats') (h' : Gained stats' facts' stats'') :
    Gained stats (facts ++ facts') stats'' := by
  induction h with
  | nil => exact h'
  | cons f elapsed _ ih => exact .cons f elapsed (ih h')

theorem Gained.log (h : Gained stats facts stats') :
    stats'.log.map BenchmarkEntry.fact = stats.log.map BenchmarkEntry.fact ++ facts := by
  induction h with
  | nil => rw [List.append_nil]
  | cons f elapsed _ ih =>
    rw [ih, addEntry, List.map_append, List.append_assoc]
    rfl

/-- The entries are numbered from one on. -/
structure Numbered (stats : BenchmarkStats) : Prop where
  counter : stats.sequenceCounter = stats.log.length
  numbers : stats.log.map BenchmarkEntry.sequence = List.range' 1 stats.log.length

theorem Numbered.addEntry (h : stats.Numbered) (operation targetId : String) (elapsed : ℚ) (branchId : String) :
    (stats.addEntry operation targetId elapsed branchId).Numbered := by
  constructor
  · show stats.sequenceCounter + 1 = (stats.log ++ [_]).length
    rw [h.counter, List.length_append, List.length_singleton]
  · show (stats.log ++ [_]).map BenchmarkEntry.sequence = List.range' 1 (stats.log ++ [_]).length
    rw [List.map_append, h.numbers, List.length_append, List.length_singleton, List.range'_concat, List.map_singleton,
      h.counter, Nat.one_mul, Nat.add_comm 1]

theorem Gained.numbered (h : Gained stats facts stats') (hstats : stats.Numbered) : stats'.Numbered := by
  induction h with
  | nil => exact hstats
  | cons f elapsed _ ih => exact ih (hstats.addEntry ..)

end BenchmarkStats

namespace Manager

open BenchmarkStats

/-- The snapshot on which a branch stands that can be used. -/
def standing (m : Manager) (b : String) : Option String :=
  (m.branches.get? b).bind fun r => if (m.record r).active then some (m.record r).targetSnapshot else none

variable {m : Manager}

theorem stats_relist (m : Manager) (listing : List EnvironmentBranch) : (m.relist listing).stats = m.stats := by
  have hlive (l : List EnvironmentBranch) (m : Manager) : (newLiveObjects l m).2.stats = m.stats := by
    induction l generalizing m with
    | nil => rfl
    | cons branch l ih => exact ih (m.newLiveObject branch).2
  unfold relist
  dsimp only
  exact (stats_foldl stats_dropStale _ _).trans ((stats_foldl stats_reconcile _ _).trans (hlive listing m))

theorem stats_forget (m : Manager) (b : String) : (m.forget b).stats = m.stats := stats_removeBranch _ b

theorem stats_commit (m : Manager) (b : String) (r : Ref) (node : SnapshotNode) : (m.commit b r node).stats = m.stats := by
  unfold commit
  dsimp only
  obtain ⟨objects, hadvance⟩ := advanceLiveBase_eq
    ((m.recordSnapshotNode node).modifyRecord r fun r =>
      { BranchState.positionedAt (some node.snapshotId) with active := r.active }) b node.snapshotId
  rw [hadvance]
  rfl

theorem gained_registerOutcomes (m : Manager) (activate : Bool) (outcomes : List (EnvironmentBranch × ℚ)) :
    Gained m.stats (outcomes.map fun o => ⟨"fork", o.1.id, o.1.id⟩)
      (outcomes.foldl (registerOutcome activate) m).stats := by
  induction outcomes generalizing m with
  | nil => exact .nil _
  | cons o outcomes ih =>
    have hfirst : (m.registerOutcome activate o).stats = m.stats.addEntry "fork" o.1.id o.2 o.1.id :=
      m.stats_registerOutcome activate o
    refine .cons ⟨"fork", o.1.id, o.1.id⟩ o.2 ?_
    rw [← hfirst]
    exact ih _

end Manager

namespace ForkableBackend

open EnvironmentManager ForkableEnvironmentManager BenchmarkStats

variable {W : Type} (B : ForkableBackend W)

/-- What a command on a branch enters: it was tried, in front of the snapshot on which the branch stands. -/
def toldExec (b : String) (m : Manager) : List LoggedFact :=
  match m.standing b with
  | some target => [⟨"exec", target, b⟩]
  | none => []

/-- What a copy enters, unless the hook raises. -/
def toldCopy (b hostPath envPath : String) (into : Bool) (s : Sys W) : List LoggedFact :=
  match s.mgr.standing b, (B.copy b hostPath envPath into (B.time s.world).2).1 with
  | some target, .ok _ => [⟨"copy", target, b⟩]
  | _, _ => []

/-- What an operation enters in the log, by what it returned and the branch that is current then. -/
def told (s : Sys W) (current : String) : PublicOp → Outcome → List LoggedFact
  | .snapshot, .snapshotId (some id) => [⟨"snapshot", id, s.mgr.currentBranchId⟩]
  | .snapshotBranch b false, .snapshotId (some id) => [⟨"snapshot", id, b⟩]
  | .snapshotBranch b true, .snapshotId (some id) => [⟨"park", id, b⟩]
  | .parkBranch b, .snapshotId (some id) => [⟨"park", id, b⟩]
  | .fork _ _ _, .branches l => l.map fun branch => ⟨"fork", branch.id, branch.id⟩
  | .restore id, .flag true => [⟨"fork", current, current⟩, ⟨"restore", id, current⟩]
  -- The branch is there, and then the one that it was to replace cannot be destroyed.
  | .restore _, .raised _ => if current = s.mgr.currentBranchId then [] else [⟨"fork", current, current⟩]
  | .execCommand _ _, _ => toldExec s.mgr.currentBranchId s.mgr
  | .execOnBranch b _ _, _ => if (s.mgr.liveBranches.get? b).isSome then toldExec b s.mgr else []
  | .copyIn h p, _ => B.toldCopy s.mgr.currentBranchId h p true s
  | .copyOut p h, _ => B.toldCopy s.mgr.currentBranchId h p false s
  | .copyInBranch b h p, _ => if (s.mgr.liveBranches.get? b).isSome then B.toldCopy b h p true s else []
  | .copyOutBranch b p h, _ => if (s.mgr.liveBranches.get? b).isSome then B.toldCopy b h p false s else []
  | _, _ => []

/-- The history of a run. -/
def history : List PublicOp → Sys W → List LoggedFact
  | [], _ => []
  | op :: ops, s =>
    let (r, s') := (PublicOp.prog B.hooks op).run s
    B.told s s'.mgr.currentBranchId op (Outcome.ofResult r) ++ history ops s'

variable {B} {s : Sys W} {b : String}

/-! ### The templates -/

theorem gained_exec (B : ForkableBackend W) (b : String) (command : Command) (timeout : Option ℚ) (s : Sys W) :
    Gained s.mgr.stats (toldExec b s.mgr) ((execBranch B.hooks.toHooks b command timeout).run s).2.mgr.stats := by
  simp only [execBranch, getBranchState, run_bind, run_tryState, Manager.getBranchState, Option.getD_some, toldExec,
    Manager.standing]
  cases lookup : s.mgr.branches.get? b with
  | none => exact .nil _
  | some r =>
    simp only [run_afterValue_ok, run_bind, run_announce, run_withLock, run_readState, Option.bind_some]
    cases hactive : (s.mgr.record r).active with
    | false => exact .nil _
    | true =>
      simp only [if_true, run_bind, run_afterValue_ok, ForkHooks.toHooks, hooks, hooksWith, run_world, run_announce,
        run_attempt, run_tryWorld]
      rcases B.exec command timeout b (B.time s.world).2 with ⟨e | result, w⟩
      · simp only [logCommand, run_bind, run_withState, run_afterValue_ok, run_addEntry, run_pure]
        exact .entry ..
      · simp only [logCommand, run_bind, run_withState, run_afterValue_ok, run_addEntry, run_pure]
        exact .entry ..

theorem gained_copy (B : ForkableBackend W) (b hostPath envPath : String) (into : Bool) (s : Sys W) :
    Gained s.mgr.stats (B.toldCopy b hostPath envPath into s)
      ((copyBranch B.hooks.toHooks b hostPath envPath into).run s).2.mgr.stats := by
  simp only [copyBranch, getBranchState, run_bind, run_tryState, Manager.getBranchState, Option.getD_some, toldCopy,
    Manager.standing]
  cases lookup : s.mgr.branches.get? b with
  | none => exact .nil _
  | some r =>
    simp only [run_afterValue_ok, run_bind, run_announce, run_withLock, run_readState, Option.bind_some]
    cases hactive : (s.mgr.record r).active with
    | false => exact .nil _
    | true =>
      simp only [if_true, run_bind, run_afterValue_ok, ForkHooks.toHooks, hooks, hooksWith, run_world, run_announce,
        run_attempt, run_tryWorld]
      rcases B.copy b hostPath envPath into (B.time s.world).2 with ⟨e | ⟨ok, detail⟩, w⟩
      · exact .nil _
      · simp only [run_bind, run_world, run_afterValue_ok, run_addEntry, run_pure]
        exact .entry ..

/-- What a capture enters: the snapshot, if there is one. -/
def toldCapture (operation b : String) : Except PyError (Option String) → List LoggedFact
  | .ok (some id) => [⟨operation, id, b⟩]
  | _ => []

theorem gained_snapshot (B : ForkableBackend W) (b : String) (s : Sys W) :
    let x := (EnvironmentManager.snapshotBranch B.hooks.toHooks b true).run s
    Gained s.mgr.stats (toldCapture "snapshot" b x.1) x.2.mgr.stats := by
  have hcase := snapshot_cases B.hooks b s
  have hcapture := capture_cases B b s
  have hhook {r : Except PyError (Option String × ℚ)} {s' : Sys W} (h : B.CaptureCase b s (r, s')) :
      s'.mgr.stats = s.mgr.stats := by
    cases h with
    | kept => rfl
    | registered => rfl
    | refreshed => exact Manager.stats_relist _ _
  generalize (EnvironmentManager.snapshotBranch B.hooks.toHooks b true).run s = x at hcase ⊢
  cases hcase with
  | unregistered => exact .nil _
  | retired => exact .nil _
  | raised hook => exact .of_eq (hhook (hook ▸ hcapture))
  | failed hook => exact .of_eq (hhook (hook ▸ hcapture))
  | @committed r id elapsed s' lookup hactive hook =>
    have hstats := hhook (hook ▸ hcapture)
    dsimp only
    rw [Manager.stats_commit, ← hstats]
    exact .entry ..

theorem gained_park (hmain : defaultBranchId ∈ s.mgr.branches.keys) :
    let x := (parkBranchBody B.hooks b).run s
    Gained s.mgr.stats (toldCapture "park" b x.1) x.2.mgr.stats := by
  have hcase := B.park_cases b hmain
  generalize (parkBranchBody B.hooks b).run s = x at hcase ⊢
  cases hcase with
  | refused => exact .nil _
  | raised => exact .nil _
  | failed => exact .nil _
  | @parked r id resource elapsed w notMain =>
    have hswitch (m : Manager) : (m.setCurrentBranch defaultBranchId).2.stats = m.stats := by
      unfold Manager.setCurrentBranch
      split <;> rfl
    unfold Manager.retireParked
    dsimp only
    rw [Manager.stats_forget]
    split_ifs
    · rw [hswitch]
      exact .entry ..
    · exact .entry ..

theorem gained_fork (snapshotId : String) (n : Int) (ids : Option (List String)) :
    let x := (ForkableEnvironmentManager.fork B.hooks snapshotId n ids).run s
    Gained s.mgr.stats (B.told s x.2.mgr.currentBranchId (.fork snapshotId n ids)
      (Outcome.ofResult (x.1.map Outcome.branches))) x.2.mgr.stats := by
  dsimp only
  rw [B.run_fork]
  split
  · exact .nil _
  · unfold materialized
    split
    · exact .nil _
    · next outcomes w hfork =>
      have hgained := s.mgr.gained_registerOutcomes true outcomes
      simp only [Except.map, Outcome.ofResult, told, List.map_map]
      exact hgained

/-- A discard enters nothing. -/
theorem stats_discard (b : String) : ((discardBranchBody B.hooks b).run s).2.mgr.stats = s.mgr.stats := by
  have hcase := B.discard_cases b s
  generalize (discardBranchBody B.hooks b).run s = x at hcase ⊢
  cases hcase with
  | refused => rfl
  | raised => rfl
  | failed => rfl
  | discarded => exact Manager.stats_forget _ b

/-- Leaving a branch enters nothing, and can only fail for another branch than the restored one. -/
theorem left_spec (B : ForkableBackend W) (departing restored : String) (s : Sys W) :
    (B.left departing restored s).2.mgr.stats = s.mgr.stats ∧
      (B.left departing restored s).2.mgr.currentBranchId = s.mgr.currentBranchId ∧
      ∀ e, (B.left departing restored s).1 = .error e → restored ≠ departing := by
  unfold left
  split_ifs with hdeparts hgets
  · refine ⟨?_, ?_, fun _ _ => Ne.symm hdeparts.2⟩
    · have hbody := stats_discard (B := B) (s := s) departing
      rw [B.run_discardBranchBody, if_pos hgets] at hbody
      exact hbody
    · unfold discardAnswer
      split
      · rfl
      · rfl
      · exact Manager.currentBranchId_forget _ _
  · exact ⟨rfl, rfl, fun e he => by cases he⟩
  · exact ⟨rfl, rfl, fun e he => by cases he⟩

/-- The exits of a restore from a branch whose record is `departing`, for a hook that forks on request. -/
inductive RestoreCase (id : String) (s : Sys W) : Except PyError Bool × Sys W → Prop
  | refused {w : W} : RestoreCase id s (.ok false, { s with world := w })
  | raised {e : PyError} {w : W} : RestoreCase id s (.error e, { s with world := w })
  | stranded {o : EnvironmentBranch × ℚ} {e : PyError} {s' : Sys W} (moved : o.1.id ≠ s.mgr.currentBranchId)
      (stats : s'.mgr.stats = (s.mgr.registerOutcome false o).stats) (current : s'.mgr.currentBranchId = o.1.id) :
      RestoreCase id s (.error e, s')
  | restored {o : EnvironmentBranch × ℚ} {elapsed : ℚ} {s' : Sys W}
      (stats : s'.mgr.stats = (s.mgr.registerOutcome false o).stats) (current : s'.mgr.currentBranchId = o.1.id) :
      RestoreCase id s (.ok true, { s' with mgr := s'.mgr.restoredTo s'.mgr.currentBranchId id elapsed })

theorem restore_cases (hc : Consistent s.mgr) (hrequests : B.ForksOnRequest) (id : String) :
    RestoreCase id s ((restore B.hooks.toHooks id).run s) := by
  rw [B.run_restore id hc.regular]
  unfold restored
  obtain ⟨departing, hdeparting⟩ := Dict.mem_keys_iff.mp hc.current
  have hfound : s.mgr.getBranchState none = .ok departing := by
    rw [Manager.getBranchState, Option.getD_none, hdeparting]
  have hid : departing.id = s.mgr.currentBranchId := hc.regular.ids _ _ hdeparting
  rw [hfound]
  dsimp only
  split
  · exact .refused
  · unfold switched materialized
    dsimp only
    rcases hfork : B.fork id [none] (B.time s.world).2 with ⟨e | _ | ⟨o, outcomes⟩, w⟩
    · exact .raised
    · exact .refused
    · obtain rfl : outcomes = [] := List.eq_nil_of_length_eq_zero (by simpa using hrequests _ _ _ _ _ hfork)
      obtain ⟨hstats, hcurrent, herror⟩ := left_spec B departing.id o.1.id
        ⟨(s.mgr.registerOutcome false o).switch o.1.id, w⟩
      dsimp only [List.map, List.foldl]
      rcases hleft : B.left departing.id o.1.id ⟨(s.mgr.registerOutcome false o).switch o.1.id, w⟩ with ⟨e | _, s₂⟩
      · rw [hleft] at hstats hcurrent herror
        exact .stranded (hid ▸ herror e rfl) hstats hcurrent
      · rw [hleft] at hstats hcurrent
        have hstamped : ({ s₂ with world := (B.time s₂.world).2 } : Sys W).mgr.stats = _ := hstats
        exact .restored hstamped hcurrent

theorem gained_restore (hc : Consistent s.mgr) (hrequests : B.ForksOnRequest) (id : String) :
    let x := (restore B.hooks.toHooks id).run s
    Gained s.mgr.stats (B.told s x.2.mgr.currentBranchId (.restore id) (Outcome.ofResult (x.1.map Outcome.flag)))
      x.2.mgr.stats := by
  have hcase := restore_cases hc hrequests id
  generalize (restore B.hooks.toHooks id).run s = x at hcase ⊢
  have hforked {o : EnvironmentBranch × ℚ} :
      Gained s.mgr.stats [⟨"fork", o.1.id, o.1.id⟩] (s.mgr.registerOutcome false o).stats :=
    s.mgr.gained_registerOutcomes false [o]
  cases hcase with
  | refused => exact .nil _
  | raised =>
    dsimp only [Except.map, Outcome.ofResult]
    rw [told, if_pos rfl]
    exact .nil _
  | stranded moved hstats hcurrent =>
    dsimp only [Except.map, Outcome.ofResult]
    rw [told, hcurrent, if_neg moved, hstats]
    exact hforked
  | @restored o elapsed s' hstats hcurrent =>
    have hlogged : (s'.mgr.restoredTo s'.mgr.currentBranchId id elapsed).stats =
        s'.mgr.stats.addEntry "restore" id elapsed s'.mgr.currentBranchId := Manager.stats_setBranchPosition ..
    have hstays : (s'.mgr.restoredTo s'.mgr.currentBranchId id elapsed).currentBranchId = s'.mgr.currentBranchId :=
      (Grows.setBranchPosition ..).current
    dsimp only [Except.map, Outcome.ofResult]
    rw [told, hlogged, hstays, hstats, hcurrent]
    exact hforked.append (.entry ..)

/-! ### Operations -/

/-- One operation enters what it did. -/
theorem gained_prog (hc : Consistent s.mgr) (hrequests : B.ForksOnRequest) (op : PublicOp) :
    let x := (PublicOp.prog B.hooks op).run s
    Gained s.mgr.stats (B.told s x.2.mgr.currentBranchId op (Outcome.ofResult x.1)) x.2.mgr.stats := by
  have hcurrent {α : Type} (p : String → M W α) :
      (withLock .currentBranch (getCurrentBranchId >>= p)).run s = (p s.mgr.currentBranchId).run s := by
    simp only [run_withLock, getCurrentBranchId, run_bind, run_readState, run_afterValue_ok]
  have hnamed {α : Type} {b : String} {p : M W α} {a c : α} {facts : List LoggedFact}
      (hp : Gained s.mgr.stats facts (p.run s).2.mgr.stats) :
      Gained s.mgr.stats (if (s.mgr.liveBranches.get? b).isSome then facts else [])
        ((isLive b >>= fun live => if live then onKeyError p a else pure c : M W α).run s).2.mgr.stats := by
    rw [Apart.run_ifLive]
    split_ifs
    · rcases hrun : p.run s with ⟨e | x, s'⟩
      · rw [hrun] at hp
        unfold Apart.caught
        dsimp only
        split_ifs
        · exact hp
        · exact hp
      · rw [hrun] at hp
        exact hp
    · exact .nil _
  have hkeeps {α : Type} {p : M W α} (f : α → Outcome)
      (hp : KeepsManager (fun m => m.stats = s.mgr.stats) p) : Gained s.mgr.stats [] ((f <$> p).run s).2.mgr.stats := by
    rw [run_map]
    exact .of_eq (hp s rfl)
  have hcaptured {p : M W (Option String)} {operation b : String}
      (hp : Gained s.mgr.stats (toldCapture operation b (p.run s).1) (p.run s).2.mgr.stats) (op : PublicOp)
      (htold : ∀ current id, B.told s current op (.snapshotId (some id)) = [⟨operation, id, b⟩])
      (hnone : ∀ current, B.told s current op (.snapshotId none) = [])
      (hraised : ∀ current e, B.told s current op (.raised e) = []) :
      Gained s.mgr.stats (B.told s ((Outcome.snapshotId <$> p).run s).2.mgr.currentBranchId op
        (Outcome.ofResult ((Outcome.snapshotId <$> p).run s).1)) ((Outcome.snapshotId <$> p).run s).2.mgr.stats := by
    rw [run_map]
    rcases hrun : p.run s with ⟨e | _ | id, s'⟩
    · rw [hrun] at hp
      dsimp only [Except.map, Outcome.ofResult]
      rw [hraised]
      exact hp
    · rw [hrun] at hp
      dsimp only [Except.map, Outcome.ofResult]
      rw [hnone]
      exact hp
    · rw [hrun] at hp
      dsimp only [Except.map, Outcome.ofResult]
      rw [htold]
      exact hp
  have hpark (b : String) : Gained s.mgr.stats (toldCapture "park" b ((parkBranch B.hooks b).run s).1)
      ((parkBranch B.hooks b).run s).2.mgr.stats := by
    rw [parkBranch, run_withLock]
    exact gained_park hc.main
  cases op with
  | snapshot =>
    have hp : Gained s.mgr.stats
        (toldCapture "snapshot" s.mgr.currentBranchId ((EnvironmentManager.snapshot B.hooks.toHooks).run s).1)
        ((EnvironmentManager.snapshot B.hooks.toHooks).run s).2.mgr.stats := by
      rw [EnvironmentManager.snapshot, hcurrent]
      exact gained_snapshot B _ s
    exact hcaptured hp _ (fun _ _ => rfl) (fun _ => rfl) fun _ _ => rfl
  | restore id =>
    dsimp only [PublicOp.prog]
    rw [run_map]
    exact gained_restore hc hrequests id
  | execCommand c t =>
    dsimp only [PublicOp.prog]
    rw [run_map, execCommand, hcurrent]
    exact gained_exec B _ c t s
  | copyIn src path =>
    dsimp only [PublicOp.prog]
    rw [run_map, copyIn, hcurrent]
    exact gained_copy B _ src path true s
  | copyOut path dst =>
    dsimp only [PublicOp.prog]
    rw [run_map, copyOut, hcurrent]
    exact gained_copy B _ dst path false s
  | cleanup =>
    have hhook : KeepsManager (fun m => m.stats = s.mgr.stats) (B.hooks.toHooks.coreCleanup) :=
      (leaves_tryWorld B.cleanup fun _ => []).keeps
    refine hkeeps _ (hoare_withLock (keeps_bind hhook fun ok => ?_))
    exact keeps_bind (fun s' hs' => hs') fun _ => keeps_ret _
  | snapshotBranch b park =>
    cases park with
    | true => exact hcaptured (hpark b) _ (fun _ _ => rfl) (fun _ => rfl) fun _ _ => rfl
    | false =>
      have hp : Gained s.mgr.stats (toldCapture "snapshot" b ((ForkableEnvironmentManager.snapshotBranch B.hooks b false).run s).1)
          ((ForkableEnvironmentManager.snapshotBranch B.hooks b false).run s).2.mgr.stats := by
        have htemplate := gained_snapshot B b s
        unfold ForkableEnvironmentManager.snapshotBranch
        simp only [Bool.false_eq_true, if_false]
        rw [Apart.run_ifLive]
        split_ifs
        · rcases hrun : (EnvironmentManager.snapshotBranch B.hooks.toHooks b true).run s with ⟨e | r, s'⟩
          · rw [hrun] at htemplate
            unfold Apart.caught
            dsimp only
            split_ifs
            · exact htemplate
            · exact htemplate
          · rw [hrun] at htemplate
            exact htemplate
        · exact .nil _
      exact hcaptured hp _ (fun _ _ => rfl) (fun _ => rfl) fun _ _ => rfl
  | parkBranch b => exact hcaptured (hpark b) _ (fun _ _ => rfl) (fun _ => rfl) fun _ _ => rfl
  | execOnBranch b c t =>
    dsimp only [PublicOp.prog]
    rw [run_map]
    exact hnamed (gained_exec B b c t s)
  | copyInBranch b src path =>
    dsimp only [PublicOp.prog]
    rw [run_map]
    exact hnamed (gained_copy B b src path true s)
  | copyOutBranch b path dst =>
    dsimp only [PublicOp.prog]
    rw [run_map]
    exact hnamed (gained_copy B b dst path false s)
  | fork id n ids =>
    dsimp only [PublicOp.prog]
    rw [run_map]
    exact gained_fork id n ids
  | discardBranch b =>
    dsimp only [PublicOp.prog]
    rw [run_map, discardBranch, run_withLock]
    exact .of_eq (stats_discard b)
  | listBranches =>
    dsimp only [PublicOp.prog]
    rw [run_map, hooks, (B.run_listBranches _ s).1]
    refine .of_eq ?_
    unfold afterListing
    split
    · exact Manager.stats_relist _ _
    · rfl
  | listSnapshots => exact hkeeps _ (reads_readState _).keeps
  | printSnapshotTree limit => exact hkeeps _ (reads_tryState _).keeps
  | currentSnapshot =>
    exact hkeeps _ (hoare_withLock (keeps_bind (reads_getBranchState none).keeps fun _ => (reads_peek _).keeps))
  | currentBranchId => exact hkeeps _ reads_getCurrentBranchId.keeps
  | statsLog => exact hkeeps _ (hoare_withLock (reads_peek _).keeps)
  | liveBranches => exact hkeeps _ (reads_readState _).keeps

/-! ### Runs -/

theorem gained_run (hc : Consistent s.mgr) (hrequests : B.ForksOnRequest) (ops : List PublicOp) :
    Gained s.mgr.stats (B.history ops s) (ForkableEnvironmentManager.runOps B.hooks ops s).mgr.stats := by
  induction ops generalizing s with
  | nil => exact .nil _
  | cons op ops ih => exact (gained_prog hc hrequests op).append (ih (consistent_prog hc op))

/-- The captures of a run, with the branches and the ids that the operations returned. -/
def captures (F : ForkHooks W) : List PublicOp → Sys W → List (String × String)
  | [], _ => []
  | op :: ops, s => (capture F op s).toList ++ captures F ops ((PublicOp.prog F op).run s).2

theorem filterMap_captured_eq_nil {facts : List LoggedFact}
    (h : ∀ f ∈ facts, f.operation ≠ "snapshot" ∧ f.operation ≠ "park") : facts.filterMap LoggedFact.captured = [] :=
  List.filterMap_eq_nil_iff.mpr fun f hf => if_neg (not_or.mpr (h f hf))

theorem captured_toldExec (m : Manager) (b : String) : (toldExec b m).filterMap LoggedFact.captured = [] := by
  unfold toldExec
  split <;> rfl

theorem captured_toldCopy (b hostPath envPath : String) (into : Bool) :
    (B.toldCopy b hostPath envPath into s).filterMap LoggedFact.captured = [] := by
  unfold toldCopy
  split <;> rfl

/-- The capture of `b` that an outcome reports. -/
def reported (b : String) : Outcome → List (String × String)
  | .snapshotId (some id) => [(b, id)]
  | _ => []

/-- The entries for captures are the ones of the operations that returned a snapshot. -/
theorem captured_told (op : PublicOp) (current : String) :
    (B.told s current op (Outcome.ofResult ((PublicOp.prog B.hooks op).run s).1)).filterMap LoggedFact.captured =
      (capture B.hooks op s).toList := by
  have htarget (hnone : op.target s.mgr = none) : capture B.hooks op s = none := by
    unfold capture
    rw [hnone]
  have hcapture {b : String} (hb : op.target s.mgr = some b)
      (htold : ∀ o, (B.told s current op o).filterMap LoggedFact.captured = reported b o) :
      (B.told s current op (Outcome.ofResult ((PublicOp.prog B.hooks op).run s).1)).filterMap LoggedFact.captured =
        (capture B.hooks op s).toList := by
    unfold capture
    rw [hb, htold]
    rcases ((PublicOp.prog B.hooks op).run s).1 with e | o
    · rfl
    · cases o with
      | snapshotId id => cases id <;> rfl
      | _ => rfl
  cases op with
  | snapshot =>
    refine hcapture rfl fun o => ?_
    cases o with
    | snapshotId id => cases id <;> rfl
    | _ => rfl
  | snapshotBranch b park =>
    refine hcapture rfl fun o => ?_
    cases o with
    | snapshotId id => cases park <;> cases id <;> rfl
    | _ => cases park <;> rfl
  | parkBranch b =>
    refine hcapture rfl fun o => ?_
    cases o with
    | snapshotId id => cases id <;> rfl
    | _ => rfl
  | restore id =>
    rw [htarget rfl]
    cases Outcome.ofResult ((PublicOp.prog B.hooks (.restore id)).run s).1 with
    | flag ok => cases ok <;> rfl
    | raised e =>
      rw [told]
      split_ifs <;> rfl
    | _ => rfl
  | fork id n ids =>
    rw [htarget rfl]
    cases Outcome.ofResult ((PublicOp.prog B.hooks (.fork id n ids)).run s).1 with
    | branches l =>
      refine filterMap_captured_eq_nil fun f hf => ?_
      obtain ⟨branch, -, rfl⟩ := List.mem_map.mp hf
      show "fork" ≠ "snapshot" ∧ "fork" ≠ "park"
      decide
    | _ => rfl
  | execCommand c t =>
    rw [htarget rfl]
    exact captured_toldExec _ _
  | copyIn src path =>
    rw [htarget rfl]
    exact captured_toldCopy _ _ _ _
  | copyOut path dst =>
    rw [htarget rfl]
    exact captured_toldCopy _ _ _ _
  | execOnBranch b c t =>
    rw [htarget rfl, told]
    split_ifs
    · exact captured_toldExec _ _
    · rfl
  | copyInBranch b src path =>
    rw [htarget rfl, told]
    split_ifs
    · exact captured_toldCopy _ _ _ _
    · rfl
  | copyOutBranch b path dst =>
    rw [htarget rfl, told]
    split_ifs
    · exact captured_toldCopy _ _ _ _
    · rfl
  | _ =>
    rw [htarget rfl]
    rfl

theorem captured_history (ops : List PublicOp) (s : Sys W) :
    (B.history ops s).filterMap LoggedFact.captured = captures B.hooks ops s := by
  induction ops generalizing s with
  | nil => rfl
  | cons op ops ih =>
    rw [captures, ← ih, ← captured_told op ((PublicOp.prog B.hooks op).run s).2.mgr.currentBranchId,
      ← List.filterMap_append]
    rfl

end ForkableBackend

open ForkableBackend ForkableEnvironmentManager in
/-- The log of a run tells what its operations did, in order and numbered from one on. In particular it names every
snapshot that an operation returned, with the branch that was captured, and no other. -/
theorem history_tells_run {W : Type} (B : ForkableBackend W) (hrequests : B.ForksOnRequest) (s : Sys W)
    (hc : Consistent s.mgr) (hstats : s.mgr.stats = {}) (ops : List PublicOp) :
    let stats := (ForkableEnvironmentManager.runOps B.hooks ops s).mgr.stats
    stats.log.map BenchmarkEntry.fact = B.history ops s ∧ stats.Numbered ∧
      (stats.log.map BenchmarkEntry.fact).filterMap LoggedFact.captured = captures B.hooks ops s := by
  have hgained := gained_run hc hrequests ops
  rw [hstats] at hgained
  have hlog : (ForkableEnvironmentManager.runOps B.hooks ops s).mgr.stats.log.map BenchmarkEntry.fact = B.history ops s := hgained.log
  refine ⟨hlog, hgained.numbered ⟨rfl, rfl⟩, ?_⟩
  rw [hlog]
  exact captured_history ops s

/-- A branch is forked, worked on and parked, and then brought back. -/
def parkedRun : List PublicOp :=
  [.fork "base" 1 none, .execOnBranch "3f2a" (.line "make") none, .parkBranch "3f2a", .restore "9c41"]

theorem history_tells_run_parkedRun :
    let s := Fleet.start ["3f2a", "9c41", "b07d"] []
    let log := (ForkableEnvironmentManager.runOps (Fleet.backend false).hooks parkedRun s).mgr.stats.log
    log.map BenchmarkEntry.fact = [⟨"fork", "3f2a", "3f2a"⟩, ⟨"exec", "base", "3f2a"⟩, ⟨"park", "9c41", "3f2a"⟩,
        ⟨"fork", "b07d", "b07d"⟩, ⟨"restore", "9c41", "b07d"⟩] ∧
      (log.map BenchmarkEntry.fact).filterMap LoggedFact.captured = [("3f2a", "9c41")] := by
  intro s log
  obtain ⟨hlog, -, hcaptured⟩ := history_tells_run (Fleet.backend false) (Fleet.backend_forksOnRequest false) s
    (.seeded "base" "base") rfl parkedRun
  exact ⟨hlog.trans (by decide +kernel), hcaptured.trans (by decide +kernel)⟩

end StateFork
