import StateFork.Forkable.Separate
import StateFork.Forkable.Listing
import StateFork.Sequential.Accounting

/-!
# Time that is accounted for

On a forkable manager more operations write the counter of a branch. A snapshot and a fork start it from zero, and the
log has an entry for either. A listing starts it from zero when it positions a branch, and logs nothing; and a fork may
take over the record that exists under its id. So here the counters show the time spent as long as no raising command
takes time, no listing moves a branch on which time was spent, and no fork takes over such a branch
(`execTime_accounted`).
-/

namespace StateFork

open Conc Conc.Prog

namespace Manager

variable {m m' m'' : Manager} {b b' : String}

/-- The counter of the branch, if it is registered, is the time spent on it. -/
def AccountedAt (m : Manager) (b : String) : Prop :=
  ∀ r, m.branches.get? b = some r → (m.record r).cumulativeExecTime = spent b m.stats.log

/-- The counters show the time spent. -/
def Accounted (m : Manager) : Prop := ∀ b, m.AccountedAt b

/-- The counter of the branch, if it is registered, stands at zero. -/
def Idle (m : Manager) (b : String) : Prop :=
  ∀ r, m.branches.get? b = some r → (m.record r).cumulativeExecTime = 0

/-- The listing leaves the branch where it is, or no time was spent on it. -/
def Harmless (m : Manager) (listing : List EnvironmentBranch) (b : String) : Prop :=
  spent b m.stats.log = 0 ∨ ∀ branch ∈ listing, branch.id = b → m.SettledAt branch

theorem AccountedAt.congr (h : m.AccountedAt b) (hbranch : m'.branches.get? b = m.branches.get? b)
    (hrecord : ∀ r, m.branches.get? b = some r → (m'.record r).cumulativeExecTime = (m.record r).cumulativeExecTime)
    (hspent : spent b m'.stats.log = spent b m.stats.log) : m'.AccountedAt b := by
  intro r hr
  rw [hbranch] at hr
  rw [hrecord r hr, hspent]
  exact h r hr

theorem AccountedAt.of_unchanged (h : m.AccountedAt b) (hunchanged : m.Unchanged b m') (hstats : m'.stats = m.stats) :
    m'.AccountedAt b :=
  h.congr hunchanged.branch (fun r hr => by rw [hunchanged.record r hr]) (by rw [hstats])

/-! ### Listing -/

@[simp] theorem stats_registerBranch (m : Manager) (b : String) (base : Option String) :
    (m.registerBranch b base).2.stats = m.stats := by
  unfold registerBranch
  split <;> rfl

@[simp] theorem stats_setBranchPosition (m : Manager) (b : String) (snapshotId : Option String) :
    (m.setBranchPosition b snapshotId).stats = m.stats :=
  m.stats_registerBranch b snapshotId

@[simp] theorem stats_reconcile (m : Manager) (r : Ref) : (m.reconcile r).stats = m.stats := by
  unfold reconcile
  dsimp only
  generalize (if (m.liveObject r).baseSnapshotId = "" then none else some (m.liveObject r).baseSnapshotId) = base
  split_ifs
  · exact m.stats_registerBranch _ _
  · exact (stats_setBranchPosition _ _ _).trans (m.stats_registerBranch _ _)

@[simp] theorem stats_removeBranch (m : Manager) (b : String) : (m.removeBranch b).stats = m.stats := by
  unfold removeBranch
  split <;> rfl

@[simp] theorem stats_dropStale (m : Manager) (b : String) : (m.dropStale b).stats = m.stats := by
  unfold dropStale
  split_ifs
  · rfl
  · exact m.stats_removeBranch b

theorem stats_foldl {α : Type} {f : Manager → α → Manager} (hf : ∀ m a, (f m a).stats = m.stats) (l : List α)
    (m : Manager) : (l.foldl f m).stats = m.stats := by
  induction l generalizing m with
  | nil => rfl
  | cons a l ih => exact (ih (f m a)).trans (hf m a)

theorem Idle.registerBranch (h : m.Idle b) (hregular : Regular m) (b' : String) (base : Option String) :
    (m.registerBranch b' base).2.Idle b := by
  intro r hr
  rcases hregular.record_registerBranch b' base hr with ⟨hold, hrecord⟩ | ⟨-, -, hrecord⟩
  · rw [hrecord]
    exact h r hold
  · rw [hrecord]

theorem Idle.modifyRecord (h : m.Idle b) (r : Ref) {f : BranchState → BranchState}
    (hf : ∀ x, x.cumulativeExecTime = 0 → (f x).cumulativeExecTime = 0) : (m.modifyRecord r f).Idle b := by
  intro r' hr'
  have hold := h r' hr'
  unfold record Manager.modifyRecord at *
  rw [Heap.cell_modify]
  split_ifs with haddr
  · rw [haddr] at hold
    exact hf _ hold
  · exact hold

theorem Idle.reconcile (h : m.Idle b) (hregular : Regular m) (r : Ref) : (m.reconcile r).Idle b := by
  unfold Manager.reconcile
  dsimp only
  generalize (if (m.liveObject r).baseSnapshotId = "" then none else some (m.liveObject r).baseSnapshotId) = base
  have hregistered := h.registerBranch hregular r.id base
  have hagain := hregistered.registerBranch (hregular.registerBranch r.id base) r.id (some (m.liveObject r).baseSnapshotId)
  split_ifs
  · exact hregistered
  · exact hagain.modifyRecord _ fun _ _ => rfl

/-- The first loop of a listing leaves a branch alone that stands where it is listed. -/
theorem unchanged_foldl_reconcile (hregular : Regular m) {refs : List Ref}
    (hids : ∀ r ∈ refs, (m.liveObject r).id = r.id)
    (hsettled : ∀ r ∈ refs, r.id = b → m.SettledAt (m.liveObject r)) : m.Unchanged b (refs.foldl reconcile m) := by
  induction refs generalizing m with
  | nil => exact .refl b m
  | cons r refs ih =>
    have hobjects (l : Ref) : (m.reconcile r).liveObject l = m.liveObject l := by
      unfold liveObject
      rw [(m.reconcile_frame r).1]
    have hfirst : m.Unchanged b (m.reconcile r) := by
      by_cases hb : r.id = b
      · rw [reconcile_of_settledAt (hids r (List.mem_cons_self ..)) (hsettled r (List.mem_cons_self ..) hb)]
        exact .refl b m
      · exact unchanged_reconcile hregular (Ne.symm hb)
    refine hfirst.trans (ih (hregular.reconcile r) (fun r' hr' => ?_) fun r' hr' hb => ?_)
    · rw [hobjects]
      exact hids r' (List.mem_cons_of_mem _ hr')
    · rw [hobjects]
      refine (hsettled r' (List.mem_cons_of_mem _ hr') hb).of_unchanged ?_
      rw [hids r' (List.mem_cons_of_mem _ hr'), hb]
      exact hfirst

theorem accountedAt_foldl_dropStale (hregular : Regular m) (h : m.AccountedAt b) (stale : List String) :
    (stale.foldl dropStale m).AccountedAt b := by
  induction stale generalizing m with
  | nil => exact h
  | cons b₀ stale ih =>
    refine ih (hregular.dropStale b₀) ?_
    by_cases hb : b = b₀
    · subst hb
      unfold dropStale
      split_ifs with hspared
      · exact h
      · intro r hr
        exact absurd rfl (mem_keys_removeBranch.mp (Dict.mem_keys_of_get? hr)).1
    · exact h.of_unchanged (unchanged_dropStale hregular hb) (m.stats_dropStale b₀)

theorem accountedAt_relist (hregular : Regular m) (h : m.AccountedAt b) {listing : List EnvironmentBranch}
    (hharmless : m.Harmless listing b) : (m.relist listing).AccountedAt b := by
  have ha := adopted_newLiveObjects m listing
  have hobjects := objects_newLiveObjects m listing
  have hids (r : Ref) (hr : r ∈ (newLiveObjects listing m).1) := id_newLiveObjects hr
  unfold relist
  dsimp only
  set refs := (newLiveObjects listing m).1
  set m₁ := (newLiveObjects listing m).2
  have hframe : m₁.branches = m.branches ∧ m₁.records = m.records ∧ m₁.stats = m.stats ∧
      m₁.snapshotGraph = m.snapshotGraph := by
    rw [ha.rest]
    exact ⟨rfl, rfl, rfl, rfl⟩
  obtain ⟨hbranches, hrecords, hstats, hgraph⟩ := hframe
  have hrecord (r : Ref) : (m₁.replaceLive refs).record r = m.record r := congrArg (fun h => h.cell r.addr) hrecords
  have hreplaced : Regular (m₁.replaceLive refs) := hregular.congr hbranches (congrArg Heap.next hrecords) hgraph
  have h₁ : (m₁.replaceLive refs).AccountedAt b :=
    h.congr (congrArg (Dict.get? · b) hbranches) (fun r _ => by rw [hrecord r]) (congrArg (spent b ·.log) hstats)
  refine accountedAt_foldl_dropStale (Regular.foldl (fun m r hm => hm.reconcile r) refs hreplaced) ?_ _
  have hlog : (refs.foldl reconcile (m₁.replaceLive refs)).stats = m.stats := (stats_foldl stats_reconcile refs _).trans hstats
  rcases hharmless with hspent | hsettled
  · -- the counter is at zero, and the loop keeps it there
    have hidle : (m₁.replaceLive refs).Idle b := fun r hr => (h₁ r hr).trans ((congrArg (spent b ·.log) hstats).trans hspent)
    have hloop (l : List Ref) (m₂ : Manager) (hm₂ : Regular m₂) (hidle : m₂.Idle b) : (l.foldl reconcile m₂).Idle b := by
      induction l generalizing m₂ with
      | nil => exact hidle
      | cons r l ih => exact ih _ (hm₂.reconcile r) (hidle.reconcile hm₂ r)
    intro r hr
    rw [hloop refs _ hreplaced hidle r hr, hlog, hspent]
  · refine h₁.of_unchanged (unchanged_foldl_reconcile hreplaced hids fun r hr hb => ?_) (hlog.trans hstats.symm)
    have hmem : m₁.liveObject r ∈ listing := by
      rw [← hobjects]
      exact List.mem_map_of_mem hr
    obtain ⟨state, hstate, hposition⟩ := hsettled _ hmem ((hids r hr).trans hb)
    refine ⟨state, (congrArg (Dict.get? · _) hbranches).trans hstate, fun hbase => ?_⟩
    rw [hrecord]
    exact hposition hbase

/-! ### Forks, snapshots and parks -/

theorem stats_registerOutcome (m : Manager) (activate : Bool) (outcome : EnvironmentBranch × ℚ) :
    (m.registerOutcome activate outcome).stats = (m.addEntry "fork" outcome.1.id outcome.2 outcome.1.id).stats := by
  rw [registerOutcome_eq]
  exact congrArg (BenchmarkStats.addEntry · _ _ _ _) (stats_registerBranch _ _ _)

theorem Idle.registerOutcome (h : m.Idle b) (hregular : Regular m) (activate : Bool)
    (outcome : EnvironmentBranch × ℚ) : (m.registerOutcome activate outcome).Idle b := by
  intro r hr
  by_cases hb : b = outcome.1.id
  · subst hb
    obtain ⟨r', hr', hcase⟩ := Regular.record_registerOutcome_self m activate outcome
    obtain rfl := Option.some.inj (hr.symm.trans hr')
    rcases hcase with ⟨hold, hrecord⟩ | ⟨-, hrecord⟩
    · rw [hrecord]
      exact h r hold
    · rw [hrecord]
      rfl
  · obtain ⟨hbranch, hrecord⟩ := hregular.record_registerOutcome_of_ne activate outcome hb
    rw [hbranch] at hr
    rw [hrecord r hr]
    exact h r hr

/-- A fork starts the account of a branch anew; the counter has to stand at zero for that. -/
theorem accountedAt_registerOutcome (hregular : Regular m) (h : m.AccountedAt b) (activate : Bool)
    {outcome : EnvironmentBranch × ℚ} (hidle : m.Idle outcome.1.id) : (m.registerOutcome activate outcome).AccountedAt b := by
  have hlog := m.stats_registerOutcome activate outcome
  by_cases hb : b = outcome.1.id
  · subst hb
    intro r hr
    rw [hidle.registerOutcome hregular activate outcome r hr, hlog]
    exact (spent_addEntry_opens (.inr rfl)).symm
  · obtain ⟨hbranch, hrecord⟩ := hregular.record_registerOutcome_of_ne activate outcome hb
    refine h.congr hbranch (fun r hr => by rw [hrecord r hr]) ?_
    rw [hlog]
    exact spent_addEntry_other (.inl hb)

theorem accountedAt_registerOutcomes (hregular : Regular m) (h : m.AccountedAt b) (activate : Bool)
    {outcomes : List (EnvironmentBranch × ℚ)} (hidle : ∀ o ∈ outcomes, m.Idle o.1.id) :
    (outcomes.foldl (registerOutcome activate) m).AccountedAt b := by
  induction outcomes generalizing m with
  | nil => exact h
  | cons o outcomes ih =>
    have hfirst := accountedAt_registerOutcome hregular h activate (hidle o (List.mem_cons_self ..))
    exact ih (hregular.registerOutcome activate o) hfirst fun o' ho' =>
      (hidle o' (List.mem_cons_of_mem _ ho')).registerOutcome hregular activate o

theorem accountedAt_forget (hregular : Regular m) (h : m.AccountedAt b) (gone : String) :
    (m.forget gone).AccountedAt b := by
  by_cases hb : b = gone
  · subst hb
    intro r hr
    exact absurd rfl (Consistent.mem_keys_forget.mp (Dict.mem_keys_of_get? hr)).1
  · exact h.of_unchanged (unchanged_forget hregular hb) (stats_removeBranch _ _)

/-- The record is the one of the branch if it has any, and of no other branch. -/
structure KeptFor (b : String) (r : Ref) (m : Manager) : Prop where
  own : ∀ r', m.branches.get? b = some r' → r' = r
  apart : ∀ b' r', m.branches.get? b' = some r' → b' ≠ b → r'.addr ≠ r.addr

theorem keptFor_of_get? (hregular : Regular m) {r : Ref} (hr : m.branches.get? b = some r) : KeptFor b r m where
  own _ hr' := Option.some.inj (hr'.symm.trans hr)
  apart b' r' hr' hb haddr := hb (hregular.distinct b' b r' r hr' hr haddr)

theorem KeptFor.dropStale {r : Ref} (h : KeptFor b r m) (stale : String) : KeptFor b r (m.dropStale stale) := by
  have hbranches (b' : String) (r' : Ref) (hr' : (m.dropStale stale).branches.get? b' = some r') :
      m.branches.get? b' = some r' := by
    unfold Manager.dropStale removeBranch at hr'
    split_ifs at hr'
    · exact hr'
    · split at hr'
      · have herased : (m.branches.erase stale).get? b' = some r' := hr'
        rw [Dict.get?_erase] at herased
        split_ifs at herased
        exact herased
      · exact hr'
  exact ⟨fun r' hr' => h.own r' (hbranches b r' hr'), fun b' r' hr' => h.apart b' r' (hbranches b' r' hr')⟩

/-- A listing does not give the record of a branch to another one. -/
theorem keptFor_relist (hregular : Regular m) {r : Ref} (hr : m.branches.get? b = some r)
    (listing : List EnvironmentBranch) : KeptFor b r (m.relist listing) := by
  have ha := adopted_newLiveObjects m listing
  unfold relist
  dsimp only
  set refs := (newLiveObjects listing m).1
  set m₁ := (newLiveObjects listing m).2
  have hframe : m₁.branches = m.branches ∧ m₁.records = m.records ∧ m₁.snapshotGraph = m.snapshotGraph := by
    rw [ha.rest]
    exact ⟨rfl, rfl, rfl⟩
  obtain ⟨hbranches, hrecords, hgraph⟩ := hframe
  have hreplaced : Regular (m₁.replaceLive refs) := hregular.congr hbranches (congrArg Heap.next hrecords) hgraph
  have hgrows : Grows (m₁.replaceLive refs) (refs.foldl Manager.reconcile (m₁.replaceLive refs)) :=
    Grows.foldl Grows.reconcile refs _
  have hr₁ : (m₁.replaceLive refs).branches.get? b = some r := (congrArg (Dict.get? · b) hbranches).trans hr
  have hkept := keptFor_of_get? (Regular.foldl (fun m r hm => hm.reconcile r) refs hreplaced) (hgrows.branches b r hr₁)
  have hdrop (stale : List String) (m₂ : Manager) (hm₂ : KeptFor b r m₂) : KeptFor b r (stale.foldl Manager.dropStale m₂) := by
    induction stale generalizing m₂ with
    | nil => exact hm₂
    | cons b₀ stale ih => exact ih _ (hm₂.dropStale b₀)
  exact hdrop _ _ hkept

/-- A snapshot starts the account of its branch anew, with its counter, and leaves the others alone. -/
theorem accounted_commit {r : Ref} (hkept : KeptFor b r m) (hothers : ∀ b' ≠ b, m.AccountedAt b') (snapshotId : String)
    (elapsed : ℚ) (parentId : Option String) :
    ((m.addEntry "snapshot" snapshotId elapsed b).commit b r { snapshotId, parentId }).Accounted := by
  have hstats : ((m.addEntry "snapshot" snapshotId elapsed b).commit b r { snapshotId, parentId }).stats =
      (m.addEntry "snapshot" snapshotId elapsed b).stats := by
    unfold commit advanceLiveBase
    dsimp only
    split <;> rfl
  have hrecord (r' : Ref) : ((m.addEntry "snapshot" snapshotId elapsed b).commit b r { snapshotId, parentId }).record r' =
      if r'.addr = r.addr then
        { BranchState.positionedAt (some snapshotId) with active := (m.record r').active }
      else m.record r' := by
    have hcell : ((m.addEntry "snapshot" snapshotId elapsed b).commit b r { snapshotId, parentId }).records =
        m.records.modify r.addr fun x => { BranchState.positionedAt (some snapshotId) with active := x.active } := by
      unfold commit advanceLiveBase
      dsimp only
      split <;> rfl
    unfold record
    rw [hcell, Heap.cell_modify]
    split_ifs with haddr
    · rw [haddr]
    · rfl
  intro b' r' hr'
  rw [branches_commit] at hr'
  rw [hrecord, hstats]
  by_cases hb : b' = b
  · subst hb
    rw [hkept.own r' hr', if_pos rfl]
    exact (spent_addEntry_opens (.inl rfl)).symm
  · rw [if_neg (hkept.apart b' r' hr' hb), spent_addEntry_other (.inl hb)]
    exact hothers b' hb r' hr'

/-- What a command on a branch records. -/
def logExecOn (m : Manager) (b : String) (state : Ref) (command : Command) (elapsed counted : ℚ) : Manager :=
  (m.modifyRecord state fun r =>
    { r with
      cumulativeExecTime := r.cumulativeExecTime + counted
      commandLog := r.commandLog ++ [command] }).addEntry "exec" (m.record state).targetSnapshot elapsed b

/-- A command whose time is counted. -/
theorem accounted_logExecOn (hregular : Regular m) (h : m.Accounted) {r : Ref} (hr : m.branches.get? b = some r)
    (command : Command) (elapsed : ℚ) : (m.logExecOn b r command elapsed elapsed).Accounted := by
  intro b' r' hr'
  have hrecord : (m.logExecOn b r command elapsed elapsed).record r' =
      if b' = b then
        { m.record r' with
          cumulativeExecTime := (m.record r').cumulativeExecTime + elapsed
          commandLog := (m.record r').commandLog ++ [command] }
      else m.record r' :=
    hregular.record_modifyRecord hr hr' fun x =>
      { x with
        cumulativeExecTime := x.cumulativeExecTime + elapsed
        commandLog := x.commandLog ++ [command] }
  rw [hrecord]
  by_cases hb : b' = b
  · subst hb
    rw [if_pos rfl, logExecOn, spent_addEntry_exec]
    show (m.record r').cumulativeExecTime + elapsed = elapsed + spent b' m.stats.log
    rw [h b' r' hr', add_comm]
  · rw [if_neg hb, logExecOn, spent_addEntry_other (.inl hb)]
    exact h b' r' hr'

end Manager

namespace ForkableBackend

open EnvironmentManager ForkableEnvironmentManager

variable {W : Type} (B : ForkableBackend W)

/-- `_core_exec` between two readings of the clock: outcome, elapsed time, world. -/
def timedExec (command : Command) (timeout : Option ℚ) (branchId : String) (w : W) :
    Except PyError (Int × String × String) × ℚ × W :=
  let start := B.time w
  let result := B.exec command timeout branchId start.2
  let stop := B.time result.2
  (result.1, stop.1 - start.1, stop.2)

/-- A command that raises takes no time. -/
def RaisesAtOnce (b : String) (command : Command) (timeout : Option ℚ) (s : Sys W) : Prop :=
  s.mgr.UsableBranch b → ∀ e, (B.timedExec command timeout b s.world).1 = .error e →
    (B.timedExec command timeout b s.world).2.1 = 0

/-- The listing that the snapshot hook makes after it captured the branch moves no other branch that time was spent on. -/
def RefreshHarmless (b : String) (s : Sys W) : Prop :=
  B.refreshes = true → s.mgr.UsableBranch b →
    ∀ captured elapsed w, B.snapshot b s.world = (.ok (some captured, elapsed), w) →
      ∀ listing, (B.list w).1 = .ok (some listing) → ∀ b' ≠ b, s.mgr.Harmless listing b'

/-- The operation counts all the time that it logs, and resets no counter without an entry. -/
def CountsTime : PublicOp → Sys W → Prop
  | .execCommand command timeout, s => B.RaisesAtOnce s.mgr.currentBranchId command timeout s
  | .execOnBranch b command timeout, s => B.RaisesAtOnce b command timeout s
  | .snapshot, s => B.RefreshHarmless s.mgr.currentBranchId s
  | .snapshotBranch b false, s => B.RefreshHarmless b s
  | .listBranches, s => ∀ listing, (B.list s.world).1 = .ok (some listing) → ∀ b, s.mgr.Harmless listing b
  | .fork snapshotId n ids, s =>
    ∀ requests, forkRequest s.mgr snapshotId n ids = some requests →
      ∀ outcomes, (B.fork snapshotId requests s.world).1 = .ok outcomes → ∀ o ∈ outcomes, s.mgr.Idle o.1.id
  | _, _ => True

variable {B} {s : Sys W} {b : String}

/-- The exits of a command on a branch. -/
inductive ExecCase (B : ForkableBackend W) (b : String) (command : Command) (timeout : Option ℚ) (s : Sys W) :
    Manager → Prop
  | refused : ExecCase B b command timeout s s.mgr
  | logged {r : Ref} (lookup : s.mgr.branches.get? b = some r) (active : (s.mgr.record r).active = true) :
      ExecCase B b command timeout s
        (s.mgr.logExecOn b r command (B.timedExec command timeout b s.world).2.1
          (countedTime (B.timedExec command timeout b s.world).1 (B.timedExec command timeout b s.world).2.1))

theorem exec_cases (B : ForkableBackend W) (b : String) (command : Command) (timeout : Option ℚ) (s : Sys W) :
    B.ExecCase b command timeout s ((execBranch B.hooks.toHooks b command timeout).run s).2.mgr := by
  simp only [execBranch, getBranchState, run_bind, run_tryState, Manager.getBranchState, Option.getD_some]
  cases lookup : s.mgr.branches.get? b with
  | none => exact .refused
  | some r =>
    simp only [run_afterValue_ok, run_bind, run_announce, run_withLock, run_readState]
    cases hactive : (s.mgr.record r).active with
    | false => exact .refused
    | true =>
      have hlogged : ExecCase B b command timeout s _ := .logged lookup hactive
      simp only [timedExec] at hlogged
      simp only [if_true, run_bind, run_afterValue_ok, ForkHooks.toHooks, hooks, hooksWith, run_world, run_announce,
        run_attempt, run_tryWorld]
      rcases hhook : B.exec command timeout b (B.time s.world).2 with ⟨e | result, w⟩
      · rw [hhook] at hlogged
        simp only [logCommand, run_bind, run_withState, run_afterValue_ok, run_addEntry, run_pure]
        exact hlogged
      · rw [hhook] at hlogged
        simp only [logCommand, run_bind, run_withState, run_afterValue_ok, run_addEntry, run_pure]
        exact hlogged

theorem accounted_exec (hc : Consistent s.mgr) (h : s.mgr.Accounted) {command : Command} {timeout : Option ℚ}
    (hraises : B.RaisesAtOnce b command timeout s) :
    ((execBranch B.hooks.toHooks b command timeout).run s).2.mgr.Accounted := by
  have hcase := exec_cases B b command timeout s
  generalize ((execBranch B.hooks.toHooks b command timeout).run s).2.mgr = m' at hcase ⊢
  cases hcase with
  | refused => exact h
  | logged lookup active =>
    have hcounted : countedTime (B.timedExec command timeout b s.world).1 (B.timedExec command timeout b s.world).2.1 =
        (B.timedExec command timeout b s.world).2.1 := by
      cases hresult : (B.timedExec command timeout b s.world).1 with
      | ok result => rfl
      | error e => exact (hraises ⟨_, lookup, active⟩ e hresult).symm
    rw [hcounted]
    exact Manager.accounted_logExecOn hc.regular h lookup command _

theorem keeps_copy (b hostPath envPath : String) (into : Bool) :
    KeepsManager Manager.Accounted (copyBranch B.hooks.toHooks b hostPath envPath into) := by
  refine keeps_copyBranch (leaves_tryWorld _ fun _ => []).keeps (leaves_world _).keeps fun s target elapsed h => ?_
  intro b'
  exact (h b').congr rfl (fun _ _ => rfl) (spent_addEntry_other (.inr (by decide)))

theorem accounted_afterListing (hc : Consistent s.mgr) (h : s.mgr.Accounted)
    (hharmless : ∀ listing, (B.list s.world).1 = .ok (some listing) → ∀ b, s.mgr.Harmless listing b) :
    (B.afterListing s).mgr.Accounted := by
  unfold afterListing
  split
  · next listing w hlist =>
    intro b'
    exact Manager.accountedAt_relist hc.regular (h b') (hharmless listing (congrArg Prod.fst hlist) b')
  · exact h

/-- The exits of the snapshot hook. -/
inductive CaptureCase (B : ForkableBackend W) (b : String) (s : Sys W) :
    Except PyError (Option String × ℚ) × Sys W → Prop
  | kept {r : Except PyError (Option String × ℚ)} {w : W} : CaptureCase B b s (r, { s with world := w })
  | registered {r : Except PyError (Option String × ℚ)} {id resource : String} {w : W} :
      CaptureCase B b s (r, ⟨s.mgr.registerSnapshotResource id resource, w⟩)
  | refreshed {id resource : String} {elapsed : ℚ} {w w' : W} {listing : List EnvironmentBranch}
      (refreshes : B.refreshes = true) (hook : B.snapshot b s.world = (.ok (some (id, resource), elapsed), w))
      (hlist : B.list w = (.ok (some listing), w')) :
      CaptureCase B b s (.ok (some id, elapsed), ⟨(s.mgr.registerSnapshotResource id resource).relist listing, w'⟩)

theorem capture_cases (B : ForkableBackend W) (b : String) (s : Sys W) :
    B.CaptureCase b s ((B.hooks.coreSnapshot b).run s) := by
  simp only [hooks, hooksWith, run_bind, run_tryWorld]
  rcases hhook : B.snapshot b s.world with ⟨e | ⟨_ | ⟨id, resource⟩, elapsed⟩, w⟩
  · exact .kept
  · exact .kept
  · simp only [run_afterValue_ok, register, registerSnapshotResource, run_bind, run_updateState, run_pure,
      Option.isSome_some, if_true]
    set s₁ : Sys W := ⟨s.mgr.registerSnapshotResource id resource, w⟩ with hs₁
    unfold refresh
    split_ifs with hrefreshes
    · obtain ⟨hstate, herror⟩ := B.run_listBranches (pure ()) s₁
      rcases hrun : (listBranches (B.hooksWith (pure ()))).run s₁ with ⟨e | l, s₂⟩
      · rw [hrun] at hstate herror
        have hlist : B.list w = (.error e, (B.list w).2) := Prod.ext (herror e rfl) rfl
        have hs₂ : s₂ = { s₁ with world := (B.list w).2 } := by
          rw [show s₂ = B.afterListing s₁ from hstate, afterListing]
          rw [show B.list s₁.world = _ from hlist]
        rw [run_bind, hrun, hs₂]
        exact .registered
      · rw [hrun] at hstate
        obtain rfl : s₂ = B.afterListing s₁ := hstate
        rw [run_bind, hrun]
        unfold afterListing
        split
        · next listing w' hlist => exact .refreshed hrefreshes hhook hlist
        · exact .registered
    · exact .registered

theorem accounted_snapshot (hc : Consistent s.mgr) (h : s.mgr.Accounted) (hharmless : B.RefreshHarmless b s) :
    ((EnvironmentManager.snapshotBranch B.hooks.toHooks b true).run s).2.mgr.Accounted := by
  have hcase := snapshot_cases B.hooks b s
  have hcapture := capture_cases B b s
  generalize (EnvironmentManager.snapshotBranch B.hooks.toHooks b true).run s = x at hcase ⊢
  cases hcase with
  | unregistered => exact h
  | retired => exact h
  | raised hook =>
    rw [hook] at hcapture
    cases hcapture with
    | kept => exact h
    | registered => exact h
  | failed hook =>
    rw [hook] at hcapture
    cases hcapture with
    | kept => exact h
    | registered => exact h
  | @committed r id elapsed s' lookup hactive hook =>
    rw [hook] at hcapture
    have hcaptured : Manager.KeptFor b r s'.mgr ∧ ∀ b' ≠ b, s'.mgr.AccountedAt b' := by
      have hkept := Manager.keptFor_of_get? hc.regular lookup
      cases hcapture with
      | kept => exact ⟨hkept, fun b' _ => h b'⟩
      | registered => exact ⟨⟨hkept.own, hkept.apart⟩, fun b' _ => (h b').congr rfl (fun _ _ => rfl) rfl⟩
      | @refreshed _ resource _ w w' listing refreshes hsnapshot hlist =>
        have hregistered : Regular (s.mgr.registerSnapshotResource id resource) := hc.regular.congr rfl rfl rfl
        refine ⟨Manager.keptFor_relist hregistered lookup listing, fun b' hb' => ?_⟩
        have hsafe := hharmless refreshes ⟨r, lookup, hactive⟩ _ _ _ hsnapshot listing (congrArg Prod.fst hlist) b' hb'
        exact Manager.accountedAt_relist hregistered ((h b').congr rfl (fun _ _ => rfl) rfl) hsafe
    exact Manager.accounted_commit hcaptured.1 hcaptured.2 id elapsed _

theorem accounted_fork (hc : Consistent s.mgr) (h : s.mgr.Accounted) {snapshotId : String} {n : Int}
    {ids : Option (List String)} (hidle : B.CountsTime (.fork snapshotId n ids) s) :
    ((ForkableEnvironmentManager.fork B.hooks snapshotId n ids).run s).2.mgr.Accounted := by
  rw [B.run_fork]
  split
  · exact h
  · next requests hrequests =>
    unfold materialized
    split
    · exact h
    · next outcomes w hfork =>
      intro b'
      exact Manager.accountedAt_registerOutcomes hc.regular (h b') true
        (hidle requests hrequests outcomes (congrArg Prod.fst hfork))

theorem accounted_discard (hc : Consistent s.mgr) (h : s.mgr.Accounted) :
    ((discardBranchBody B.hooks b).run s).2.mgr.Accounted := by
  have hcase := B.discard_cases b s
  generalize (discardBranchBody B.hooks b).run s = x at hcase ⊢
  cases hcase with
  | refused => exact h
  | raised => exact h
  | failed => exact h
  | discarded => exact fun b' => Manager.accountedAt_forget hc.regular (h b') b

theorem accounted_park (hc : Consistent s.mgr) (h : s.mgr.Accounted) :
    ((parkBranchBody B.hooks b).run s).2.mgr.Accounted := by
  have hcase := B.park_cases b hc.main
  generalize (parkBranchBody B.hooks b).run s = x at hcase ⊢
  cases hcase with
  | refused => exact h
  | raised => exact h
  | failed => exact h
  | @parked r id resource elapsed w notMain =>
    have hregistered : Regular (s.mgr.registerSnapshotResource id resource) := hc.regular.congr rfl rfl rfl
    unfold Manager.retireParked
    dsimp only
    set m₁ := ((s.mgr.registerSnapshotResource id resource).recordSnapshotNode
      { snapshotId := id, parentId := (s.mgr.record r).lastSnapshotId }).addEntry "park" id elapsed b
    have hregular : Regular m₁ := (hregistered.recordSnapshotNode rfl).congr rfl rfl rfl
    have hmain : defaultBranchId ∈ m₁.branches.keys := hc.main
    intro b'
    have hlogged : m₁.AccountedAt b' := (h b').congr rfl (fun _ _ => rfl) (spent_addEntry_other (.inr (by decide)))
    split_ifs
    · rw [Manager.setCurrentBranch_of_mem hmain]
      have hswitched : (m₁.switch defaultBranchId).AccountedAt b' := hlogged.congr rfl (fun _ _ => rfl) rfl
      have hregular' : Regular (m₁.switch defaultBranchId) := hregular.congr rfl rfl rfl
      exact Manager.accountedAt_forget hregular' hswitched b
    · exact Manager.accountedAt_forget hregular hlogged b

/-- One operation other than a restore. -/
theorem accounted_prog (hc : Consistent s.mgr) (h : s.mgr.Accounted) {op : PublicOp} (hop : op.restoring = false)
    (hcounts : B.CountsTime op s) : ((PublicOp.prog B.hooks op).run s).2.mgr.Accounted := by
  have hmap {α : Type} {p : M W α} (f : α → Outcome) (hp : (p.run s).2.mgr.Accounted) :
      ((f <$> p).run s).2.mgr.Accounted := by
    rw [run_map]
    exact hp
  have hcurrent {α : Type} {p : String → M W α} (hp : ((p s.mgr.currentBranchId).run s).2.mgr.Accounted) :
      ((withLock .currentBranch (getCurrentBranchId >>= p)).run s).2.mgr.Accounted := by
    simp only [run_withLock, getCurrentBranchId, run_bind, run_readState, run_afterValue_ok]
    exact hp
  have hnamed {α : Type} {b : String} {p : M W α} {a c : α} (hp : (p.run s).2.mgr.Accounted) :
      ((isLive b >>= fun live => if live then onKeyError p a else pure c : M W α).run s).2.mgr.Accounted := by
    rw [Apart.run_ifLive]
    split_ifs
    · rcases hrun : p.run s with ⟨e | x, s'⟩
      · rw [hrun] at hp
        unfold Apart.caught
        dsimp only
        split_ifs
        · exact hp
        · exact hp
      · rw [hrun] at hp
        exact hp
    · exact h
  have hreads {α : Type} {p : M W α} (f : α → Outcome) (hp : Reads p) : ((f <$> p).run s).2.mgr.Accounted := by
    refine hmap f ?_
    rw [hp s]
    exact h
  have hpark (b : String) : ((parkBranch B.hooks b).run s).2.mgr.Accounted := by
    rw [parkBranch, run_withLock]
    exact accounted_park hc h
  cases op with
  | snapshot => exact hmap _ (hcurrent (accounted_snapshot hc h hcounts))
  | restore id => exact absurd hop (by simp [PublicOp.restoring])
  | execCommand c t => exact hmap _ (hcurrent (accounted_exec hc h hcounts))
  | copyIn src path => exact hmap _ (hcurrent (keeps_copy _ src path true s h))
  | copyOut path dst => exact hmap _ (hcurrent (keeps_copy _ dst path false s h))
  | cleanup =>
    refine hmap _ ?_
    refine hoare_withLock (keeps_bind (leaves_tryWorld B.cleanup fun _ => []).keeps fun ok => ?_) s h
    exact keeps_bind (fun s' (hs' : s'.mgr.Accounted) => hs') fun _ => keeps_ret _
  | snapshotBranch b park =>
    cases park with
    | true => exact hmap _ (hpark b)
    | false => exact hmap _ (hnamed (accounted_snapshot hc h hcounts))
  | parkBranch b => exact hmap _ (hpark b)
  | execOnBranch b c t => exact hmap _ (hnamed (accounted_exec hc h hcounts))
  | copyInBranch b src path => exact hmap _ (hnamed (keeps_copy b src path true s h))
  | copyOutBranch b path dst => exact hmap _ (hnamed (keeps_copy b dst path false s h))
  | fork id n ids => exact hmap _ (accounted_fork hc h hcounts)
  | discardBranch b =>
    refine hmap _ ?_
    rw [discardBranch, run_withLock]
    exact accounted_discard hc h
  | listBranches =>
    refine hmap _ ?_
    rw [hooks, (B.run_listBranches _ s).1]
    exact accounted_afterListing hc h hcounts
  | listSnapshots => exact hreads _ (reads_readState _)
  | printSnapshotTree limit => exact hreads _ (reads_tryState _)
  | currentSnapshot =>
    have hread : KeepsManager Manager.Accounted (currentSnapshot : M W (Option String)) :=
      hoare_withLock (keeps_bind (reads_getBranchState none).keeps fun _ => (reads_peek _).keeps)
    exact hmap _ (hread s h)
  | currentBranchId => exact hreads _ reads_getCurrentBranchId
  | statsLog =>
    have hread : KeepsManager Manager.Accounted (statsLog : M W (List BenchmarkEntry)) :=
      hoare_withLock (reads_peek _).keeps
    exact hmap _ (hread s h)
  | liveBranches => exact hreads _ (reads_readState _)

end ForkableBackend

theorem Manager.accounted_seeded (root resource : String) : (Manager.seeded root resource).Accounted := by
  intro b r hr
  have hbranches : (Manager.seeded root resource).branches = Dict.empty.set defaultBranchId ⟨defaultBranchId, 0⟩ := rfl
  rw [hbranches, Dict.get?_set] at hr
  split_ifs at hr with hb
  · obtain rfl := Option.some.inj hr
    rfl
  · rw [Dict.get?_empty] at hr
    cases hr

/-- On a sequential manager the counter shows the time spent, in every state of a run without restore, exactly if
every raising command of the run takes no time; on a forkable one the counters do if also no listing moves a branch on
which time was spent, and no fork takes one over. -/
theorem execTime_accounted {V W : Type} (B : SequentialBackend V) (root resource : String) (v : V)
    (seqOps : List SeqOp) (hseqOps : ∀ id, .restore id ∉ seqOps) (F : ForkableBackend W) (s₀ : Sys W)
    (h₀ : Consistent s₀.mgr) (hstart : s₀.mgr.Accounted) (ops : List PublicOp)
    (hops : ∀ op ∈ ops, op.restoring = false) :
    (Throughout B MainAccounted seqOps (Sys.startedAt root resource v) ↔
        EachStep B (RaisesAtOnce B) seqOps (Sys.startedAt root resource v)) ∧
      (F.EachStep F.CountsTime ops s₀ → F.Throughout (fun s => s.mgr.Accounted) ops s₀) :=
  ⟨accounted_throughout_iff B root resource v hseqOps,
    ForkableBackend.throughout_of_eachStep h₀
      (fun op hop _ hc h hcounts => ForkableBackend.accounted_prog hc h (hops op hop) hcounts) hstart⟩

/-- A branch is forked and worked on. -/
def workedRun : List PublicOp :=
  [.execCommand (.line "make") none, .fork "base" 1 none, .execOnBranch "3f2a" (.line "make test") none,
    .snapshotBranch "3f2a" false]

def workedStart : Sys Fleet := Fleet.start ["3f2a", "9c41"] []

open ForkableEnvironmentManager in
theorem execTime_accounted_workedRun :
    Throughout Tape.backend MainAccounted [.exec (.line "make") none, .snapshot]
        (Sys.startedAt "base" "base" (Tape.start ["3f2a"] [false] [])) ∧
      (Fleet.backend false).Throughout (fun s => s.mgr.Accounted) workedRun workedStart := by
  have h := execTime_accounted Tape.backend "base" "base" (Tape.start ["3f2a"] [false] [])
    [.exec (.line "make") none, .snapshot] (by simp) (Fleet.backend false) workedStart (.seeded "base" "base")
    (Manager.accounted_seeded "base" "base") workedRun (by decide)
  refine ⟨h.1.mpr ⟨fun c timeout _ e he => ?_, fun c timeout he => ?_, trivial⟩, h.2 ⟨?_, ?_, ?_, ?_, trivial⟩⟩
  · cases he
  · cases he
  · intro _ e he
    cases he
  · intro requests hrequests outcomes houtcomes o ho r hr
    cases hrequests
    cases houtcomes
    have hnew : let s := ((PublicOp.prog (Fleet.backend false).hooks (.execCommand (.line "make") none)).run workedStart).2
        ∀ o ∈ (Fleet.fork "base" [none] s.world).1, s.mgr.branches.get? o.1.id = none := by decide +kernel
    cases (hnew o ho).symm.trans hr
  · intro _ e he
    cases he
  · intro hrefreshes
    cases hrefreshes

namespace Tape

/-- Every command runs into its timeout. -/
def hanging : SequentialBackend Tape :=
  { backend with exec := fun _ _ _ w => (.error ⟨.other, "timed out after 1 seconds"⟩, w) }

end Tape

/-- A command is cut off after a second. It is logged, and its second is in the benchmark but not in the counter. -/
theorem not_execTime_accounted_hanging :
    let start := Sys.startedAt "base" "base" (Tape.start [] [] [])
    let s := runOps Tape.hanging [.exec (.line "make") (some 1)] start
    ¬ Throughout Tape.hanging MainAccounted [.exec (.line "make") (some 1)] start ∧
      s.mgr.main.commandLog = [.line "make"] ∧ spent defaultBranchId s.mgr.stats.log = 1 ∧
      s.mgr.main.cumulativeExecTime = 0 := by
  intro start s
  have hspent : spent defaultBranchId s.mgr.stats.log = 1 := by decide +kernel
  have hcounter : s.mgr.main.cumulativeExecTime = 0 := by decide +kernel
  refine ⟨fun h => ?_, by decide +kernel, hspent, hcounter⟩
  have hshown : s.mgr.main.cumulativeExecTime = spent defaultBranchId s.mgr.stats.log := h _ [] rfl
  rw [hspent, hcounter] at hshown
  exact absurd hshown (by decide)

end StateFork
