import StateFork.Controller.Frame
import StateFork.Controller.Forkable

/-!
# What most operations cannot be seen to do

Only snapshots and parks touch the snapshot registries, and only snapshots and cleanups touch `is_cleaned_up`. So a
`Inert` view of the manager, one that shows nothing else, stays as it is through all other operations, if the hooks
leave it (`keepsView_prog`).
-/

namespace StateFork

open Conc Conc.Prog

variable {W α β : Type}

/-- The view shows no more than the snapshot registries and the flag. -/
def Inert (view : Manager → β) : Prop :=
  ∀ {m m' : Manager}, m'.snapshots = m.snapshots → m'.snapshotGraph = m.snapshotGraph →
    m'.isCleanedUp = m.isCleanedUp → view m' = view m

/-- The program cannot be seen to do anything. -/
def LeavesView (view : Manager → β) (p : M W α) : Prop := ∀ s, view (p.run s).2.mgr = view s.mgr

/-- The program keeps a property of what is seen. -/
abbrev KeepsView (view : Manager → β) (P : β → Prop) (p : M W α) : Prop := KeepsManager (fun m => P (view m)) p

section

variable {view : Manager → β} {P : β → Prop}

theorem LeavesView.keeps {p : M W α} (hp : LeavesView view p) : KeepsView view P p := by
  intro s hs
  show P (view (p.run s).2.mgr)
  rw [hp s]
  exact hs

theorem leavesView_of_keeps {p : M W α} (hp : ∀ P, KeepsView view P p) : LeavesView view p :=
  fun s => hp (· = view s.mgr) s rfl

theorem LeavesManager.leavesView {p : M W α} (hp : LeavesManager p) : LeavesView view p := fun s => by rw [hp s]

theorem keepsView_withState {f : Manager → α × Manager} (hf : ∀ m, view (f m).2 = view m) :
    KeepsView view P (withState f : M W α) := by
  intro s hs
  rw [run_withState]
  show P (view (f s.mgr).2)
  rw [hf]
  exact hs

theorem keepsView_tryState {f : Manager → Except PyError α × Manager} (hf : ∀ m, view (f m).2 = view m) :
    KeepsView view P (tryState f : M W α) := by
  intro s hs
  rw [run_tryState]
  show P (view (f s.mgr).2)
  rw [hf]
  exact hs

theorem keepsView_updateState {f : Manager → Manager} (hf : ∀ m, view (f m) = view m) :
    KeepsView view P (updateState f : M W Unit) :=
  keepsView_withState hf

theorem keepsView_updateStateEmit {events : List Event} {f : Manager → Manager} (hf : ∀ m, view (f m) = view m) :
    KeepsView view P (updateStateEmit events f : M W Unit) := by
  intro s hs
  rw [run_updateStateEmit]
  show P (view (f s.mgr))
  rw [hf]
  exact hs

end

/-- The hooks that most templates call leave the view. -/
structure Hooks.Leave (H : Hooks W) (view : Manager → β) : Prop where
  restore : ∀ id b, LeavesView view (H.coreRestore id b)
  exec : ∀ c timeout b, LeavesView view (H.coreExec c timeout b)
  copy : ∀ b hostPath envPath into, LeavesView view (H.coreCopy b hostPath envPath into)
  time : LeavesView view H.time

/-- The hooks that most templates call leave the view. -/
structure ForkHooks.Leave (F : ForkHooks W) (view : Manager → β) : Prop where
  exec : ∀ c timeout b, LeavesView view (F.coreExec c timeout b)
  copy : ∀ b hostPath envPath into, LeavesView view (F.coreCopy b hostPath envPath into)
  fork : ∀ id requestedIds, LeavesView view (F.coreFork id requestedIds)
  discard : ∀ b, LeavesView view (F.coreDiscardBranch b)
  list : LeavesView view F.coreListBranches
  time : LeavesView view F.time

namespace EnvironmentManager

variable {view : Manager → β} (hview : Inert view) {P : β → Prop} {H : Hooks W}

include hview

theorem keepsView_addEntry {operation target b : String} {elapsed : ℚ} :
    KeepsView view P (addEntry operation target elapsed b : M W Unit) := by
  refine keeps_addEntry fun s (hs : P (view s.mgr)) => ?_
  have hsame : view (s.mgr.addEntry operation target elapsed b) = view s.mgr := hview rfl rfl rfl
  show P (view (s.mgr.addEntry operation target elapsed b))
  rw [hsame]
  exact hs

theorem view_registerBranch (m : Manager) (b : String) (base : Option String) :
    view (m.registerBranch b base).2 = view m := by
  unfold Manager.registerBranch
  split
  · rfl
  · exact hview rfl rfl rfl

theorem keepsView_registerBranch {b : String} {base : Option String} :
    KeepsView view P (registerBranch b base : M W Ref) :=
  keepsView_withState fun m => view_registerBranch hview m b base

theorem keepsView_removeBranch (b : String) : KeepsView view P (removeBranch b : M W Unit) := by
  refine keepsView_updateState fun m => ?_
  unfold Manager.removeBranch
  split
  · exact hview rfl rfl rfl
  · rfl

theorem keepsView_setCurrentBranch (b : String) : KeepsView view P (setCurrentBranch b : M W Unit) := by
  refine hoare_withLock (keepsView_tryState fun m => ?_)
  unfold Manager.setCurrentBranch
  split
  · exact hview rfl rfl rfl
  · rfl

theorem keepsView_setBranchPosition {b : String} {id : Option String} :
    KeepsView view P (setBranchPosition b id : M W Unit) :=
  keeps_bind (keepsView_registerBranch hview) fun _ => keepsView_updateStateEmit fun _ => hview rfl rfl rfl

theorem keepsView_execBranch (hH : H.Leave view) (b : String) (c : Command) (timeout : Option ℚ) :
    KeepsView view P (execBranch H b c timeout) := by
  have hentry (s : Sys W) (operation target : String) (elapsed : ℚ) (b : String) (hs : P (view s.mgr)) :
      P (view (s.mgr.addEntry operation target elapsed b)) := by
    have hsame : view (s.mgr.addEntry operation target elapsed b) = view s.mgr := hview rfl rfl rfl
    rw [hsame]
    exact hs
  refine keeps_execBranch (hH.exec c timeout b).keeps hH.time.keeps hentry fun s r counted (hs : P (view s.mgr)) => ?_
  have hlogged : view (s.mgr.modifyRecord r fun x =>
      { x with
        cumulativeExecTime := x.cumulativeExecTime + counted
        commandLog := x.commandLog ++ [c] }) = view s.mgr := hview rfl rfl rfl
  show P (view _)
  rw [hlogged]
  exact hs

theorem keepsView_copyBranch (hH : H.Leave view) (b hostPath envPath : String) (into : Bool) :
    KeepsView view P (copyBranch H b hostPath envPath into) := by
  refine keeps_copyBranch (hH.copy b hostPath envPath into).keeps hH.time.keeps fun s target elapsed (hs : P (view s.mgr)) => ?_
  have hsame : view (s.mgr.addEntry "copy" target elapsed b) = view s.mgr := hview rfl rfl rfl
  show P (view (s.mgr.addEntry "copy" target elapsed b))
  rw [hsame]
  exact hs

omit hview in
theorem keepsView_current {p : String → M W α} (hp : ∀ b, KeepsView view P (p b)) :
    KeepsView view P (withLock .currentBranch (getCurrentBranchId >>= p)) :=
  hoare_withLock (keeps_bind reads_getCurrentBranchId.keeps hp)

theorem keepsView_execCommand (hH : H.Leave view) (c : Command) (timeout : Option ℚ) :
    KeepsView view P (execCommand H c timeout) :=
  keepsView_current fun b => keepsView_execBranch hview hH b c timeout

theorem keepsView_restore (hH : H.Leave view) (id : String) : KeepsView view P (restore H id) := by
  refine hoare_withLock (keeps_bind (reads_getBranchState none).keeps fun departing => hoare_withLock ?_)
  refine keeps_bind (reads_readState _).keeps fun walk => ?_
  rcases walk with _ | ⟨ancestor, commands⟩
  · exact keeps_ret _
  · refine keeps_bind (hH.restore _ _).keeps fun answer => ?_
    obtain ⟨success, elapsed⟩ := answer
    cases success with
    | false => exact keeps_ret _
    | true =>
      refine keeps_bind reads_getCurrentBranchId.keeps fun b => keeps_bind (keepsView_addEntry hview) fun _ => ?_
      have hreplay : KeepsView view P (replay H commands) :=
        keeps_each (fun c => keeps_bind (keepsView_execCommand hview hH c none) fun _ => keeps_ret _) commands
      exact keeps_bind hreplay fun _ => keeps_bind (keepsView_setBranchPosition hview) fun _ => keeps_ret _

end EnvironmentManager

namespace ForkableEnvironmentManager

open EnvironmentManager

variable {view : Manager → β} (hview : Inert view) {P : β → Prop} {F : ForkHooks W}

theorem keepsView_named {b : String} {p : M W α} {a c : α} (hp : KeepsView view P p) :
    KeepsView view P (isLive b >>= fun live => if live then onKeyError p a else pure c : M W α) := by
  refine keeps_bind (reads_readState _).keeps fun live => ?_
  split
  · refine keeps_tryCatch hp fun e => ?_
    split
    · exact keeps_ret _
    · exact hoare_throw fun _ hs => hs
  · exact keeps_ret _

include hview

theorem keepsView_newLiveObject (branch : EnvironmentBranch) :
    KeepsView view P (access fun s => ((s.mgr.newLiveObject branch).1, { s with mgr := (s.mgr.newLiveObject branch).2 }) :
      M W Ref) := by
  intro s (hs : P (view s.mgr))
  have hsame : view (s.mgr.newLiveObject branch).2 = view s.mgr := hview rfl rfl rfl
  show P (view (s.mgr.newLiveObject branch).2)
  rw [hsame]
  exact hs

theorem keepsView_listBranches (hF : F.Leave view) : KeepsView view P (listBranches F) := by
  have hreconcile (r : Ref) : KeepsView view P (reconcile r : M W Unit) := by
    refine keeps_bind (reads_peek _).keeps fun base => keeps_bind (keepsView_registerBranch hview) fun state => ?_
    refine keeps_bind (reads_peek _).keeps fun base => ?_
    split
    · exact keeps_ret _
    · refine keeps_bind (reads_peek _).keeps fun current => keeps_bind (reads_peek _).keeps fun base => ?_
      split
      · exact keeps_ret _
      · exact keeps_bind (reads_peek _).keeps fun base => keepsView_setBranchPosition hview
  have hdrop (b : String) : KeepsView view P (dropStale b : M W Unit) := by
    refine keeps_bind reads_getCurrentBranchId.keeps fun current => ?_
    split
    · exact keeps_ret _
    · exact keepsView_removeBranch hview b
  refine hoare_withLock (keeps_bind hF.list.keeps fun listing => ?_)
  cases listing with
  | none => exact (reads_readState _).keeps
  | some listing =>
    refine keeps_bind (keeps_collect (keepsView_newLiveObject hview) listing) fun refreshed => ?_
    refine keeps_bind (keepsView_withState fun _ => hview rfl rfl rfl) fun previousIds => ?_
    refine keeps_bind (keeps_each hreconcile refreshed) fun _ => ?_
    exact keeps_bind (keeps_each hdrop _) fun _ => (reads_peek _).keeps

theorem keepsView_materializeBranches (hF : F.Leave view) {id : String} {requestedIds : List (Option String)}
    {activate : Bool} : KeepsView view P (materializeBranches F id requestedIds activate) := by
  have hregister (outcome : EnvironmentBranch × ℚ) : KeepsView view P (registerOutcome activate outcome : M W Unit) := by
    refine keeps_bind (keepsView_newLiveObject hview outcome.1) fun branch => keeps_bind (reads_peek _).keeps fun base => ?_
    refine keeps_bind (keepsView_registerBranch hview) fun state => ?_
    exact keeps_bind (keepsView_updateState fun _ => hview rfl rfl rfl) fun _ => keepsView_addEntry hview
  refine hoare_withLock (keeps_bind (hF.fork id requestedIds).keeps fun outcomes => ?_)
  exact keeps_bind (keeps_each hregister outcomes) fun _ => keeps_ret _

theorem keepsView_fork (hF : F.Leave view) (id : String) (n : Int) (ids : Option (List String)) :
    KeepsView view P (fork F id n ids) := by
  refine hoare_withLock (keeps_bind (reads_readState _).keeps fun ok => ?_)
  split
  · exact keeps_ret _
  · cases ids with
    | none =>
      dsimp only
      split
      · exact keeps_ret _
      · exact keepsView_materializeBranches hview hF
    | some ids =>
      dsimp only
      split
      · exact keeps_ret _
      · refine keeps_bind (reads_readState _).keeps fun conflicts => ?_
        split
        · exact keeps_ret _
        · split
          · exact keeps_ret _
          · exact keepsView_materializeBranches hview hF

theorem keepsView_discardBranchBody (hF : F.Leave view) (b : String) : KeepsView view P (discardBranchBody F b) := by
  unfold discardBranchBody
  split
  · exact keeps_ret _
  · refine keeps_bind reads_getCurrentBranchId.keeps fun current => ?_
    split
    · exact keeps_ret _
    · refine keeps_bind (reads_readState _).keeps fun state => ?_
      cases state with
      | none => exact keeps_ret _
      | some state =>
        refine keeps_bind (reads_announce _).keeps fun _ => hoare_withLock (hoare_withLock ?_)
        refine keeps_bind (reads_readState _).keeps fun still => ?_
        split
        · refine keeps_bind (reads_announce _).keeps fun _ => keeps_bind (hF.discard b).keeps fun done => ?_
          split
          · refine keeps_bind (keepsView_updateState fun _ => hview rfl rfl rfl) fun _ => ?_
            exact keeps_bind (keepsView_removeBranch hview b) fun _ => keeps_ret _
          · exact keeps_ret _
        · exact keeps_ret _

theorem keepsView_coreRestore (hF : F.Leave view) (id b : String) : KeepsView view P (F.coreRestore id b) := by
  refine keeps_bind hF.time.keeps fun start => keeps_bind (keepsView_materializeBranches hview hF) fun branches => ?_
  cases branches with
  | nil => exact keeps_ret _
  | cons restored rest =>
    refine keeps_bind (keepsView_setCurrentBranch hview _) fun _ => ?_
    dsimp only
    split
    · exact keeps_bind (keepsView_discardBranchBody hview hF b) fun _ => keeps_bind hF.time.keeps fun _ => keeps_ret _
    · exact keeps_bind hF.time.keeps fun _ => keeps_ret _

theorem leave_toHooks (hF : F.Leave view) : F.toHooks.Leave view where
  restore id b := leavesView_of_keeps fun _ => keepsView_coreRestore hview hF id b
  exec := hF.exec
  copy := hF.copy
  time := hF.time

/-- The operation records no snapshot, and tears nothing down. -/
def PublicOp.plain : PublicOp → Bool
  | .snapshot | .snapshotBranch .. | .parkBranch _ | .cleanup => false
  | _ => true

/-- A plain operation. -/
theorem keepsView_prog (hF : F.Leave view) {op : PublicOp} (hop : PublicOp.plain op = true) :
    KeepsView view P (PublicOp.prog F op) := by
  have hH := leave_toHooks hview hF
  cases op with
  | snapshot => exact absurd hop (by decide)
  | snapshotBranch b park => exact absurd hop (by simp [PublicOp.plain])
  | parkBranch b => exact absurd hop (by simp [PublicOp.plain])
  | cleanup => exact absurd hop (by decide)
  | restore id => exact keeps_map _ (keepsView_restore hview hH id)
  | execCommand c t => exact keeps_map _ (keepsView_execCommand hview hH c t)
  | copyIn src path => exact keeps_map _ (keepsView_current fun b => keepsView_copyBranch hview hH b src path true)
  | copyOut path dst => exact keeps_map _ (keepsView_current fun b => keepsView_copyBranch hview hH b dst path false)
  | listSnapshots => exact keeps_map _ (reads_readState _).keeps
  | printSnapshotTree limit => exact keeps_map _ (reads_tryState _).keeps
  | currentSnapshot =>
    exact keeps_map _ (hoare_withLock (keeps_bind (reads_getBranchState none).keeps fun _ => (reads_peek _).keeps))
  | currentBranchId => exact keeps_map _ reads_getCurrentBranchId.keeps
  | statsLog => exact keeps_map _ (hoare_withLock (reads_peek _).keeps)
  | execOnBranch b c t => exact keeps_map _ (keepsView_named (keepsView_execBranch hview hH b c t))
  | copyInBranch b src path => exact keeps_map _ (keepsView_named (keepsView_copyBranch hview hH b src path true))
  | copyOutBranch b path dst => exact keeps_map _ (keepsView_named (keepsView_copyBranch hview hH b dst path false))
  | fork id n ids => exact keeps_map _ (keepsView_fork hview hF id n ids)
  | discardBranch b => exact keeps_map _ (hoare_withLock (keepsView_discardBranchBody hview hF b))
  | listBranches => exact keeps_map _ (keepsView_listBranches hview hF)
  | liveBranches => exact keeps_map _ (reads_readState _).keeps

end ForkableEnvironmentManager

end StateFork
