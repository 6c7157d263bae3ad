import StateFork.Controller.Views

/-!
# The flag of the destructor

`__del__` cleans up unless `is_cleaned_up` is set. `cleanup` sets the flag whatever its hook answered, and of the other
templates only the snapshot touches it: it clears it. A restore and a fork start environments and leave it as it is.
-/

namespace StateFork

open Conc Conc.Prog

variable {W α : Type}

/-- The program does not touch the flag. -/
abbrev LeavesFlag (p : M W α) : Prop := LeavesView Manager.isCleanedUp p

/-- The program keeps a property of the flag. -/
abbrev KeepsFlag (P : Bool → Prop) (p : M W α) : Prop := KeepsView Manager.isCleanedUp P p

theorem inert_isCleanedUp : Inert Manager.isCleanedUp := fun _ _ hflag => hflag

/-- No hook assigns `is_cleaned_up`. -/
structure Hooks.LeaveFlag (H : Hooks W) : Prop extends H.Leave Manager.isCleanedUp where
  snapshot : ∀ b, LeavesFlag (H.coreSnapshot b)
  cleanup : LeavesFlag H.coreCleanup
  afterSnapshot : ∀ b id, LeavesFlag (H.afterSnapshot b id)
  decide : ∀ context, LeavesFlag (H.decide context)
  uuid4Hex : LeavesFlag H.uuid4Hex

/-- No hook assigns `is_cleaned_up`. -/
structure ForkHooks.LeaveFlag (F : ForkHooks W) : Prop extends F.Leave Manager.isCleanedUp where
  snapshot : ∀ b, LeavesFlag (F.coreSnapshot b)
  cleanup : LeavesFlag F.coreCleanup
  park : ∀ b, LeavesFlag (F.coreParkBranch b)
  uuid4Hex : LeavesFlag F.uuid4Hex

namespace EnvironmentManager

variable {P : Bool → Prop} {H : Hooks W}

theorem keepsFlag_commitSnapshot (hH : H.LeaveFlag) (hclear : P false) (b : String) (state : Ref) (takePhysical : Bool)
    (node : SnapshotNode) : KeepsFlag P (commitSnapshot H b state takePhysical node) := by
  refine keeps_bind (keepsView_updateState fun _ => rfl) fun _ => ?_
  refine keeps_bind (keepsView_updateStateEmit fun _ => rfl) fun _ => ?_
  refine keeps_bind (hH.afterSnapshot b node.snapshotId).keeps fun _ => ?_
  exact keeps_bind (fun _ _ => hclear) fun _ => keeps_ret _

/-- The template from the point where it knows whether the snapshot is physical. -/
theorem keepsFlag_capture (hH : H.LeaveFlag) (hclear : P false) (b : String) (state : Ref) (parentId : Option String)
    (commands : List Command) (takePhysical : Bool) :
    KeepsFlag P (do
      let node ←
        if takePhysical then capturePhysical H b state parentId
        else captureVirtual H parentId commands
      match node with
      | none => return none
      | some node => commitSnapshot H b state takePhysical node : M W (Option String)) := by
  have hrest (node : Option SnapshotNode) :
      KeepsFlag P (match node with
        | none => pure none
        | some node => commitSnapshot H b state takePhysical node : M W (Option String)) := by
    cases node with
    | none => exact keeps_ret _
    | some node => exact keepsFlag_commitSnapshot hH hclear b state takePhysical node
  dsimp only
  split
  · refine keeps_bind (keeps_bind (reads_announce _).keeps fun _ => keeps_bind (hH.snapshot b).keeps fun answer => ?_) hrest
    obtain ⟨_ | id, elapsed⟩ := answer
    · exact keeps_ret _
    · exact keeps_bind (keepsView_addEntry inert_isCleanedUp) fun _ => keeps_ret _
  · exact keeps_bind (keeps_bind hH.uuid4Hex.keeps fun _ => keeps_ret _) hrest

/-- A snapshot clears the flag or leaves it. -/
theorem keepsFlag_snapshotBranch (hH : H.LeaveFlag) (hclear : P false) (b : String) (forcePhysical : Bool) :
    KeepsFlag P (snapshotBranch H b forcePhysical) := by
  refine keeps_bind (reads_getBranchState _).keeps fun state => ?_
  refine keeps_bind (reads_announce _).keeps fun _ => hoare_withLock ?_
  refine keeps_bind (reads_readState _).keeps fun seen => ?_
  rcases seen with _ | ⟨parentId, cumulativeExecTime, commands⟩
  · exact keeps_ret _
  · dsimp only
    split
    · exact keeps_bind (keeps_ret _) fun takePhysical =>
        keepsFlag_capture hH hclear b state parentId commands takePhysical
    · exact keeps_bind (hH.decide _).keeps fun takePhysical =>
        keepsFlag_capture hH hclear b state parentId commands takePhysical

theorem keepsFlag_snapshot (hH : H.LeaveFlag) (hclear : P false) : KeepsFlag P (snapshot H) :=
  keepsView_current fun b => keepsFlag_snapshotBranch hH hclear b false

end EnvironmentManager

namespace ForkableEnvironmentManager

open EnvironmentManager

variable {P : Bool → Prop} {F : ForkHooks W}

theorem keepsFlag_parkBranch (hF : F.LeaveFlag) (b : String) : KeepsFlag P (parkBranch F b) := by
  have hretire (id : String) (parentId : Option String) (elapsed : ℚ) :
      KeepsFlag P (retireParked b id parentId elapsed : M W Unit) := by
    refine keeps_bind (keepsView_updateState fun _ => rfl) fun _ => ?_
    refine keeps_bind (keepsView_addEntry inert_isCleanedUp) fun _ => ?_
    refine keeps_bind reads_getCurrentBranchId.keeps fun current => ?_
    have hforget : KeepsFlag P (updateState (fun m => { m with liveBranches := m.liveBranches.erase b }) >>=
        fun _ => removeBranch b : M W Unit) :=
      keeps_bind (keepsView_updateState fun _ => rfl) fun _ => keepsView_removeBranch inert_isCleanedUp b
    split
    · exact keeps_bind (keepsView_setCurrentBranch inert_isCleanedUp _) fun _ => hforget
    · exact hforget
  have hbody : KeepsFlag P (parkBranchBody F b) := by
    unfold parkBranchBody
    split
    · exact keeps_ret _
    · refine keeps_bind (reads_readState _).keeps fun state => ?_
      cases state with
      | none => exact keeps_ret _
      | some state =>
        refine keeps_bind (reads_announce _).keeps fun _ => hoare_withLock (hoare_withLock ?_)
        refine keeps_bind (reads_readState _).keeps fun parent => ?_
        cases parent with
        | none => exact keeps_ret _
        | some parentId =>
          refine keeps_bind (reads_announce _).keeps fun _ => keeps_bind (hF.park b).keeps fun answer => ?_
          obtain ⟨_ | id, elapsed⟩ := answer
          · exact keeps_ret _
          · exact keeps_bind (hretire id parentId elapsed) fun _ => keeps_ret _
  exact hoare_withLock hbody

theorem leaveFlag_toHooks (hF : F.LeaveFlag) : F.toHooks.LeaveFlag where
  toLeave := leave_toHooks inert_isCleanedUp hF.toLeave
  snapshot := hF.snapshot
  cleanup := hF.cleanup
  afterSnapshot b id := by
    have hadvance (m : Manager) : (m.advanceLiveBase b id).isCleanedUp = m.isCleanedUp := by
      unfold Manager.advanceLiveBase
      split <;> rfl
    have hkeeps (P : Bool → Prop) : KeepsFlag P (updateState (·.advanceLiveBase b id) : M W Unit) :=
      keepsView_updateState hadvance
    exact leavesView_of_keeps hkeeps
  decide _ := LeavesManager.leavesView fun _ => rfl
  uuid4Hex := hF.uuid4Hex

end ForkableEnvironmentManager

end StateFork
