import StateFork.Controller.Views
import StateFork.Forkable.Backend

/-!
# What the hooks of a backend cannot be seen to do

The hooks of a `ForkableBackend` touch the controller where they register a resource, and where the snapshot hook lists
the branches afterwards. All others leave every view.
-/

namespace StateFork.ForkableBackend

open Conc Conc.Prog ForkableEnvironmentManager

variable {W β : Type} {view : Manager → β} {P : β → Prop} (B : ForkableBackend W)

/-- Whatever the snapshot hook does after its capture. -/
theorem hooksWith_leave (refresh : M W Unit) : (B.hooksWith refresh).Leave view where
  exec _ _ _ := (leaves_tryWorld _ fun _ => []).leavesView
  copy _ _ _ _ := (leaves_tryWorld _ fun _ => []).leavesView
  fork _ _ := (leaves_tryWorld _ forkedEvents).leavesView
  discard branchId := (leaves_tryWorld _ (discardedEvents branchId)).leavesView
  list := (leaves_tryWorld _ fun _ => []).leavesView
  time := (leaves_world _).leavesView

theorem hooks_leave : B.hooks.Leave view := B.hooksWith_leave B.refresh

theorem keepsView_register (hview : ∀ m id resource, view (Manager.registerSnapshotResource m id resource) = view m)
    (captured : Option (String × String) × ℚ) : KeepsView view P (register captured : M W (Option String × ℚ)) := by
  obtain ⟨_ | ⟨id, resource⟩, elapsed⟩ := captured
  · exact keeps_ret _
  · exact keeps_bind (keepsView_updateState fun m => hview m id resource) fun _ => keeps_ret _

theorem keepsView_refresh (hview : Inert view) : KeepsView view P B.refresh := by
  unfold refresh
  split
  · exact keeps_bind (keepsView_listBranches hview (B.hooksWith_leave (pure ()))) fun _ => keeps_ret _
  · exact keeps_ret _

end StateFork.ForkableBackend
