import StateFork.Forkable.History
import StateFork.Lib.Moves

/-!
# What no schedule takes away

Whatever the threads of a forkable manager do to each other, no step rewrites the log or forgets a snapshot, and the
default branch keeps its record (`Manager.Retains`). Every access of the controller is a step of this kind from any
state, so that nothing has to be known of the locks.
-/

namespace StateFork

open Conc Conc.Prog

/-- The log and the registries of the snapshots only grow, and the default branch keeps its record. -/
structure Manager.Retains (m m' : Manager) : Prop where
  log : m.stats.log <+: m'.stats.log
  numbered : m.stats.Numbered → m'.stats.Numbered
  graph : m.snapshotGraph.keys <+: m'.snapshotGraph.keys
  resources : m.snapshots.keys <+: m'.snapshots.keys
  main : ∀ r, m.branches.get? defaultBranchId = some r → m'.branches.get? defaultBranchId = some r
  /-- The address of a record is not used for another one. -/
  records : m.records.next ≤ m'.records.next

theorem Dict.keys_prefix_set {κ ν : Type} [DecidableEq κ] (d : Dict κ ν) (k : κ) (v : ν) :
    d.keys <+: (d.set k v).keys := by
  rw [Dict.keys_set]
  split_ifs
  · exact List.prefix_rfl
  · exact List.prefix_append ..

namespace Manager.Retains

variable {m m' m'' : Manager}

theorem refl (m : Manager) : Retains m m :=
  ⟨List.prefix_rfl, id, List.prefix_rfl, List.prefix_rfl, fun _ h => h, le_rfl⟩

theorem trans (h : Retains m m') (h' : Retains m' m'') : Retains m m'' where
  log := h.log.trans h'.log
  numbered := h'.numbered ∘ h.numbered
  graph := h.graph.trans h'.graph
  resources := h.resources.trans h'.resources
  main r hr := h'.main r (h.main r hr)
  records := h.records.trans h'.records

/-- A step on other fields. -/
theorem of_eq (hstats : m'.stats = m.stats) (hgraph : m'.snapshotGraph = m.snapshotGraph)
    (hsnapshots : m'.snapshots = m.snapshots) (hbranches : m'.branches = m.branches)
    (hrecords : m'.records.next = m.records.next) : Retains m m' where
  log := hstats ▸ List.prefix_rfl
  numbered h := hstats ▸ h
  graph := hgraph ▸ List.prefix_rfl
  resources := hsnapshots ▸ List.prefix_rfl
  main _ hr := hbranches ▸ hr
  records := hrecords.ge

theorem addEntry (m : Manager) (operation target : String) (elapsed : ℚ) (b : String) :
    Retains m (m.addEntry operation target elapsed b) :=
  { refl m with
    log := List.prefix_append ..
    numbered := fun h => h.addEntry ..
    graph := List.prefix_rfl
    resources := List.prefix_rfl
    main := fun _ h => h
    records := le_rfl }

theorem registerBranch (m : Manager) (b : String) (base : Option String) : Retains m (m.registerBranch b base).2 := by
  unfold Manager.registerBranch
  cases hb : m.branches.get? b with
  | some r => exact refl m
  | none =>
    refine ⟨List.prefix_rfl, id, List.prefix_rfl, List.prefix_rfl, fun r hr => ?_, Nat.le_succ _⟩
    have hne : defaultBranchId ≠ b := by
      rintro rfl
      cases hb.symm.trans hr
    exact (Dict.get?_set_of_ne _ _ hne).trans hr

theorem removeBranch (m : Manager) {b : String} (hb : b ≠ defaultBranchId) : Retains m (m.removeBranch b) := by
  unfold Manager.removeBranch
  split
  · refine ⟨List.prefix_rfl, id, List.prefix_rfl, List.prefix_rfl, fun r hr => ?_, le_rfl⟩
    exact (Dict.get?_erase_of_ne _ hb.symm).trans hr
  · exact refl m

theorem recordSnapshotNode (m : Manager) (node : SnapshotNode) : Retains m (m.recordSnapshotNode node) := by
  refine ⟨List.prefix_rfl, id, ?_, List.prefix_rfl, fun _ hr => hr, le_rfl⟩
  have hset := Dict.keys_prefix_set m.snapshotGraph node.snapshotId node
  show m.snapshotGraph.keys <+: (recordNode m.snapshotGraph node).keys
  unfold recordNode
  dsimp only
  split
  · exact hset
  · split_ifs
    · exact hset
    · split
      · exact hset
      · split_ifs
        · exact hset
        · exact hset.trans (Dict.keys_prefix_set ..)

theorem advanceLiveBase (m : Manager) (b id : String) : Retains m (m.advanceLiveBase b id) := by
  unfold Manager.advanceLiveBase
  split
  · exact refl m
  · exact of_eq rfl rfl rfl rfl rfl

end Manager.Retains

/-- Every step of the program retains what the manager has. -/
abbrev Retaining {W α : Type} (p : M W α) : Prop := Moves (fun s s' : Sys W => s.mgr.Retains s'.mgr) p

section Accesses

variable {W α : Type}

end Accesses

/-- What the hooks do that the templates of the base class call. -/
structure Hooks.Retaining {W : Type} (H : Hooks W) : Prop where
  coreSnapshot : ∀ b, StateFork.Retaining (H.coreSnapshot b)
  coreRestore : ∀ id b, StateFork.Retaining (H.coreRestore id b)
  coreCleanup : StateFork.Retaining H.coreCleanup
  coreExec : ∀ command timeout b, StateFork.Retaining (H.coreExec command timeout b)
  coreCopy : ∀ b hostPath envPath into, StateFork.Retaining (H.coreCopy b hostPath envPath into)
  afterSnapshot : ∀ b id, StateFork.Retaining (H.afterSnapshot b id)
  decide : ∀ context, StateFork.Retaining (H.decide context)
  time : StateFork.Retaining H.time
  uuid4Hex : StateFork.Retaining H.uuid4Hex

namespace EnvironmentManager

variable {W : Type}

variable {H : Hooks W} (hH : H.Retaining)

include hH

end EnvironmentManager

/-- What the hooks of a forkable backend do. -/
structure ForkHooks.Retaining {W : Type} (F : ForkHooks W) : Prop where
  coreSnapshot : ∀ b, StateFork.Retaining (F.coreSnapshot b)
  coreCleanup : StateFork.Retaining F.coreCleanup
  coreExec : ∀ command timeout b, StateFork.Retaining (F.coreExec command timeout b)
  coreCopy : ∀ b hostPath envPath into, StateFork.Retaining (F.coreCopy b hostPath envPath into)
  coreFork : ∀ id requestedIds, StateFork.Retaining (F.coreFork id requestedIds)
  coreDiscardBranch : ∀ b, StateFork.Retaining (F.coreDiscardBranch b)
  coreParkBranch : ∀ b, StateFork.Retaining (F.coreParkBranch b)
  coreListBranches : StateFork.Retaining F.coreListBranches
  time : StateFork.Retaining F.time
  uuid4Hex : StateFork.Retaining F.uuid4Hex

namespace ForkableEnvironmentManager

open EnvironmentManager

variable {W : Type} {F : ForkHooks W}

variable (hF : F.Retaining)

include hF

end ForkableEnvironmentManager

namespace ForkableBackend

open EnvironmentManager ForkableEnvironmentManager

variable {W : Type} (B : ForkableBackend W)

end ForkableBackend

end StateFork
