import StateFork.Forkable.Usable
import StateFork.Forkable.Views
import StateFork.Forkable.Separate
import StateFork.Sequential.Permanence

/-!
# Colliding ids of a forkable manager

Here every snapshot is physical, and its id comes from the backend: from the snapshot hook, or from the park hook. Both
register the resource of the capture before the template records the node, so that an id that is taken already moves
the old snapshot to another resource. If the ids are new, all snapshots of a run are permanent (`snapshots_permanent`).
-/

namespace StateFork

open Conc Conc.Prog EnvironmentManager ForkableEnvironmentManager

theorem Regular.walkable {m : Manager} (h : Regular m) : Walkable m.snapshotGraph where
  agree id node hn := (h.physical id node hn).1
  ordered id node hn kind := by
    rw [(h.physical id node hn).2] at kind
    cases kind

/-- A park records its node, whatever it does to the branch. -/
theorem Manager.graph_retireParked (m : Manager) (b id : String) (parentId : Option String) (elapsed : ℚ) :
    (m.retireParked b id parentId elapsed).snapshotGraph = recordNode m.snapshotGraph { snapshotId := id, parentId } ∧
      (m.retireParked b id parentId elapsed).snapshots = m.snapshots := by
  unfold Manager.retireParked Manager.forget Manager.removeBranch Manager.setCurrentBranch
  dsimp only
  split_ifs
  · split
    · split <;> exact ⟨rfl, rfl⟩
    · split <;> exact ⟨rfl, rfl⟩
  · split <;> exact ⟨rfl, rfl⟩

/-- The two registries of snapshots. -/
def Manager.registries (m : Manager) : Dict String SnapshotNode × Dict String String := (m.snapshotGraph, m.snapshots)

theorem inert_registries : Inert Manager.registries := fun hsnapshots hgraph _ => Prod.ext hgraph hsnapshots

/-- The operation takes a snapshot. -/
def PublicOp.takes : PublicOp → Bool
  | .snapshot | .snapshotBranch .. | .parkBranch _ => true
  | _ => false

namespace ForkableBackend

variable {W : Type} (B : ForkableBackend W)

/-- The snapshot hook comes up with the id. -/
def CapturedAs (b : String) (s : Sys W) (id : String) : Prop :=
  s.mgr.UsableBranch b ∧ ∃ resource elapsed, (B.snapshot b s.world).1 = .ok (some (id, resource), elapsed)

/-- The park hook comes up with the id. -/
def ParkedAs (b : String) (s : Sys W) (id : String) : Prop :=
  (b ≠ defaultBranchId ∧ (s.mgr.liveBranches.get? b).isSome ∧ s.mgr.UsableBranch b) ∧
    ∃ resource elapsed, (B.park b s.world).1 = .ok (some (id, resource), elapsed)

/-- The backend comes up with the id for the snapshot that the operation takes. -/
def Supplies (op : PublicOp) (s : Sys W) (id : String) : Prop :=
  match op with
  | .snapshot => B.CapturedAs s.mgr.currentBranchId s id
  | .snapshotBranch b false => (s.mgr.liveBranches.get? b).isSome ∧ B.CapturedAs b s id
  | .snapshotBranch b true => B.ParkedAs b s id
  | .parkBranch b => B.ParkedAs b s id
  | _ => False

/-- A snapshot gets an id that no node has. -/
def SuppliesNew (op : PublicOp) (s : Sys W) : Prop := ∀ id, B.Supplies op s id → id ∉ s.mgr.snapshotGraph.keys

variable {B} {s : Sys W}

/-- A program that takes a snapshot under a new id. -/
structure Takes (s : Sys W) (x : Except PyError (Option String) × Sys W) : Prop where
  preserves : s.mgr.Preserves x.2.mgr
  new : ∀ id, x.1 = .ok (some id) → id ∉ s.mgr.snapshotGraph.keys ∧ id ∈ x.2.mgr.snapshotGraph.keys

theorem Takes.nothing {r : Except PyError (Option String)} (hr : ∀ id, r ≠ .ok (some id)) {w : W} :
    Takes s (r, { s with world := w }) :=
  ⟨.refl _, fun id hid => absurd hid (hr id)⟩

/-- An error that a named operation turns into a refusal. -/
theorem Takes.caught {x : Except PyError (Option String) × Sys W} (h : Takes s x) : Takes s (Apart.caught none x) := by
  rcases x with ⟨e | r, s'⟩
  · unfold Apart.caught
    dsimp only
    split_ifs
    · exact ⟨h.preserves, by simp⟩
    · exact h
  · exact h

/-- The hook registers a resource under the id it returns, if it is new, and that is all. -/
theorem undisturbed_coreSnapshot {b : String}
    (hnew : ∀ id resource elapsed, (B.snapshot b s.world).1 = .ok (some (id, resource), elapsed) →
      id ∉ s.mgr.snapshotGraph.keys) :
    s.mgr.Undisturbed ((B.hooks.coreSnapshot b).run s).2.mgr ∧
      ∀ id elapsed, ((B.hooks.coreSnapshot b).run s).1 = .ok (some id, elapsed) → id ∉ s.mgr.snapshotGraph.keys := by
  simp only [hooks, hooksWith, run_bind, run_tryWorld]
  rcases hhook : B.snapshot b s.world with ⟨e | ⟨_ | ⟨id, resource⟩, elapsed⟩, w⟩
  · exact ⟨Manager.undisturbed_of_eq rfl rfl, by simp⟩
  · refine ⟨Manager.undisturbed_of_eq rfl rfl, fun id elapsed he => ?_⟩
    cases he
  · have hfresh : id ∉ s.mgr.snapshotGraph.keys := hnew id resource elapsed (congrArg Prod.fst hhook)
    simp only [run_afterValue_ok, register, registerSnapshotResource, run_bind, run_updateState, run_pure,
      Option.isSome_some, if_true]
    set s₁ : Sys W := ⟨s.mgr.registerSnapshotResource id resource, w⟩
    have hregistered : s.mgr.Undisturbed s₁.mgr := Manager.undisturbed_registerSnapshotResource hfresh resource
    have hrefresh : LeavesView Manager.registries B.refresh :=
      leavesView_of_keeps fun _ => B.keepsView_refresh inert_registries
    have hsame := hrefresh s₁
    rcases hrun : B.refresh.run s₁ with ⟨e | u, s₂⟩
    · rw [hrun] at hsame
      obtain ⟨hgraph, hsnapshots⟩ := Prod.ext_iff.mp hsame
      refine ⟨⟨hgraph, fun i hi => ?_⟩, by simp⟩
      exact (congrArg (Dict.get? · i) hsnapshots).trans (hregistered.2 i hi)
    · rw [hrun] at hsame
      obtain ⟨hgraph, hsnapshots⟩ := Prod.ext_iff.mp hsame
      refine ⟨⟨hgraph, fun i hi => ?_⟩, fun i e he => ?_⟩
      · exact (congrArg (Dict.get? · i) hsnapshots).trans (hregistered.2 i hi)
      · cases he
        exact hfresh

/-- The template refuses a branch that is not registered and active. -/
theorem takes_snapshot_unusable {b : String} (h : ¬ s.mgr.UsableBranch b) :
    Takes s ((EnvironmentManager.snapshotBranch B.hooks.toHooks b true).run s) := by
  simp only [EnvironmentManager.snapshotBranch, getBranchState, run_bind, run_tryState, Manager.getBranchState,
    Option.getD_some]
  cases lookup : s.mgr.branches.get? b with
  | none => exact .nothing (by simp)
  | some r =>
    have hinactive : (s.mgr.record r).active = false := by
      by_contra hactive
      exact h ⟨r, lookup, by simpa using hactive⟩
    simp only [run_afterValue_ok, run_bind, run_announce, run_withLock, run_readState, hinactive, Bool.false_eq_true,
      if_false, run_pure]
    exact .nothing (by simp)

theorem takes_snapshot (hregular : Regular s.mgr) {b : String}
    (hnew : ∀ id, B.CapturedAs b s id → id ∉ s.mgr.snapshotGraph.keys) :
    Takes s ((EnvironmentManager.snapshotBranch B.hooks.toHooks b true).run s) := by
  by_cases husable : s.mgr.UsableBranch b
  · obtain ⟨hundisturbed, hreturned⟩ := undisturbed_coreSnapshot (B := B) (b := b) fun id resource elapsed he =>
      hnew id ⟨husable, resource, elapsed, he⟩
    have hcase := snapshot_cases B.hooks b s
    generalize (EnvironmentManager.snapshotBranch B.hooks.toHooks b true).run s = x at hcase ⊢
    cases hcase with
    | unregistered => exact .nothing (by simp)
    | retired => exact .nothing (by simp)
    | raised hook =>
      rw [hook] at hundisturbed
      exact ⟨hundisturbed.preserves hregular.walkable, by simp⟩
    | failed hook =>
      rw [hook] at hundisturbed
      exact ⟨hundisturbed.preserves hregular.walkable, by simp⟩
    | @committed r id elapsed s' lookup hactive hook =>
      rw [hook] at hundisturbed hreturned
      obtain ⟨hgraph, hresources⟩ := hundisturbed
      have hfresh := hreturned id elapsed rfl
      set node : SnapshotNode := { snapshotId := id, parentId := (s.mgr.record r).lastSnapshotId }
      have hrecorded : ((s'.mgr.addEntry "snapshot" id elapsed b).commit b r node).snapshotGraph =
          Manager.recordNode s.mgr.snapshotGraph node := by
        rw [Manager.snapshotGraph_commit]
        exact congrArg (Manager.recordNode · node) hgraph
      have hwalkable : Walkable (Manager.recordNode s.mgr.snapshotGraph node) :=
        Manager.walkable_recordNode hregular.walkable hfresh (by simp [node])
      rw [← hrecorded] at hwalkable
      refine ⟨Manager.preserves_record hregular.walkable hwalkable hfresh hrecorded fun i hi => ?_, ?_⟩
      · rw [← hresources i hi]
        unfold Manager.commit Manager.advanceLiveBase
        dsimp only
        split <;> rfl
      · rintro _ ⟨⟩
        refine ⟨hfresh, ?_⟩
        show id ∈ ((s'.mgr.addEntry "snapshot" id elapsed b).commit b r node).snapshotGraph.keys
        rw [hrecorded]
        exact Manager.mem_keys_recordNode.mpr (.inl rfl)
  · exact takes_snapshot_unusable husable

/-- The template refuses to park the default branch, and a branch that is not live, or not usable. -/
theorem takes_park_refused {b : String}
    (h : ¬ (b ≠ defaultBranchId ∧ (s.mgr.liveBranches.get? b).isSome ∧ s.mgr.UsableBranch b)) :
    Takes s ((parkBranchBody B.hooks b).run s) := by
  unfold parkBranchBody
  split_ifs with hb
  · exact .nothing (by simp)
  · simp only [lookupLive, run_bind, run_readState, run_afterValue_ok]
    cases hlive : s.mgr.liveBranches.get? b with
    | none => exact .nothing (by simp)
    | some live =>
      dsimp only
      cases lookup : s.mgr.branches.get? b with
      | none => exact .nothing (by simp)
      | some r =>
        have hinactive : (s.mgr.record r).active = false := by
          by_contra hactive
          exact h ⟨hb, by rw [hlive]; rfl, r, lookup, by simpa using hactive⟩
        simp only [run_bind, run_announce, run_afterValue_ok, run_withLock, run_readState, hlive, hinactive,
          Bool.and_false, Bool.false_eq_true, if_false, run_pure]
        exact .nothing (by simp)

/-- A park under a new id. -/
theorem takes_park (hc : Consistent s.mgr) {b : String}
    (hnew : ∀ id, B.ParkedAs b s id → id ∉ s.mgr.snapshotGraph.keys) :
    Takes s ((parkBranch B.hooks b).run s) := by
  rw [parkBranch, run_withLock]
  by_cases hparkable : b ≠ defaultBranchId ∧ (s.mgr.liveBranches.get? b).isSome ∧ s.mgr.UsableBranch b
  · have hcase := B.park_cases b hc.main
    generalize (parkBranchBody B.hooks b).run s = x at hcase ⊢
    cases hcase with
    | refused => exact .nothing (by simp)
    | raised => exact .nothing (by simp)
    | failed => exact .nothing (by simp)
    | @parked r id resource elapsed w notMain lookup hook =>
      have hfresh : id ∉ s.mgr.snapshotGraph.keys := hnew id ⟨hparkable, resource, elapsed, congrArg Prod.fst hook⟩
      set node : SnapshotNode := { snapshotId := id, parentId := (s.mgr.record r).lastSnapshotId }
      obtain ⟨hgraph, hsnapshots⟩ := Manager.graph_retireParked (s.mgr.registerSnapshotResource id resource) b id
        (s.mgr.record r).lastSnapshotId elapsed
      have hwalkable : Walkable (Manager.recordNode s.mgr.snapshotGraph node) :=
        Manager.walkable_recordNode hc.regular.walkable hfresh (by simp [node])
      refine ⟨Manager.preserves_record hc.regular.walkable (hgraph ▸ hwalkable) hfresh hgraph fun i hi => ?_, ?_⟩
      · exact (congrArg (Dict.get? · i) hsnapshots).trans
          ((Manager.undisturbed_registerSnapshotResource hfresh resource).2 i hi)
      · rintro _ ⟨⟩
        refine ⟨hfresh, ?_⟩
        show id ∈ ((s.mgr.registerSnapshotResource id resource).retireParked b id _ elapsed).snapshotGraph.keys
        rw [hgraph]
        exact Manager.mem_keys_recordNode.mpr (.inl rfl)
  · exact takes_park_refused hparkable

/-- One operation. -/
theorem takes_prog (hc : Consistent s.mgr) {op : PublicOp} (hnew : B.SuppliesNew op s) :
    s.mgr.Preserves ((PublicOp.prog B.hooks op).run s).2.mgr ∧
      ∀ id, op.takes = true → ((PublicOp.prog B.hooks op).run s).1 = .ok (.snapshotId (some id)) →
        id ∉ s.mgr.snapshotGraph.keys ∧ id ∈ ((PublicOp.prog B.hooks op).run s).2.mgr.snapshotGraph.keys := by
  have hmap {p : M W (Option String)} (hp : Takes s (p.run s)) :
      s.mgr.Preserves ((Outcome.snapshotId <$> p).run s).2.mgr ∧
        ∀ id, ((Outcome.snapshotId <$> p).run s).1 = .ok (.snapshotId (some id)) →
          id ∉ s.mgr.snapshotGraph.keys ∧ id ∈ ((Outcome.snapshotId <$> p).run s).2.mgr.snapshotGraph.keys := by
    rw [run_map]
    refine ⟨hp.preserves, fun id hid => hp.new id ?_⟩
    rcases h : (p.run s).1 with e | r
    · rw [h] at hid
      cases hid
    · rw [h] at hid
      cases hid
      rfl
  by_cases hplain : PublicOp.plain op = true
  · have hsame : LeavesView Manager.registries (PublicOp.prog B.hooks op) :=
      leavesView_of_keeps fun _ => keepsView_prog inert_registries B.hooks_leave hplain
    obtain ⟨hgraph, hsnapshots⟩ := Prod.ext_iff.mp (hsame s)
    refine ⟨(Manager.undisturbed_of_eq hgraph hsnapshots).preserves hc.regular.walkable, fun id htakes => ?_⟩
    cases op <;> simp_all [PublicOp.takes, PublicOp.plain]
  · have hcaptured (b : String) (hb : ∀ id, B.CapturedAs b s id → id ∉ s.mgr.snapshotGraph.keys) :=
      takes_snapshot hc.regular hb
    cases op with
    | snapshot =>
      have htakes : Takes s ((EnvironmentManager.snapshot B.hooks.toHooks).run s) := by
        simp only [EnvironmentManager.snapshot, run_withLock, getCurrentBranchId, run_bind, run_readState, run_afterValue_ok]
        exact hcaptured _ hnew
      obtain ⟨hpreserves, hreturns⟩ := hmap htakes
      exact ⟨hpreserves, fun id _ => hreturns id⟩
    | snapshotBranch b park =>
      cases park with
      | true =>
        obtain ⟨hpreserves, hreturns⟩ := hmap (takes_park hc (b := b) hnew)
        exact ⟨hpreserves, fun id _ => hreturns id⟩
      | false =>
        have htakes : Takes s ((snapshotBranch B.hooks b false).run s) := by
          show Takes s ((isLive b >>= fun live => if live then
            onKeyError (EnvironmentManager.snapshotBranch B.hooks.toHooks b true) none else pure none).run s)
          rw [Apart.run_ifLive]
          split_ifs with hlive
          · exact (hcaptured b fun id hid => hnew id ⟨hlive, hid⟩).caught
          · exact .nothing (by simp)
        obtain ⟨hpreserves, hreturns⟩ := hmap htakes
        exact ⟨hpreserves, fun id _ => hreturns id⟩
    | parkBranch b =>
      obtain ⟨hpreserves, hreturns⟩ := hmap (takes_park hc hnew)
      exact ⟨hpreserves, fun id _ => hreturns id⟩
    | cleanup =>
      have hkeeps (P : Dict String SnapshotNode × Dict String String → Prop) :
          KeepsView Manager.registries P (PublicOp.prog B.hooks .cleanup) := by
        have hhook : LeavesView Manager.registries B.hooks.toHooks.coreCleanup := (leaves_tryWorld _ fun _ => []).leavesView
        exact keeps_map _ (hoare_withLock (keeps_bind hhook.keeps fun _ => keeps_bind (fun _ hs => hs) fun _ => keeps_ret _))
      obtain ⟨hgraph, hsnapshots⟩ := Prod.ext_iff.mp (leavesView_of_keeps hkeeps s)
      exact ⟨(Manager.undisturbed_of_eq hgraph hsnapshots).preserves hc.regular.walkable, fun id htakes => absurd htakes (by decide)⟩
    | _ => exact absurd rfl hplain

theorem permanent (h : Consistent s.mgr) {ops : List PublicOp} (hsteps : B.EachStep B.SuppliesNew ops s) :
    Permanent (PublicOp.prog B.hooks) PublicOp.takes ops s := by
  refine permanent_of_eachStep (I := fun s => Consistent s.mgr) (C := B.SuppliesNew) (fun op s hc hnew => ?_)
    (fun op s id hc hnew => (takes_prog (B := B) hc hnew).2 id) h hsteps
  exact ⟨consistent_prog hc op, (takes_prog hc hnew).1⟩

end ForkableBackend

/-- The snapshots of a run are permanent, on a sequential manager exactly if every id supplied to one is new; on a
forkable one they are if the backend comes up with new ids only. -/
theorem snapshots_permanent {V W : Type} (B : SequentialBackend V) (root resource : String) (v : V)
    (seqOps : List SeqOp) (F : ForkableBackend W) (s₀ : Sys W) (h₀ : Consistent s₀.mgr) (ops : List PublicOp) :
    (Permanent (SeqOp.prog B) SeqOp.takes seqOps (Sys.startedAt root resource v) ↔
        EachStep B (SuppliesNew B) seqOps (Sys.startedAt root resource v)) ∧
      (F.EachStep F.SuppliesNew ops s₀ → Permanent (PublicOp.prog F.hooks) PublicOp.takes ops s₀) :=
  ⟨sequential_permanent_iff (Sys.startedAt_solo root resource v) (.startedAt root resource) seqOps,
    ForkableBackend.permanent h₀⟩

/-- Two virtual snapshots on top of each other, and a snapshot of a forkable manager. -/
theorem snapshots_permanent_stacked :
    Permanent (SeqOp.prog Tape.backend) SeqOp.takes [.snapshot, .exec (.line "make") none, .snapshot]
        (Sys.startedAt "base" "base" (Tape.start ["3f2a9c4b1d", "77e0d15c02"] [false, false] [])) ∧
      Permanent (PublicOp.prog (Fleet.backend false).hooks) PublicOp.takes [.snapshot, .restore "3f2a"]
        (Fleet.start ["3f2a", "9c41"] []) := by
  have h := snapshots_permanent Tape.backend "base" "base" (Tape.start ["3f2a9c4b1d", "77e0d15c02"] [false, false] [])
    [.snapshot, .exec (.line "make") none, .snapshot] (Fleet.backend false) (Fleet.start ["3f2a", "9c41"] [])
    (.seeded "base" "base") [.snapshot, .restore "3f2a"]
  refine ⟨h.1.mpr ⟨fun _ id hid => ?_, fun hop => ?_, fun _ id hid => ?_, trivial⟩,
    h.2 ⟨fun id hid => ?_, fun id hid => ?_, trivial⟩⟩
  · obtain ⟨hd, -⟩ | ⟨-, rfl⟩ := hid
    · cases hd
    · decide +kernel
  · cases hop
  · obtain ⟨hd, -⟩ | ⟨-, rfl⟩ := hid
    · cases hd
    · decide +kernel
  · obtain ⟨-, _, _, he⟩ := hid
    cases he
    decide +kernel
  · cases hid

/-- Two uuids start with the same seven digits. The second snapshot goes under the id of the first, as its own parent,
and neither can be restored any more. -/
theorem not_snapshots_permanent_truncated :
    let start := Sys.startedAt "base" "base" (Tape.start ["3f2a9c4b1d", "3f2a9c4e07"] [false, false] [])
    let first := runOps Tape.backend [.snapshot] start
    let s := runOps Tape.backend [.snapshot, .exec (.line "make") none, .snapshot] start
    ¬ Permanent (SeqOp.prog Tape.backend) SeqOp.takes [.snapshot, .exec (.line "make") none, .snapshot] start ∧
      first.mgr.parentOf "v3f2a9c4" = some "base" ∧ s.mgr.parentOf "v3f2a9c4" = some "v3f2a9c4" ∧
      (((SeqOp.restore "v3f2a9c4").prog Tape.backend).run s).1 = .ok (.flag false) := by
  intro start first s
  refine ⟨fun h => ?_, by decide +kernel, by decide +kernel, by decide +kernel⟩
  have hreturned : ((SeqOp.snapshot.prog Tape.backend).run
      (runOps Tape.backend [.snapshot, .exec (.line "make") none] start)).1 = .ok (.snapshotId (some "v3f2a9c4")) := by
    decide +kernel
  have hnew := (h [.snapshot, .exec (.line "make") none] .snapshot [] [] "v3f2a9c4" rfl rfl hreturned).1
  exact absurd hnew (by decide +kernel)

end StateFork
