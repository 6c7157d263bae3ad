import StateFork.Controller.Frame
import StateFork.Forkable.Effects
import StateFork.Sequential.Tape

/-!
# What a reported failure leaves behind

An operation reports failure by returning `None`, `False` or an empty list. If the hooks keep to what their
docstrings promise about the controller (`Hooks.Contract`, `ForkHooks.Contract`), a reported failure leaves
the whole manager as it was, but for benchmark entries. Every exit of a template that reports failure comes
before its first own update, so a proof only has to follow the hooks (`Clean`); past that point the template
can succeed or raise (`Succeeds`).
-/

namespace StateFork

open Conc Conc.Prog

/-- Only benchmark entries were added. -/
def Manager.Untouched (m m' : Manager) : Prop :=
  ∃ stats : BenchmarkStats, m' = { m with stats } ∧ m.stats.log <+: stats.log

namespace Manager.Untouched

variable {m m' : Manager}

theorem refl (m : Manager) : m.Untouched m := ⟨m.stats, rfl, List.prefix_refl _⟩

theorem trans {m'' : Manager} (h : m.Untouched m') (h' : m'.Untouched m'') : m.Untouched m'' := by
  obtain ⟨stats, rfl, hlog⟩ := h
  obtain ⟨stats', rfl, hlog'⟩ := h'
  exact ⟨stats', rfl, hlog.trans hlog'⟩

theorem addEntry (h : m.Untouched m') (operation target : String) (elapsed : ℚ) (b : String) :
    m.Untouched (m'.addEntry operation target elapsed b) := by
  obtain ⟨stats, rfl, hlog⟩ := h
  exact ⟨_, rfl, hlog.trans (List.prefix_append _ _)⟩

end Manager.Untouched

section Contracts

variable {W : Type}

/-- What the docstrings of the hooks promise about the controller. -/
structure Hooks.Contract (H : Hooks W) : Prop where
  /-- A failed capture must not leave partial controller-side registration behind. -/
  snapshot : ∀ b s, (∀ id elapsed, ((H.coreSnapshot b).run s).1 ≠ .ok (some id, elapsed)) →
    ((H.coreSnapshot b).run s).2.mgr = s.mgr
  /-- A failed restore preserves the state before it. -/
  restore : ∀ id b s s' elapsed, (H.coreRestore id b).run s = (.ok (false, elapsed), s') → s.mgr.Untouched s'.mgr
  copy : ∀ b hostPath envPath into, LeavesManager (H.coreCopy b hostPath envPath into)
  decide : ∀ context, LeavesManager (H.decide context)
  time : LeavesManager H.time

/-- What the docstrings of the hooks promise about the controller. -/
structure ForkHooks.Contract (F : ForkHooks W) : Prop where
  snapshot : ∀ b s, (∀ id elapsed, ((F.coreSnapshot b).run s).1 ≠ .ok (some id, elapsed)) →
    ((F.coreSnapshot b).run s).2.mgr = s.mgr
  park : ∀ b s, (∀ id elapsed, ((F.coreParkBranch b).run s).1 ≠ .ok (some id, elapsed)) →
    ((F.coreParkBranch b).run s).2.mgr = s.mgr
  copy : ∀ b hostPath envPath into, LeavesManager (F.coreCopy b hostPath envPath into)
  /-- The hook must not modify the controller registry, the graph or the benchmark records. -/
  fork : ∀ id requestedIds, LeavesManager (F.coreFork id requestedIds)
  discard : ∀ b, LeavesManager (F.coreDiscardBranch b)
  time : LeavesManager F.time

end Contracts

/-! ### Rules -/

section Rules

variable {W α β : Type} {m : Manager} {failed : β → Prop}

/-- If the program returns a failure, the manager is untouched. -/
def Clean (m : Manager) (failed : α → Prop) (p : M W α) : Prop :=
  Hoare (fun s => m.Untouched s.mgr) p fun r s => ∀ a, r = .ok a → failed a → m.Untouched s.mgr

/-- The program does not return a failure. -/
def Succeeds (failed : α → Prop) (p : M W α) : Prop := ∀ s a, (p.run s).1 = .ok a → ¬ failed a

theorem Succeeds.clean {p : M W β} (hp : Succeeds failed p) : Clean m failed p :=
  fun s _ a ha hf => absurd hf (hp s a ha)

theorem succeeds_ret {a : β} (ha : ¬ failed a) : Succeeds failed (pure a : M W β) := by
  intro s a' h
  obtain rfl := Except.ok.inj h
  exact ha

theorem succeeds_bind {p : M W α} {f : α → M W β} (hf : ∀ a, Succeeds failed (f a)) : Succeeds failed (p >>= f) := by
  intro s b h
  rw [run_bind_eq] at h
  cases hr : (p.run s).1 with
  | error e =>
    rw [hr] at h
    cases h
  | ok a =>
    rw [hr] at h
    exact hf a _ b h

theorem clean_ret (a : β) : Clean m failed (pure a : M W β) := fun _ hs _ _ _ => hs

theorem clean_of_keeps {p : M W β} (hp : KeepsManager m.Untouched p) : Clean m failed p :=
  fun s hs _ _ _ => hp s hs

theorem clean_bind {p : M W α} {f : α → M W β} (hp : KeepsManager m.Untouched p)
    (hf : ∀ a, Clean m failed (f a)) : Clean m failed (p >>= f) :=
  hp.bind hf fun _ _ _ _ he => nomatch he

theorem clean_withLock {l : Lock} {p : M W β} (hp : Clean m failed p) : Clean m failed (withLock l p) :=
  hoare_withLock hp

theorem clean_ite {c : Prop} [Decidable c] {p q : M W β} (hp : Clean m failed p) (hq : Clean m failed q) :
    Clean m failed (if c then p else q) := by
  split
  · exact hp
  · exact hq

/-- A hook whose failures do not touch the manager. -/
theorem clean_of_hook {p : M W β} (hp : ∀ s, (∀ b, ¬ failed b → (p.run s).1 ≠ .ok b) → (p.run s).2.mgr = s.mgr) :
    Clean m failed p := by
  intro s hs a ha hfailed
  show m.Untouched (p.run s).2.mgr
  rw [hp s fun b hb he => hb (Except.ok.inj (ha.symm.trans he) ▸ hfailed)]
  exact hs

/-- A program whose failures do not touch the manager, in front of one that succeeds on its successes. -/
theorem Clean.bind {p : M W α} {f : α → M W β} {failed' : α → Prop} (hp : Clean m failed' p)
    (hgood : ∀ a, ¬ failed' a → Succeeds failed (f a)) (hbad : ∀ a, failed' a → Clean m failed (f a)) :
    Clean m failed (p >>= f) := by
  intro s hs b hb hfailed
  rw [run_bind_eq] at hb ⊢
  have hclean := hp s hs
  rcases hr : (p.run s).1 with e | a
  · rw [hr] at hb
    cases hb
  · rw [hr] at hb hclean
    by_cases ha : failed' a
    · exact hbad a ha _ (hclean a rfl ha) b hb hfailed
    · exact absurd hfailed (hgood a ha _ b hb)

end Rules

/-! ### Templates of the base class -/

namespace EnvironmentManager

variable {W : Type} {m : Manager} {H : Hooks W}

theorem succeeds_commitSnapshot {b : String} {state : Ref} {takePhysical : Bool} {node : SnapshotNode} :
    Succeeds (· = none) (commitSnapshot H b state takePhysical node) := by
  refine succeeds_bind fun _ => succeeds_bind fun _ => succeeds_bind fun _ => succeeds_bind fun _ => ?_
  exact succeeds_ret (by simp)

/-- The template from the point where it knows whether the snapshot is physical. -/
theorem clean_capture (hH : H.Contract) {b : String} {state : Ref} {parentId : Option String}
    {replayCommands : List Command} {takePhysical : Bool} :
    Clean m (· = none) (do
      let node ←
        if takePhysical then capturePhysical H b state parentId
        else captureVirtual H parentId replayCommands
      match node with
      | none => return none
      | some node => commitSnapshot H b state takePhysical node : M W (Option String)) := by
  cases takePhysical with
  | false =>
    refine Succeeds.clean ?_
    simp only [Bool.false_eq_true, if_false, captureVirtual, bind_assoc, pure_bind]
    exact succeeds_bind fun _ => succeeds_commitSnapshot
  | true =>
    simp only [if_true, capturePhysical, bind_assoc]
    refine clean_bind (reads_announce _).keeps fun _ => ?_
    have hhook : Clean m (fun r => r.1 = none) (H.coreSnapshot b) :=
      clean_of_hook fun s h => hH.snapshot b s fun id elapsed => h _ (by simp)
    refine hhook.bind ?_ ?_
    · rintro ⟨_ | id, elapsed⟩ hgood
      · exact absurd rfl hgood
      · simp only [bind_assoc, pure_bind]
        exact succeeds_bind fun _ => succeeds_commitSnapshot
    · rintro ⟨_ | id, elapsed⟩ hbad
      · exact clean_ret _
      · exact absurd hbad (by simp)

theorem clean_snapshotBranch (hH : H.Contract) {b : String} {forcePhysical : Bool} :
    Clean m (· = none) (snapshotBranch H b forcePhysical) := by
  refine clean_bind (reads_getBranchState _).keeps fun state => ?_
  refine clean_bind (reads_announce _).keeps fun _ => clean_withLock ?_
  refine clean_bind (reads_readState _).keeps fun seen => ?_
  rcases seen with _ | ⟨parentId, cumulativeExecTime, replayCommands⟩
  · exact clean_ret _
  · dsimp only
    split
    · exact clean_bind (keeps_ret _) fun takePhysical => clean_capture hH
    · exact clean_bind (hH.decide _).keeps fun takePhysical => clean_capture hH

theorem clean_snapshot (hH : H.Contract) : Clean m (· = none) (snapshot H) :=
  clean_withLock (clean_bind reads_getCurrentBranchId.keeps fun _ => clean_snapshotBranch hH)

theorem succeeds_finishRestore {snapshotId ancestorId : String} {commands : List Command} {elapsed : ℚ} :
    Succeeds (· = false) (finishRestore H snapshotId ancestorId commands elapsed) := by
  refine succeeds_bind fun _ => succeeds_bind fun _ => succeeds_bind fun _ => succeeds_bind fun _ => ?_
  exact succeeds_ret (by simp)

theorem clean_restore (hH : H.Contract) {snapshotId : String} : Clean m (· = false) (restore H snapshotId) := by
  refine clean_withLock (clean_bind (reads_getBranchState _).keeps fun departing => clean_withLock ?_)
  refine clean_bind (reads_readState _).keeps fun walk => ?_
  cases walk with
  | error e => exact clean_ret _
  | ok found =>
    intro s hs b hb hfailed
    rw [run_bind_eq] at hb ⊢
    rcases hr : (H.coreRestore found.1.snapshotId departing.id).run s with ⟨e | ⟨_ | _, elapsed⟩, s'⟩
    · rw [hr] at hb
      cases hb
    · exact hs.trans (hH.restore _ _ _ _ _ hr)
    · rw [hr] at hb
      exact absurd hfailed (succeeds_finishRestore _ b hb)

/-- A copy adds a benchmark entry at most, whatever comes of it. -/
theorem keeps_copyBranch_untouched (hH : H.Contract) {b hostPath envPath : String} {into : Bool} :
    KeepsManager m.Untouched (copyBranch H b hostPath envPath into) :=
  keeps_copyBranch (hH.copy _ _ _ _).keeps hH.time.keeps fun _ _ _ h => h.addEntry _ _ _ _

theorem clean_copyIn (hH : H.Contract) {hostSrc path : String} : Clean m (· = false) (copyIn H hostSrc path) :=
  clean_withLock (clean_bind reads_getCurrentBranchId.keeps fun _ => clean_of_keeps (keeps_copyBranch_untouched hH))

theorem clean_copyOut (hH : H.Contract) {path hostDst : String} : Clean m (· = false) (copyOut H path hostDst) :=
  clean_withLock (clean_bind reads_getCurrentBranchId.keeps fun _ => clean_of_keeps (keeps_copyBranch_untouched hH))

end EnvironmentManager

/-! ### Templates of the forkable class -/

namespace ForkableEnvironmentManager

open EnvironmentManager

variable {W : Type} {m : Manager} {F : ForkHooks W}

/-- `_materialize_branches` returns as many branches as it registered. -/
theorem clean_materializeBranches (hF : F.Contract) {snapshotId : String} {requestedIds : List (Option String)}
    {activate : Bool} : Clean m (· = []) (materializeBranches F snapshotId requestedIds activate) := by
  refine clean_withLock (clean_bind (hF.fork _ _).keeps fun outcomes => ?_)
  cases outcomes with
  | nil => exact clean_bind (keeps_ret _) fun _ => clean_ret _
  | cons outcome outcomes => exact (succeeds_bind fun _ => succeeds_ret (by simp)).clean

theorem clean_fork (hF : F.Contract) {snapshotId : String} {n : Int} {ids : Option (List String)} :
    Clean m (· = []) (fork F snapshotId n ids) := by
  refine clean_withLock (clean_bind (reads_readState _).keeps fun ok => clean_ite (clean_ret _) ?_)
  cases ids with
  | none => exact clean_ite (clean_ret _) (clean_materializeBranches hF)
  | some ids =>
    refine clean_ite (clean_ret _) (clean_bind (reads_readState _).keeps fun conflicts => ?_)
    exact clean_ite (clean_ret _) (clean_ite (clean_ret _) (clean_materializeBranches hF))

theorem clean_discardBranchBody (hF : F.Contract) {b : String} : Clean m (· = false) (discardBranchBody F b) := by
  refine clean_ite (clean_ret _) (clean_bind reads_getCurrentBranchId.keeps fun current => ?_)
  refine clean_ite (clean_ret _) (clean_bind (reads_readState _).keeps fun found => ?_)
  cases found with
  | none => exact clean_ret _
  | some state =>
    refine clean_bind (reads_announce _).keeps fun _ => clean_withLock (clean_withLock ?_)
    refine clean_bind (reads_readState _).keeps fun live => clean_ite ?_ (clean_ret _)
    refine clean_bind (reads_announce _).keeps fun _ => clean_bind (hF.discard b).keeps fun gone => ?_
    refine clean_ite (Succeeds.clean ?_) (clean_ret _)
    exact succeeds_bind fun _ => succeeds_bind fun _ => succeeds_ret (by simp)

theorem clean_parkBranchBody (hF : F.Contract) {b : String} : Clean m (· = none) (parkBranchBody F b) := by
  refine clean_ite (clean_ret _) (clean_bind (reads_readState _).keeps fun found => ?_)
  cases found with
  | none => exact clean_ret _
  | some state =>
    refine clean_bind (reads_announce _).keeps fun _ => clean_withLock (clean_withLock ?_)
    refine clean_bind (reads_readState _).keeps fun parent => ?_
    cases parent with
    | none => exact clean_ret _
    | some parentId =>
      refine clean_bind (reads_announce _).keeps fun _ => ?_
      have hhook : Clean m (fun r => r.1 = none) (F.coreParkBranch b) :=
        clean_of_hook fun s h => hF.park b s fun id elapsed => h _ (by simp)
      refine hhook.bind ?_ ?_
      · rintro ⟨_ | id, elapsed⟩ hgood
        · exact absurd rfl hgood
        · exact succeeds_bind fun _ => succeeds_ret (by simp)
      · rintro ⟨_ | id, elapsed⟩ hbad
        · exact clean_ret _
        · exact absurd hbad (by simp)

/-- `_core_restore` returns `True` once it has materialized a branch. -/
theorem clean_coreRestore (hF : F.Contract) {snapshotId b : String} :
    Clean m (fun r => r.1 = false) (F.coreRestore snapshotId b) := by
  refine clean_bind hF.time.keeps fun start => (clean_materializeBranches hF).bind ?_ ?_
  · rintro (_ | ⟨restored, rest⟩) hgood
    · exact absurd rfl hgood
    · refine succeeds_bind fun _ => ?_
      split
      · exact succeeds_bind fun _ => succeeds_bind fun stop => succeeds_ret (by simp)
      · exact succeeds_bind fun stop => succeeds_ret (by simp)
  · rintro _ rfl
    exact clean_ret _

/-- The base class as completed by a forkable manager keeps to its contract. -/
theorem contract_toHooks (hF : F.Contract) : F.toHooks.Contract where
  snapshot := hF.snapshot
  restore id b s s' elapsed h := by
    have hclean : Clean s.mgr (fun r => r.1 = false) (F.toHooks.coreRestore id b) := clean_coreRestore hF
    have hfailed := hclean s (.refl s.mgr)
    rw [h] at hfailed
    exact hfailed _ rfl rfl
  copy := hF.copy
  decide _ _ := rfl
  time := hF.time

/-- Behind the liveness test of a named operation. -/
theorem clean_named {α : Type} {failed : α → Prop} {b : String} {p : M W α} {a : α} (hp : Clean m failed p) :
    Clean m failed (isLive b >>= fun live => if live then p else pure a) :=
  clean_bind (reads_readState _).keeps fun _ => clean_ite hp (clean_ret _)

/-- A named snapshot raises or returns `None` only where the manager is untouched. -/
theorem clean_onKeyError_snapshot (hF : F.Contract) {b : String} :
    Clean m (· = none) (onKeyError (EnvironmentManager.snapshotBranch F.toHooks b true) none) := by
  intro s hs r hr hfailed
  have hcase := snapshot_cases F b s
  unfold onKeyError Prog.tryCatch at hr ⊢
  rw [run_andThen] at hr ⊢
  rcases hrun : (EnvironmentManager.snapshotBranch F.toHooks b true).run s with ⟨e | r', s'⟩
  · rw [hrun] at hcase
    have hmgr : s'.mgr = s.mgr := by
      cases hcase with
      | unregistered => rfl
      | raised hook =>
        have hkept := hF.snapshot b s
        rw [hook] at hkept
        exact hkept (by simp)
    dsimp only
    split_ifs
    · show m.Untouched s'.mgr
      rw [hmgr]
      exact hs
    · show m.Untouched s'.mgr
      rw [hmgr]
      exact hs
  · rw [hrun] at hr
    have hclean : Clean m (· = none) (EnvironmentManager.snapshotBranch F.toHooks b true) :=
      clean_snapshotBranch (contract_toHooks hF)
    have hkept := hclean s hs
    rw [hrun] at hkept
    obtain rfl := Except.ok.inj hr
    exact hkept _ rfl hfailed

theorem clean_onKeyError_copy (hF : F.Contract) {b hostPath envPath : String} {into : Bool} :
    Clean m (· = false) (onKeyError (copyBranch F.toHooks b hostPath envPath into) false) := by
  have hkeeps : KeepsManager m.Untouched
      (onKeyError (copyBranch F.toHooks b hostPath envPath into) false) := by
    refine keeps_tryCatch (keeps_copyBranch_untouched (contract_toHooks hF)) fun e => ?_
    split
    · exact keeps_ret _
    · exact fun _ hs => hs
  exact clean_of_keeps hkeeps

/-- The operations that report failure. -/
inductive PublicOp.Reports : PublicOp → Prop
  | snapshot : Reports .snapshot
  | restore (s : String) : Reports (.restore s)
  | copyIn (h p : String) : Reports (.copyIn h p)
  | copyOut (p h : String) : Reports (.copyOut p h)
  | snapshotBranch (b : String) (park : Bool) : Reports (.snapshotBranch b park)
  | copyInBranch (b h p : String) : Reports (.copyInBranch b h p)
  | copyOutBranch (b p h : String) : Reports (.copyOutBranch b p h)
  | fork (s : String) (n : Int) (ids : Option (List String)) : Reports (.fork s n ids)
  | discardBranch (b : String) : Reports (.discardBranch b)
  | parkBranch (b : String) : Reports (.parkBranch b)

/-- How failure is reported. -/
inductive Outcome.Failure : Outcome → Prop
  | none : Failure (.snapshotId Option.none)
  | false : Failure (.flag Bool.false)
  | empty : Failure (.branches [])

theorem clean_map {α : Type} {failed : α → Prop} {p : M W α} {f : α → Outcome} (hp : Clean m failed p)
    (hf : ∀ a, Outcome.Failure (f a) → failed a) : Clean m Outcome.Failure (f <$> p) := by
  intro s hs o ho hfailed
  rw [run_map] at ho ⊢
  have hclean := hp s hs
  rcases hr : (p.run s).1 with e | a
  · rw [hr] at ho
    cases ho
  · rw [hr] at ho hclean
    obtain rfl := Except.ok.inj ho
    exact hclean a rfl (hf a hfailed)

theorem clean_prog (hF : F.Contract) {op : PublicOp} (hop : PublicOp.Reports op) :
    Clean m Outcome.Failure (PublicOp.prog F op) := by
  have hH := contract_toHooks hF
  have hnone : ∀ a, Outcome.Failure (.snapshotId a) → a = none := by rintro _ ⟨⟩; rfl
  have hfalse : ∀ a, Outcome.Failure (.flag a) → a = false := by rintro _ ⟨⟩; rfl
  have hnil : ∀ a, Outcome.Failure (.branches a) → a = [] := by rintro _ ⟨⟩; rfl
  cases hop with
  | snapshot => exact clean_map (clean_snapshot hH) hnone
  | restore s => exact clean_map (clean_restore hH) hfalse
  | copyIn h p => exact clean_map (clean_copyIn hH) hfalse
  | copyOut p h => exact clean_map (clean_copyOut hH) hfalse
  | snapshotBranch b park =>
    refine clean_map ?_ hnone
    unfold snapshotBranch
    exact clean_ite (clean_withLock (clean_parkBranchBody hF)) (clean_named (clean_onKeyError_snapshot hF))
  | copyInBranch b h p => exact clean_map (clean_named (clean_onKeyError_copy hF)) hfalse
  | copyOutBranch b p h => exact clean_map (clean_named (clean_onKeyError_copy hF)) hfalse
  | fork s n ids => exact clean_map (clean_fork hF) hnil
  | discardBranch b => exact clean_map (clean_withLock (clean_discardBranchBody hF)) hfalse
  | parkBranch b => exact clean_map (clean_withLock (clean_parkBranchBody hF)) hnone

end ForkableEnvironmentManager

/-! ### Reported failures -/

theorem Clean.untouched {W α : Type} {failed : α → Prop} {p : M W α} (hp : ∀ m, Clean m failed p) {s s' : Sys W}
    {a : α} (h : p.run s = (.ok a, s')) (ha : failed a) : s.mgr.Untouched s'.mgr := by
  have hclean := hp s.mgr s (.refl s.mgr)
  rw [h] at hclean
  exact hclean a rfl ha

/-- Hooks that act on their world only keep to the contract. -/
theorem SequentialBackend.hooks_contract {W : Type} (B : SequentialBackend W) : B.hooks.Contract where
  snapshot b s h := by
    simp only [SequentialBackend.hooks, run_bind, run_tryWorld] at h ⊢
    generalize B.snapshot b s.world = x at h ⊢
    rcases x with ⟨e | ⟨_ | captured, elapsed⟩, w⟩
    · rfl
    · rfl
    · exact absurd rfl (h captured.1 elapsed)
  restore id b s s' elapsed h := by
    have hmgr : ((B.hooks.coreRestore id b).run s).2.mgr = s.mgr := by
      simp only [SequentialBackend.hooks, EnvironmentManager.snapshotResource, run_bind, run_readState,
        run_afterValue_ok]
      split
      · rfl
      · rw [run_tryWorld]
    rw [h] at hmgr
    rw [hmgr]
    exact .refl _
  copy _ _ _ _ _ := by simp only [SequentialBackend.hooks, run_tryWorld]
  decide _ _ := rfl
  time _ := rfl

/-- So do those of a forkable backend, unless the listing raises with which a snapshot hook refreshes. -/
theorem ForkableBackend.hooks_contract {W : Type} (B : ForkableBackend W)
    (hlist : B.refreshes = true → ∀ w e, (B.list w).1 ≠ .error e) : B.hooks.Contract where
  snapshot b s h := by
    simp only [ForkableBackend.hooks, ForkableBackend.hooksWith, run_bind, run_tryWorld] at h ⊢
    generalize B.snapshot b s.world = x at h ⊢
    rcases x with ⟨e | ⟨_ | captured, elapsed⟩, w⟩
    · rfl
    · rfl
    · exfalso
      have hok : ∀ s : Sys W, (B.refresh.run s).1 = .ok () := by
        intro s
        unfold ForkableBackend.refresh
        split_ifs with hr
        · obtain ⟨-, herror⟩ := B.run_listBranches (pure ()) s
          rw [run_bind_eq]
          rcases hl : ((ForkableEnvironmentManager.listBranches (B.hooksWith (pure ()))).run s).1 with e | l
          · exact absurd (herror e hl) (hlist hr _ _)
          · rfl
        · rfl
      refine h captured.1 elapsed ?_
      simp only [run_afterValue_ok, ForkableBackend.register, EnvironmentManager.registerSnapshotResource, run_bind,
        run_updateState, run_pure, Option.isSome_some, if_true, hok]
  park b s h := by
    simp only [ForkableBackend.hooks, ForkableBackend.hooksWith, run_bind, run_tryWorld] at h ⊢
    generalize B.park b s.world = x at h ⊢
    rcases x with ⟨e | ⟨_ | captured, elapsed⟩, w⟩
    · rfl
    · rfl
    · exact absurd rfl (h captured.1 elapsed)
  copy _ _ _ _ _ := by simp only [ForkableBackend.hooks, ForkableBackend.hooksWith, run_tryWorld]
  fork _ _ _ := by simp only [ForkableBackend.hooks, ForkableBackend.hooksWith, run_tryWorld]
  discard _ _ := by simp only [ForkableBackend.hooks, ForkableBackend.hooksWith, run_tryWorld]
  time _ := rfl

open EnvironmentManager ForkableEnvironmentManager in
/-- From every state, an operation that reports failure has added benchmark entries at most: for a manager of
the base class with hooks `H`, and for a forkable one with hooks `F`. -/
theorem failure_untouched {V W : Type} (H : Hooks V) (hH : H.Contract) (F : ForkHooks W) (hF : F.Contract) :
    (∀ s s', (snapshot H).run s = (.ok none, s') → s.mgr.Untouched s'.mgr) ∧
      (∀ id s s', (restore H id).run s = (.ok false, s') → s.mgr.Untouched s'.mgr) ∧
      (∀ hostSrc path s s', (copyIn H hostSrc path).run s = (.ok false, s') → s.mgr.Untouched s'.mgr) ∧
      (∀ path hostDst s s', (copyOut H path hostDst).run s = (.ok false, s') → s.mgr.Untouched s'.mgr) ∧
      ∀ op o s s', PublicOp.Reports op → (PublicOp.prog F op).run s = (.ok o, s') → Outcome.Failure o →
        s.mgr.Untouched s'.mgr := by
  exact ⟨fun s s' h => Clean.untouched (fun _ => clean_snapshot hH) h rfl, fun id s s' h => Clean.untouched (fun _ => clean_restore hH) h rfl,
    fun hostSrc path s s' h => Clean.untouched (fun _ => clean_copyIn hH) h rfl,
    fun path hostDst s s' h => Clean.untouched (fun _ => clean_copyOut hH) h rfl,
    fun op o s s' hop h ho => Clean.untouched (fun _ => clean_prog hF hop) h ho⟩

open EnvironmentManager ForkableEnvironmentManager in
/-- A tape has no snapshot `v3f2a`, and a fleet without ids to come cannot materialize `base`. -/
theorem failure_untouched_restore :
    let s := Sys.startedAt "base" "base" (Tape.start [] [] [])
    let s' := Fleet.start [] []
    s.mgr.Untouched ((restore Tape.backend.hooks "v3f2a").run s).2.mgr ∧
      s'.mgr.Untouched ((PublicOp.prog (Fleet.sole true).hooks (.restore "base")).run s').2.mgr := by
  have h := failure_untouched Tape.backend.hooks Tape.backend.hooks_contract (Fleet.sole true).hooks
    ((Fleet.sole true).hooks_contract fun _ _ _ he => nomatch he)
  refine ⟨h.2.1 "v3f2a" _ _ (Prod.ext ?_ rfl), h.2.2.2.2 _ (.flag false) _ _ (.restore "base") (Prod.ext ?_ rfl) .false⟩
  · rfl
  · rfl

end StateFork
