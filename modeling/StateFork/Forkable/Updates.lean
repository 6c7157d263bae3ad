import StateFork.Controller.Frame
import StateFork.Forkable.Restore

/-!
# The updates that operations are made of

Every public operation of a forkable manager changes the manager by a sequence of `Manager.Update`s, whatever
the backend answers and however the operation ends (`updates_prog`). An invariant of the manager is proved of
one update at a time, and then holds of every state that operations lead to (`Manager.Updates.invariant`).
-/

namespace StateFork

open Conc Conc.Prog

/-- An update that an operation makes with what it knows at that point. Only a restore registers branches that are
inactive, switches to a branch that stays, and positions a branch again. -/
inductive Manager.Update (restoring : Bool) : Manager → Manager → Prop
  | bench (m : Manager) (stats : BenchmarkStats) : Update restoring m { m with stats }
  | cleaned (m : Manager) : Update restoring m { m with isCleanedUp := true }
  | logged (m : Manager) (r : Ref) (command : Command) (counted : ℚ) :
      Update restoring m (m.modifyRecord r fun x =>
        { x with
          cumulativeExecTime := x.cumulativeExecTime + counted
          commandLog := x.commandLog ++ [command] })
  | registered (m : Manager) (snapshotId resource : String) :
      Update restoring m (m.registerSnapshotResource snapshotId resource)
  | listed (m : Manager) (listing : List EnvironmentBranch) : Update restoring m (m.relist listing)
  | forked (m : Manager) {activate : Bool} (outcome : EnvironmentBranch × ℚ)
      (active : activate = true ∨ restoring = true) : Update restoring m (m.registerOutcome activate outcome)
  | committed (m : Manager) (b : String) (state : Ref) (snapshotId : String) (parentId : Option String) :
      Update restoring m (m.commit b state { snapshotId, parentId })
  | recorded (m : Manager) (snapshotId : String) (parentId : Option String) :
      Update restoring m (m.recordSnapshotNode { snapshotId, parentId })
  | switched {m : Manager} {b : String} (registered : b ∈ m.branches.keys) (restores : restoring = true) :
      Update restoring m (m.switch b)
  | stashed {m : Manager} (main : defaultBranchId ∈ m.branches.keys) (notMain : m.currentBranchId ≠ defaultBranchId) :
      Update restoring m ((m.switch defaultBranchId).forget m.currentBranchId)
  | forgotten {m : Manager} {b : String} (notMain : b ≠ defaultBranchId) (notCurrent : b ≠ m.currentBranchId) :
      Update restoring m (m.forget b)
  | positioned (m : Manager) (b : String) (snapshotId : String) (restores : restoring = true) :
      Update restoring m (m.setBranchPosition b (some snapshotId))

/-- Any number of updates. -/
abbrev Manager.Updates (restoring : Bool) : Manager → Manager → Prop :=
  Relation.ReflTransGen (Manager.Update restoring)

/-- The operation is a restore. -/
def PublicOp.restoring : PublicOp → Bool
  | .restore _ => true
  | _ => false

namespace Manager.Updates

variable {restoring : Bool} {m m' m'' : Manager}

theorem bench (h : Updates restoring m m') (stats : BenchmarkStats) : Updates restoring m { m' with stats } :=
  h.tail (.bench m' stats)

/-- An invariant of the updates. -/
theorem invariant {P : Manager → Prop} (step : ∀ m m', Update restoring m m' → P m → P m')
    (h : Updates restoring m m') (hm : P m) : P m' := by
  induction h with
  | refl => exact hm
  | tail _ hlast ih => exact step _ _ hlast ih

theorem forked {activate : Bool} (hactive : activate = true ∨ restoring = true)
    (outcomes : List (EnvironmentBranch × ℚ)) (h : Updates restoring m m') :
    Updates restoring m (outcomes.foldl (Manager.registerOutcome activate) m') := by
  induction outcomes generalizing m' with
  | nil => exact h
  | cons o outcomes ih => exact ih (h.tail (.forked m' o hactive))

end Manager.Updates

namespace ForkableBackend

open EnvironmentManager ForkableEnvironmentManager
open Manager (Updates)

variable {W : Type} (B : ForkableBackend W) {restoring : Bool} {m : Manager}

theorem updates_afterListing {s : Sys W} (h : Updates restoring m s.mgr) :
    Updates restoring m (B.afterListing s).mgr := by
  unfold afterListing
  split
  · exact h.tail (.listed _ _)
  · exact h

theorem updates_listBranches (refresh : M W Unit) :
    KeepsManager (Updates restoring m) (listBranches (B.hooksWith refresh)) := by
  intro s hs
  show Updates restoring m ((listBranches (B.hooksWith refresh)).run s).2.mgr
  rw [(B.run_listBranches refresh s).1]
  exact B.updates_afterListing hs

theorem updates_register (captured : Option (String × String) × ℚ) :
    KeepsManager (Updates restoring m) (register captured : M W (Option String × ℚ)) := by
  obtain ⟨_ | ⟨id, resource⟩, elapsed⟩ := captured
  · exact keeps_ret _
  · refine keeps_bind (fun s hs => ?_) fun _ => keeps_ret _
    rw [registerSnapshotResource, run_updateState]
    exact hs.tail (.registered _ _ _)

theorem updates_coreSnapshot (b : String) : KeepsManager (Updates restoring m) (B.hooks.coreSnapshot b) := by
  refine keeps_bind (leaves_tryWorld _ _).keeps fun captured => keeps_bind (updates_register captured) fun r => ?_
  obtain ⟨id, elapsed⟩ := r
  dsimp only
  split
  · refine keeps_bind ?_ fun _ => keeps_ret _
    unfold refresh
    split
    · exact keeps_bind (B.updates_listBranches _) fun _ => keeps_ret _
    · exact keeps_ret _
  · exact keeps_ret _

theorem updates_snapshotBranch (b : String) :
    KeepsManager (Updates restoring m) (EnvironmentManager.snapshotBranch B.hooks.toHooks b true) := by
  intro s hs
  have hcase := snapshot_cases B.hooks b s
  have hhook := B.updates_coreSnapshot b s hs
  generalize (EnvironmentManager.snapshotBranch B.hooks.toHooks b true).run s = x at hcase ⊢
  cases hcase with
  | unregistered => exact hs
  | retired => exact hs
  | raised hook =>
    rw [hook] at hhook
    exact hhook
  | failed hook =>
    rw [hook] at hhook
    exact hhook
  | committed lookup hactive hook =>
    rw [hook] at hhook
    exact Relation.ReflTransGen.tail (hhook.bench _) (.committed _ _ _ _ _)

theorem updates_execBranch (b : String) (command : Command) (timeout : Option ℚ) :
    KeepsManager (Updates restoring m) (execBranch B.hooks.toHooks b command timeout) :=
  keeps_execBranch (leaves_tryWorld _ fun _ => []).keeps (leaves_world _).keeps (fun _ _ _ _ _ h => h.bench _)
    fun _ _ _ h => h.tail (.logged _ _ _ _)

theorem updates_copyBranch (b hostPath envPath : String) (into : Bool) :
    KeepsManager (Updates restoring m) (copyBranch B.hooks.toHooks b hostPath envPath into) :=
  keeps_copyBranch (leaves_tryWorld _ fun _ => []).keeps (leaves_world _).keeps fun _ _ _ h => h.bench _

/-- What a materialization leaves behind, whatever comes of it. -/
theorem updates_materialized {snapshotId : String} {requestedIds : List (Option String)} {activate : Bool} {s : Sys W}
    (hactive : activate = true ∨ restoring = true) (h : Updates restoring m s.mgr) :
    Updates restoring m (B.materialized snapshotId requestedIds activate s).2.mgr := by
  unfold materialized
  split
  · exact h
  · exact h.forked hactive _

theorem updates_fork (snapshotId : String) (n : Int) (ids : Option (List String)) :
    KeepsManager (Updates restoring m) (ForkableEnvironmentManager.fork B.hooks snapshotId n ids) := by
  intro s hs
  rw [B.run_fork]
  split
  · exact hs
  · exact B.updates_materialized (.inl rfl) hs

theorem updates_discardAnswer {b : String} {s : Sys W} (hgets : discardable s.mgr b = true)
    (h : Updates restoring m s.mgr) : Updates restoring m (B.discardAnswer b s).2.mgr := by
  obtain ⟨hmain, hcurrent, -⟩ := discardable_iff.mp hgets
  unfold discardAnswer
  split
  · exact h
  · exact h
  · exact h.tail (.forgotten hmain hcurrent)

theorem updates_discardBranchBody (b : String) :
    KeepsManager (Updates restoring m) (discardBranchBody B.hooks b) := by
  intro s hs
  rw [B.run_discardBranchBody]
  split_ifs with hgets
  · exact B.updates_discardAnswer hgets hs
  · exact hs

/-- Parking retires a branch that is not the default one; if it was current, the default branch is now. -/
theorem updates_retireParked {b id : String} {parentId : Option String} {elapsed : ℚ} {m' : Manager}
    (hmain : defaultBranchId ∈ m'.branches.keys) (hb : b ≠ defaultBranchId) (h : Updates restoring m m') :
    Updates restoring m (m'.retireParked b id parentId elapsed) := by
  have hrecorded : Updates restoring m (m'.recordSnapshotNode { snapshotId := id, parentId }) :=
    h.tail (.recorded m' _ _)
  set m₁ := (m'.recordSnapshotNode { snapshotId := id, parentId }).addEntry "park" id elapsed b
  have h₁ : Updates restoring m m₁ := hrecorded.bench _
  have hmain₁ : defaultBranchId ∈ m₁.branches.keys := hmain
  show Updates restoring m (Manager.forget (if b = m₁.currentBranchId then (m₁.setCurrentBranch defaultBranchId).2 else m₁) b)
  split_ifs with hcurrent
  · rw [Manager.setCurrentBranch_of_mem hmain₁]
    rw [hcurrent] at hb ⊢
    exact h₁.tail (.stashed hmain₁ hb)
  · exact h₁.tail (.forgotten hb hcurrent)

theorem updates_parkBranchBody {b : String} {s : Sys W} (hmain : defaultBranchId ∈ s.mgr.branches.keys)
    (h : Updates restoring m s.mgr) : Updates restoring m ((parkBranchBody B.hooks b).run s).2.mgr := by
  have hcase := B.park_cases b hmain
  generalize (parkBranchBody B.hooks b).run s = x at hcase ⊢
  cases hcase with
  | refused => exact h
  | raised => exact h
  | failed => exact h
  | @parked r id resource elapsed w notMain =>
    have hregistered : Updates restoring m (s.mgr.registerSnapshotResource id resource) := h.tail (.registered _ _ _)
    exact updates_retireParked hmain notMain hregistered

theorem updates_left {departing restored : String} {s : Sys W} (h : Updates restoring m s.mgr) :
    Updates restoring m (B.left departing restored s).2.mgr := by
  unfold left
  split_ifs with hdeparts hgets
  · exact B.updates_discardAnswer hgets h
  · exact h
  · exact h

theorem updates_switched {snapshotId departing : String} {s : Sys W} (h : Updates true m s.mgr) :
    Updates true m (B.switched snapshotId departing s).2.mgr := by
  unfold switched
  dsimp only
  have hmaterialized : Updates true m
      (B.materialized snapshotId [none] false { s with world := (B.time s.world).2 }).2.mgr :=
    B.updates_materialized (.inr rfl) h
  rcases hm : B.materialized snapshotId [none] false { s with world := (B.time s.world).2 } with
    ⟨e | ⟨_ | ⟨branch, rest⟩⟩, s₁⟩
  · rw [hm] at hmaterialized
    exact hmaterialized
  · rw [hm] at hmaterialized
    exact hmaterialized
  · rw [hm] at hmaterialized
    have hmem := B.mem_keys_materialized hm branch (List.mem_cons_self ..)
    have hswitched : Updates true m ({ s₁ with mgr := s₁.mgr.switch branch.id } : Sys W).mgr :=
      hmaterialized.tail (.switched hmem rfl)
    have hleft : Updates true m (B.left departing branch.id { s₁ with mgr := s₁.mgr.switch branch.id }).2.mgr :=
      B.updates_left hswitched
    dsimp only
    rcases hl : B.left departing branch.id { s₁ with mgr := s₁.mgr.switch branch.id } with ⟨e | _, s₂⟩
    · rw [hl] at hleft
      exact hleft
    · rw [hl] at hleft
      exact hleft

theorem updates_restored {snapshotId : String} {s : Sys W} (h : Updates true m s.mgr) :
    Updates true m (B.restored snapshotId s).2.mgr := by
  unfold restored
  split
  · exact h
  · next departing _ =>
    split
    · exact h
    · have hswitched : Updates true m (B.switched snapshotId departing.id s).2.mgr := B.updates_switched h
      split
      · next hs => rw [hs] at hswitched; exact hswitched
      · next hs => rw [hs] at hswitched; exact hswitched
      · next s₁ hs =>
        rw [hs] at hswitched
        exact Relation.ReflTransGen.tail (hswitched.bench _) (.positioned _ _ _ rfl)

/-- Every public operation, whatever comes of it, makes updates. -/
theorem updates_prog (op : PublicOp) {s : Sys W} (hregular : Regular s.mgr)
    (hmain : defaultBranchId ∈ s.mgr.branches.keys) :
    Updates op.restoring s.mgr ((PublicOp.prog B.hooks op).run s).2.mgr := by
  have hkeeps {α : Type} {p : M W α} (hp : KeepsManager (Updates op.restoring s.mgr) p) (f : α → Outcome) :
      Updates op.restoring s.mgr ((f <$> p).run s).2.mgr :=
    keeps_map f hp s .refl
  have hcurrent {α : Type} {p : String → M W α} (hp : ∀ b, KeepsManager (Updates op.restoring s.mgr) (p b)) :
      KeepsManager (Updates op.restoring s.mgr) (withLock .currentBranch (getCurrentBranchId >>= p)) :=
    hoare_withLock (keeps_bind reads_getCurrentBranchId.keeps hp)
  have hnamed {α : Type} {b : String} {p : M W α} {a c : α} (hp : KeepsManager (Updates op.restoring s.mgr) p) :
      KeepsManager (Updates op.restoring s.mgr)
        (isLive b >>= fun live => if live then onKeyError p a else pure c : M W α) := by
    refine keeps_bind (reads_readState _).keeps fun live => ?_
    split
    · refine keeps_tryCatch hp fun e => ?_
      split
      · exact keeps_ret _
      · exact hoare_throw fun _ hs => hs
    · exact keeps_ret _
  have hpark (b : String) :
      Updates op.restoring s.mgr ((Outcome.snapshotId <$> parkBranch B.hooks b).run s).2.mgr := by
    rw [run_map, parkBranch, run_withLock]
    exact B.updates_parkBranchBody hmain .refl
  cases op with
  | snapshot => exact hkeeps (hcurrent fun b => B.updates_snapshotBranch b) _
  | restore id =>
    show Updates true s.mgr ((Outcome.flag <$> restore B.hooks.toHooks id).run s).2.mgr
    rw [run_map, B.run_restore id hregular]
    exact B.updates_restored .refl
  | execCommand c t => exact hkeeps (hcurrent fun b => B.updates_execBranch b c t) _
  | copyIn src path => exact hkeeps (hcurrent fun b => B.updates_copyBranch b src path true) _
  | copyOut path dst => exact hkeeps (hcurrent fun b => B.updates_copyBranch b dst path false) _
  | cleanup =>
    refine hkeeps (hoare_withLock (keeps_bind (leaves_tryWorld B.cleanup fun _ => []).keeps fun ok => ?_)) _
    exact keeps_bind (fun s' hs' => hs'.tail (.cleaned _)) fun _ => keeps_ret _
  | snapshotBranch b park =>
    cases park with
    | true => exact hpark b
    | false => exact hkeeps (hnamed (B.updates_snapshotBranch b)) _
  | parkBranch b => exact hpark b
  | execOnBranch b c t => exact hkeeps (hnamed (B.updates_execBranch b c t)) _
  | copyInBranch b src path => exact hkeeps (hnamed (B.updates_copyBranch b src path true)) _
  | copyOutBranch b path dst => exact hkeeps (hnamed (B.updates_copyBranch b dst path false)) _
  | fork id n ids => exact hkeeps (B.updates_fork id n ids) _
  | discardBranch b => exact hkeeps (hoare_withLock (B.updates_discardBranchBody b)) _
  | listBranches => exact hkeeps (B.updates_listBranches _) _
  | listSnapshots => exact hkeeps (reads_readState _).keeps _
  | printSnapshotTree limit => exact hkeeps (fun s' hs' => by rw [printSnapshotTree, run_tryState]; exact hs') _
  | currentSnapshot => exact hkeeps (hoare_withLock (keeps_bind (reads_getBranchState none).keeps fun _ => (reads_peek _).keeps)) _
  | currentBranchId => exact hkeeps reads_getCurrentBranchId.keeps _
  | statsLog => exact hkeeps (hoare_withLock (reads_peek _).keeps) _
  | liveBranches => exact hkeeps (reads_readState _).keeps _

end ForkableBackend

end StateFork
