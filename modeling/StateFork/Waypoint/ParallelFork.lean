import StateFork.Forkable.Fork
import StateFork.Forkable.Usable
import StateFork.Waypoint.ForkLine

/-!
# Forking in parallel

`_core_fork` runs one `waypoint fork` per request on a pool of threads and folds the results in the order of the
requests. A command that fails, or prints nothing that can be parsed, is left out. One that cannot be launched raises
out of the fold, so that the branches that its siblings have started are registered nowhere (`parallelFork_iff`).
-/

namespace StateFork

open Conc Conc.Prog ForkableEnvironmentManager

/-- A `waypoint fork` of a batch, as its worker saw it, and what the backend made of it. -/
structure ForkAttempt where
  process : Process
  elapsed : ℚ
  /-- The branch that the backend started; none for a request that was cancelled before its worker came to it. -/
  created : Option String
  deriving DecidableEq

/-- The pool of a `_core_fork`, with an attempt for each request, in the order of the requests. -/
structure ForkPool (W : Type) where
  run (snapshotId : String) (requestedIds : List (Option String)) : W → List ForkAttempt × W
  length_run : ∀ snapshotId requestedIds w, (run snapshotId requestedIds w).1.length = requestedIds.length

namespace WaypointAttachManager

/-- The worker of a request. -/
def materialize (snapshotId : String) (attempt : ForkAttempt) : Except PyError (Option (EnvironmentBranch × ℚ)) :=
  match attempt.process with
  | .exited returncode stdout _ =>
    -- `check=True`
    if returncode ≠ 0 then .ok none
    else .ok ((WaypointFork.parseForkLine stdout snapshotId).map fun fork => (fork.toEnvironmentBranch, attempt.elapsed))
  | .timedOut _ _ => .error ⟨.other, "timed out"⟩
  | .raised e => .error e

/-- The loop over `pool.map`, which raises what a worker raised. -/
def collectResults (snapshotId : String) : List ForkAttempt → Except PyError (List (EnvironmentBranch × ℚ))
  | [] => .ok []
  | attempt :: attempts => do
    match ← materialize snapshotId attempt with
    | none => collectResults snapshotId attempts
    | some outcome =>
      let results ← collectResults snapshotId attempts
      return outcome :: results

variable {W : Type} (pool : ForkPool W)

/-- `_core_fork` -/
def coreFork (snapshotId : String) (requestedIds : List (Option String)) (w : W) :
    Except PyError (List (EnvironmentBranch × ℚ)) × W :=
  let (attempts, w) := pool.run snapshotId requestedIds w
  (collectResults snapshotId attempts, w)

/-- A backend that forks on the pool. -/
def forking (B : ForkableBackend W) : ForkableBackend W := { B with fork := coreFork pool }

end WaypointAttachManager

namespace ForkAttempt

/-- The branch of a command that succeeded and said so. -/
def branch (snapshotId : String) (attempt : ForkAttempt) : Option EnvironmentBranch :=
  match attempt.process with
  | .exited returncode stdout _ =>
    if returncode ≠ 0 then none
    else (WaypointFork.parseForkLine stdout snapshotId).map fun fork => fork.toEnvironmentBranch
  | _ => none

/-- The command ran to its end. -/
def Ran (attempt : ForkAttempt) : Prop := ∃ returncode stdout stderr, attempt.process = .exited returncode stdout stderr

end ForkAttempt

namespace Manager

/-- The branch is live, and its record active. -/
def LiveActive (m : Manager) (b : String) : Prop := b ∈ m.liveBranches.keys ∧ m.UsableBranch b

end Manager

open WaypointAttachManager

section Fold

variable {snapshotId : String} {attempts : List ForkAttempt}

theorem materialize_of_ran {attempt : ForkAttempt} (h : attempt.Ran) :
    materialize snapshotId attempt = .ok ((attempt.branch snapshotId).map fun fork => (fork, attempt.elapsed)) := by
  obtain ⟨returncode, stdout, stderr, h⟩ := h
  simp only [materialize, ForkAttempt.branch, h]
  split_ifs
  · rfl
  · rw [Option.map_map]
    rfl

theorem materialize_of_not_ran (snapshotId : String) {attempt : ForkAttempt} (h : ¬ attempt.Ran) :
    ∃ e, materialize snapshotId attempt = .error e := by
  unfold materialize
  cases hprocess : attempt.process with
  | exited returncode stdout stderr => exact absurd ⟨_, _, _, hprocess⟩ h
  | timedOut => exact ⟨_, rfl⟩
  | raised e => exact ⟨e, rfl⟩

theorem collectResults_cons {attempt : ForkAttempt} (h : attempt.Ran) (attempts : List ForkAttempt) :
    collectResults snapshotId (attempt :: attempts) = (collectResults snapshotId attempts).map fun results =>
      ((attempt.branch snapshotId).map fun fork => (fork, attempt.elapsed)).toList ++ results := by
  rw [collectResults, materialize_of_ran h]
  cases attempt.branch snapshotId with
  | none => cases collectResults snapshotId attempts <;> rfl
  | some fork => cases collectResults snapshotId attempts <;> rfl

/-- If every command ran, the loop has the branches in the order of the requests. -/
theorem collectResults_ok (snapshotId : String) (h : ∀ a ∈ attempts, a.Ran) :
    ∃ results, collectResults snapshotId attempts = .ok results ∧
      results.map Prod.fst = attempts.filterMap (·.branch snapshotId) := by
  induction attempts with
  | nil => exact ⟨[], rfl, rfl⟩
  | cons a attempts ih =>
    obtain ⟨results, hresults, hbranches⟩ := ih fun a' ha' => h a' (List.mem_cons_of_mem _ ha')
    rw [collectResults_cons (h a (List.mem_cons_self ..)), hresults]
    refine ⟨_, rfl, ?_⟩
    rw [List.map_append, hbranches]
    cases hbranch : a.branch snapshotId with
    | none => rw [List.filterMap_cons_none hbranch]; rfl
    | some fork => rw [List.filterMap_cons_some hbranch]; rfl

/-- A command that did not run stops the loop. -/
theorem collectResults_raises (snapshotId : String) (h : ∃ a ∈ attempts, ¬ a.Ran) : ∃ e, collectResults snapshotId attempts = .error e := by
  induction attempts with
  | nil => exact absurd h (by simp)
  | cons a attempts ih =>
    by_cases ha : a.Ran
    · obtain ⟨a', ha', hnot⟩ := h
      have hlater : a' ∈ attempts := by
        rcases List.mem_cons.mp ha' with rfl | hlater
        · exact absurd ha hnot
        · exact hlater
      obtain ⟨e, he⟩ := ih ⟨a', hlater, hnot⟩
      exact ⟨e, by rw [collectResults_cons ha, he]; rfl⟩
    · obtain ⟨e, he⟩ := materialize_of_not_ran snapshotId ha
      exact ⟨e, by rw [collectResults, he]; rfl⟩

end Fold

/-! ### The live registry after a fork -/

namespace Regular

variable {m : Manager}

theorem liveActive_registerOutcome_iff (h : Regular m) (outcome : EnvironmentBranch × ℚ) (b : String) :
    (m.registerOutcome true outcome).LiveActive b ↔ b = outcome.1.id ∨ m.LiveActive b := by
  have hlive : b ∈ (m.registerOutcome true outcome).liveBranches.keys ↔ b = outcome.1.id ∨ b ∈ m.liveBranches.keys := by
    rw [Manager.registerOutcome_eq]
    unfold Manager.registerBranch
    dsimp only [Manager.newLiveObject]
    cases m.branches.get? outcome.1.id with
    | some r => exact Dict.mem_keys_set
    | none => exact Dict.mem_keys_set
  by_cases hb : b = outcome.1.id
  · subst hb
    obtain ⟨r, hr, hrecord⟩ := record_registerOutcome_self m true outcome
    refine iff_of_true ⟨hlive.mpr (.inl rfl), r, hr, ?_⟩ (.inl rfl)
    rcases hrecord with ⟨-, hrecord⟩ | ⟨-, hrecord⟩
    · rw [hrecord]
    · rw [hrecord]
  · obtain ⟨hget, hrecord⟩ := h.record_registerOutcome_of_ne true outcome hb
    unfold Manager.LiveActive Manager.UsableBranch
    rw [hlive, hget]
    simp only [hb, false_or]
    refine and_congr_right fun _ => exists_congr fun r => and_congr_right fun hr => ?_
    rw [hrecord r hr]

theorem liveActive_registerOutcomes_iff (h : Regular m) (outcomes : List (EnvironmentBranch × ℚ)) (b : String) :
    (outcomes.foldl (Manager.registerOutcome true) m).LiveActive b ↔
      (∃ o ∈ outcomes, b = o.1.id) ∨ m.LiveActive b := by
  induction outcomes generalizing m with
  | nil => simp
  | cons o outcomes ih =>
    rw [List.foldl_cons, ih (h.registerOutcome true o), h.liveActive_registerOutcome_iff]
    simp only [List.mem_cons, exists_eq_or_imp]
    rw [or_left_comm, or_assoc]

end Regular

/-! ### The fork of a batch -/

section Batch

variable {W : Type} (pool : ForkPool W) (B : ForkableBackend W)

/-- The attempts that a `fork` sets off, none if it refuses the request. -/
def forkAttempts (snapshotId : String) (n : Int) (ids : Option (List String)) (s : Sys W) : List ForkAttempt :=
  match forkRequest s.mgr snapshotId n ids with
  | none => []
  | some requestedIds => (pool.run snapshotId requestedIds s.world).1

/-- A fork returns the branches of the commands that succeeded, and every branch that the backend has started is live
and active. -/
structure ForksAccounted (attempts : List ForkAttempt) (snapshotId : String)
    (x : Except PyError (List EnvironmentBranch) × Sys W) : Prop where
  returned : x.1 = .ok (attempts.filterMap (·.branch snapshotId))
  registered : ∀ a ∈ attempts, ∀ b, a.created = some b → x.2.mgr.LiveActive b

/-- Every command runs, and every branch that the backend starts is announced. -/
structure Announced (attempts : List ForkAttempt) (snapshotId : String) (m : Manager) : Prop where
  ran : ∀ a ∈ attempts, a.Ran
  announced : ∀ a ∈ attempts, ∀ b, a.created = some b →
    (∃ a' ∈ attempts, ∃ branch, a'.branch snapshotId = some branch ∧ b = branch.id) ∨ m.LiveActive b

/-- A fork of any batch is accounted for exactly if every command of the batch runs, and every branch that the backend
starts is announced in the output of a command. -/
theorem parallelFork_iff (s : Sys W) (h : Regular s.mgr) (snapshotId : String) (n : Int) (ids : Option (List String)) :
    ForksAccounted (forkAttempts pool snapshotId n ids s) snapshotId
        ((fork (forking pool B).hooks snapshotId n ids).run s) ↔
      Announced (forkAttempts pool snapshotId n ids s) snapshotId s.mgr := by
  rw [ForkableBackend.run_fork]
  unfold forkAttempts
  cases hrequest : forkRequest s.mgr snapshotId n ids with
  | none => exact iff_of_true ⟨rfl, by simp⟩ ⟨by simp, by simp⟩
  | some requestedIds =>
    dsimp only [ForkableBackend.materialized, forking, coreFork]
    generalize (pool.run snapshotId requestedIds s.world).1 = attempts
    by_cases hran : ∀ a ∈ attempts, a.Ran
    · obtain ⟨results, hresults, hbranches⟩ := collectResults_ok snapshotId hran
      rw [hresults]
      have hlive (b : String) : (results.foldl (Manager.registerOutcome true) s.mgr).LiveActive b ↔
          (∃ a ∈ attempts, ∃ branch, a.branch snapshotId = some branch ∧ b = branch.id) ∨ s.mgr.LiveActive b := by
        rw [h.liveActive_registerOutcomes_iff]
        refine or_congr_left ?_
        have hmem (branch : EnvironmentBranch) :
            branch ∈ results.map Prod.fst ↔ ∃ a ∈ attempts, a.branch snapshotId = some branch := by
          rw [hbranches, List.mem_filterMap]
        constructor
        · rintro ⟨o, ho, rfl⟩
          obtain ⟨a, ha, hbranch⟩ := (hmem o.1).mp (List.mem_map_of_mem ho)
          exact ⟨a, ha, o.1, hbranch, rfl⟩
        · rintro ⟨a, ha, branch, hbranch, rfl⟩
          obtain ⟨o, ho, rfl⟩ := List.mem_map.mp ((hmem branch).mpr ⟨a, ha, hbranch⟩)
          exact ⟨o, ho, rfl⟩
      constructor
      · intro haccounted
        exact ⟨hran, fun a ha b hb => (hlive b).mp (haccounted.registered a ha b hb)⟩
      · intro hannounced
        exact ⟨congrArg Except.ok hbranches, fun a ha b hb => (hlive b).mpr (hannounced.announced a ha b hb)⟩
    · refine iff_of_false (fun haccounted => ?_) fun hannounced => hran hannounced.ran
      obtain ⟨a, ha⟩ := not_forall.mp hran
      obtain ⟨e, he⟩ := collectResults_raises snapshotId ⟨a, Classical.not_imp.mp ha⟩
      have hreturned := haccounted.returned
      rw [he] at hreturned
      cases hreturned

end Batch

/-- A pool that runs out of processes behind the given attempts. -/
def ForkPool.limited (attempts : List ForkAttempt) : ForkPool Fleet where
  run _ requestedIds w :=
    (requestedIds.mapIdx fun i _ =>
      attempts.getD i ⟨.raised ⟨.osError, "[Errno 11] Resource temporarily unavailable"⟩, 0, none⟩, w)
  length_run _ _ _ := List.length_mapIdx

/-- A fork that works. -/
def forkedLine : ForkAttempt :=
  ⟨.exited 0 "3f2a9c41 pid=4711 socket=/run/3f2a.sock duration=0.2s\n" "", 1, some "3f2a9c41"⟩

/-- The second of three forks exits with an error, and the third prints nothing. -/
theorem parallelFork_partly :
    ForksAccounted
      [forkedLine, ⟨.exited 1 "" "checkpoint is busy", 1, none⟩, ⟨.exited 0 "\n" "", 1, none⟩] "base"
      ((fork (forking (ForkPool.limited
          [forkedLine, ⟨.exited 1 "" "checkpoint is busy", 1, none⟩, ⟨.exited 0 "\n" "", 1, none⟩])
        (Fleet.backend true)).hooks "base" 3 none).run (Fleet.start [] [])) := by
  refine (parallelFork_iff (ForkPool.limited
    [forkedLine, ⟨.exited 1 "" "checkpoint is busy", 1, none⟩, ⟨.exited 0 "\n" "", 1, none⟩]) (Fleet.backend true)
    (Fleet.start [] []) (.seeded "base" "base") "base" 3 none).mpr ⟨fun a ha => ?_, fun a ha b hb => .inl ?_⟩
  · rcases ha with _ | ⟨_, _ | ⟨_, _ | ⟨_, ⟨⟩⟩⟩⟩
    · exact ⟨_, _, _, rfl⟩
    · exact ⟨_, _, _, rfl⟩
    · exact ⟨_, _, _, rfl⟩
  · rcases ha with _ | ⟨_, _ | ⟨_, _ | ⟨_, ⟨⟩⟩⟩⟩
    · cases hb
      exact ⟨forkedLine, List.mem_cons_self .., ⟨"3f2a9c41", "base", "running"⟩, by decide +kernel, rfl⟩
    · cases hb
    · cases hb

/-- The second of two forks cannot be launched. The first one has started a branch, which is neither returned nor
live. -/
theorem not_parallelFork_limited :
    let x := (fork (forking (ForkPool.limited [forkedLine]) (Fleet.backend true)).hooks "base" 2 none).run
      (Fleet.start [] [])
    ¬ ForksAccounted (forkAttempts (ForkPool.limited [forkedLine]) "base" 2 none (Fleet.start [] [])) "base" x ∧
      x.1 = .error ⟨.osError, "[Errno 11] Resource temporarily unavailable"⟩ ∧
      "3f2a9c41" ∉ x.2.mgr.liveBranches.keys := by
  intro x
  have hraised : x.1 = .error ⟨.osError, "[Errno 11] Resource temporarily unavailable"⟩ := by decide +kernel
  refine ⟨fun h => ?_, hraised, by decide +kernel⟩
  have hreturned := h.returned
  rw [hraised] at hreturned
  cases hreturned

end StateFork
