import StateFork.Waypoint.Cli

/-!
# What the `waypoint` binary promises

`Honours` says what the commands of the binary do to the branches of a session: those that succeed, those that fail, and
what the binary prints about them. With a binary that honours this, the hooks of the manager isolate the branches
(`WaypointCli.isolating`).
-/

namespace StateFork

open Conc Conc.Prog Branching EnvironmentManager ForkableEnvironmentManager WaypointAttachManager

variable {W E : Type}

/-! ### What the commands do -/

def Process.Succeeded (p : Process) : Prop := ∃ stdout stderr, p = .exited 0 stdout stderr

/-- The environment of `b` is stored under `id`, and what becomes of `b` is `after` of it. -/
def Sealed (live : W → String → Option (String × E)) (stored : W → String → Option E) (b id : String)
    (after : E → Option (String × E)) (w w' : W) : Prop :=
  ∃ base e, live w b = some (base, e) ∧ live w' = Function.update (live w) b (after e) ∧ stored w' id = some e ∧
    ∀ id', id' ≠ id → Stays stored w w' id'

/-- A branch is gone, and nothing else has changed. -/
def Destroyed (live : W → String → Option (String × E)) (stored : W → String → Option E) (b : String) (w w' : W) :
    Prop :=
  live w' = Function.update (live w) b none ∧ ∀ id, Stays stored w w' id

/-- The entries name the live branches, each with the checkpoint on which it stands. -/
structure Enumerates (live : String → Option (String × E)) (entries : List ForkEntry) : Prop where
  distinct : (entries.filterMap ForkEntry.id).Nodup
  named : ∀ entry ∈ entries, entry.id ≠ some ""
  exact : ∀ b base, (live b).map Prod.fst = some base ↔
    ∃ entry ∈ entries, entry.id = some b ∧ entry.baseCheckpointId.getD "" = base

/-- The branches are new and distinct, and each of them is what is stored under the snapshot. -/
def Branched (live : W → String → Option (String × E)) (stored : W → String → Option E) (snapshotId : String)
    (branches : List EnvironmentBranch) (w w' : W) : Prop :=
  (∀ o ∈ branches, live w o.id = none ∧ stored w snapshotId ≠ none) ∧ (branches.map EnvironmentBranch.id).Nodup ∧
    (live w' = fun b => if b ∈ branches.map EnvironmentBranch.id then (stored w snapshotId).map fun e => (snapshotId, e)
      else live w b) ∧
    ∀ id, Stays stored w w' id

/-- The binary is there and its commands run to their ends; a command concerns the branch that it names, and one that
fails leaves the session as it was. The forks of a batch do not get in each other's way. -/
structure WaypointCli.Honours (C : WaypointCli W) (pool : ForkPool W) (sessionId : String)
    (live : W → String → Option (String × E)) (stored : W → String → Option E) : Prop where
  executable : ∀ w, (C.executable w).1 = true ∧ live (C.executable w).2 = live w ∧ stored (C.executable w).2 = stored w
  exits : ∀ args w, ∃ returncode stdout stderr, (C.launch args none w).1 = .exited returncode stdout stderr
  fails : ∀ args w, ¬ (C.launch args none w).1.Succeeded → Unmoved live stored w (C.launch args none w).2
  snapshot : ∀ (park : Bool) b id w, id ≠ "" →
    let x := C.launch (["snapshot", sessionId, b, id] ++ if park then ["--park"] else []) none w
    x.1.Succeeded → Sealed live stored b id (fun e => if park then none else some (id, e)) w x.2
  destroy : ∀ b w, let x := C.launch ["destroy", sessionId, b] none w
    x.1.Succeeded → Destroyed live stored b w x.2
  list : ∀ w, Unmoved live stored w (C.launch ["list", sessionId, "--json"] none w).2
  forksOf : ∀ w stdout stderr, (C.launch ["list", sessionId, "--json"] none w).1 = .exited 0 stdout stderr →
    C.forksOf stdout = .ok none ∨ ∃ entries, C.forksOf stdout = .ok (some entries) ∧ Enumerates (live w) entries
  checkpointsOf : ∀ w stdout stderr, (C.launch ["list", sessionId, "--json"] none w).1 = .exited 0 stdout stderr →
    C.checkpointsOf stdout = .ok none ∨
      ∃ checkpoints, C.checkpointsOf stdout = .ok (some checkpoints) ∧ ∀ c ∈ checkpoints, stored w c.id ≠ none
  exec : ∀ b command timeout w,
    AltersOnly live stored b w (C.launch ["exec", sessionId, b, "--", command] timeout w).2
  copyIn : ∀ b hostPath envPath w,
    AltersOnly live stored b w (C.launch (copyArgs sessionId b hostPath envPath true) none w).2
  copyOut : ∀ b hostPath envPath w,
    Unmoved live stored w (C.launch (copyArgs sessionId b hostPath envPath false) none w).2
  fork : ∀ snapshotId requestedIds w, let x := pool.run snapshotId requestedIds w
    (∀ attempt ∈ x.1, attempt.Ran) ∧
      Branched live stored snapshotId (x.1.filterMap (ForkAttempt.branch snapshotId)) w x.2
  time : ∀ w, Unmoved live stored w (C.time w).2
  uuid4Hex : ∀ w, (C.uuid4Hex w).1.length = 32 ∧ Unmoved live stored w (C.uuid4Hex w).2

section

variable {live : W → String → Option (String × E)} {stored : W → String → Option E} {w w' w₁ w₂ : W} {b id : String}

theorem Sealed.of_unmoved {after : E → Option (String × E)} (h : Sealed live stored b id after w₁ w₂)
    (hbefore : Unmoved live stored w w₁) (hafter : Unmoved live stored w₂ w') : Sealed live stored b id after w w' := by
  obtain ⟨base, e, hhere, hlive, hstored, hstays⟩ := h
  rw [hbefore.live] at hhere hlive
  refine ⟨base, e, hhere, hafter.live.trans hlive, hafter.stored id e hstored, fun id' hne => ?_⟩
  exact (hbefore.stored id').trans ((hstays id' hne).trans (hafter.stored id'))

theorem Destroyed.of_unmoved (h : Destroyed live stored b w₁ w₂) (hbefore : Unmoved live stored w w₁) :
    Destroyed live stored b w w₂ := by
  obtain ⟨hlive, hstays⟩ := h
  rw [hbefore.live] at hlive
  exact ⟨hlive, fun id => (hbefore.stored id).trans (hstays id)⟩

/-- The records of a report are a truthful listing. -/
theorem Enumerates.truthful {entries : List ForkEntry} (h : Enumerates (live w) entries) :
    Truthful (baseOf live w) ((refreshed (fun _ => none) entries).map (·.toEnvironmentBranch)) := by
  have hrecord {entry : ForkEntry} (hentry : entry ∈ entries) {b : String} (hid : entry.id = some b) :
      b ≠ "" := fun he => h.named entry hentry (hid.trans (congrArg some he))
  have hbase (entry : ForkEntry) : (orElse entry.baseCheckpointId none).getD "" = entry.baseCheckpointId.getD "" := by
    unfold orElse
    split_ifs with hnone
    · rcases hnone with hnone | hnone
      · rw [hnone]
      · rw [hnone]
        rfl
    · rfl
  have hmem (b base : String) : (∃ o ∈ (refreshed (fun _ => none) entries).map (·.toEnvironmentBranch),
      o.id = b ∧ o.baseSnapshotId = base) ↔
      ∃ entry ∈ entries, entry.id = some b ∧ entry.baseCheckpointId.getD "" = base := by
    unfold refreshed
    simp only [List.mem_map, List.mem_filterMap]
    constructor
    · rintro ⟨_, ⟨fork, ⟨entry, hentry, hfork⟩, rfl⟩, rfl, rfl⟩
      cases hid : entry.id with
      | none =>
        rw [hid] at hfork
        cases hfork
      | some forkId =>
        rw [hid] at hfork
        dsimp only at hfork
        rw [if_neg (hrecord hentry hid)] at hfork
        obtain rfl := Option.some.inj hfork
        exact ⟨entry, hentry, hid, (hbase entry).symm⟩
    · rintro ⟨entry, hentry, hid, rfl⟩
      refine ⟨_, ⟨forkOf none b entry, ⟨entry, hentry, ?_⟩, rfl⟩, rfl, hbase entry⟩
      rw [hid]
      exact if_neg (hrecord hentry hid)
  have hids : ((refreshed (fun _ => none) entries).map (·.toEnvironmentBranch)).map EnvironmentBranch.id =
      entries.filterMap ForkEntry.id := by
    unfold refreshed
    rw [List.map_map, List.map_filterMap]
    refine List.filterMap_congr fun entry hentry => ?_
    cases hid : entry.id with
    | none => rfl
    | some forkId =>
      dsimp only
      rw [if_neg (hrecord hentry hid)]
      rfl
  exact ⟨hids ▸ h.distinct, fun b base => (h.exact b base).trans (hmem b base).symm⟩

end

/-! ### What the hooks do -/

theorem take_ne_empty {hex : String} (h : hex.length = 32) : (hex.take 8).toString ≠ "" := by
  intro he
  have hlist : hex.toList.take 8 = [] := by
    rw [← String.toList_copy_take]
    exact congrArg String.toList he
  rcases List.take_eq_nil_iff.mp hlist with h8 | hnil
  · exact absurd h8 (by decide)
  · rw [← String.length_toList, hnil] at h
    cases h

namespace WaypointCli

variable {C : WaypointCli W} {pool : ForkPool W} {sessionId : String} {live : W → String → Option (String × E)}
  {stored : W → String → Option E}

namespace Honours

variable (h : C.Honours pool sessionId live stored)

include h

theorem unmoved_executable (w : W) : Unmoved live stored w (C.executable w).2 := by
  obtain ⟨-, hlive, hstored⟩ := h.executable w
  exact ⟨hlive, fun id e he => by rw [hstored, he]⟩

/-- A call of the binary launches it. -/
theorem runWaypoint_eq (args : List String) (timeout : Option ℚ) (w : W) :
    C.runWaypoint args timeout w = C.launch args timeout (C.executable w).2 := by
  unfold runWaypoint
  dsimp only
  rw [(h.executable w).1]
  rfl

/-- A checked command has succeeded, or has failed and left the session as it was. -/
theorem checkWaypoint_cases (args : List String) (w : W) :
    let x := C.launch args none (C.executable w).2
    (∃ stdout stderr, x.1 = .exited 0 stdout stderr ∧ C.checkWaypoint args w = (.ok (.ok stdout), x.2)) ∨
      ((∃ detail, C.checkWaypoint args w = (.ok (.error detail), x.2)) ∧ ¬ x.1.Succeeded ∧
        Unmoved live stored w x.2) := by
  intro x
  obtain ⟨returncode, stdout, stderr, hx⟩ := h.exits args (C.executable w).2
  have hrun : C.runWaypoint args none w = (.exited returncode stdout stderr, x.2) := by
    rw [h.runWaypoint_eq]
    exact Prod.ext hx rfl
  by_cases hcode : returncode = 0
  · subst hcode
    refine .inl ⟨stdout, stderr, hx, ?_⟩
    unfold checkWaypoint
    rw [hrun]
    rfl
  · have hfailed : ¬ x.1.Succeeded := by
      rintro ⟨_, _, he⟩
      rw [show x.1 = _ from hx] at he
      cases he
      exact hcode rfl
    refine .inr ⟨⟨C.cpeDetail args returncode stdout stderr, ?_⟩, hfailed, (h.unmoved_executable w).trans (h.fails args _ hfailed)⟩
    unfold checkWaypoint
    rw [hrun]
    dsimp only
    rw [if_neg hcode]

/-- A snapshot seals the branch under an id of its own, or it fails and leaves the session as it was. -/
theorem snapshotWaypoint_cases (park : Bool) (b : String) (w : W) :
    (∃ id elapsed w', C.snapshotWaypoint sessionId park b w = (.ok (some (id, id), elapsed), w') ∧ id ≠ "" ∧
        Sealed live stored b id (fun e => if park then none else some (id, e)) w w') ∨
      ∃ w', C.snapshotWaypoint sessionId park b w = (.ok (none, 0), w') ∧ Unmoved live stored w w' := by
  obtain ⟨hlength, huuid⟩ := h.uuid4Hex w
  set id := ((C.uuid4Hex w).1.take 8).toString with hid
  have hnamed : id ≠ "" := take_ne_empty hlength
  set w₁ := (C.time (C.uuid4Hex w).2).2
  have hstart : Unmoved live stored w w₁ := huuid.trans (h.time _)
  set args := ["snapshot", sessionId, b, id] ++ if park then ["--park"] else []
  rcases h.checkWaypoint_cases args w₁ with ⟨stdout, stderr, hexit, hcheck⟩ | ⟨⟨detail, hcheck⟩, -, hquiet⟩
  · refine .inl ⟨id, (C.time (C.launch args none (C.executable w₁).2).2).1 - (C.time (C.uuid4Hex w).2).1, (C.time (C.launch args none (C.executable w₁).2).2).2, ?_, hnamed, ?_⟩
    · unfold snapshotWaypoint
      dsimp only
      rw [hcheck]
    · have hseal := h.snapshot park b id (C.executable w₁).2 hnamed ⟨stdout, stderr, hexit⟩
      exact hseal.of_unmoved (hstart.trans (h.unmoved_executable w₁)) (h.time _)
  · refine .inr ⟨(C.launch args none (C.executable w₁).2).2, ?_, hstart.trans hquiet⟩
    unfold snapshotWaypoint
    dsimp only
    rw [hcheck]

/-- A checked command whose success and failure leave the branches to the caller. -/
theorem unmoved_checkWaypoint {args : List String} (hargs : ∀ w, Unmoved live stored w (C.launch args none w).2) (w : W) :
    Unmoved live stored w (C.checkWaypoint args w).2 := by
  rcases h.checkWaypoint_cases args w with ⟨_, _, -, hcheck⟩ | ⟨⟨_, hcheck⟩, -, hquiet⟩
  · rw [hcheck]
    exact (h.unmoved_executable w).trans (hargs _)
  · rw [hcheck]
    exact hquiet

theorem listing_world {α : Type} (read : String → Except PyError (Option α)) (w : W) :
    Unmoved live stored w (C.listing sessionId read w).2 := by
  have hworld : (C.listing sessionId read w).2 = (C.checkWaypoint ["list", sessionId, "--json"] w).2 := by
    unfold listing
    rcases C.checkWaypoint ["list", sessionId, "--json"] w with ⟨e | detail | stdout, w'⟩
    · rfl
    · rfl
    · rfl
  rw [hworld]
  exact h.unmoved_checkWaypoint h.list w

/-- A listing is empty-handed, or what the method reads in the output of the command. -/
theorem listing_cases {α : Type} (read : String → Except PyError (Option α)) (w : W) :
    (C.listing sessionId read w).1 = .ok none ∨ ∃ stdout stderr,
      (C.launch ["list", sessionId, "--json"] none (C.executable w).2).1 = .exited 0 stdout stderr ∧
        (C.listing sessionId read w).1 = read stdout := by
  unfold listing
  rcases h.checkWaypoint_cases ["list", sessionId, "--json"] w with ⟨stdout, stderr, hexit, hcheck⟩ | ⟨⟨_, hcheck⟩, -, -⟩
  · rw [hcheck]
    exact .inr ⟨stdout, stderr, hexit, rfl⟩
  · rw [hcheck]
    exact .inl rfl

theorem discard_cases (b : String) (w : W) :
    (∃ w', C.coreDiscardBranch sessionId b w = (.ok true, w') ∧ Destroyed live stored b w w') ∨
      ∃ w', C.coreDiscardBranch sessionId b w = (.ok false, w') ∧ Unmoved live stored w w' := by
  unfold coreDiscardBranch
  rcases h.checkWaypoint_cases ["destroy", sessionId, b] w with ⟨stdout, stderr, hexit, hcheck⟩ | ⟨⟨_, hcheck⟩, -, hquiet⟩
  · rw [hcheck]
    exact .inl ⟨_, rfl, (h.destroy b _ ⟨stdout, stderr, hexit⟩).of_unmoved (h.unmoved_executable w)⟩
  · rw [hcheck]
    exact .inr ⟨_, rfl, hquiet⟩

/-- The forks of a batch are the branches that their outputs name. -/
theorem fork_eq (snapshotId : String) (requestedIds : List (Option String)) (w : W) :
    ∃ outcomes, coreFork pool snapshotId requestedIds w = (.ok outcomes, (pool.run snapshotId requestedIds w).2) ∧
      outcomes.map Prod.fst = (pool.run snapshotId requestedIds w).1.filterMap (ForkAttempt.branch snapshotId) := by
  obtain ⟨outcomes, hcollect, hbranches⟩ := collectResults_ok snapshotId (h.fork snapshotId requestedIds w).1
  refine ⟨outcomes, ?_, hbranches⟩
  unfold coreFork
  dsimp only
  rw [hcollect]

omit h in
theorem baseSnapshotId_of_branch {attempt : ForkAttempt} {snapshotId : String} {o : EnvironmentBranch}
    (ho : attempt.branch snapshotId = some o) : o.baseSnapshotId = snapshotId := by
  unfold ForkAttempt.branch at ho
  split at ho
  · split_ifs at ho
    obtain ⟨fork, hfork, rfl⟩ := Option.map_eq_some_iff.mp ho
    exact WaypointFork.baseSnapshotId_of_parseForkLine hfork
  · cases ho

theorem exec_altersOnly (b : String) (command : Command) (timeout : Option ℚ) (w : W) :
    AltersOnly live stored b w (C.coreExec sessionId command timeout b w).2 := by
  unfold coreExec WaypointShell.execRaw WaypointShell.process
  dsimp only
  split_ifs
  · exact (Unmoved.refl ..).within b
  · show AltersOnly live stored b w (C.runWaypoint ["exec", sessionId, b, "--", command.toShell] timeout w).2
    rw [h.runWaypoint_eq]
    exact ((h.unmoved_executable w).within b).trans (h.exec b command.toShell timeout _)

omit h in
theorem coreCopy_world (b hostPath envPath : String) (into : Bool) (w : W) :
    (C.coreCopy sessionId b hostPath envPath into w).2 = w ∨ (C.coreCopy sessionId b hostPath envPath into w).2 =
      (C.checkWaypoint (copyArgs sessionId b (C.abspath hostPath w) envPath into) w).2 := by
  unfold coreCopy
  split_ifs
  · exact .inl rfl
  · right
    rcases C.checkWaypoint (copyArgs sessionId b (C.abspath hostPath w) envPath into) w with ⟨e | detail | stdout, w'⟩
    · rfl
    · rfl
    · rfl

theorem copyIn_altersOnly (b hostPath envPath : String) (w : W) :
    AltersOnly live stored b w (C.coreCopy sessionId b hostPath envPath true w).2 := by
  rcases coreCopy_world b hostPath envPath true w with hworld | hworld
  · rw [hworld]
    exact (Unmoved.refl ..).within b
  · rw [hworld]
    rcases h.checkWaypoint_cases (copyArgs sessionId b (C.abspath hostPath w) envPath true) w with
      ⟨_, _, -, hcheck⟩ | ⟨⟨_, hcheck⟩, -, hquiet⟩
    · rw [hcheck]
      exact ((h.unmoved_executable w).within b).trans (h.copyIn b _ envPath _)
    · rw [hcheck]
      exact hquiet.within b

end Honours

/-- With a binary that honours what its commands are there for, the hooks isolate. -/
theorem isolating (h : C.Honours pool sessionId live stored) :
    Isolating (C.backend sessionId pool).toForkableBackend live stored where
  captured b w id resource elapsed w' hr := by
    have hr' : C.snapshotWaypoint sessionId false b w = (.ok (some (id, resource), elapsed), w') := hr
    rcases h.snapshotWaypoint_cases false b w with ⟨id', elapsed', w'', hsnapshot, hid, hseal⟩ | ⟨w'', hsnapshot, -⟩
    · rw [hsnapshot] at hr'
      cases hr'
      exact ⟨hid, hseal⟩
    · rw [hsnapshot] at hr'
      cases hr'
  notCaptured b w r w' hr hfailed := by
    have hr' : C.snapshotWaypoint sessionId false b w = (r, w') := hr
    rcases h.snapshotWaypoint_cases false b w with ⟨id, elapsed, w'', hsnapshot, -, -⟩ | ⟨w'', hsnapshot, hquiet⟩
    · rw [hsnapshot] at hr'
      cases hr'
      exact absurd rfl (hfailed _ _)
    · rw [hsnapshot] at hr'
      cases hr'
      exact hquiet
  forked s requestedIds w outcomes w' hr := by
    obtain ⟨outcomes', hfork, hbranches⟩ := h.fork_eq s requestedIds w
    have hr' : coreFork pool s requestedIds w = (.ok outcomes, w') := hr
    rw [hfork] at hr'
    cases hr'
    obtain ⟨-, hnew, hdistinct, hlive, hstays⟩ := h.fork s requestedIds w
    rw [← hbranches] at hnew hdistinct hlive
    have hids : (outcomes.map Prod.fst).map EnvironmentBranch.id = outcomes.map fun o => o.1.id := List.map_map
    rw [hids] at hdistinct hlive
    refine ⟨fun o ho => ⟨?_, hnew o.1 (List.mem_map_of_mem ho)⟩, hdistinct, hlive, hstays⟩
    have hmem : o.1 ∈ outcomes.map Prod.fst := List.mem_map_of_mem ho
    rw [hbranches] at hmem
    obtain ⟨attempt, -, hbranch⟩ := List.mem_filterMap.mp hmem
    exact Honours.baseSnapshotId_of_branch hbranch
  notForked s requestedIds w e w' hr := by
    obtain ⟨outcomes, hfork, -⟩ := h.fork_eq s requestedIds w
    have hr' : coreFork pool s requestedIds w = (.error e, w') := hr
    rw [hfork] at hr'
    cases hr'
  discarded b w w' hr := by
    have hr' : C.coreDiscardBranch sessionId b w = (.ok true, w') := hr
    rcases h.discard_cases b w with ⟨w'', hdiscard, hgone⟩ | ⟨w'', hdiscard, -⟩
    · rw [hdiscard] at hr'
      cases hr'
      exact hgone
    · rw [hdiscard] at hr'
      cases hr'
  notDiscarded b w r w' hr hfailed := by
    have hr' : C.coreDiscardBranch sessionId b w = (r, w') := hr
    rcases h.discard_cases b w with ⟨w'', hdiscard, -⟩ | ⟨w'', hdiscard, hquiet⟩
    · rw [hdiscard] at hr'
      cases hr'
      exact absurd rfl hfailed
    · rw [hdiscard] at hr'
      cases hr'
      exact hquiet
  parked b w id resource elapsed w' hr := by
    have hr' : C.snapshotWaypoint sessionId true b w = (.ok (some (id, resource), elapsed), w') := hr
    rcases h.snapshotWaypoint_cases true b w with ⟨id', elapsed', w'', hpark, hid, hseal⟩ | ⟨w'', hpark, -⟩
    · rw [hpark] at hr'
      cases hr'
      exact ⟨hid, hseal⟩
    · rw [hpark] at hr'
      cases hr'
  notParked b w r w' hr hfailed := by
    have hr' : C.snapshotWaypoint sessionId true b w = (r, w') := hr
    rcases h.snapshotWaypoint_cases true b w with ⟨id, elapsed, w'', hpark, -, -⟩ | ⟨w'', hpark, hquiet⟩
    · rw [hpark] at hr'
      cases hr'
      exact absurd rfl (hfailed _ _)
    · rw [hpark] at hr'
      cases hr'
      exact hquiet
  list w := h.listing_world _ w
  listed w := by
    rcases h.listing_cases _ w with hnone | ⟨stdout, stderr, hexit, hread⟩
    · exact .inl hnone
    · have hlisted : ((C.backend sessionId pool).list w).1 = _ := hread
      rw [hlisted]
      rcases h.forksOf _ stdout stderr hexit with hjson | ⟨entries, hentries, hreports⟩
      · rw [hjson]
        exact .inl rfl
      · rw [hentries]
        have htruthful := hreports.truthful
        rw [(h.unmoved_executable w).base] at htruthful
        exact .inr ⟨_, rfl, htruthful⟩
  exec command timeout b w := h.exec_altersOnly b command timeout w
  copyIn b hostPath envPath w := h.copyIn_altersOnly b hostPath envPath w
  copyOut b hostPath envPath w := by
    have hworlds : (C.coreCopy sessionId b hostPath envPath false w).2 = w ∨ _ :=
      Honours.coreCopy_world b hostPath envPath false w
    rcases hworlds with hworld | hworld
    · show Unmoved live stored w (C.coreCopy sessionId b hostPath envPath false w).2
      rw [hworld]
      exact .refl live stored w
    · show Unmoved live stored w (C.coreCopy sessionId b hostPath envPath false w).2
      rw [hworld]
      exact h.unmoved_checkWaypoint (h.copyOut b (C.abspath hostPath w) envPath) w
  time := h.time
  uuid4Hex w := (h.uuid4Hex w).2

theorem forksOnRequest (h : C.Honours pool sessionId live stored) : (C.backend sessionId pool).ForksOnRequest := by
  intro s requestedIds w outcomes w' hr
  obtain ⟨outcomes', hfork, hbranches⟩ := h.fork_eq s requestedIds w
  have hr' : coreFork pool s requestedIds w = (.ok outcomes, w') := hr
  rw [hfork] at hr'
  cases hr'
  calc outcomes.length = (outcomes.map Prod.fst).length := (List.length_map ..).symm
    _ ≤ (pool.run s requestedIds w).1.length := by
      rw [hbranches]
      exact List.length_filterMap_le ..
    _ = requestedIds.length := pool.length_run s requestedIds w

end WaypointCli

end StateFork
