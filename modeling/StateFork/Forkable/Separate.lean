import StateFork.Forkable.LiveObjects
import StateFork.Lib.Separation

/-!
# Backends that keep branches apart

A backend keeps its branches `Apart` if a hook for a branch sees and changes the part of that branch only, and takes
as long as that part says. Then an operation on a named branch is a `Reaction` that the `Sight` of its branch determines:
an answer, a new part, and a `Patch` of the manager that concerns the branch alone.
-/

namespace StateFork

open Conc Conc.Prog EnvironmentManager ForkableEnvironmentManager

/-! ### Backends -/

/-- What a hook for a branch does with its part: the answer, the part afterwards, and the time it takes. -/
abbrev LocalHook (S α : Type) := S → Except PyError α × S × ℚ

/-- The hook sees and changes the part of `b` only. -/
structure ActsOn {W S α : Type} (part : W → String → S) (clock : W → ℚ) (b : String)
    (hook : W → Except PyError α × W) (f : LocalHook S α) : Prop where
  answers : ∀ w, (hook w).1 = (f (part w b)).1
  moves : ∀ w, part (hook w).2 = Function.update (part w) b (f (part w b)).2.1
  lasts : ∀ w, clock (hook w).2 = clock w + (f (part w b)).2.2

theorem ActsOn.result {W S α : Type} {part : W → String → S} {clock : W → ℚ} {b : String}
    {hook : W → Except PyError α × W} {f : LocalHook S α} (h : ActsOn part clock b hook f) {w w' : W}
    {r r' : Except PyError α} {x : S} {t : ℚ} (hhook : hook w = (r, w')) (hf : f (part w b) = (r', x, t)) :
    r = r' ∧ part w' = Function.update (part w) b x ∧ clock w' = clock w + t := by
  have hanswers := h.answers w
  have hmoves := h.moves w
  have hlasts := h.lasts w
  rw [hhook, hf] at hanswers hmoves hlasts
  exact ⟨hanswers, hmoves, hlasts⟩

/-- A backend whose hooks for a branch depend on the part of that branch, and which lists no branches while it takes
a snapshot. -/
structure Apart {W : Type} (B : ForkableBackend W) (S : Type) where
  part : W → String → S
  clock : W → ℚ
  /-- What a reading of the clock costs. -/
  tick : ℚ
  exec (command : Command) (timeout : Option ℚ) (b : String) : LocalHook S (Int × String × String)
  copy (b hostPath envPath : String) (into : Bool) : LocalHook S (Bool × String)
  snapshot (b : String) : LocalHook S (Option (String × String) × ℚ)
  park (b : String) : LocalHook S (Option (String × String) × ℚ)
  discard (b : String) : LocalHook S Bool
  acts_exec : ∀ command timeout b, ActsOn part clock b (B.exec command timeout b) (exec command timeout b)
  acts_copy : ∀ b hostPath envPath into,
    ActsOn part clock b (B.copy b hostPath envPath into) (copy b hostPath envPath into)
  acts_snapshot : ∀ b, ActsOn part clock b (B.snapshot b) (snapshot b)
  acts_park : ∀ b, ActsOn part clock b (B.park b) (park b)
  acts_discard : ∀ b, ActsOn part clock b (B.discard b) (discard b)
  time : ∀ w, (B.time w).1 = clock w
  time_part : ∀ w, part (B.time w).2 = part w
  time_clock : ∀ w, clock (B.time w).2 = clock w + tick
  quiet : B.refreshes = false

/-! ### Patches -/

/-- The log with entries of one branch added. -/
def BenchmarkStats.addAll (stats : BenchmarkStats) (b : String) (entries : List (String × String × ℚ)) : BenchmarkStats :=
  entries.foldl (fun stats e => stats.addEntry e.1 e.2.1 e.2.2 b) stats

/-- What an operation on a branch does to the manager. -/
structure Patch where
  record : BranchState → BranchState := id
  /-- The captured snapshot and its resource. -/
  captured : Option (SnapshotNode × String) := none
  /-- Where the live branch stands afterwards, if it has moved. -/
  base : Option String := none
  entries : List (String × String × ℚ) := []
  /-- Both registries forget the branch. -/
  retires : Bool := false

/-- The manager after the patch for branch `b`. -/
def Patch.apply (p : Patch) (b : String) (m : Manager) : Manager where
  snapshots := p.captured.elim m.snapshots fun c => m.snapshots.set c.1.snapshotId c.2
  snapshotGraph := p.captured.elim m.snapshotGraph fun c => Manager.recordNode m.snapshotGraph c.1
  stats := m.stats.addAll b p.entries
  records := (m.branches.get? b).elim m.records fun r => m.records.modify r.addr p.record
  branches := if p.retires then m.branches.erase b else m.branches
  currentBranchId := if p.retires ∧ m.currentBranchId = b then defaultBranchId else m.currentBranchId
  isCleanedUp := if p.base.isSome then false else m.isCleanedUp
  liveObjects := p.base.elim m.liveObjects fun id => (m.liveBranches.get? b).elim m.liveObjects fun l =>
    m.liveObjects.modify l.addr fun o => { o with baseSnapshotId := id }
  liveBranches := if p.retires then m.liveBranches.erase b else m.liveBranches

/-! ### Deeds -/

/-- What an operation on a branch can see. -/
structure Sight (S : Type) where
  live : Bool
  record : Option BranchState
  /-- It is the current branch, and not the default one. -/
  current : Bool
  part : S

/-- What an operation on a branch does. -/
structure Reaction (S : Type) where
  outcome : Except PyError Outcome
  patch : Patch := {}
  part : S
  spent : ℚ := 0

/-- How far an operation gets. -/
inductive Access where
  | notLive
  | unregistered
  | inactive
  | usable (r : BranchState)

namespace Sight

variable {S : Type}

def access (x : Sight S) : Access :=
  if x.live then
    match x.record with
    | none => .unregistered
    | some r => if r.active then .usable r else .inactive
  else .notLive

/-- The operation stops before it calls a hook. -/
def stops (x : Sight S) (outcome : Outcome) : Reaction S := { outcome := .ok outcome, part := x.part }

end Sight

/-- The patch of a command. -/
def Patch.logged (r : BranchState) (command : Command) (elapsed counted : ℚ) : Patch where
  record r := { r with
    cumulativeExecTime := r.cumulativeExecTime + counted
    commandLog := r.commandLog ++ [command] }
  entries := [("exec", r.targetSnapshot, elapsed)]

/-- The patch of a snapshot. -/
def Patch.committed (r : BranchState) (id resource : String) (elapsed : ℚ) : Patch where
  record r := { BranchState.positionedAt (some id) with active := r.active }
  captured := some ({ snapshotId := id, parentId := r.lastSnapshotId }, resource)
  base := some id
  entries := [("snapshot", id, elapsed)]

/-- The patch of a park. -/
def Patch.parked (r : BranchState) (id resource : String) (elapsed : ℚ) : Patch where
  record r := { r with active := false }
  captured := some ({ snapshotId := id, parentId := r.lastSnapshotId }, resource)
  entries := [("park", id, elapsed)]
  retires := true

/-- The patch of a discard. -/
def Patch.discarded : Patch where
  record r := { r with active := false }
  retires := true

namespace Apart

variable {W S : Type} {B : ForkableBackend W} (σ : Apart B S)

def sight (s : Sys W) (b : String) : Sight S where
  live := (s.mgr.liveBranches.get? b).isSome
  record := (s.mgr.branches.get? b).map s.mgr.record
  current := b ≠ defaultBranchId && s.mgr.currentBranchId = b
  part := σ.part s.world b

def execReaction (b : String) (command : Command) (timeout : Option ℚ) (x : Sight S) : Reaction S :=
  match x.access with
  | .notLive => x.stops (.exec (-1) "" ("Branch " ++ b ++ " not found."))
  | .unregistered => x.stops (.exec (-1) "" ("Branch " ++ b ++ " is no longer registered."))
  | .inactive => x.stops (.exec (-1) "" ("Branch " ++ b ++ " is no longer active."))
  | .usable r =>
    match σ.exec command timeout b x.part with
    | (.error e, part, duration) =>
      ⟨.ok (.exec (-1) "" e.text), .logged r command (σ.tick + duration) 0, part, σ.tick + duration + σ.tick⟩
    | (.ok (returncode, stdout, stderr), part, duration) =>
      ⟨.ok (.exec returncode stdout stderr), .logged r command (σ.tick + duration) (σ.tick + duration), part,
        σ.tick + duration + σ.tick⟩

def copyReaction (b hostPath envPath : String) (into : Bool) (x : Sight S) : Reaction S :=
  match x.access with
  | .usable r =>
    match σ.copy b hostPath envPath into x.part with
    | (.error _, part, duration) => { outcome := .ok (.flag false), part, spent := σ.tick + duration }
    | (.ok (ok, _), part, duration) =>
      ⟨.ok (.flag ok), { entries := [("copy", r.targetSnapshot, σ.tick + duration)] }, part,
        σ.tick + duration + σ.tick⟩
  | _ => x.stops (.flag false)

def snapshotReaction (b : String) (x : Sight S) : Reaction S :=
  match x.access with
  | .usable r =>
    match σ.snapshot b x.part with
    | (.error e, part, duration) =>
      { outcome := if e.kind = .keyError then .ok (.snapshotId none) else .error e, part, spent := duration }
    | (.ok (none, _), part, duration) => { outcome := .ok (.snapshotId none), part, spent := duration }
    | (.ok (some (id, resource), elapsed), part, duration) =>
      ⟨.ok (.snapshotId (some id)), .committed r id resource elapsed, part, duration⟩
  | _ => x.stops (.snapshotId none)

def parkReaction (b : String) (x : Sight S) : Reaction S :=
  match x.access with
  | .usable r =>
    match σ.park b x.part with
    | (.error e, part, duration) => { outcome := .error e, part, spent := duration }
    | (.ok (none, _), part, duration) => { outcome := .ok (.snapshotId none), part, spent := duration }
    | (.ok (some (id, resource), elapsed), part, duration) =>
      ⟨.ok (.snapshotId (some id)), .parked r id resource elapsed, part, duration⟩
  | _ => x.stops (.snapshotId none)

def discardReaction (b : String) (x : Sight S) : Reaction S :=
  if x.current then x.stops (.flag false)
  else
    match x.access with
    | .usable _ =>
      match σ.discard b x.part with
      | (.error e, part, duration) => { outcome := .error e, part, spent := duration }
      | (.ok false, part, duration) => { outcome := .ok (.flag false), part, spent := duration }
      | (.ok true, part, duration) => ⟨.ok (.flag true), .discarded, part, duration⟩
    | _ => x.stops (.flag false)

end Apart

/-- The branch that an operation on a named branch is addressed to. -/
def PublicOp.branch? : PublicOp → Option String
  | .execOnBranch b .. | .copyInBranch b .. | .copyOutBranch b .. | .snapshotBranch b _ | .parkBranch b
  | .discardBranch b => some b
  | _ => none

/-- What an operation on a named branch does. -/
def Apart.reaction {W S : Type} {B : ForkableBackend W} (σ : Apart B S) (op : PublicOp) (x : Sight S) : Reaction S :=
  match op with
  | .execOnBranch b command timeout => σ.execReaction b command timeout x
  | .copyInBranch b hostSrc path => σ.copyReaction b hostSrc path true x
  | .copyOutBranch b path hostDst => σ.copyReaction b hostDst path false x
  | .snapshotBranch b park => if park then σ.parkReaction b x else σ.snapshotReaction b x
  | .parkBranch b => σ.parkReaction b x
  | .discardBranch b => σ.discardReaction b x
  | _ => x.stops (.flag false)

/-! ### Runs -/

namespace Patch

variable {m : Manager} {b : String}

/-- A patch that only logs. -/
theorem apply_entries (entries : List (String × String × ℚ)) :
    ({ entries } : Patch).apply b m = { m with stats := m.stats.addAll b entries } := by
  have hrecords : ((m.branches.get? b).elim m.records fun r => m.records.modify r.addr id) = m.records := by
    cases m.branches.get? b with
    | none => rfl
    | some r => simp [Heap.modify]
  unfold apply
  dsimp only [Option.elim_none]
  rw [hrecords]
  simp

theorem apply_nothing : ({} : Patch).apply b m = m := apply_entries []

theorem apply_logged {r : Ref} (hr : m.branches.get? b = some r) (x : BranchState) (command : Command)
    (elapsed counted : ℚ) :
    (logged x command elapsed counted).apply b m = (m.modifyRecord r fun x => { x with
      cumulativeExecTime := x.cumulativeExecTime + counted
      commandLog := x.commandLog ++ [command] }).addEntry "exec" x.targetSnapshot elapsed b := by
  unfold apply
  rw [hr]
  rfl

theorem apply_committed {r : Ref} (hr : m.branches.get? b = some r) (x : BranchState) (id resource : String)
    (elapsed : ℚ) :
    (committed x id resource elapsed).apply b m =
      ((m.registerSnapshotResource id resource).addEntry "snapshot" id elapsed b).commit b r
        { snapshotId := id, parentId := x.lastSnapshotId } := by
  unfold apply Manager.commit Manager.advanceLiveBase
  rw [hr]
  cases hl : m.liveBranches.get? b with
  | none => simp [committed, Manager.recordSnapshotNode, Manager.modifyRecord, Manager.addEntry,
      Manager.registerSnapshotResource, hl, BenchmarkStats.addAll]
  | some l => simp [committed, Manager.recordSnapshotNode, Manager.modifyRecord, Manager.addEntry,
      Manager.registerSnapshotResource, hl, BenchmarkStats.addAll]

theorem apply_discarded {r : Ref} (hr : m.branches.get? b = some r) (hcurrent : m.currentBranchId ≠ b) :
    discarded.apply b m = m.forget b := by
  unfold apply Manager.forget Manager.removeBranch
  simp [discarded, hr, hcurrent, Manager.modifyRecord, BenchmarkStats.addAll]

theorem apply_parked {r : Ref} (hr : m.branches.get? b = some r) (hmain : defaultBranchId ∈ m.branches.keys)
    (x : BranchState) (id resource : String) (elapsed : ℚ) :
    (parked x id resource elapsed).apply b m =
      (m.registerSnapshotResource id resource).retireParked b id x.lastSnapshotId elapsed := by
  obtain ⟨main, hget⟩ := Dict.mem_keys_iff.mp hmain
  unfold apply Manager.retireParked Manager.forget Manager.removeBranch Manager.setCurrentBranch
  by_cases hcurrent : m.currentBranchId = b
  · simp [parked, hr, hget, hcurrent, Manager.modifyRecord, Manager.recordSnapshotNode, Manager.addEntry,
      Manager.registerSnapshotResource, BenchmarkStats.addAll]
  · simp [parked, hr, hcurrent, Ne.symm hcurrent, Manager.modifyRecord, Manager.recordSnapshotNode, Manager.addEntry,
      Manager.registerSnapshotResource, BenchmarkStats.addAll]

end Patch

/-- How the manager lets an operation on `b` pass. -/
inductive Accesses (m : Manager) (b : String) : Access → Prop
  | notLive (hlive : m.liveBranches.get? b = none) : Accesses m b .notLive
  | unregistered {l : Ref} (hlive : m.liveBranches.get? b = some l) (lookup : m.branches.get? b = none) :
      Accesses m b .unregistered
  | inactive {l r : Ref} (hlive : m.liveBranches.get? b = some l) (lookup : m.branches.get? b = some r)
      (hactive : (m.record r).active = false) : Accesses m b .inactive
  | usable {l r : Ref} (hlive : m.liveBranches.get? b = some l) (lookup : m.branches.get? b = some r)
      (hactive : (m.record r).active = true) : Accesses m b (.usable (m.record r))

namespace Apart

variable {W S : Type} {B : ForkableBackend W} (σ : Apart B S)

theorem accesses (s : Sys W) (b : String) : Accesses s.mgr b (σ.sight s b).access := by
  unfold sight Sight.access
  cases hlive : s.mgr.liveBranches.get? b with
  | none => exact .notLive hlive
  | some l =>
    cases lookup : s.mgr.branches.get? b with
    | none => exact .unregistered hlive lookup
    | some r =>
      cases hactive : (s.mgr.record r).active with
      | false => simpa [hactive] using Accesses.inactive hlive lookup hactive
      | true => simpa [hactive] using Accesses.usable hlive lookup hactive

/-- The run of an operation on `b` is the reaction. -/
structure Performs (s : Sys W) (b : String) (d : Reaction S) (r : Except PyError Outcome × Sys W) : Prop where
  outcome : r.1 = d.outcome
  mgr : r.2.mgr = d.patch.apply b s.mgr
  part : σ.part r.2.world = Function.update (σ.part s.world) b d.part
  clock : σ.clock r.2.world = σ.clock s.world + d.spent

variable (s : Sys W) (b : String)

theorem performs_stops (outcome : Outcome) : σ.Performs s b ((σ.sight s b).stops outcome) (.ok outcome, s) where
  outcome := rfl
  mgr := Patch.apply_nothing.symm
  part := (Function.update_eq_self b (σ.part s.world)).symm
  clock := (add_zero _).symm

/-- What `except KeyError` makes of a result. -/
def caught {α : Type} (a : α) : Except PyError α × Sys W → Except PyError α × Sys W
  | (.error e, s) => if e.kind = .keyError then (.ok a, s) else (.error e, s)
  | (.ok x, s) => (.ok x, s)

/-- An operation that tests whether its branch is live. -/
theorem run_ifLive {α : Type} {p : M W α} {a c : α} :
    (isLive b >>= fun live => if live then onKeyError p a else pure c).run s =
      if (s.mgr.liveBranches.get? b).isSome then caught a (p.run s) else (.ok c, s) := by
  simp only [isLive, run_bind, run_readState, run_afterValue_ok]
  split_ifs
  · simp only [onKeyError, Prog.tryCatch, run_andThen]
    rcases p.run s with ⟨e | x, s'⟩
    · simp only [caught]
      split_ifs <;> rfl
    · rfl
  · rfl

/-- A template fetches the record of its branch and takes the operation lock. -/
theorem run_template {α : Type} {body : Ref → M W α} {r : Ref} (lookup : s.mgr.branches.get? b = some r) :
    (getBranchState (some b) >>= fun state => announce (.lookedUp state) >>= fun _ =>
      withLock (.operation state) (body state)).run s = (body r).run s := by
  simp only [getBranchState, Manager.getBranchState, run_bind, run_tryState, Option.getD_some, lookup, run_afterValue_ok,
    run_announce, run_withLock]

theorem run_template_unregistered {α : Type} {body : Ref → M W α} (a : α) (lookup : s.mgr.branches.get? b = none) :
    caught a ((getBranchState (some b) >>= fun state => announce (.lookedUp state) >>= fun _ =>
      withLock (.operation state) (body state)).run s) = (.ok a, s) := by
  simp only [getBranchState, Manager.getBranchState, run_bind, run_tryState, Option.getD_some, lookup,
    run_afterValue_error, caught, if_true]

theorem run_time : B.hooks.toHooks.time.run s = (.ok (σ.clock s.world), { s with world := (B.time s.world).2 }) := by
  simp only [ForkHooks.toHooks, ForkableBackend.hooks, ForkableBackend.hooksWith, run_world, σ.time]

theorem run_coreExec (command : Command) (timeout : Option ℚ) :
    (B.hooks.toHooks.coreExec command timeout b).run s =
      ((B.exec command timeout b s.world).1, { s with world := (B.exec command timeout b s.world).2 }) := by
  simp only [ForkHooks.toHooks, ForkableBackend.hooks, ForkableBackend.hooksWith, run_tryWorld]

theorem run_coreCopy (hostPath envPath : String) (into : Bool) :
    (B.hooks.toHooks.coreCopy b hostPath envPath into).run s =
      ((B.copy b hostPath envPath into s.world).1, { s with world := (B.copy b hostPath envPath into s.world).2 }) := by
  simp only [ForkHooks.toHooks, ForkableBackend.hooks, ForkableBackend.hooksWith, run_tryWorld]

/-- A hook that is called right after the clock was read. -/
theorem result_timed {α : Type} {hook : W → Except PyError α × W} {f : LocalHook S α}
    (h : ActsOn σ.part σ.clock b hook f) {w w' : W} {r r' : Except PyError α} {x : S} {t : ℚ}
    (hhook : hook (B.time w).2 = (r, w')) (hf : f (σ.part w b) = (r', x, t)) :
    r = r' ∧ σ.part w' = Function.update (σ.part w) b x ∧ σ.clock w' = σ.clock w + (σ.tick + t) := by
  rw [← σ.time_part w] at hf
  obtain ⟨hr, hpart, hclock⟩ := h.result hhook hf
  rw [σ.time_part] at hpart
  rw [σ.time_clock, add_assoc] at hclock
  exact ⟨hr, hpart, hclock⟩

/-! ### The operations are reactions -/

theorem performs_exec (command : Command) (timeout : Option ℚ) :
    σ.Performs s b (σ.execReaction b command timeout (σ.sight s b))
      ((PublicOp.prog B.hooks (.execOnBranch b command timeout)).run s) := by
  have ha := σ.accesses s b
  simp only [execReaction, PublicOp.prog, run_map, execOnBranch, run_ifLive, execBranch]
  generalize (σ.sight s b).access = access at ha
  cases ha with
  | notLive hlive =>
    rw [hlive]
    exact σ.performs_stops s b _
  | unregistered hlive lookup =>
    rw [hlive, Option.isSome_some, if_pos rfl, run_template_unregistered s b _ lookup]
    exact σ.performs_stops s b _
  | inactive hlive lookup hactive =>
    rw [hlive, Option.isSome_some, if_pos rfl, run_template s b lookup]
    simp only [run_bind, run_readState, run_afterValue_ok, hactive]
    exact σ.performs_stops s b _
  | usable hlive lookup hactive =>
    rw [hlive, Option.isSome_some, if_pos rfl, run_template s b lookup]
    rcases hlocal : σ.exec command timeout b (σ.sight s b).part with ⟨result, x, duration⟩
    rcases hhook : B.exec command timeout b (B.time s.world).2 with ⟨result, w⟩
    obtain ⟨rfl, hpart, hclock⟩ := σ.result_timed b (σ.acts_exec command timeout b) hhook hlocal
    have helapsed : σ.clock w - σ.clock s.world = σ.tick + duration := by
      rw [hclock, add_sub_cancel_left]
    have hclock' : σ.clock (B.time w).2 = σ.clock s.world + (σ.tick + duration + σ.tick) := by
      rw [σ.time_clock, hclock, add_assoc]
    have hpart' := (σ.time_part w).trans hpart
    simp only [run_bind, run_readState, run_afterValue_ok, hactive, if_true, σ.run_time, run_announce, run_attempt,
      run_coreExec, hhook, helapsed]
    cases result with
    | error e =>
      simp only [logCommand, run_bind, run_withState, run_afterValue_ok, run_addEntry, run_pure, caught]
      exact ⟨rfl, (Patch.apply_logged lookup ..).symm, hpart', hclock'⟩
    | ok answer =>
      simp only [logCommand, run_bind, run_withState, run_afterValue_ok, run_addEntry, run_pure, caught]
      exact ⟨rfl, (Patch.apply_logged lookup ..).symm, hpart', hclock'⟩

theorem performs_copy (hostPath envPath : String) (into : Bool) :
    σ.Performs s b (σ.copyReaction b hostPath envPath into (σ.sight s b))
      ((Outcome.flag <$> (isLive b >>= fun live =>
        if live then onKeyError (copyBranch B.hooks.toHooks b hostPath envPath into) false else pure false)).run s) := by
  have ha := σ.accesses s b
  simp only [copyReaction, run_map, run_ifLive, copyBranch]
  generalize (σ.sight s b).access = access at ha
  cases ha with
  | notLive hlive =>
    rw [hlive]
    exact σ.performs_stops s b _
  | unregistered hlive lookup =>
    rw [hlive, Option.isSome_some, if_pos rfl, run_template_unregistered s b _ lookup]
    exact σ.performs_stops s b _
  | inactive hlive lookup hactive =>
    rw [hlive, Option.isSome_some, if_pos rfl, run_template s b lookup]
    simp only [run_bind, run_readState, run_afterValue_ok, hactive]
    exact σ.performs_stops s b _
  | usable hlive lookup hactive =>
    rw [hlive, Option.isSome_some, if_pos rfl, run_template s b lookup]
    rcases hlocal : σ.copy b hostPath envPath into (σ.sight s b).part with ⟨result, x, duration⟩
    rcases hhook : B.copy b hostPath envPath into (B.time s.world).2 with ⟨result, w⟩
    obtain ⟨rfl, hpart, hclock⟩ := σ.result_timed b (σ.acts_copy b hostPath envPath into) hhook hlocal
    simp only [run_bind, run_readState, run_afterValue_ok, hactive, if_true, σ.run_time, run_announce, run_attempt,
      run_coreCopy, hhook]
    cases result with
    | error e => exact ⟨rfl, Patch.apply_nothing.symm, hpart, hclock⟩
    | ok answer =>
      have helapsed : σ.clock w - σ.clock s.world = σ.tick + duration := by
        rw [hclock, add_sub_cancel_left]
      simp only [run_bind, σ.run_time, run_afterValue_ok, helapsed, run_addEntry, run_pure, caught]
      refine ⟨rfl, ?_, (σ.time_part w).trans hpart, ?_⟩
      · show _ = Patch.apply _ b s.mgr
        rw [Patch.apply_entries]
        rfl
      · rw [σ.time_clock, hclock, add_assoc]

theorem run_coreSnapshot (hquiet : B.refreshes = false) :
    (B.hooks.coreSnapshot b).run s =
      match B.snapshot b s.world with
      | (.error e, w) => (.error e, { s with world := w })
      | (.ok (none, elapsed), w) => (.ok (none, elapsed), { s with world := w })
      | (.ok (some (id, resource), elapsed), w) =>
        (.ok (some id, elapsed), ⟨s.mgr.registerSnapshotResource id resource, w⟩) := by
  have hrefresh : B.refresh = pure () := if_neg (by simp [hquiet])
  simp only [ForkableBackend.hooks, ForkableBackend.hooksWith, hrefresh, run_bind, run_tryWorld]
  rcases B.snapshot b s.world with ⟨e | ⟨_ | ⟨id, resource⟩, elapsed⟩, w⟩
  · rfl
  · rfl
  · rfl

theorem performs_snapshot :
    σ.Performs s b (σ.snapshotReaction b (σ.sight s b)) ((PublicOp.prog B.hooks (.snapshotBranch b false)).run s) := by
  have ha := σ.accesses s b
  simp only [snapshotReaction, PublicOp.prog, run_map, ForkableEnvironmentManager.snapshotBranch, Bool.false_eq_true, if_false, run_ifLive,
    EnvironmentManager.snapshotBranch]
  generalize (σ.sight s b).access = access at ha
  cases ha with
  | notLive hlive =>
    rw [hlive]
    exact σ.performs_stops s b _
  | unregistered hlive lookup =>
    rw [hlive, Option.isSome_some, if_pos rfl, run_template_unregistered s b _ lookup]
    exact σ.performs_stops s b _
  | inactive hlive lookup hactive =>
    rw [hlive, Option.isSome_some, if_pos rfl, run_template s b lookup]
    simp only [run_bind, run_readState, run_afterValue_ok, hactive]
    exact σ.performs_stops s b _
  | usable hlive lookup hactive =>
    rw [hlive, Option.isSome_some, if_pos rfl, run_template s b lookup]
    rcases hlocal : σ.snapshot b (σ.sight s b).part with ⟨result, x, duration⟩
    rcases hhook : B.snapshot b s.world with ⟨result, w⟩
    obtain ⟨rfl, hpart, hclock⟩ := (σ.acts_snapshot b).result hhook hlocal
    simp only [run_bind, run_readState, run_afterValue_ok, hactive, if_true, run_pure, capturePhysical, run_announce,
      ForkHooks.toHooks, run_coreSnapshot s b σ.quiet, hhook]
    rcases result with e | ⟨_ | ⟨id, resource⟩, elapsed⟩
    · simp only [run_afterValue_error, caught]
      split_ifs
      · exact ⟨rfl, Patch.apply_nothing.symm, hpart, hclock⟩
      · exact ⟨rfl, Patch.apply_nothing.symm, hpart, hclock⟩
    · exact ⟨rfl, Patch.apply_nothing.symm, hpart, hclock⟩
    · simp only [run_afterValue_ok, run_bind, run_addEntry, run_pure, commitSnapshot, recordSnapshotNode,
        run_updateState, run_updateStateEmit, run_poke, if_true, caught]
      exact ⟨rfl, (Patch.apply_committed lookup ..).symm, hpart, hclock⟩

theorem performs_park (hmain : defaultBranchId ∈ s.mgr.branches.keys) (hb : b ≠ defaultBranchId) :
    σ.Performs s b (σ.parkReaction b (σ.sight s b)) ((Outcome.snapshotId <$> parkBranch B.hooks b).run s) := by
  have ha := σ.accesses s b
  simp only [parkReaction, run_map, parkBranch, run_withLock, parkBranchBody, if_neg hb, lookupLive, run_bind, run_readState,
    run_afterValue_ok]
  generalize (σ.sight s b).access = access at ha
  cases ha with
  | notLive hlive =>
    rw [hlive]
    exact σ.performs_stops s b _
  | unregistered hlive lookup =>
    rw [hlive, lookup]
    exact σ.performs_stops s b _
  | inactive hlive lookup hactive =>
    simp only [hlive, lookup, run_bind, run_announce, run_afterValue_ok, run_withLock, run_readState, hactive]
    exact σ.performs_stops s b _
  | usable hlive lookup hactive =>
    rcases hlocal : σ.park b (σ.sight s b).part with ⟨result, x, duration⟩
    rcases hhook : B.park b s.world with ⟨result, w⟩
    obtain ⟨rfl, hpart, hclock⟩ := (σ.acts_park b).result hhook hlocal
    simp only [hlive, lookup, run_bind, run_announce, run_afterValue_ok, run_withLock, run_readState, hactive,
      Option.isSome_some, Bool.and_self, if_true, ForkableBackend.hooks, ForkableBackend.hooksWith, run_tryWorld, hhook]
    rcases result with e | ⟨_ | ⟨id, resource⟩, elapsed⟩
    · exact ⟨rfl, Patch.apply_nothing.symm, hpart, hclock⟩
    · exact ⟨rfl, Patch.apply_nothing.symm, hpart, hclock⟩
    · simp only [run_afterValue_ok, ForkableBackend.register, registerSnapshotResource, run_bind, run_updateState,
        run_pure]
      rw [ForkableBackend.run_retireParked _ _ _ _ (by exact hmain)]
      exact ⟨rfl, (Patch.apply_parked lookup hmain ..).symm, hpart, hclock⟩

theorem performs_discard (hb : b ≠ defaultBranchId) :
    σ.Performs s b (σ.discardReaction b (σ.sight s b)) ((PublicOp.prog B.hooks (.discardBranch b)).run s) := by
  have hcurrent : (σ.sight s b).current = decide (s.mgr.currentBranchId = b) := by
    simp [sight, hb]
  have ha := σ.accesses s b
  simp only [discardReaction, PublicOp.prog, run_map, discardBranch, run_withLock, B.run_discardBranchBody, hcurrent,
    decide_eq_true_eq]
  by_cases hcur : s.mgr.currentBranchId = b
  · have hgets : ForkableBackend.discardable s.mgr b = false := by simp [ForkableBackend.discardable, hcur]
    rw [if_pos hcur, hgets]
    exact σ.performs_stops s b _
  rw [if_neg hcur]
  generalize (σ.sight s b).access = access at ha
  cases ha with
  | notLive hlive =>
    have hgets : ForkableBackend.discardable s.mgr b = false := by simp [ForkableBackend.discardable, hlive]
    rw [hgets]
    exact σ.performs_stops s b _
  | unregistered hlive lookup =>
    have hgets : ForkableBackend.discardable s.mgr b = false := by simp [ForkableBackend.discardable, lookup]
    rw [hgets]
    exact σ.performs_stops s b _
  | inactive hlive lookup hactive =>
    have hgets : ForkableBackend.discardable s.mgr b = false := by
      simp [ForkableBackend.discardable, lookup, hactive]
    rw [hgets]
    exact σ.performs_stops s b _
  | usable hlive lookup hactive =>
    have hgets : ForkableBackend.discardable s.mgr b = true := by
      simp [ForkableBackend.discardable, lookup, hlive, hactive, hb, Ne.symm hcur]
    rcases hlocal : σ.discard b (σ.sight s b).part with ⟨result, x, duration⟩
    rcases hhook : B.discard b s.world with ⟨result, w⟩
    obtain ⟨rfl, hpart, hclock⟩ := (σ.acts_discard b).result hhook hlocal
    simp only [hgets, if_true, ForkableBackend.discardAnswer, hhook]
    rcases result with e | _ | _
    · exact ⟨rfl, Patch.apply_nothing.symm, hpart, hclock⟩
    · exact ⟨rfl, Patch.apply_nothing.symm, hpart, hclock⟩
    · exact ⟨rfl, (Patch.apply_discarded lookup hcur).symm, hpart, hclock⟩

/-- An operation on a branch that is not the default one is a reaction to what the branch shows. -/
theorem performs {op : PublicOp} (hop : op.branch? = some b) (hb : b ≠ defaultBranchId)
    (hmain : defaultBranchId ∈ s.mgr.branches.keys) :
    σ.Performs s b (σ.reaction op (σ.sight s b)) ((PublicOp.prog B.hooks op).run s) := by
  cases op with
  | execOnBranch b' command timeout =>
    cases hop
    exact σ.performs_exec s b command timeout
  | copyInBranch b' hostSrc path =>
    cases hop
    exact σ.performs_copy s b hostSrc path true
  | copyOutBranch b' path hostDst =>
    cases hop
    exact σ.performs_copy s b hostDst path false
  | snapshotBranch b' park =>
    cases hop
    cases park with
    | true => exact σ.performs_park s b hmain hb
    | false => exact σ.performs_snapshot s b
  | parkBranch b' =>
    cases hop
    exact σ.performs_park s b hmain hb
  | discardBranch b' =>
    cases hop
    exact σ.performs_discard s b hb
  | _ => cases hop

end Apart

end StateFork
