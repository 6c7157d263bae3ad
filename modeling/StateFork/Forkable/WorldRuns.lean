import StateFork.Forkable.Refinement

/-!
# Runs of a forkable manager, as worlds

From the constructor on, every run of public operations is a run of branching worlds, with the outcomes that it returned
(`runs_are_worlds`). What the worlds guarantee therefore holds of the manager: the environment that a snapshot captured
comes back with every fork and restore of it (`captured_environment_comes_back`), and a branch that no operation addresses
keeps its environment (`unaddressed_branch_untouched`). `Shelf` is a backend that isolates.
-/

namespace StateFork

open Conc Conc.Prog Branching EnvironmentManager ForkableEnvironmentManager

variable {W E : Type}

/-- A run of the worlds: each operation takes the acts that its outcome stands for. -/
inductive Unfolds : Worlds String String E → List (PublicOp × Outcome) → Worlds String String E → Prop
  | nil (v : Worlds String String E) : Unfolds v [] v
  | cons {v v' v'' : Worlds String String E} {op : PublicOp} {o : Outcome} {acts : List (Act String String E)}
      {l : List (PublicOp × Outcome)} (meaning : Meaning op o v acts) (steps : Steps defaultBranchId v acts v')
      (rest : Unfolds v' l v'') : Unfolds v ((op, o) :: l) v''

theorem Unfolds.sound {v v' : Worlds String String E} {l : List (PublicOp × Outcome)} (h : Unfolds v l v')
    (hv : Sound defaultBranchId v) : Sound defaultBranchId v' := by
  induction h with
  | nil => exact hv
  | cons _ steps _ ih => exact ih (steps.sound hv)

theorem Unfolds.frozen_mono {v v' : Worlds String String E} {l : List (PublicOp × Outcome)} (h : Unfolds v l v')
    {id : String} {x : Option String × E} (hx : v.frozen id = some x) : v'.frozen id = some x := by
  induction h with
  | nil => exact hx
  | cons _ steps _ ih => exact ih (steps.frozen_mono hx)

/-- The operations of a run with their outcomes. -/
def trace (F : ForkHooks W) : List PublicOp → Sys W → List (PublicOp × Outcome)
  | [], _ => []
  | op :: ops, s =>
    (op, Outcome.ofResult ((PublicOp.prog F op).run s).1) :: trace F ops ((PublicOp.prog F op).run s).2

/-- The operation is one on the branch `b`. -/
def PublicOp.Addresses (b : String) (op : PublicOp) (m : Manager) : Prop :=
  match op with
  | .snapshot | .restore _ | .execCommand _ _ | .copyIn _ _ => m.currentBranchId = b
  | .snapshotBranch b' _ | .parkBranch b' | .execOnBranch b' _ _ | .copyInBranch b' _ _ | .discardBranch b' => b' = b
  | _ => False

section

variable {B : ForkableBackend W} {live : W → String → Option (String × E)} {stored : W → String → Option E}
  (hB : Isolating B live stored) (hrequests : B.ForksOnRequest)

/-- A manager that has just been constructed, on an environment that is stored under its root. -/
theorem Represents.seeded {root resource : String} {w : W} {e : E} (hroot : root ≠ "")
    (hlive : live w = fun b => if b = defaultBranchId then some (root, e) else none) (hstored : stored w root ≠ none) :
    Represents live stored ⟨Manager.seeded root resource, w⟩ := by
  have hmain (b : String) : baseOf live w b = if b = defaultBranchId then some root else none := by
    unfold baseOf
    rw [hlive]
    dsimp only
    split_ifs <;> rfl
  have hkeys (id : String) : id ∈ (Manager.seeded root resource).snapshotGraph.keys ↔ id = root := by
    show id ∈ (Dict.empty.set root ({ snapshotId := root, parentId := none } : SnapshotNode)).keys ↔ _
    rw [Dict.mem_keys_set]
    simp [Dict.empty, Dict.keys]
  constructor
  case inStep =>
    refine InStep.seeded hroot ?_ fun b => ?_
    · rw [hmain, if_pos rfl]
    · rw [hmain]
      split_ifs
      · simpa using hroot
      · simp
  case consistent => exact .seeded root resource
  case objects => exact .seeded root resource
  case named => exact .seeded root resource
  case registry =>
    intro b hb
    rw [hlive] at hb
    dsimp only at hb
    split_ifs at hb with he
    · rw [he]
      exact Dict.mem_keys_set.mpr (.inl rfl)
    · exact absurd rfl hb
  case resources =>
    intro id hid
    have hid' : id ∈ (Dict.empty.set root resource).keys := hid
    rw [Dict.mem_keys_set] at hid'
    rw [hkeys]
    exact hid'.resolve_right List.not_mem_nil
  case stored =>
    intro id hid
    rw [(hkeys id).mp hid]
    exact hstored

/-- The default branch alone, on the only snapshot. -/
theorem sound_sole {s : Sys W} {root : String} {e : E}
    (hlive : live s.world = fun b => if b = defaultBranchId then some (root, e) else none)
    (hcurrent : s.mgr.currentBranchId = defaultBranchId)
    (hparent : ∀ id, parentOf s id = if id = root then some none else none) (hstored : stored s.world root ≠ none) :
    Sound defaultBranchId (view live stored s) := by
  have horphan (id parent : String) (e' : E) : (view live stored s).frozen id ≠ some (some parent, e') := by
    unfold view
    dsimp only
    rw [hparent]
    split_ifs
    · cases stored s.world id <;> simp
    · simp
  have hmain : live s.world defaultBranchId ≠ none := by
    rw [hlive]
    simp
  have hhere : live s.world s.mgr.currentBranchId ≠ none := hcurrent ▸ hmain
  refine ⟨hmain, hhere, fun b base e' hb => ?_, fun id parent e' hid => absurd hid (horphan id parent e'), ⟨fun id => ?_⟩⟩
  · have hb' : live s.world b = some (base, e') := hb
    rw [hlive] at hb'
    dsimp only at hb'
    split_ifs at hb' with he
    cases hb'
    obtain ⟨x, hx⟩ := Option.ne_none_iff_exists'.mp hstored
    unfold view
    dsimp only
    rw [hparent, if_pos rfl, hx]
    simp
  · exact ⟨id, fun parent hd => absurd hd.choose_spec (horphan id parent _)⟩

theorem sound_seeded {root resource : String} {w : W} {e : E}
    (hlive : live w = fun b => if b = defaultBranchId then some (root, e) else none) (hstored : stored w root ≠ none) :
    Sound defaultBranchId (view live stored ⟨Manager.seeded root resource, w⟩) := by
  refine sound_sole hlive rfl (fun id => ?_) hstored
  show ((Dict.empty.set root ({ snapshotId := root, parentId := none } : SnapshotNode)).get? id).map _ = _
  rw [Dict.get?_set]
  split_ifs <;> rfl

include hB hrequests

theorem unfolds_runOps {ops : List PublicOp} {s : Sys W} (h : Represents live stored s) (hops : .cleanup ∉ ops)
    (hnew : B.EachStep B.SuppliesNew ops s) :
    Represents live stored (ForkableEnvironmentManager.runOps B.hooks ops s) ∧
      Unfolds (view live stored s) (trace B.hooks ops s) (view live stored (ForkableEnvironmentManager.runOps B.hooks ops s)) := by
  induction ops generalizing s with
  | nil => exact ⟨h, .nil _⟩
  | cons op ops ih =>
    rw [List.mem_cons, not_or] at hops
    obtain ⟨hnext, acts, hmeaning, hsteps⟩ := refines_step hB hrequests h (fun he => hops.1 he.symm) hnew.1
    obtain ⟨hend, hunfolds⟩ := ih hnext hops.2 hnew.2
    exact ⟨hend, .cons hmeaning hsteps hunfolds⟩

omit hB hrequests in
/-- Parking a branch leaves its environment behind. -/
theorem frozen_of_parking {v v' : Worlds String String E} {b id : String}
    (h : Steps defaultBranchId v (parking v b id) v') :
    ∃ base e, v.live b = some (base, e) ∧ v'.frozen id = some (some base, e) := by
  unfold parking at h
  split_ifs at h
  · obtain ⟨⟩ | ⟨hswitch, ⟨⟩ | ⟨hpark, ⟨⟩⟩⟩ := h
    cases hswitch
    exact hpark.frozen_of_park
  · obtain ⟨⟩ | ⟨hpark, ⟨⟩⟩ := h
    exact hpark.frozen_of_park

/-- A capture stores what the branch is. -/
theorem frozen_of_capture {s : Sys W} (h : Represents live stored s) {op : PublicOp} (hnew : B.SuppliesNew op s)
    {b id : String} (hcapture : capture B.hooks op s = some (b, id)) :
    ∃ base e, live s.world b = some (base, e) ∧
      (view live stored ((PublicOp.prog B.hooks op).run s).2).frozen id = some (some base, e) := by
  have hop : op ≠ .cleanup := by
    rintro rfl
    cases hcapture
  obtain ⟨-, acts, hmeaning, hsteps⟩ := refines_step hB hrequests h hop hnew
  unfold capture at hcapture
  split at hcapture
  · next b' id' htarget hout =>
    cases hcapture
    rw [hout] at hmeaning
    have hfreeze (hacts : acts = [.freeze b id]) : ∃ base e, live s.world b = some (base, e) ∧
        (view live stored ((PublicOp.prog B.hooks op).run s).2).frozen id = some (some base, e) := by
      rw [hacts] at hsteps
      obtain ⟨⟩ | ⟨hfreeze, ⟨⟩⟩ := hsteps
      exact hfreeze.frozen_of_freeze
    have hpark (hacts : acts = parking (view live stored s) b id) : ∃ base e, live s.world b = some (base, e) ∧
        (view live stored ((PublicOp.prog B.hooks op).run s).2).frozen id = some (some base, e) :=
      frozen_of_parking (hacts ▸ hsteps)
    cases op with
    | snapshot =>
      cases htarget
      exact hfreeze hmeaning
    | snapshotBranch b park =>
      cases htarget
      cases park with
      | true => exact hpark hmeaning
      | false => exact hfreeze hmeaning
    | parkBranch b =>
      cases htarget
      exact hpark hmeaning
    | _ => cases htarget
  · cases hcapture

end

/-! ### A backend that isolates -/

/-- A fleet whose branches remember the commands that were run in them. -/
structure Shelf where
  fleet : Fleet
  contents : String → List Command
  /-- What is kept for a snapshot. -/
  kept : String → Option (List Command)

namespace Shelf

def live (w : Shelf) (b : String) : Option (String × List Command) := (w.fleet.base b).map fun base => (base, w.contents b)

def append (command : Command) (b : String) (w : Shelf) : Shelf :=
  { w with contents := Function.update w.contents b (w.contents b ++ [command]) }

/-- What a capture of `b` answered, kept under the id that it returned. -/
def keeping (b : String) (w : Shelf) :
    Except PyError (Option (String × String) × ℚ) × Fleet → Except PyError (Option (String × String) × ℚ) × Shelf
  | (.ok (some (id, resource), elapsed), fleet) =>
    (.ok (some (id, resource), elapsed), { w with fleet, kept := Function.update w.kept id (some (w.contents b)) })
  | (r, fleet) => (r, { w with fleet })

def fork (snapshotId : String) (requests : List (Option String)) (w : Shelf) : List (EnvironmentBranch × ℚ) × Shelf :=
  match w.kept snapshotId with
  | none => ([], w)
  | some log =>
    let x := Fleet.fork snapshotId requests w.fleet
    (x.1, { w with
      fleet := x.2
      contents := fun b => if b ∈ x.1.map (fun o => o.1.id) then log else w.contents b })

def backend (refreshes : Bool) : ForkableBackend Shelf where
  snapshot b w := keeping b w (Fleet.capture b w.fleet)
  refreshes
  exec command _ b w := (.ok (0, "", ""), append command b w)
  copy b hostPath envPath into w := (.ok (true, ""), if into then append (.argv ["cp", hostPath, envPath]) b w else w)
  fork snapshotId requests w := (.ok (fork snapshotId requests w).1, (fork snapshotId requests w).2)
  discard b w := ((Fleet.discard b w.fleet).1, { w with fleet := (Fleet.discard b w.fleet).2 })
  park b w := keeping b w (Fleet.park b w.fleet)
  list w := (((Fleet.sole refreshes).list w.fleet).1, w)
  cleanup w := (.ok none, w)
  time w := (w.fleet.clock, { w with fleet := { w.fleet with clock := w.fleet.clock + 1 } })
  uuid4Hex w := (w.fleet.ids.headD "", { w with fleet := { w.fleet with ids := w.fleet.ids.tail } })

/-- A shelf with one branch, on the snapshot `base`. -/
def start (ids : List String) : Shelf where
  fleet := { live := Dict.empty.set defaultBranchId "base", ids }
  contents _ := []
  kept id := if id = "base" then some [] else none

theorem live_congr {w w' : Shelf} (hbase : w'.fleet.base = w.fleet.base) (hcontents : w'.contents = w.contents) :
    w'.live = w.live := by
  funext b
  unfold live
  rw [hbase, hcontents]

theorem unmoved {w w' : Shelf} (hbase : w'.fleet.base = w.fleet.base) (hcontents : w'.contents = w.contents)
    (hkept : w'.kept = w.kept) : Unmoved live kept w w' :=
  ⟨live_congr hbase hcontents, fun id e he => by rw [hkept]; exact he⟩

theorem within_append (command : Command) (b : String) (w : Shelf) : AltersOnly live kept b w (append command b w) where
  others b' hb := by
    unfold live append
    dsimp only
    rw [Function.update_of_ne hb]
  base := by
    unfold live append
    dsimp only
    rw [Option.map_map, Option.map_map]
    rfl
  stored _ _ he := he

theorem live_update {w : Shelf} {fleet : Fleet} {b : String} {x : Option String} {kept : String → Option (List Command)}
    (hbase : fleet.base = Function.update w.fleet.base b x) :
    Shelf.live ⟨fleet, w.contents, kept⟩ = Function.update w.live b (x.map fun base => (base, w.contents b)) := by
  funext b'
  unfold live
  dsimp only
  rw [hbase, Function.update_apply, Function.update_apply]
  split_ifs with he
  · rw [he]
  · rfl

/-- A capture of the fleet is one of the shelf. -/
theorem keeping_ok {b : String} {w w' : Shelf} {x : Except PyError (Option (String × String) × ℚ) × Fleet}
    {id resource : String} {elapsed : ℚ} (h : keeping b w x = (.ok (some (id, resource), elapsed), w')) :
    x.1 = .ok (some (id, resource), elapsed) ∧
      w' = { w with fleet := x.2, kept := Function.update w.kept id (some (w.contents b)) } := by
  obtain ⟨e | ⟨_ | ⟨id', resource'⟩, elapsed'⟩, fleet⟩ := x
  · cases h
  · cases h
  · cases h
    exact ⟨rfl, rfl⟩

theorem keeping_failed {b : String} {w w' : Shelf} {x : Except PyError (Option (String × String) × ℚ) × Fleet}
    {r : Except PyError (Option (String × String) × ℚ)} (h : keeping b w x = (r, w'))
    (hr : ∀ y t, r ≠ .ok (some y, t)) : x.1 = r ∧ w' = { w with fleet := x.2 } := by
  obtain ⟨e | ⟨_ | ⟨id', resource'⟩, elapsed'⟩, fleet⟩ := x
  · cases h
    exact ⟨rfl, rfl⟩
  · cases h
    exact ⟨rfl, rfl⟩
  · cases h
    exact absurd rfl (hr _ _)

theorem kept_update (w : Shelf) (fleet : Fleet) (id : String) (log : List Command) :
    ∀ id', id' ≠ id → Stays kept w { w with fleet, kept := Function.update w.kept id (some log) } id' :=
  fun _ hne _ he => (Function.update_of_ne hne _ _).trans he

theorem base_of_capture {b : String} {w : Fleet} {y : String × String} {t : ℚ}
    (h : (Fleet.capture b w).1 = .ok (some y, t)) : ∃ base, w.base b = some base := by
  unfold Fleet.capture at h
  split at h
  · next hlive _ => exact ⟨_, hlive⟩
  · cases h

theorem base_of_park {b : String} {w : Fleet} {y : String × String} {t : ℚ}
    (h : (Fleet.park b w).1 = .ok (some y, t)) : ∃ base, w.base b = some base := by
  unfold Fleet.park at h
  split at h
  · next captured elapsed _ hcapture => exact base_of_capture (congrArg Prod.fst hcapture)
  · exact base_of_capture h

theorem isolating (refreshes : Bool) : Isolating (backend refreshes) live kept where
  captured b w id resource elapsed w' h := by
    obtain ⟨hanswer, rfl⟩ := keeping_ok h
    obtain ⟨hid, hbase⟩ := (Fleet.sole_keepsBases refreshes).captured b w.fleet id resource elapsed _ (Prod.ext hanswer rfl)
    obtain ⟨base, hhere⟩ := base_of_capture hanswer
    refine ⟨hid, base, w.contents b, ?_, live_update hbase, Function.update_self .., kept_update w _ id _⟩
    unfold live
    rw [hhere]
    rfl
  notCaptured b w r w' h hr := by
    obtain ⟨hanswer, rfl⟩ := keeping_failed h hr
    exact unmoved ((Fleet.sole_keepsBases refreshes).notCaptured b w.fleet r _ (Prod.ext hanswer rfl) hr) rfl rfl
  forked s requests w outcomes w' h := by
    cases h
    cases hkept : w.kept s with
    | none =>
      have hfork : fork s requests w = ([], w) := by
        unfold fork
        rw [hkept]
      rw [hfork]
      exact ⟨fun o ho => absurd ho List.not_mem_nil, List.nodup_nil, by simp, fun _ _ he => he⟩
    | some log =>
      obtain ⟨hout, hnodup, hbase⟩ := Fleet.fork_base s requests w.fleet
      have hfork : fork s requests w = ((Fleet.fork s requests w.fleet).1, { w with
          fleet := (Fleet.fork s requests w.fleet).2
          contents := fun b =>
            if b ∈ (Fleet.fork s requests w.fleet).1.map (fun o => o.1.id) then log else w.contents b }) := by
        unfold fork
        rw [hkept]
      rw [hfork]
      refine ⟨fun o ho => ⟨(hout o ho).1, ?_, by simp⟩, hnodup, ?_, fun _ _ he => he⟩
      · unfold live
        rw [(hout o ho).2]
        rfl
      · funext b
        unfold live
        dsimp only
        rw [hbase]
        dsimp only
        split_ifs <;> rfl
  notForked s requests w e w' h := by cases h
  discarded b w w' h := by
    obtain ⟨hanswer, rfl⟩ := Prod.mk.inj h
    exact ⟨live_update ((Fleet.sole_keepsBases refreshes).discarded b w.fleet _ (Prod.ext hanswer rfl)), fun _ _ he => he⟩
  notDiscarded b w r w' h hr := by
    obtain ⟨hanswer, rfl⟩ := Prod.mk.inj h
    exact unmoved ((Fleet.sole_keepsBases refreshes).notDiscarded b w.fleet r _ (Prod.ext hanswer rfl) hr) rfl rfl
  parked b w id resource elapsed w' h := by
    obtain ⟨hanswer, rfl⟩ := keeping_ok h
    obtain ⟨hid, hbase⟩ := (Fleet.sole_keepsBases refreshes).parked b w.fleet id resource elapsed _ (Prod.ext hanswer rfl)
    obtain ⟨base, hhere⟩ := base_of_park hanswer
    refine ⟨hid, base, w.contents b, ?_, live_update hbase, Function.update_self .., kept_update w _ id _⟩
    unfold live
    rw [hhere]
    rfl
  notParked b w r w' h hr := by
    obtain ⟨hanswer, rfl⟩ := keeping_failed h hr
    exact unmoved ((Fleet.sole_keepsBases refreshes).notParked b w.fleet r _ (Prod.ext hanswer rfl) hr) rfl rfl
  list w := .refl ..
  listed w := by
    have hbase : (fun b => (live w b).map Prod.fst) = w.fleet.base := by
      funext b
      unfold live
      rw [Option.map_map]
      exact Option.map_id'
    rw [hbase]
    exact ((Fleet.sole_keepsBases refreshes).listed w.fleet).2
  exec command timeout b w := within_append command b w
  copyIn b hostPath envPath w := within_append _ b w
  copyOut b hostPath envPath w := .refl ..
  time w := unmoved rfl rfl rfl
  uuid4Hex w := unmoved rfl rfl rfl

theorem start_live (ids : List String) :
    (start ids).live = fun b => if b = defaultBranchId then some ("base", []) else none := by
  funext b
  have hbase : (start ids).fleet.base b = (Dict.empty.set defaultBranchId "base").get? b := rfl
  unfold live
  rw [hbase, Dict.get?_set]
  split_ifs
  · rfl
  · rfl

theorem forksOnRequest (refreshes : Bool) : (backend refreshes).ForksOnRequest := by
  intro id ids w outcomes w' h
  cases h
  unfold fork
  split
  · exact Nat.zero_le _
  · exact Fleet.fork_length id ids w.fleet

end Shelf

/-! ### What the worlds guarantee -/

/-- From the constructor on, every run of public operations without a cleanup is a run of branching worlds with the
outcomes that the operations returned, and in every state that it reaches the default branch and the current one are
live, every live branch stands on a snapshot, and the snapshots form a tree. -/
theorem runs_are_worlds (B : ForkableBackend W) (live : W → String → Option (String × E))
    (stored : W → String → Option E) (hB : Isolating B live stored) (hrequests : B.ForksOnRequest)
    (root resource : String) (w : W) (e : E) (hroot : root ≠ "")
    (hlive : live w = fun b => if b = defaultBranchId then some (root, e) else none) (hstored : stored w root ≠ none)
    (ops : List PublicOp) (hops : .cleanup ∉ ops)
    (hnew : B.EachStep B.SuppliesNew ops ⟨Manager.seeded root resource, w⟩) :
    let s₀ : Sys W := ⟨Manager.seeded root resource, w⟩
    let s := ForkableEnvironmentManager.runOps B.hooks ops s₀
    Unfolds (view live stored s₀) (trace B.hooks ops s₀) (view live stored s) ∧
      Sound defaultBranchId (view live stored s) := by
  intro s₀ s
  obtain ⟨-, hunfolds⟩ := unfolds_runOps hB hrequests (.seeded hroot hlive hstored) hops hnew
  exact ⟨hunfolds, hunfolds.sound (sound_seeded hlive hstored)⟩

/-- A command, a snapshot after it, and a restore of the snapshot. -/
theorem runs_are_worlds_shelf :
    let s₀ : Sys Shelf := ⟨Manager.seeded "base" "base", Shelf.start ["3f2a", "9c41"]⟩
    let ops : List PublicOp := [.execCommand (.line "make") none, .snapshot, .restore "3f2a"]
    let s := ForkableEnvironmentManager.runOps (Shelf.backend true).hooks ops s₀
    Unfolds (view Shelf.live Shelf.kept s₀) (trace (Shelf.backend true).hooks ops s₀) (view Shelf.live Shelf.kept s) ∧
      Sound defaultBranchId (view Shelf.live Shelf.kept s) := by
  refine runs_are_worlds (Shelf.backend true) Shelf.live Shelf.kept (Shelf.isolating true) (Shelf.forksOnRequest true)
    "base" "base" (Shelf.start ["3f2a", "9c41"]) [] (by decide) (Shelf.start_live _) (by decide) _ (by decide)
    ⟨fun id hid => hid.elim, fun id hid => ?_, fun id hid => hid.elim, trivial⟩
  obtain ⟨-, _, _, he⟩ := hid
  cases he
  decide +kernel

/-- An operation takes acts on the branches that it addresses only. -/
theorem not_touches_of_meaning {op : PublicOp} {o : Outcome} {v : Worlds String String E} {acts : List (Act String String E)}
    {b : String} {m : Manager} (h : Meaning op o v acts) (hcurrent : v.current = m.currentBranchId)
    (hb : ¬ op.Addresses b m) : ∀ a ∈ acts, ¬ a.Touches b := by
  have hnil (hacts : acts = []) : ∀ a ∈ acts, ¬ a.Touches b := by
    rw [hacts]
    exact fun a ha => absurd ha List.not_mem_nil
  have hone {a : Act String String E} (hacts : acts = [a]) (ha : ¬ a.Touches b) : ∀ a ∈ acts, ¬ a.Touches b := by
    rw [hacts]
    exact fun a' ha' => List.mem_singleton.mp ha' ▸ ha
  have hwrite {b' : String} (hne : b' ≠ b) (hacts : acts = [] ∨ ∃ e, acts = [.write b' e]) :
      ∀ a ∈ acts, ¬ a.Touches b := by
    rcases hacts with hacts | ⟨e, hacts⟩
    · exact hnil hacts
    · exact hone hacts hne
  have hpark {b' id : String} (hne : b' ≠ b) (hacts : acts = parking v b' id) : ∀ a ∈ acts, ¬ a.Touches b := by
    rw [hacts]
    unfold parking
    intro a ha
    rcases List.mem_append.mp ha with ha | ha
    · split_ifs at ha
      · rw [List.mem_singleton.mp ha]
        exact not_false
      · exact absurd ha List.not_mem_nil
    · rw [List.mem_singleton.mp ha]
      exact hne
  have hrestore {id b' : String} (hacts : acts = [.fork id [b'], .switch b']) : ∀ a ∈ acts, ¬ a.Touches b := by
    rw [hacts]
    simp [Act.Touches]
  unfold Meaning at h
  split at h
  · exact hone h fun he => hb (hcurrent.symm.trans he)
  · exact hone h hb
  · exact hpark hb h
  · exact hpark hb h
  · obtain ⟨b', hacts | hacts⟩ := h
    · exact hrestore hacts
    · have hleft : v.current ≠ b := fun he => hb (hcurrent.symm.trans he)
      rw [hacts]
      simp [Act.Touches, hleft]
  · rcases h with hacts | ⟨b', hacts⟩
    · exact hnil hacts
    · exact hrestore hacts
  · exact hwrite (fun he => hb (hcurrent.symm.trans he)) h
  · exact hwrite (fun he => hb (hcurrent.symm.trans he)) h
  · exact hwrite hb h
  · exact hwrite hb h
  · rcases h.2 with ⟨-, hacts⟩ | ⟨-, hacts⟩
    · exact hnil hacts
    · exact hone hacts not_false
  · exact hone h hb
  · exact hnil h.1
  · exact hnil h.1
  · exact hnil h.1
  · exact hnil h.1
  · exact hnil h

/-- A snapshot that a run returned keeps the environment that its branch had at that moment: whatever happens later, every
branch that a fork of the snapshot returns, and the current branch after a restore of it, starts with that environment. -/
theorem captured_environment_comes_back (B : ForkableBackend W) (live : W → String → Option (String × E))
    (stored : W → String → Option E) (hB : Isolating B live stored) (hrequests : B.ForksOnRequest)
    (root resource : String) (w : W) (e₀ : E) (hroot : root ≠ "")
    (hlive : live w = fun b => if b = defaultBranchId then some (root, e₀) else none) (hstored : stored w root ≠ none)
    (earlier : List PublicOp) (op : PublicOp) (later : List PublicOp) (last : PublicOp)
    (hops : .cleanup ∉ earlier ++ op :: (later ++ [last]))
    (hnew : B.EachStep B.SuppliesNew (earlier ++ op :: (later ++ [last])) ⟨Manager.seeded root resource, w⟩)
    (b id : String) :
    let s₁ := ForkableEnvironmentManager.runOps B.hooks earlier ⟨Manager.seeded root resource, w⟩
    let s₂ := ForkableEnvironmentManager.runOps B.hooks (op :: later) s₁
    let s₃ := ((PublicOp.prog B.hooks last).run s₂).2
    capture B.hooks op s₁ = some (b, id) → ∃ base e, live s₁.world b = some (base, e) ∧
      (∀ n ids branches, last = .fork id n ids →
        ((PublicOp.prog B.hooks last).run s₂).1 = .ok (.branches branches) →
          ∀ o ∈ branches, live s₃.world o.id = some (id, e)) ∧
      (last = .restore id → ((PublicOp.prog B.hooks last).run s₂).1 = .ok (.flag true) →
        live s₃.world s₃.mgr.currentBranchId = some (id, e)) := by
  intro s₁ s₂ s₃ hcapture
  simp only [List.mem_append, List.mem_cons, not_or, List.not_mem_nil, or_false] at hops
  obtain ⟨hearlier, hop, hlater, hlast⟩ := hops
  obtain ⟨hnewEarlier, hnewOp, hnewRest⟩ := Run.eachStep_append.mp hnew
  obtain ⟨hnewLater, hnewLast, -⟩ := Run.eachStep_append.mp hnewRest
  obtain ⟨h₁, -⟩ := unfolds_runOps hB hrequests (.seeded hroot hlive hstored) hearlier hnewEarlier
  obtain ⟨base, e, hhere, hfrozen⟩ := frozen_of_capture hB hrequests h₁ hnewOp hcapture
  have hstep := refines_step hB hrequests h₁ (fun he => hop he.symm) hnewOp
  obtain ⟨h₂, hunfolds⟩ := unfolds_runOps hB hrequests hstep.represents hlater hnewLater
  have hkept : (view live stored s₂).frozen id = some (some base, e) := hunfolds.frozen_mono hfrozen
  obtain ⟨-, acts, hmeaning, hsteps⟩ := refines_step hB hrequests h₂ (fun he => hlast he.symm) hnewLast
  refine ⟨base, e, hhere, fun n ids branches hfork hreturned o ho => ?_, fun hrestore hreturned => ?_⟩
  · subst hfork
    change Steps defaultBranchId (view live stored s₂) acts (view live stored s₃) at hsteps
    have hreturned' : ((PublicOp.prog B.hooks (.fork id n ids)).run
        (ForkableEnvironmentManager.runOps B.hooks later ((PublicOp.prog B.hooks op).run s₁).2)).1 =
          .ok (.branches branches) := hreturned
    rw [hreturned'] at hmeaning
    obtain ⟨-, ⟨hnil, -⟩ | ⟨-, rfl⟩⟩ := hmeaning
    · rw [hnil] at ho
      exact absurd ho List.not_mem_nil
    · obtain ⟨⟩ | ⟨hfork, ⟨⟩⟩ := hsteps
      exact (Steps.nil _).fork_of_frozen hkept hfork o.id (List.mem_map_of_mem ho)
  · subst hrestore
    change Steps defaultBranchId (view live stored s₂) acts (view live stored s₃) at hsteps
    have hreturned' : ((PublicOp.prog B.hooks (.restore id)).run
        (ForkableEnvironmentManager.runOps B.hooks later ((PublicOp.prog B.hooks op).run s₁).2)).1 =
          .ok (.flag true) := hreturned
    rw [hreturned'] at hmeaning
    obtain ⟨b', hacts⟩ := hmeaning
    obtain ⟨hcurrent, hnew⟩ := hsteps.move hacts hkept
    have hcurrent' : s₃.mgr.currentBranchId = b' := hcurrent
    rw [hcurrent']
    exact hnew

/-- What was there before the snapshot comes back, and the command after it does not. -/
theorem captured_environment_comes_back_shelf :
    let s₁ := ForkableEnvironmentManager.runOps (Shelf.backend true).hooks [.execCommand (.line "make") none]
      ⟨Manager.seeded "base" "base", Shelf.start ["3f2a", "9c41"]⟩
    let s₂ := ForkableEnvironmentManager.runOps (Shelf.backend true).hooks
      [.snapshot, .execCommand (.line "rm -rf build") none] s₁
    let s₃ := ((PublicOp.prog (Shelf.backend true).hooks (.restore "3f2a")).run s₂).2
    ∃ base e, Shelf.live s₁.world "main" = some (base, e) ∧
      Shelf.live s₃.world s₃.mgr.currentBranchId = some ("3f2a", e) := by
  have hnew : (Shelf.backend true).EachStep (Shelf.backend true).SuppliesNew
      ([.execCommand (.line "make") none] ++
        .snapshot :: ([.execCommand (.line "rm -rf build") none] ++ [.restore "3f2a"]))
      ⟨Manager.seeded "base" "base", Shelf.start ["3f2a", "9c41"]⟩ := by
    refine ⟨fun id hid => hid.elim, fun id hid => ?_, fun id hid => hid.elim, fun id hid => hid.elim, trivial⟩
    obtain ⟨-, _, _, he⟩ := hid
    cases he
    decide +kernel
  have hkept := captured_environment_comes_back (Shelf.backend true) Shelf.live Shelf.kept
    (Shelf.isolating true) (Shelf.forksOnRequest true) "base" "base" (Shelf.start ["3f2a", "9c41"]) [] (by decide)
    (Shelf.start_live _) (by decide) [.execCommand (.line "make") none] .snapshot
    [.execCommand (.line "rm -rf build") none] (.restore "3f2a") (by decide) hnew "main" "3f2a"
  obtain ⟨base, e, hhere, -, hrestored⟩ := hkept (by decide +kernel)
  have hreturned : ((PublicOp.prog (Shelf.backend true).hooks (.restore "3f2a")).run
      (ForkableEnvironmentManager.runOps (Shelf.backend true).hooks
        [.snapshot, .execCommand (.line "rm -rf build") none]
        (ForkableEnvironmentManager.runOps (Shelf.backend true).hooks [.execCommand (.line "make") none]
          ⟨Manager.seeded "base" "base", Shelf.start ["3f2a", "9c41"]⟩))).1 = .ok (.flag true) := by decide +kernel
  exact ⟨base, e, hhere, hrestored rfl hreturned⟩

/-- A branch that no operation of a run addresses keeps its environment and the snapshot on which it stands, whatever
the run does to other branches. -/
theorem unaddressed_branch_untouched (B : ForkableBackend W) (live : W → String → Option (String × E))
    (stored : W → String → Option E) (hB : Isolating B live stored) (hrequests : B.ForksOnRequest)
    (root resource : String) (w : W) (e₀ : E) (hroot : root ≠ "")
    (hlive : live w = fun b => if b = defaultBranchId then some (root, e₀) else none) (hstored : stored w root ≠ none)
    (earlier ops : List PublicOp) (hops : .cleanup ∉ earlier ++ ops)
    (hnew : B.EachStep B.SuppliesNew (earlier ++ ops) ⟨Manager.seeded root resource, w⟩) (b : String) :
    let s₁ := ForkableEnvironmentManager.runOps B.hooks earlier ⟨Manager.seeded root resource, w⟩
    let s₂ := ForkableEnvironmentManager.runOps B.hooks ops s₁
    live s₁.world b ≠ none → B.EachStep (fun op s => ¬ op.Addresses b s.mgr) ops s₁ →
      live s₂.world b = live s₁.world b := by
  intro s₁ s₂ halive hothers
  rw [List.mem_append, not_or] at hops
  obtain ⟨hnewEarlier, hnewOps⟩ := Run.eachStep_append.mp hnew
  obtain ⟨h₁, -⟩ := unfolds_runOps hB hrequests (.seeded hroot hlive hstored) hops.1 hnewEarlier
  have hrun : ∀ (ops : List PublicOp) (s : Sys W), .cleanup ∉ ops → B.EachStep B.SuppliesNew ops s →
      Represents live stored s → live s.world b ≠ none → B.EachStep (fun op s => ¬ op.Addresses b s.mgr) ops s →
      live (ForkableEnvironmentManager.runOps B.hooks ops s).world b = live s.world b := by
    intro ops
    induction ops with
    | nil => exact fun _ _ _ _ _ _ => rfl
    | cons op ops ih =>
      intro s hops hnew h halive hothers
      rw [List.mem_cons, not_or] at hops
      obtain ⟨hnext, acts, hmeaning, hsteps⟩ := refines_step hB hrequests h (fun he => hops.1 he.symm) hnew.1
      have hfirst : live ((PublicOp.prog B.hooks op).run s).2.world b = live s.world b :=
        hsteps.live_eq halive (not_touches_of_meaning hmeaning rfl hothers.1)
      have hrest := ih _ hops.2 hnew.2 hnext (by rw [hfirst]; exact halive) hothers.2
      exact hrest.trans hfirst
  exact hrun ops s₁ hops.2 hnewOps h₁ halive hothers

/-- A command on the default branch, and a snapshot of it, while another branch is live. -/
theorem unaddressed_branch_untouched_shelf :
    let s₁ := ForkableEnvironmentManager.runOps (Shelf.backend true).hooks [.fork "base" 1 (some ["b07d"])]
      ⟨Manager.seeded "base" "base", Shelf.start ["3f2a"]⟩
    let s₂ := ForkableEnvironmentManager.runOps (Shelf.backend true).hooks
      [.execCommand (.line "make") none, .snapshot] s₁
    s₂.world.live "b07d" = s₁.world.live "b07d" := by
  have hnew : (Shelf.backend true).EachStep (Shelf.backend true).SuppliesNew
      ([.fork "base" 1 (some ["b07d"])] ++ [.execCommand (.line "make") none, .snapshot])
      ⟨Manager.seeded "base" "base", Shelf.start ["3f2a"]⟩ := by
    refine ⟨fun id hid => hid.elim, fun id hid => hid.elim, fun id hid => ?_, trivial⟩
    obtain ⟨-, _, _, he⟩ := hid
    cases he
    decide +kernel
  intro s₁ s₂
  have hother : s₁.mgr.currentBranchId ≠ "b07d" := by decide +kernel
  have hother' : ((PublicOp.prog (Shelf.backend true).hooks (.execCommand (.line "make") none)).run
      s₁).2.mgr.currentBranchId ≠ "b07d" := by decide +kernel
  exact unaddressed_branch_untouched (Shelf.backend true) Shelf.live Shelf.kept (Shelf.isolating true)
    (Shelf.forksOnRequest true) "base" "base" (Shelf.start ["3f2a"]) [] (by decide) (Shelf.start_live _) (by decide)
    [.fork "base" 1 (some ["b07d"])] [.execCommand (.line "make") none, .snapshot] (by decide) hnew "b07d"
    (by decide +kernel) ⟨hother, hother', trivial⟩

end StateFork
