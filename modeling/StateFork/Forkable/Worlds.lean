import StateFork.Forkable.LiveNames
import StateFork.Forkable.Permanence
import StateFork.Forkable.TrueAncestry
import StateFork.Lib.Branching

/-!
# Branches as separate worlds

What a forkable manager is for, whatever its backend is: every live branch is an environment of its own, a snapshot
keeps the environment that was captured, and a fork or a restore brings that environment back. `Isolating` says what
a backend must do for one hook call at a time. `view` is what a manager in front of it shows, as worlds, and
`Meaning` says which acts on worlds an operation with a given outcome stands for.
-/

namespace StateFork

open Conc Conc.Prog Branching EnvironmentManager ForkableEnvironmentManager

variable {W E : Type}

/-! ### Backends that isolate -/

/-- What is stored under the id stays. -/
def Stays (stored : W → String → Option E) (w w' : W) (id : String) : Prop :=
  ∀ e, stored w id = some e → stored w' id = some e

/-- Every environment is as before. -/
structure Unmoved (live : W → String → Option (String × E)) (stored : W → String → Option E) (w w' : W) : Prop where
  live : live w' = live w
  stored : ∀ id, Stays stored w w' id

/-- Every environment but that of `b` is as before, and `b` stands where it stood. -/
structure AltersOnly (live : W → String → Option (String × E)) (stored : W → String → Option E) (b : String) (w w' : W) :
    Prop where
  others : ∀ b', b' ≠ b → live w' b' = live w b'
  base : (live w' b).map Prod.fst = (live w b).map Prod.fst
  stored : ∀ id, Stays stored w w' id

/-- `live` gives the snapshot on which a live branch stands and its environment, `stored` the environment that is kept
for a snapshot. A hook for a branch concerns that branch, a capture stores what the branch is, and a fork makes
branches of what is stored. A hook that fails or raises changes nothing, and a listing is truthful if there is one. -/
structure Isolating (B : ForkableBackend W) (live : W → String → Option (String × E))
    (stored : W → String → Option E) : Prop where
  captured : ∀ b w id resource elapsed w', B.snapshot b w = (.ok (some (id, resource), elapsed), w') → id ≠ "" ∧
    ∃ base e, live w b = some (base, e) ∧ live w' = Function.update (live w) b (some (id, e)) ∧
      stored w' id = some e ∧ ∀ id', id' ≠ id → Stays stored w w' id'
  notCaptured : ∀ b w r w', B.snapshot b w = (r, w') → (∀ x t, r ≠ .ok (some x, t)) → Unmoved live stored w w'
  forked : ∀ s requestedIds w outcomes w', B.fork s requestedIds w = (.ok outcomes, w') →
    (∀ o ∈ outcomes, o.1.baseSnapshotId = s ∧ live w o.1.id = none ∧ stored w s ≠ none) ∧
      (outcomes.map fun o => o.1.id).Nodup ∧
      (live w' = fun b => if b ∈ outcomes.map (fun o => o.1.id) then (stored w s).map fun e => (s, e) else live w b) ∧
      ∀ id, Stays stored w w' id
  notForked : ∀ s requestedIds w e w', B.fork s requestedIds w = (.error e, w') → Unmoved live stored w w'
  discarded : ∀ b w w', B.discard b w = (.ok true, w') →
    live w' = Function.update (live w) b none ∧ ∀ id, Stays stored w w' id
  notDiscarded : ∀ b w r w', B.discard b w = (r, w') → r ≠ .ok true → Unmoved live stored w w'
  parked : ∀ b w id resource elapsed w', B.park b w = (.ok (some (id, resource), elapsed), w') → id ≠ "" ∧
    ∃ base e, live w b = some (base, e) ∧ live w' = Function.update (live w) b none ∧
      stored w' id = some e ∧ ∀ id', id' ≠ id → Stays stored w w' id'
  notParked : ∀ b w r w', B.park b w = (r, w') → (∀ x t, r ≠ .ok (some x, t)) → Unmoved live stored w w'
  list : ∀ w, Unmoved live stored w (B.list w).2
  listed : ∀ w, (B.list w).1 = .ok none ∨
    ∃ listing, (B.list w).1 = .ok (some listing) ∧ Truthful (fun b => (live w b).map Prod.fst) listing
  exec : ∀ command timeout b w, AltersOnly live stored b w (B.exec command timeout b w).2
  copyIn : ∀ b hostPath envPath w, AltersOnly live stored b w (B.copy b hostPath envPath true w).2
  copyOut : ∀ b hostPath envPath w, Unmoved live stored w (B.copy b hostPath envPath false w).2
  time : ∀ w, Unmoved live stored w (B.time w).2
  uuid4Hex : ∀ w, Unmoved live stored w (B.uuid4Hex w).2

/-- Where the branches stand. -/
def baseOf (live : W → String → Option (String × E)) (w : W) (b : String) : Option String := (live w b).map Prod.fst

section

variable {live : W → String → Option (String × E)} {stored : W → String → Option E} {w w' w'' : W} {b : String}

theorem Stays.trans {id : String} (h : Stays stored w w' id) (h' : Stays stored w' w'' id) : Stays stored w w'' id :=
  fun e he => h' e (h e he)

theorem Unmoved.refl (live : W → String → Option (String × E)) (stored : W → String → Option E) (w : W) :
    Unmoved live stored w w := ⟨rfl, fun _ _ he => he⟩

theorem Unmoved.trans (h : Unmoved live stored w w') (h' : Unmoved live stored w' w'') : Unmoved live stored w w'' :=
  ⟨h'.live.trans h.live, fun id => (h.stored id).trans (h'.stored id)⟩

theorem Unmoved.base (h : Unmoved live stored w w') : baseOf live w' = baseOf live w := by
  unfold baseOf
  rw [h.live]

theorem Unmoved.within (h : Unmoved live stored w w') (b : String) : AltersOnly live stored b w w' where
  others b' _ := by rw [h.live]
  base := by rw [h.live]
  stored := h.stored

theorem AltersOnly.trans (h : AltersOnly live stored b w w') (h' : AltersOnly live stored b w' w'') :
    AltersOnly live stored b w w'' where
  others b' hb := (h'.others b' hb).trans (h.others b' hb)
  base := h'.base.trans h.base
  stored id := (h.stored id).trans (h'.stored id)

theorem AltersOnly.bases (h : AltersOnly live stored b w w') : baseOf live w' = baseOf live w := by
  funext b'
  by_cases hb : b' = b
  · rw [hb]
    exact h.base
  · unfold baseOf
    rw [h.others b' hb]

theorem baseOf_update (live : W → String → Option (String × E)) {x : Option (String × E)}
    (hlive : live w' = Function.update (live w) b x) :
    baseOf live w' = Function.update (baseOf live w) b (x.map Prod.fst) := by
  funext b'
  unfold baseOf
  rw [hlive, Function.update_apply, Function.update_apply]
  split_ifs
  · rfl
  · rfl

end

section

variable {B : ForkableBackend W} {live : W → String → Option (String × E)} {stored : W → String → Option E}
  (hB : Isolating B live stored)

include hB

theorem Isolating.keepsBases : KeepsBases B (baseOf live) where
  captured b w id resource elapsed w' h := by
    obtain ⟨hid, base, e, -, hlive, -⟩ := hB.captured b w id resource elapsed w' h
    exact ⟨hid, baseOf_update live hlive⟩
  notCaptured b w r w' h hr := (hB.notCaptured b w r w' h hr).base
  forked s requestedIds w outcomes w' h := by
    obtain ⟨hout, hnodup, hlive, -⟩ := hB.forked s requestedIds w outcomes w' h
    refine ⟨fun o ho => ⟨(hout o ho).1, ?_⟩, hnodup, ?_⟩
    · unfold baseOf
      rw [(hout o ho).2.1]
      rfl
    · funext b
      unfold baseOf
      rw [hlive]
      dsimp only
      split_ifs with hb
      · obtain ⟨o, ho, -⟩ := List.mem_map.mp hb
        obtain ⟨e, he⟩ := Option.ne_none_iff_exists'.mp (hout o ho).2.2
        rw [he]
        rfl
      · rfl
  notForked s requestedIds w e w' h := (hB.notForked s requestedIds w e w' h).base
  discarded b w w' h := baseOf_update live (hB.discarded b w w' h).1
  notDiscarded b w r w' h hr := (hB.notDiscarded b w r w' h hr).base
  parked b w id resource elapsed w' h := by
    obtain ⟨hid, base, e, -, hlive, -⟩ := hB.parked b w id resource elapsed w' h
    exact ⟨hid, baseOf_update live hlive⟩
  notParked b w r w' h hr := (hB.notParked b w r w' h hr).base
  listed w := ⟨(hB.list w).base, hB.listed w⟩
  exec command timeout b w := (hB.exec command timeout b w).bases
  copy b hostPath envPath into w := by
    cases into with
    | true => exact (hB.copyIn b hostPath envPath w).bases
    | false => exact (hB.copyOut b hostPath envPath w).base
  time w := (hB.time w).base
  uuid4Hex w := (hB.uuid4Hex w).base

end

/-! ### What a manager shows -/

section

variable (live : W → String → Option (String × E)) (stored : W → String → Option E)

/-- The live branches of the backend, the snapshots that the controller has recorded, and the current branch. -/
def view (s : Sys W) : Worlds String String E where
  live := live s.world
  frozen id := (parentOf s id).bind fun parent => (stored s.world id).map fun e => (parent, e)
  current := s.mgr.currentBranchId

/-- The controller is in step with the backend: it knows exactly the branches that are live and where they stand, and
every snapshot that it recorded is stored. -/
structure Represents (s : Sys W) : Prop where
  inStep : InStep (baseOf live) s
  consistent : Consistent s.mgr
  objects : LiveRegular s.mgr
  named : LiveNamed s.mgr
  registry : ∀ b, live s.world b ≠ none → b ∈ s.mgr.liveBranches.keys
  resources : ∀ id, id ∈ s.mgr.snapshots.keys → id ∈ s.mgr.snapshotGraph.keys
  stored : ∀ id, id ∈ s.mgr.snapshotGraph.keys → stored s.world id ≠ none

end

/-- What parking does to the worlds: if the branch is current, the default branch is current first. -/
def parking (v : Worlds String String E) (b id : String) : List (Act String String E) :=
  (if b = v.current then [.switch defaultBranchId] else []) ++ [.park b id]

/-- The branches shown are the live ones, each with the snapshot on which it stands. -/
def ShownAs (v : Worlds String String E) (branches : List EnvironmentBranch) : Prop :=
  ∀ b id, (v.live b).map Prod.fst = some id ↔ ∃ o ∈ branches, o.id = b ∧ o.baseSnapshotId = id

/-- The acts that an operation with this outcome stands for. -/
def Meaning (op : PublicOp) (o : Outcome) (v : Worlds String String E) (acts : List (Act String String E)) : Prop :=
  match op, o with
  | .snapshot, .snapshotId (some id) => acts = [.freeze v.current id]
  | .snapshotBranch b false, .snapshotId (some id) => acts = [.freeze b id]
  | .snapshotBranch b true, .snapshotId (some id) => acts = parking v b id
  | .parkBranch b, .snapshotId (some id) => acts = parking v b id
  | .restore id, .flag true =>
    ∃ b, acts = [.fork id [b], .switch b] ∨ acts = [.fork id [b], .switch b, .discard v.current]
  -- the hook that is to destroy the departing branch raised
  | .restore id, .raised _ => acts = [] ∨ ∃ b, acts = [.fork id [b], .switch b]
  | .execCommand _ _, _ | .copyIn _ _, _ => acts = [] ∨ ∃ e, acts = [.write v.current e]
  | .execOnBranch b _ _, _ | .copyInBranch b _ _, _ => acts = [] ∨ ∃ e, acts = [.write b e]
  | .fork id _ _, .branches branches =>
    (∀ o ∈ branches, o.baseSnapshotId = id) ∧
      (branches = [] ∧ acts = [] ∨ branches ≠ [] ∧ acts = [.fork id (branches.map EnvironmentBranch.id)])
  | .discardBranch b, .flag true => acts = [.discard b]
  | .listBranches, .branches branches | .liveBranches, .branches branches => acts = [] ∧ ShownAs v branches
  | .currentBranchId, .text b => acts = [] ∧ b = v.current
  | .currentSnapshot, .snapshotId id => acts = [] ∧ id = (v.live v.current).map Prod.fst
  | _, _ => acts = []

end StateFork
