import Mathlib.Data.List.Nodup
import Mathlib.Logic.Function.Basic
import Mathlib.Logic.Relation

/-!
# Branching worlds

Several worlds exist side by side. Each stands on a snapshot and has contents of its own; a world can be frozen as
a new snapshot, a snapshot can be forked into new worlds, and a world can be given up. This says nothing about how
worlds are stored or named: an implementation refines it if each of its operations is a few acts (`Steps`).

What is here for its users: acts leave the worlds alone that they do not touch (`Steps.live_eq`), a snapshot stays
what it was when it was frozen (`Steps.frozen_mono`), so a fork of it has the contents of that moment
(`Steps.fork_of_frozen`), and the snapshots form a tree on which every world stands (`Sound`).
-/

namespace Branching

/-- Worlds under names `β`, snapshots under ids `σ`, and contents `E`. -/
@[ext]
structure Worlds (β σ E : Type*) where
  /-- The snapshot on which a world stands and its contents. -/
  live : β → Option (σ × E)
  /-- The parent of a snapshot and its contents. -/
  frozen : σ → Option (Option σ × E)
  current : β

/-- What can happen to worlds. -/
inductive Act (β σ E : Type*) where
  | write (b : β) (contents : E)
  | freeze (b : β) (id : σ)
  /-- The world is given up once it is frozen. -/
  | park (b : β) (id : σ)
  | fork (id : σ) (bs : List β)
  | discard (b : β)
  | switch (b : β)

variable {β σ E : Type*} [DecidableEq β] [DecidableEq σ]

/-- The act is one on the world `b`. -/
def Act.Touches (b : β) : Act β σ E → Prop
  | .write b' _ | .freeze b' _ | .park b' _ | .discard b' => b' = b
  | .fork _ _ | .switch _ => False

/-- One act. The main world and the current one are not given up, a snapshot id is used once, and a fork makes new
worlds. -/
inductive Step (main : β) (v : Worlds β σ E) : Act β σ E → Worlds β σ E → Prop
  | write {b : β} {base : σ} {e : E} (contents : E) (here : v.live b = some (base, e)) :
      Step main v (.write b contents) { v with live := Function.update v.live b (some (base, contents)) }
  | freeze {b : β} {id base : σ} {e : E} (here : v.live b = some (base, e)) (new : v.frozen id = none) :
      Step main v (.freeze b id)
        { v with
          live := Function.update v.live b (some (id, e))
          frozen := Function.update v.frozen id (some (some base, e)) }
  | park {b : β} {id base : σ} {e : E} (here : v.live b = some (base, e)) (new : v.frozen id = none) (notMain : b ≠ main)
      (notCurrent : b ≠ v.current) :
      Step main v (.park b id)
        { v with
          live := Function.update v.live b none
          frozen := Function.update v.frozen id (some (some base, e)) }
  | fork {id : σ} {parent : Option σ} {e : E} {bs : List β} (known : v.frozen id = some (parent, e)) (nodup : bs.Nodup)
      (free : ∀ b ∈ bs, v.live b = none) :
      Step main v (.fork id bs) { v with live := fun b => if b ∈ bs then some (id, e) else v.live b }
  | discard {b : β} (here : v.live b ≠ none) (notMain : b ≠ main) (notCurrent : b ≠ v.current) :
      Step main v (.discard b) { v with live := Function.update v.live b none }
  | switch {b : β} (here : v.live b ≠ none) : Step main v (.switch b) { v with current := b }

/-- Several acts, one after the other. -/
inductive Steps (main : β) : Worlds β σ E → List (Act β σ E) → Worlds β σ E → Prop
  | nil (v : Worlds β σ E) : Steps main v [] v
  | cons {v v' v'' : Worlds β σ E} {a : Act β σ E} {l : List (Act β σ E)} (first : Step main v a v')
      (rest : Steps main v' l v'') : Steps main v (a :: l) v''

variable {main : β} {v v' v'' : Worlds β σ E} {a : Act β σ E} {acts acts' : List (Act β σ E)}

theorem Step.steps (h : Step main v a v') : Steps main v [a] v' := .cons h (.nil v')

/-! ### Isolation -/

theorem Step.live_eq {b : β} (h : Step main v a v') (hlive : v.live b ≠ none) (hb : ¬ a.Touches b) :
    v'.live b = v.live b := by
  cases h with
  | write => exact Function.update_of_ne (Ne.symm hb) _ _
  | freeze => exact Function.update_of_ne (Ne.symm hb) _ _
  | park => exact Function.update_of_ne (Ne.symm hb) _ _
  | fork _ _ free => exact if_neg fun hmem => hlive (free b hmem)
  | discard => exact Function.update_of_ne (Ne.symm hb) _ _
  | switch => rfl

/-- A world that no act touches is as before. -/
theorem Steps.live_eq {b : β} (h : Steps main v acts v') (hlive : v.live b ≠ none) (hb : ∀ a ∈ acts, ¬ a.Touches b) :
    v'.live b = v.live b := by
  induction h with
  | nil => rfl
  | cons first _ ih =>
    have hfirst := first.live_eq hlive (hb _ (List.mem_cons_self ..))
    have hrest := ih (hfirst ▸ hlive) fun a ha => hb a (List.mem_cons_of_mem _ ha)
    exact hrest.trans hfirst

/-! ### Snapshots are permanent -/

theorem Step.frozen_mono {id : σ} {x : Option σ × E} (h : Step main v a v') (hx : v.frozen id = some x) :
    v'.frozen id = some x := by
  have hfresh {id' : σ} {y : Option (Option σ × E)} (new : v.frozen id' = none) :
      Function.update v.frozen id' y id = some x := by
    rw [Function.update_of_ne _ _ _, hx]
    rintro rfl
    rw [new] at hx
    cases hx
  cases h with
  | freeze _ new => exact hfresh new
  | park _ new _ _ => exact hfresh new
  | write | fork | discard | switch => exact hx

theorem Steps.frozen_mono {id : σ} {x : Option σ × E} (h : Steps main v acts v') (hx : v.frozen id = some x) :
    v'.frozen id = some x := by
  induction h with
  | nil => exact hx
  | cons first _ ih => exact ih (first.frozen_mono hx)

/-- A world that is frozen leaves its contents behind. -/
theorem Step.frozen_of_freeze {b : β} {id : σ} (h : Step main v (.freeze b id) v') :
    ∃ base e, v.live b = some (base, e) ∧ v'.frozen id = some (some base, e) := by
  cases h with
  | freeze here _ => exact ⟨_, _, here, Function.update_self ..⟩

theorem Step.frozen_of_park {b : β} {id : σ} (h : Step main v (.park b id) v') :
    ∃ base e, v.live b = some (base, e) ∧ v'.frozen id = some (some base, e) := by
  cases h with
  | park here _ _ _ => exact ⟨_, _, here, Function.update_self ..⟩

/-- A fork has the contents that the snapshot got when it was frozen, whatever happened since. -/
theorem Steps.fork_of_frozen {id : σ} {bs : List β} {parent : Option σ} {e : E} (h : Steps main v acts v')
    (hfrozen : v.frozen id = some (parent, e)) (hfork : Step main v' (.fork id bs) v'') :
    ∀ b ∈ bs, v''.live b = some (id, e) := by
  cases hfork with
  | fork known =>
    intro b hb
    rw [h.frozen_mono hfrozen] at known
    cases known
    exact if_pos hb

/-- Moving to a fork of a snapshot; the world that was left may be given up. -/
theorem Steps.move {id : σ} {b c : β} {parent : Option σ} {e : E} (h : Steps main v acts v')
    (hacts : acts = [.fork id [b], .switch b] ∨ acts = [.fork id [b], .switch b, .discard c])
    (hfrozen : v.frozen id = some (parent, e)) : v'.current = b ∧ v'.live b = some (id, e) := by
  have hmoves {v₁ v₂ : Worlds β σ E} (hfork : Step main v (.fork id [b]) v₁) (hswitch : Step main v₁ (.switch b) v₂) :
      v₂.current = b ∧ v₂.live b = some (id, e) := by
    have hnew := (Steps.nil v).fork_of_frozen hfrozen hfork b (List.mem_singleton_self b)
    cases hswitch with
    | switch here => exact ⟨rfl, hnew⟩
  rcases hacts with rfl | rfl
  · obtain ⟨⟩ | ⟨hfork, ⟨⟩ | ⟨hswitch, ⟨⟩⟩⟩ := h
    exact hmoves hfork hswitch
  · obtain ⟨⟩ | ⟨hfork, ⟨⟩ | ⟨hswitch, ⟨⟩ | ⟨hdiscard, ⟨⟩⟩⟩⟩ := h
    obtain ⟨hcurrent, hlive⟩ := hmoves hfork hswitch
    have hlive' := hdiscard.live_eq (b := b) (by simp [hlive])
    cases hdiscard with
    | discard _ _ notCurrent =>
      refine ⟨hcurrent, (hlive' ?_).trans hlive⟩
      rintro rfl
      exact notCurrent hcurrent.symm

/-! ### The tree of snapshots -/

/-- The parent of a snapshot. -/
def Worlds.Descends (v : Worlds β σ E) (parent child : σ) : Prop := ∃ e, v.frozen child = some (some parent, e)

/-- Every world stands on a snapshot, and every snapshot on one that was frozen before it. -/
structure Sound (main : β) (v : Worlds β σ E) : Prop where
  main : v.live main ≠ none
  current : v.live v.current ≠ none
  grounded : ∀ b base e, v.live b = some (base, e) → v.frozen base ≠ none
  parents : ∀ id parent e, v.frozen id = some (some parent, e) → v.frozen parent ≠ none
  tree : WellFounded v.Descends

omit [DecidableEq σ] in
theorem Sound.update_live {b : β} {base : σ} {e : E} (h : Sound main v) (hbase : v.frozen base ≠ none) :
    Sound main { v with live := Function.update v.live b (some (base, e)) } where
  main := by
    dsimp only
    rw [Function.update_apply]
    split_ifs
    · simp
    · exact h.main
  current := by
    dsimp only
    rw [Function.update_apply]
    split_ifs
    · simp
    · exact h.current
  grounded b' base' e' hb' := by
    dsimp only at hb'
    rw [Function.update_apply] at hb'
    split_ifs at hb'
    · cases hb'
      exact hbase
    · exact h.grounded b' base' e' hb'
  parents := h.parents
  tree := h.tree

omit [DecidableEq σ] in
theorem Sound.give_up {b : β} (h : Sound main v) (notMain : b ≠ main) (notCurrent : b ≠ v.current) :
    Sound main { v with live := Function.update v.live b none } where
  main := by
    dsimp only
    rw [Function.update_of_ne notMain.symm]
    exact h.main
  current := by
    dsimp only
    rw [Function.update_of_ne notCurrent.symm]
    exact h.current
  grounded b' base e hb' := by
    dsimp only at hb'
    rw [Function.update_apply] at hb'
    split_ifs at hb'
    exact h.grounded b' base e hb'
  parents := h.parents
  tree := h.tree

omit [DecidableEq β] in
/-- A new snapshot is a leaf of the tree. -/
theorem Sound.freeze {id base : σ} {e : E} (h : Sound main v) (new : v.frozen id = none) (hbase : v.frozen base ≠ none) :
    Sound main { v with frozen := Function.update v.frozen id (some (some base, e)) } := by
  have hgrows {id' : σ} (hid : v.frozen id' ≠ none) : Function.update v.frozen id (some (some base, e)) id' ≠ none := by
    rw [Function.update_apply]
    split_ifs
    · simp
    · exact hid
  refine ⟨h.main, h.current, fun b base' e' hb => hgrows (h.grounded b base' e' hb), fun id' parent e' hid => ?_, ⟨?_⟩⟩
  · dsimp only at hid
    rw [Function.update_apply] at hid
    split_ifs at hid
    · cases hid
      exact hgrows hbase
    · exact hgrows (h.parents id' parent e' hid)
  · -- a snapshot that was there before has the ancestors that it had, so only the new one is left
    have hold : ∀ id', v.frozen id' ≠ none →
        Acc (Worlds.Descends { v with frozen := Function.update v.frozen id (some (some base, e)) }) id' := by
      intro id'
      induction id' using h.tree.induction with
      | h id' ih =>
        intro hid'
        refine ⟨id', fun parent hparent => ?_⟩
        obtain ⟨e', hat⟩ := hparent
        have hne : id' ≠ id := fun he => hid' (he ▸ new)
        have hat' : v.frozen id' = some (some parent, e') := (Function.update_of_ne hne _ _).symm.trans hat
        exact ih parent ⟨e', hat'⟩ (h.parents id' parent e' hat')
    intro id'
    refine ⟨id', fun parent hparent => ?_⟩
    obtain ⟨e', hat⟩ := hparent
    refine hold parent ?_
    dsimp only at hat
    rw [Function.update_apply] at hat
    split_ifs at hat
    · cases hat
      exact hbase
    · exact h.parents id' parent e' hat

theorem Step.sound (h : Step main v a v') (hv : Sound main v) : Sound main v' := by
  cases h with
  | write contents here => exact hv.update_live (hv.grounded _ _ _ here)
  | @freeze b id base e here new =>
    have hfrozen := hv.freeze (e := e) new (hv.grounded b base e here)
    refine hfrozen.update_live ?_
    show Function.update v.frozen id _ id ≠ none
    simp
  | @park b id base e here new notMain notCurrent =>
    exact (hv.freeze new (hv.grounded b base e here)).give_up notMain notCurrent
  | @fork id parent e bs known _ _ =>
    have hlive {b : β} (hb : v.live b ≠ none) : (if b ∈ bs then some (id, e) else v.live b) ≠ none := by
      split_ifs
      · simp
      · exact hb
    refine ⟨hlive hv.main, hlive hv.current, fun b base e' hb => ?_, hv.parents, hv.tree⟩
    dsimp only at hb
    split_ifs at hb
    · cases hb
      simp [known]
    · exact hv.grounded b base e' hb
  | discard _ notMain notCurrent => exact hv.give_up notMain notCurrent
  | switch here => exact ⟨hv.main, here, hv.grounded, hv.parents, hv.tree⟩

theorem Steps.sound (h : Steps main v acts v') (hv : Sound main v) : Sound main v' := by
  induction h with
  | nil => exact hv
  | cons first _ ih => exact ih (first.sound hv)

end Branching
