import StateFork.Concurrency.Sections
import StateFork.Forkable.Bases

/-!
# The lifetimes of branches

The protocol by which the threads of a manager agree on which branches exist.

* A record is removed, and its branch retired, only by a thread that holds the operation lock of that
  record, the registry lock and the current-branch lock. So whoever holds the operation lock of a
  registered record keeps the record registered and its branch alive.
* Branches come to life only under the registry lock, and while that lock is free no branch that is gone
  has a record. So the record of a retired branch is never registered again: a later branch of the same
  name gets a new one.
* Only registered records are active, so the test of the `active` flag under the operation lock is enough.

`UseSafe` is what follows for the history: no hook is called for a branch that is gone, nor through a
record that was looked up before its branch was retired.
-/

namespace StateFork

open Conc Conc.Prog Conc.Protocol

/-! ### The history of a branch -/

/-- Whether `b` is gone after an event. -/
def Event.goneAfter (b : String) (gone : Bool) : Event → Bool
  | .retired b' => if b' = b then true else gone
  | .materialized b' => if b' = b then false else gone
  | _ => gone

/-- `b` was retired and has not been materialized since. -/
def gone (b : String) (tr : List Event) : Bool := tr.foldl (Event.goneAfter b) false

/-- The branch of the record was retired after somebody had looked the record up. -/
def Stale (r : Ref) (tr : List Event) : Prop := ∃ t, t ++ [.retired r.id] <+: tr ∧ .lookedUp r ∈ t

/-- Hooks are called for existing branches only, and not through records of earlier branches of that name. -/
def UseSafe (tr : List Event) : Prop :=
  ∀ t hook r, t ++ [.call hook r] <+: tr → gone r.id t = false ∧ ¬ Stale r t

/-- The branch that an operation reports as retired. -/
def retiredBy : PublicOp → Outcome → Option String
  | .discardBranch b, .flag true => some b
  | .parkBranch b, .snapshotId (some _) => some b
  | .snapshotBranch b true, .snapshotId (some _) => some b
  | _, _ => none

/-- The failure value of an operation on a named branch. -/
def Refused : PublicOp → Outcome → Prop
  | .execOnBranch .., o => ∃ text, o = .exec (-1) "" text
  | .copyInBranch .., o | .copyOutBranch .., o | .discardBranch .., o => o = .flag false
  | .snapshotBranch .., o | .parkBranch .., o => o = .snapshotId none
  | _, _ => True

/-- A hook was called in `h`, through the only record that had been looked up by then. -/
def Served (h : List Event) : Prop :=
  ∃ h₁ hook r h₂, h = h₁ ++ .call hook r :: h₂ ∧ ∀ r', .lookedUp r' ∈ h₁ → r' = r

/-- What an event tells about the operation that has caused the events `h` so far: hooks are called through
the record that it looked up, it retires what it reports as retired, and it fails if it was not served. -/
def Justified (h : List Event) : Event → Prop
  | .call _ r => .lookedUp r ∈ h
  | .returned op outcome =>
    (∀ b, retiredBy op outcome = some b → .retired b ∈ h) ∧ (Served h ∨ Refused op outcome)
  | _ => True

/-- Events that say nothing about the lives of branches. -/
def Event.Mute : Event → Prop
  | .captured .. | .advanced .. | .fetched | .positioned .. => True
  | _ => False

@[simp] theorem gone_snoc (b : String) (tr : List Event) (e : Event) :
    gone b (tr ++ [e]) = e.goneAfter b (gone b tr) := by
  simp [gone]

theorem gone_append_materialized (b : String) (tr : List Event) (l : List String) :
    gone b (tr ++ l.map .materialized) = if b ∈ l then false else gone b tr := by
  induction l using List.reverseRecOn with
  | nil => simp
  | append_singleton l b' ih =>
    rw [List.map_append, List.map_singleton, ← List.append_assoc, gone_snoc, ih]
    by_cases hb : b' = b
    · simp [Event.goneAfter, hb]
    · simp [Event.goneAfter, hb, Ne.symm hb]

theorem gone_append_mute {b : String} {tr ev : List Event} (hev : ∀ e ∈ ev, e.Mute) :
    gone b (tr ++ ev) = gone b tr := by
  induction ev using List.reverseRecOn with
  | nil => rw [List.append_nil]
  | append_singleton ev e ih =>
    have he : e.Mute := hev e (by simp)
    rw [← List.append_assoc, gone_snoc, ih fun f hf => hev f (by simp [hf])]
    cases e with
    | captured | advanced | fetched | positioned => rfl
    | _ => exact he.elim

theorem stale_append {r : Ref} {tr ev : List Event} (hev : .retired r.id ∉ ev) :
    Stale r (tr ++ ev) ↔ Stale r tr := by
  unfold Stale
  simp only [snoc_prefix_append hev]

theorem stale_snoc_retired {r : Ref} {tr : List Event} {b : String} :
    Stale r (tr ++ [.retired b]) ↔ Stale r tr ∨ (r.id = b ∧ .lookedUp r ∈ tr) := by
  unfold Stale
  simp only [snoc_prefix_snoc]
  constructor
  · rintro ⟨t, ⟨rfl, he⟩ | ht, hl⟩
    · cases he
      exact .inr ⟨rfl, hl⟩
    · exact .inl ⟨t, ht, hl⟩
  · rintro (⟨t, ht, hl⟩ | ⟨rfl, hl⟩)
    · exact ⟨t, .inr ht, hl⟩
    · exact ⟨tr, .inl ⟨rfl, rfl⟩, hl⟩

theorem Stale.lookedUp {r : Ref} {tr : List Event} (h : Stale r tr) : .lookedUp r ∈ tr := by
  obtain ⟨t, ht, hl⟩ := h
  exact (List.prefix_append _ _).trans ht |>.subset hl

theorem UseSafe.append {tr ev : List Event} (h : UseSafe tr) (hev : ∀ hook r, .call hook r ∉ ev) :
    UseSafe (tr ++ ev) :=
  fun t hook r ht => h t hook r ((snoc_prefix_append (hev hook r)).mp ht)

theorem UseSafe.call {tr : List Event} {hook : Hook} {r : Ref} (h : UseSafe tr) (hgone : gone r.id tr = false)
    (hstale : ¬ Stale r tr) : UseSafe (tr ++ [.call hook r]) := by
  intro t hook' r' ht
  rcases snoc_prefix_snoc.mp ht with ⟨rfl, he⟩ | ht
  · cases he
    exact ⟨hgone, hstale⟩
  · exact h t hook' r' ht

/-! ### The protocol -/

namespace Lifetime

variable {W : Type} (live : W → String → Prop)

/-- The record was registered at some time, and no other branch ever gets its address. -/
structure Known (r : Ref) (m : Manager) : Prop where
  allocated : r.addr < m.records.next
  unique : ∀ b r', m.branches.get? b = some r' → r'.addr = r.addr → r' = r

/-- What holds of every reachable view. -/
structure Sound (v : View (Sys W) Event) : Prop where
  regular : Regular v.state.mgr
  active : ∀ a < v.state.mgr.records.next, (v.state.mgr.records.cell a).active = true →
    ∃ b, v.state.mgr.branches.get? b = some ⟨b, a⟩
  main : (v.state.mgr.branches.get? defaultBranchId).isSome
  current : (v.state.mgr.branches.get? v.state.mgr.currentBranchId).isSome
  dead : ∀ b, gone b v.events = true → ¬ live v.state.world b
  looked : ∀ r, .lookedUp r ∈ v.events → Known r v.state.mgr
  stale : ∀ r, Stale r v.events → v.state.mgr.branches.get? r.id = some r → gone r.id v.events = true
  used : UseSafe v.events

/-- What holds of a record while nobody holds its operation lock. -/
def Guarded (r : Ref) (v : View (Sys W) Event) : Prop :=
  v.state.mgr.branches.get? r.id = some r → gone r.id v.events = false

/-- What holds of the registries while nobody holds their lock. -/
structure Settled (v : View (Sys W) Event) : Prop where
  listed : ∀ b ∈ v.state.mgr.liveBranches.keys, live v.state.world b
  removed : ∀ b, gone b v.events = true → v.state.mgr.branches.get? b = none

/-- The view has moved on: the past stays, and addresses are not reused. -/
structure Onward (v v' : View (Sys W) Event) : Prop where
  events : v.events <+: v'.events
  next : v.state.mgr.records.next ≤ v'.state.mgr.records.next
  fresh : ∀ b r, v'.state.mgr.branches.get? b = some r →
    v.state.mgr.branches.get? b = some r ∨ v.state.mgr.records.next ≤ r.addr

/-- The record stays, and its branch is not retired. -/
def Spared (b : String) (r : Ref) (v v' : View (Sys W) Event) : Prop :=
  v.state.mgr.branches.get? b = some r → v'.state.mgr.branches.get? b = some r ∧
    (gone b v'.events = true → gone b v.events = true)

/-- What the other threads may do while the locks `H` are held. -/
structure Tolerated (H : List Lock) (v v' : View (Sys W) Event) : Prop where
  onward : Onward v v'
  operation : ∀ r, .operation r ∈ H → Spared r.id r v v'
  registry : .branchRegistry ∈ H → live v'.state.world = live v.state.world ∧
    v'.state.mgr.liveBranches.keys = v.state.mgr.liveBranches.keys ∧
    (∀ b, gone b v'.events = gone b v.events) ∧
    ∀ b r, v'.state.mgr.branches.get? b = some r → v.state.mgr.branches.get? b = some r ∨ gone b v'.events = false
  registered : .branchRegistry ∈ H ∨ .currentBranch ∈ H →
    ∀ b r, v.state.mgr.branches.get? b = some r → v'.state.mgr.branches.get? b = some r
  current : .currentBranch ∈ H → v'.state.mgr.currentBranchId = v.state.mgr.currentBranchId

/-- What a thread that holds the locks `H` promises of its steps. -/
structure Promised (H : List Lock) (h ev : List Event) (v v' : View (Sys W) Event) : Prop where
  onward : Onward v v'
  /-- Records are removed under three locks. -/
  removed : ∀ b r, v.state.mgr.branches.get? b = some r → v'.state.mgr.branches.get? b = some r ∨
    (.operation r ∈ H ∧ .branchRegistry ∈ H ∧ .currentBranch ∈ H)
  /-- Records are made for branches that exist. -/
  made : ∀ b r, v'.state.mgr.branches.get? b = some r →
    v.state.mgr.branches.get? b = some r ∨ gone b v'.events = false
  retired : ∀ b, gone b v'.events = true → gone b v.events = true ∨
    (.branchRegistry ∈ H ∧ ∃ r, v.state.mgr.branches.get? b = some r ∧ .operation r ∈ H)
  revived : ∀ b, gone b v.events = true → gone b v'.events = true ∨ .branchRegistry ∈ H
  live : live v'.state.world = live v.state.world ∨ .branchRegistry ∈ H
  keys : v'.state.mgr.liveBranches.keys = v.state.mgr.liveBranches.keys ∨ .branchRegistry ∈ H
  current : v'.state.mgr.currentBranchId = v.state.mgr.currentBranchId ∨ .currentBranch ∈ H
  justified : ∀ e ∈ ev, Justified h e

def protocol : Protocol (Sys W) Lock Event where
  valid v := Sound live v
  rely H v v' := Tolerated live H v v'
  guar H h ev v v' := Promised live H h ev v v'
  acq _ _ _ := True
  inv
    | .operation r, v => Guarded r v
    | .branchRegistry, v => Settled live v
    | _, _ => True

variable {live}

theorem Onward.refl (v : View (Sys W) Event) : Onward v v :=
  ⟨List.prefix_refl _, le_refl _, fun _ _ h => .inl h⟩

theorem Onward.trans {v v' v'' : View (Sys W) Event} (h : Onward v v') (h' : Onward v' v'') : Onward v v'' where
  events := h.events.trans h'.events
  next := h.next.trans h'.next
  fresh b r hr := by
    rcases h'.fresh b r hr with hr' | hr'
    · exact h.fresh b r hr'
    · exact .inr (h.next.trans hr')

theorem Tolerated.refl (H : List Lock) (v : View (Sys W) Event) : Tolerated live H v v where
  onward := .refl v
  operation _ _ hr := ⟨hr, id⟩
  registry _ := ⟨rfl, rfl, fun _ => rfl, fun _ _ hr => .inl hr⟩
  registered _ _ _ hr := hr
  current _ := rfl

theorem Tolerated.trans {H : List Lock} {v v' v'' : View (Sys W) Event} (h : Tolerated live H v v')
    (h' : Tolerated live H v' v'') : Tolerated live H v v'' where
  onward := h.onward.trans h'.onward
  operation r hl hr := by
    obtain ⟨hr', hgone⟩ := h.operation r hl hr
    obtain ⟨hr'', hgone'⟩ := h'.operation r hl hr'
    exact ⟨hr'', fun hg => hgone (hgone' hg)⟩
  registry hl := by
    obtain ⟨hlive, hkeys, hgone, hmade⟩ := h.registry hl
    obtain ⟨hlive', hkeys', hgone', hmade'⟩ := h'.registry hl
    refine ⟨hlive'.trans hlive, hkeys'.trans hkeys, fun b => (hgone' b).trans (hgone b), fun b r hr => ?_⟩
    rcases hmade' b r hr with hr' | hg
    · rcases hmade b r hr' with hr'' | hg
      · exact .inl hr''
      · exact .inr ((hgone' b).trans hg)
    · exact .inr hg
  registered hl b r hr := h'.registered hl b r (h.registered hl b r hr)
  current hl := (h'.current hl).trans (h.current hl)

theorem protocol_coherent : (protocol live).Coherent where
  refl := .refl
  trans _ _ _ _ h h' := h.trans h'
  guar_rely H H' h ev v v' hdisjoint _ hg := by
    constructor
    case onward => exact hg.onward
    case operation =>
      intro r hl hr
      constructor
      · rcases hg.removed r.id r hr with hr' | ⟨hl', -, -⟩
        · exact hr'
        · exact absurd hl (hdisjoint _ hl')
      · intro hgone
        rcases hg.retired r.id hgone with hold | ⟨-, r', hr', hl'⟩
        · exact hold
        · obtain rfl := Option.some.inj (hr.symm.trans hr')
          exact absurd hl (hdisjoint _ hl')
    case registry =>
      intro hl
      have hnot : .branchRegistry ∉ H := fun hl' => hdisjoint _ hl' hl
      refine ⟨hg.live.resolve_right hnot, hg.keys.resolve_right hnot, fun b => ?_, hg.made⟩
      rw [Bool.eq_iff_iff]
      constructor
      · intro hgone
        exact (hg.retired b hgone).resolve_right fun hh => hnot hh.1
      · intro hgone
        exact (hg.revived b hgone).resolve_right hnot
    case registered =>
      rintro hl b r hr
      rcases hg.removed b r hr with hr' | ⟨-, hregistry, hcurrent⟩
      · exact hr'
      · rcases hl with hl | hl
        · exact absurd hl (hdisjoint _ hregistry)
        · exact absurd hl (hdisjoint _ hcurrent)
    case current =>
      intro hl
      exact hg.current.resolve_right fun hl' => hdisjoint _ hl' hl
  guar_inv H h ev v v' l _ hg hl hinv := by
    cases l with
    | operation r =>
      intro hr
      rcases hg.made r.id r hr with hr' | hgone
      · have hold : gone r.id v.events = false := hinv hr'
        by_contra hgone
        rcases hg.retired r.id (Bool.eq_true_of_not_eq_false hgone) with hgone' | ⟨-, r', hr'', hl'⟩
        · rw [hold] at hgone'
          cases hgone'
        · obtain rfl := Option.some.inj (hr'.symm.trans hr'')
          exact hl hl'
      · exact hgone
    | branchRegistry =>
      obtain ⟨hlisted, hremoved⟩ := hinv
      have hlive := hg.live.resolve_right hl
      refine ⟨fun b hb => ?_, fun b hgone => ?_⟩
      · rw [hg.keys.resolve_right hl] at hb
        rw [hlive]
        exact hlisted b hb
      · have hgone' : gone b v.events = true := (hg.retired b hgone).resolve_right fun hh => hl hh.1
        cases hr : v'.state.mgr.branches.get? b with
        | none => rfl
        | some r =>
          rcases hg.made b r hr with hr' | hfalse
          · rw [hremoved b hgone'] at hr'
            cases hr'
          · rw [hfalse] at hgone
            cases hgone
    | _ => trivial

theorem Tolerated.mono {H H' : List Lock} {v v' : View (Sys W) Event} (h : Tolerated live H' v v') (hH : H ⊆ H') :
    Tolerated live H v v' where
  onward := h.onward
  operation r hl := h.operation r (hH hl)
  registry hl := h.registry (hH hl)
  registered hl := h.registered (hl.imp (fun hl => hH hl) fun hl => hH hl)
  current hl := h.current (hH hl)

theorem Promised.mono {H H' : List Lock} {h ev : List Event} {v v' : View (Sys W) Event}
    (hg : Promised live H h ev v v') (hH : H ⊆ H') : Promised live H' h ev v v' where
  onward := hg.onward
  removed b r hr := (hg.removed b r hr).imp_right fun hl => ⟨hH hl.1, hH hl.2.1, hH hl.2.2⟩
  made := hg.made
  retired b hb := (hg.retired b hb).imp_right fun ⟨hl, r, hr, hl'⟩ => ⟨hH hl, r, hr, hH hl'⟩
  revived b hb := (hg.revived b hb).imp_right fun hl => hH hl
  live := hg.live.imp_right fun hl => hH hl
  keys := hg.keys.imp_right fun hl => hH hl
  current := hg.current.imp_right fun hl => hH hl
  justified := hg.justified

/-- Locks without an invariant. -/
theorem plain {l : Lock} (hl : ∀ r, l ≠ .operation r) (hl' : l ≠ .branchRegistry) : (protocol live).Plain l where
  acq _ _ := trivial
  inv v := by
    cases l with
    | operation r => exact absurd rfl (hl r)
    | branchRegistry => exact absurd rfl hl'
    | _ => trivial
  rely H v v' h := h.mono (List.subset_cons_self _ _)
  guar H h ev v v' hg := hg.mono (List.subset_cons_self _ _)

theorem plain_state : (protocol live).Plain .state := plain (by simp) (by simp)

theorem plain_stats : (protocol live).Plain .stats := plain (by simp) (by simp)

theorem plain_current : (protocol live).Plain .currentBranch := plain (by simp) (by simp)

/-! ### Steps -/

variable {H K : List Lock} {F : List Event → View (Sys W) Event → Prop} {v : View (Sys W) Event} {s : Sys W}
  {ev : List Event}

/-- A record that is known and active is registered. -/
theorem Sound.registered (hv : Sound live v) {r : Ref} (hr : Known r v.state.mgr)
    (hactive : (v.state.mgr.record r).active = true) : v.state.mgr.branches.get? r.id = some r := by
  obtain ⟨b, hb⟩ := hv.active r.addr hr.allocated hactive
  have he : (⟨b, r.addr⟩ : Ref) = r := hr.unique b _ hb rfl
  rw [he] at hb
  rw [hv.regular.ids b r hb]
  exact hb

/-- A registered record is known. -/
theorem Sound.known (hv : Sound live v) {b : String} {r : Ref} (hr : v.state.mgr.branches.get? b = some r) :
    Known r v.state.mgr where
  allocated := hv.regular.allocated b r hr
  unique b' r' hr' haddr := by
    obtain rfl := hv.regular.distinct b' b r' r hr' hr haddr
    exact Option.some.inj (hr'.symm.trans hr)

theorem Known.onward {r : Ref} {v v' : View (Sys W) Event} (h : Known r v.state.mgr) (hv : Onward v v') :
    Known r v'.state.mgr where
  allocated := lt_of_lt_of_le h.allocated hv.next
  unique b r' hr' haddr := by
    rcases hv.fresh b r' hr' with hold | hnew
    · exact h.unique b r' hold haddr
    · have hlt := h.allocated
      omega

/-- A step that removes no record, makes some for existing branches at most, and has no event that tells
about the lives of branches. -/
theorem quiet_step (hv : Sound live v) (hregular : Regular s.mgr)
    (hkept : ∀ b r, v.state.mgr.branches.get? b = some r → s.mgr.branches.get? b = some r)
    (hmade : ∀ b r, s.mgr.branches.get? b = some r →
      v.state.mgr.branches.get? b = some r ∨ (v.state.mgr.records.next ≤ r.addr ∧ gone b v.events = false))
    (hnext : v.state.mgr.records.next ≤ s.mgr.records.next)
    (hactive : ∀ a < s.mgr.records.next, (s.mgr.records.cell a).active = true → ∃ b, s.mgr.branches.get? b = some ⟨b, a⟩)
    (hkeys : s.mgr.liveBranches = v.state.mgr.liveBranches)
    (hcurrent : s.mgr.currentBranchId = v.state.mgr.currentBranchId) (hlive : live s.world = live v.state.world)
    (hev : ∀ e ∈ ev, e.Mute) : (protocol live).Quiet ev v s := by
  have honward : Onward v (v.step ev s) :=
    ⟨List.prefix_append _ _, hnext, fun b r hr => (hmade b r hr).imp_right And.left⟩
  have hgone : ∀ b, gone b (v.events ++ ev) = gone b v.events := fun b => gone_append_mute hev
  have hsome : ∀ b, (v.state.mgr.branches.get? b).isSome → (s.mgr.branches.get? b).isSome := by
    intro b hb
    obtain ⟨r, hr⟩ := Option.isSome_iff_exists.mp hb
    exact Option.isSome_iff_exists.mpr ⟨r, hkept b r hr⟩
  have hmade' : ∀ b r, s.mgr.branches.get? b = some r →
      v.state.mgr.branches.get? b = some r ∨ gone b (v.events ++ ev) = false := fun b r hr =>
    (hmade b r hr).imp_right fun h => (hgone b).trans h.2
  refine ⟨?_, fun H h => ?_, fun H => ?_⟩
  · constructor
    case regular => exact hregular
    case active => exact hactive
    case main => exact hsome _ hv.main
    case current =>
      show (s.mgr.branches.get? s.mgr.currentBranchId).isSome
      rw [hcurrent]
      exact hsome _ hv.current
    case dead =>
      intro b hb
      change gone b (v.events ++ ev) = true at hb
      rw [hgone] at hb
      show ¬ live s.world b
      rw [hlive]
      exact hv.dead b hb
    case looked =>
      intro r hr
      have hnot : .lookedUp r ∉ ev := fun he => hev _ he
      exact (hv.looked r ((List.mem_append.mp hr).resolve_right hnot)).onward honward
    case stale =>
      intro r hr hget
      have hnot : .retired r.id ∉ ev := fun he => hev _ he
      have hold := (stale_append hnot).mp hr
      rcases hmade r.id r hget with hget' | ⟨haddr, -⟩
      · exact (hgone r.id).trans (hv.stale r hold hget')
      · have hlt := (hv.looked r hold.lookedUp).allocated
        omega
    case used => exact hv.used.append fun hook r he => hev _ he
  · constructor
    case onward => exact honward
    case removed => exact fun b r hr => .inl (hkept b r hr)
    case made => exact hmade'
    case retired => exact fun b hb => .inl (hgone b ▸ hb)
    case revived => exact fun b hb => .inl ((hgone b).trans hb)
    case live => exact .inl hlive
    case keys => exact .inl (congrArg Dict.keys hkeys)
    case current => exact .inl hcurrent
    case justified =>
      intro e he
      have hmute := hev e he
      cases e with
      | captured | advanced | fetched | positioned => trivial
      | _ => exact hmute.elim
  · constructor
    case onward => exact honward
    case operation => exact fun r _ hr => ⟨hkept r.id r hr, fun hg => hgone r.id ▸ hg⟩
    case registry => exact fun _ => ⟨hlive, congrArg Dict.keys hkeys, hgone, hmade'⟩
    case registered => exact fun _ => hkept
    case current => exact fun _ => hcurrent

/-- A step outside the registries. -/
theorem quiet_of_congr (hv : Sound live v) (hregular : Regular s.mgr)
    (hbranches : s.mgr.branches = v.state.mgr.branches) (hnext : s.mgr.records.next = v.state.mgr.records.next)
    (hactive : ∀ a, (s.mgr.records.cell a).active = (v.state.mgr.records.cell a).active)
    (hkeys : s.mgr.liveBranches = v.state.mgr.liveBranches)
    (hcurrent : s.mgr.currentBranchId = v.state.mgr.currentBranchId) (hlive : live s.world = live v.state.world)
    (hev : ∀ e ∈ ev, e.Mute) : (protocol live).Quiet ev v s := by
  refine quiet_step hv hregular (fun b r hr => hbranches ▸ hr) (fun b r hr => .inl (hbranches ▸ hr))
    (le_of_eq hnext.symm) (fun a ha hact => ?_) hkeys hcurrent hlive hev
  rw [hbranches]
  exact hv.active a (hnext ▸ ha) (hactive a ▸ hact)

theorem quiet_read (v : View (Sys W) Event) (hv : Sound live v) : (protocol live).Quiet [] v v.state :=
  quiet_of_congr hv hv.regular rfl rfl (fun _ => rfl) rfl rfl rfl (by simp)

theorem quiet_of_world {w : W} (hv : Sound live v) (hlive : live w = live v.state.world)
    (hev : ∀ e ∈ ev, e.Mute) : (protocol live).Quiet ev v { v.state with world := w } :=
  quiet_of_congr hv hv.regular rfl rfl (fun _ => rfl) rfl rfl hlive hev

/-- A step of the manager that keeps the records, too. -/
theorem quiet_of_records {m : Manager} (hv : Sound live v) (hregular : Regular m)
    (hbranches : m.branches = v.state.mgr.branches) (hrecords : m.records = v.state.mgr.records)
    (hkeys : m.liveBranches = v.state.mgr.liveBranches) (hcurrent : m.currentBranchId = v.state.mgr.currentBranchId) :
    (protocol live).Quiet [] v { v.state with mgr := m } :=
  quiet_of_congr hv hregular hbranches (by rw [hrecords]) (fun a => by rw [hrecords]) hkeys hcurrent rfl (by simp)

/-- A visible step that is neither the birth nor the death of a branch. -/
theorem sound_event {e : Event} (hv : Sound live v) (hlife : ∀ b g, e.goneAfter b g = g)
    (hlooked : ∀ r, e = .lookedUp r → Known r v.state.mgr)
    (hcall : ∀ hook r, e = .call hook r → gone r.id v.events = false ∧ ¬ Stale r v.events) :
    Sound live (v.step [e] v.state) ∧ (∀ H, Tolerated live H v (v.step [e] v.state)) ∧
      ∀ H h, Justified h e → Promised live H h [e] v (v.step [e] v.state) := by
  have hgone : ∀ b, gone b (v.events ++ [e]) = gone b v.events := fun b => by rw [gone_snoc, hlife]
  have hnot : ∀ b, .retired b ∉ [e] := by
    intro b hb
    obtain rfl := List.mem_singleton.mp hb
    have hlife' := hlife b false
    simp [Event.goneAfter] at hlife'
  have honward : Onward v (v.step [e] v.state) :=
    ⟨List.prefix_append _ _, le_refl _, fun b r hr => .inl hr⟩
  refine ⟨?_, fun H => ?_, fun H h hj => ?_⟩
  · constructor
    case regular => exact hv.regular
    case active => exact hv.active
    case main => exact hv.main
    case current => exact hv.current
    case dead => exact fun b hb => hv.dead b (hgone b ▸ hb)
    case looked =>
      intro r hr
      rcases List.mem_append.mp hr with hr | hr
      · exact hv.looked r hr
      · exact hlooked r (List.mem_singleton.mp hr).symm
    case stale =>
      intro r hr hget
      exact (hgone r.id).trans (hv.stale r ((stale_append (hnot r.id)).mp hr) hget)
    case used =>
      by_cases he : ∃ hook r, e = .call hook r
      · obtain ⟨hook, r, rfl⟩ := he
        obtain ⟨hg, hs⟩ := hcall hook r rfl
        exact hv.used.call hg hs
      · refine hv.used.append fun hook r hr => he ⟨hook, r, (List.mem_singleton.mp hr).symm⟩
  · constructor
    case onward => exact honward
    case operation => exact fun r _ hr => ⟨hr, fun hg => hgone r.id ▸ hg⟩
    case registry => exact fun _ => ⟨rfl, rfl, hgone, fun _ _ hr => .inl hr⟩
    case registered => exact fun _ _ _ hr => hr
    case current => exact fun _ => rfl
  · constructor
    case onward => exact honward
    case removed => exact fun _ _ hr => .inl hr
    case made => exact fun _ _ hr => .inl hr
    case retired => exact fun b hb => .inl (hgone b ▸ hb)
    case revived => exact fun b hb => .inl ((hgone b).trans hb)
    case live => exact .inl rfl
    case keys => exact .inl rfl
    case current => exact .inl rfl
    case justified =>
      intro e' he'
      obtain rfl := List.mem_singleton.mp he'
      exact hj

/-- A step that touches the record of a registered branch only, which it may activate. -/
theorem quiet_modify {m : Manager} {r : Ref} {b : String} (hv : Sound live v)
    (hr : v.state.mgr.branches.get? b = some r) {f : BranchState → BranchState} (hm : m = v.state.mgr.modifyRecord r f)
    (hev : ∀ e ∈ ev, e.Mute) : (protocol live).Quiet ev v { v.state with mgr := m } := by
  subst hm
  refine quiet_step hv (hv.regular.modifyRecord r f) (fun _ _ hr => hr) (fun _ _ hr => .inl hr) (le_refl _)
    (fun a ha hact => ?_) rfl rfl rfl hev
  by_cases hra : a = r.addr
  · have hid : (⟨b, r.addr⟩ : Ref) = r := by rw [← hv.regular.ids b r hr]
    exact ⟨b, by rw [hra, hid]; exact hr⟩
  · change ((v.state.mgr.records.modify r.addr f).cell a).active = true at hact
    rw [Heap.cell_modify_of_ne _ _ hra] at hact
    exact hv.active a ha hact

/-- A record is made for a branch that exists, unless it has one. -/
theorem quiet_registerBranch {b : String} {base : Option String} (hv : Sound live v)
    (hb : (v.state.mgr.branches.get? b).isSome ∨ gone b v.events = false) :
    (protocol live).Quiet [] v { v.state with mgr := (v.state.mgr.registerBranch b base).2 } := by
  refine quiet_step hv (hv.regular.registerBranch b base)
    (fun b' r hr => (hv.regular.get?_registerBranch_of_get? hr).1) ?_ ?_ ?_ (by simp) (by simp) rfl (by simp)
  all_goals
    unfold Manager.registerBranch
    cases hget : v.state.mgr.branches.get? b with
    | some r => ?_
    | none => ?_
  · exact fun _ _ hr => .inl hr
  · intro b' r hr
    rw [Dict.get?_set] at hr
    split_ifs at hr with he
    · obtain rfl := Option.some.inj hr
      rw [hget] at hb
      exact .inr ⟨le_refl _, he ▸ hb.resolve_left (by simp)⟩
    · exact .inl hr
  · exact le_refl _
  · exact Nat.le_succ _
  · exact hv.active
  · intro a ha hact
    rcases Nat.lt_succ_iff_lt_or_eq.mp ha with hlt | rfl
    · change ((v.state.mgr.records.alloc _).cell a).active = true at hact
      rw [Heap.cell_alloc_of_lt _ _ hlt] at hact
      obtain ⟨b', hb'⟩ := hv.active a hlt hact
      have hne : b' ≠ b := fun he => by rw [he, hget] at hb'; cases hb'
      exact ⟨b', (Dict.get?_set_of_ne _ _ hne).trans hb'⟩
    · exact ⟨b, Dict.get?_set_self _ _ _⟩

/-! ### Assertions -/

/-- The record is registered and its branch exists. -/
def Held (r : Ref) (v : View (Sys W) Event) : Prop :=
  v.state.mgr.branches.get? r.id = some r ∧ gone r.id v.events = false

/-- What a thread knows of the records whose operation locks it holds. -/
def Holds (H : List Lock) (v : View (Sys W) Event) : Prop :=
  ∀ r, .operation r ∈ H → Known r v.state.mgr ∧ Guarded r v

theorem stable_mono {P : List Event → View (Sys W) Event → Prop} (hP : (protocol live).Stable K P) (hK : K ⊆ H) :
    (protocol live).Stable H P :=
  fun h v v' hr hp => hP h v v' (hr.mono hK) hp

theorem frame_mono (hF : (protocol live).Frame K F) (hK : K ⊆ H) : (protocol live).Frame H F :=
  ⟨stable_mono hF.stable hK, hF.log⟩

theorem frame_true : (protocol live).Frame H fun _ _ => True := ⟨fun _ _ _ _ hp => hp, fun _ _ _ hp => hp⟩

theorem frame_known {r : Ref} : (protocol live).Frame H fun _ v => Known r v.state.mgr :=
  ⟨fun _ _ _ hr hp => hp.onward hr.onward, fun _ _ _ hp => hp⟩

theorem frame_logged {e : Event} : (protocol live).Frame H fun h _ => e ∈ h :=
  ⟨fun _ _ _ _ hp => hp, fun _ _ _ hp => List.mem_append_left _ hp⟩

theorem frame_held {r : Ref} (hl : .operation r ∈ H) : (protocol live).Frame H fun _ v => Held r v where
  stable h v v' hr hp := by
    obtain ⟨hget, hgone⟩ := hr.operation r hl hp.1
    refine ⟨hget, Bool.eq_false_of_not_eq_true fun hg => ?_⟩
    have hold := hgone hg
    rw [hp.2] at hold
    cases hold
  log _ _ _ hp := hp

theorem frame_settled (hl : .branchRegistry ∈ H) : (protocol live).Frame H fun _ v => Settled live v where
  stable h v v' hr hp := by
    obtain ⟨hlive, hkeys, hgone, hmade⟩ := hr.registry hl
    refine ⟨fun b hb => ?_, fun b hb => ?_⟩
    · rw [hkeys] at hb
      rw [hlive]
      exact hp.listed b hb
    · cases hget : v'.state.mgr.branches.get? b with
      | none => rfl
      | some r =>
        rcases hmade b r hget with hold | hfalse
        · rw [hp.removed b (hgone b ▸ hb)] at hold
          cases hold
        · rw [hfalse] at hb
          cases hb
  log _ _ _ hp := hp

/-- The set of live branches is fixed under the registry lock. -/
theorem frame_live (hl : .branchRegistry ∈ H) {C : (String → Prop) → Prop} :
    (protocol live).Frame H fun _ v => C (live v.state.world) where
  stable _ v v' hr hp := by
    show C (live v'.state.world)
    rw [(hr.registry hl).1]
    exact hp
  log _ _ _ hp := hp

/-- Under the registry lock and under the current-branch lock no other thread removes records. -/
theorem frame_registered (hl : .branchRegistry ∈ H ∨ .currentBranch ∈ H) {b : String} {r : Ref} :
    (protocol live).Frame H fun _ v => v.state.mgr.branches.get? b = some r :=
  ⟨fun _ _ _ hr hp => hr.registered hl b r hp, fun _ _ _ hp => hp⟩

theorem frame_current (hl : .currentBranch ∈ H) {b : String} :
    (protocol live).Frame H fun _ v => v.state.mgr.currentBranchId = b :=
  ⟨fun _ _ _ hr hp => (hr.current hl).trans hp, fun _ _ _ hp => hp⟩

/-- A record that is guarded stays so while its operation lock is held, or if its branch is spared. -/
theorem Guarded.onward {r : Ref} {v v' : View (Sys W) Event} (hg : Guarded r v) (hr : Known r v.state.mgr)
    (hv : Onward v v') (hs : Spared r.id r v v') : Guarded r v' := by
  intro hget
  rcases hv.fresh r.id r hget with hold | hnew
  · refine Bool.eq_false_of_not_eq_true fun hgone => ?_
    have hgone' := (hs hold).2 hgone
    rw [hg hold] at hgone'
    cases hgone'
  · have hlt := hr.allocated
    omega

theorem frame_holds : (protocol live).Frame H fun _ v => Holds H v where
  stable _ _ _ hr hp r hl :=
    ⟨(hp r hl).1.onward hr.onward, (hp r hl).2.onward (hp r hl).1 hr.onward (hr.operation r hl)⟩
  log _ _ _ hp := hp

/-! ### Locks -/

section Locks

variable {α : Type} {P : List Event → View (Sys W) Event → Prop} {p : M W α}
  {Q : Except PyError α → List Event → View (Sys W) Event → Prop}

/-- An operation lock, which the thread may hold already. -/
theorem triple_operation {r : Ref} (hP : (protocol live).Stable H P) (hQ : ∀ x, (protocol live).Stable H (Q x))
    (hknown : ∀ h v, Sound live v → P h v → Known r v.state.mgr ∧ Holds H v)
    (hp : (protocol live).Triple (.operation r :: H) (fun h v => Holds (.operation r :: H) v ∧ P h v) p
      fun x h v => Holds (.operation r :: H) v ∧ Q x h v) :
    (protocol live).Triple H P (withLock (.operation r) p) Q := by
  have hsub : H ⊆ .operation r :: H := List.subset_cons_self _ _
  by_cases hl : .operation r ∈ H
  · refine triple_withLock_held hl (fun _ _ _ _ => trivial) (stable_mono hP hsub) (triple_of_valid ?_) hQ
    refine Triple.weaken hp (fun h v hv => ⟨fun r' hr' => ?_, hv.2⟩) fun _ _ _ hq => hq.2
    refine (hknown h v hv.1 hv.2).2 r' ?_
    rcases List.mem_cons.mp hr' with he | hr'
    · exact he ▸ hl
    · exact hr'
  · refine triple_withLock hl (fun _ _ _ _ => trivial) ?_ (fun h v hv hinv hp => ⟨fun r' hr' => ?_, hp⟩) hp ?_ hQ
      fun _ _ _ _ hq => hq.2
    · exact fun h v v' hr hp => ⟨frame_holds.stable h v v' hr hp.1, stable_mono hP hsub h v v' hr hp.2⟩
    · exact fun x h v hv hq => (hq.1 r (List.mem_cons_self ..)).2
    · obtain ⟨hknown', hholds⟩ := hknown h v hv hp
      rcases List.mem_cons.mp hr' with he | hr'
      · cases he
        exact ⟨hknown', hinv⟩
      · exact hholds r' hr'

/-- The registry lock, when the thread does not hold it yet. -/
theorem triple_registry (hl : .branchRegistry ∉ H) (hP : (protocol live).Stable H P)
    (hQ : ∀ x, (protocol live).Stable H (Q x))
    (hp : (protocol live).Triple (.branchRegistry :: H) (fun h v => Settled live v ∧ P h v) p
      fun x h v => Settled live v ∧ Q x h v) :
    (protocol live).Triple H P (withLock .branchRegistry p) Q := by
  have hsub : H ⊆ .branchRegistry :: H := List.subset_cons_self _ _
  have hmem : Lock.branchRegistry ∈ .branchRegistry :: H := List.mem_cons_self ..
  refine triple_withLock hl (fun _ _ _ _ => trivial) ?_ (fun h v hv hinv hp => ⟨hinv, hp⟩) hp ?_ hQ
    fun _ _ _ _ hq => hq.2
  · exact fun h v v' hr hp => ⟨(frame_settled hmem).stable h v v' hr hp.1, stable_mono hP hsub h v v' hr hp.2⟩
  · exact fun _ _ _ _ hq => hq.1

end Locks

/-! ### Announcements -/

/-- Nothing was looked up, where it matters. -/
def Unlooked (A : Prop) (h : List Event) : Prop := A → ∀ r, .lookedUp r ∉ h

/-- Nothing but the record was looked up, where it matters. -/
def Only (A : Prop) (r : Ref) (h : List Event) : Prop := A → ∀ r', .lookedUp r' ∈ h → r' = r

/-- The program has called a hook, through the only record that it had looked up, where it matters. -/
def Called (A : Prop) (h : List Event) : Prop := ∃ h₁ hook r h₂, h = h₁ ++ .call hook r :: h₂ ∧ Only A r h₁

theorem Called.append {A : Prop} {h : List Event} (hc : Called A h) (ev : List Event) : Called A (h ++ ev) := by
  obtain ⟨h₁, hook, r, h₂, rfl, honly⟩ := hc
  exact ⟨h₁, hook, r, h₂ ++ ev, by simp, honly⟩

theorem frame_called {A : Prop} : (protocol live).Frame H fun h _ => Called A h :=
  ⟨fun _ _ _ _ hp => hp, fun _ ev _ hp => hp.append ev⟩

variable {A : Prop} {P : List Event → View (Sys W) Event → Prop}

theorem triple_lookedUp {r : Ref} (hF : (protocol live).Frame H F) (hP : ∀ h v, P h v → F h v ∧ Unlooked A h)
    (hr : ∀ h v, Sound live v → F h v → Known r v.state.mgr) :
    (protocol live).Triple H P (announce (.lookedUp r) : M W Unit) fun _ h v =>
      (F h v ∧ .lookedUp r ∈ h) ∧ Only A r h := by
  refine triple_announce (fun _ h v v' hr hp => ⟨(hF.and frame_logged).stable h v v' hr hp.1, hp.2⟩) fun h v hv hp => ?_
  obtain ⟨hF', hnone⟩ := hP h v hp
  obtain ⟨hsound, htolerated, hpromised⟩ := sound_event (e := .lookedUp r) hv (fun _ _ => rfl)
    (fun r' he => by cases he; exact hr h v hv hF') (fun _ _ he => by cases he)
  refine ⟨⟨hsound, hpromised H h trivial⟩, ⟨hF.log _ _ _ (hF.stable _ _ _ (htolerated H) hF'), ?_⟩, fun ha r' hr' => ?_⟩
  · exact List.mem_append_right _ (List.mem_singleton_self _)
  · have he := List.mem_singleton.mp ((List.mem_append.mp hr').resolve_left (hnone ha r'))
    cases he
    rfl

/-- A hook may be called through a record that is held. -/
theorem triple_call {r : Ref} {hook : Hook} (hF : (protocol live).Frame H F)
    (hP : ∀ h v, P h v → F h v ∧ Held r v ∧ .lookedUp r ∈ h ∧ Only A r h) :
    (protocol live).Triple H P (announce (.call hook r) : M W Unit) fun _ h v => F h v ∧ Called A h := by
  refine triple_announce (fun _ => (hF.and frame_called).stable) fun h v hv hp => ?_
  obtain ⟨hF', hheld, hlooked, honly⟩ := hP h v hp
  have hstale : ¬ Stale r v.events := fun hs => by
    have hgone := hv.stale r hs hheld.1
    rw [hheld.2] at hgone
    cases hgone
  obtain ⟨hsound, htolerated, hpromised⟩ := sound_event (e := .call hook r) hv (fun _ _ => rfl)
    (fun _ he => by cases he) (fun _ _ he => by cases he; exact ⟨hheld.2, hstale⟩)
  refine ⟨⟨hsound, hpromised H h hlooked⟩, hF.log _ _ _ (hF.stable _ _ _ (htolerated H) hF'), ?_⟩
  exact ⟨h, hook, r, [], rfl, honly⟩

theorem triple_returned {op : PublicOp} {outcome : Outcome} {P : List Event → View (Sys W) Event → Prop}
    (hP : ∀ h v, P h v → Justified h (.returned op outcome)) :
    (protocol live).Triple H P (announce (.returned op outcome) : M W Unit) fun _ _ _ => True := by
  refine triple_announce (fun _ _ _ _ _ hp => hp) fun h v hv hp => ?_
  obtain ⟨hsound, -, hpromised⟩ := sound_event (e := .returned op outcome) hv (fun _ _ => rfl)
    (fun _ he => by cases he) (fun _ _ he => by cases he)
  exact ⟨⟨hsound, hpromised H h (hP h v hp)⟩, trivial⟩

end Lifetime

end StateFork
