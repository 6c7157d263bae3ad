import StateFork.Concurrency.Births
import StateFork.Forkable.Consistency

/-!
# Branches are retired

Discarding and parking keep to the protocol of `Lifetime`. Between the call of the backend and the removal of the
record the branch is `Retiring`: it is gone, but its record is still registered. Nobody can see this, because the
thread holds the operation lock of the record and the registry lock all the time.
-/

namespace StateFork

open Conc Conc.Prog Conc.Protocol EnvironmentManager ForkableEnvironmentManager

namespace Lifetime

variable {W : Type} {live : W → String → Prop} {H : List Lock} {v : View (Sys W) Event} {r : Ref} {A : Prop}

/-- The backend has retired the branch of `r`, whose record is still registered. -/
structure Retiring (live : W → String → Prop) (H : List Lock) (r : Ref) (v : View (Sys W) Event) : Prop where
  registered : v.state.mgr.branches.get? r.id = some r
  listed : ∀ b ∈ v.state.mgr.liveBranches.keys, live v.state.world b ∨ b = r.id
  removed : ∀ b, gone b v.events = true → b ≠ r.id → v.state.mgr.branches.get? b = none
  holds : ∀ r', .operation r' ∈ H → Known r' v.state.mgr ∧ (r' ≠ r → Guarded r' v)

theorem frame_retiring (hl : .branchRegistry ∈ H) : (protocol live).Frame H fun _ v => Retiring live H r v where
  stable h v v' hr hp := by
    obtain ⟨hlive, hkeys, hgone, hmade⟩ := hr.registry hl
    constructor
    case registered => exact hr.registered (.inl hl) r.id r hp.registered
    case listed =>
      intro b hb
      rw [hkeys] at hb
      rw [hlive]
      exact hp.listed b hb
    case removed =>
      intro b hb hne
      cases hget : v'.state.mgr.branches.get? b with
      | none => rfl
      | some r' =>
        rcases hmade b r' hget with hold | hfalse
        · rw [hp.removed b (hgone b ▸ hb) hne] at hold
          cases hold
        · rw [hfalse] at hb
          cases hb
    case holds =>
      intro r' hl'
      obtain ⟨hknown, hguarded⟩ := hp.holds r' hl'
      exact ⟨hknown.onward hr.onward, fun hne => (hguarded hne).onward hknown hr.onward (hr.operation r' hl')⟩
  log _ _ _ hp := hp

/-- The step of the backend that destroys a branch. -/
theorem own_retired {w : W} (hop : .operation r ∈ H) (hreg : .branchRegistry ∈ H) (hv : Sound live v) (hheld : Held r v)
    (hs : Settled live v) (hholds : Holds H v) (hw : ∀ b, live w b ↔ b ≠ r.id ∧ live v.state.world b) (h : List Event) :
    Own (protocol live) H h [.retired r.id] v { v.state with world := w } ∧
      Retiring live H r (v.step [.retired r.id] { v.state with world := w }) := by
  have hgone : ∀ b, gone b (v.events ++ [.retired r.id]) = if r.id = b then true else gone b v.events := fun b => by
    rw [gone_snoc]
    rfl
  have honward : Onward v (v.step [.retired r.id] { v.state with world := w }) :=
    ⟨List.prefix_append _ _, le_refl _, fun _ _ hr => .inl hr⟩
  refine ⟨⟨?_, ?_⟩, ?_⟩
  · constructor
    case regular => exact hv.regular
    case active => exact hv.active
    case main => exact hv.main
    case current => exact hv.current
    case dead =>
      intro b hb hlive
      obtain ⟨hne, hlive⟩ := (hw b).mp hlive
      change gone b (v.events ++ [.retired r.id]) = true at hb
      rw [hgone, if_neg (Ne.symm hne)] at hb
      exact hv.dead b hb hlive
    case looked => exact fun r' hr' => hv.looked r' ((List.mem_append.mp hr').resolve_right (by simp))
    case stale =>
      intro r' hr' hget
      show gone r'.id (v.events ++ [.retired r.id]) = true
      rw [hgone]
      split_ifs with hid
      · rfl
      · rcases stale_snoc_retired.mp hr' with hold | ⟨he, -⟩
        · exact hv.stale r' hold hget
        · exact absurd he.symm hid
    case used => exact hv.used.append (by simp)
  · constructor
    case onward => exact honward
    case removed => exact fun _ _ hr => .inl hr
    case made => exact fun _ _ hr => .inl hr
    case retired =>
      intro b hb
      change gone b (v.events ++ [.retired r.id]) = true at hb
      rw [hgone] at hb
      split_ifs at hb with hid
      · exact .inr ⟨hreg, r, hid ▸ hheld.1, hop⟩
      · exact .inl hb
    case revived => exact fun _ _ => .inr hreg
    case live => exact .inr hreg
    case keys => exact .inl rfl
    case current => exact .inl rfl
    case justified =>
      intro e he
      obtain rfl := List.mem_singleton.mp he
      trivial
  · constructor
    case registered => exact hheld.1
    case listed =>
      intro b hb
      by_cases hid : b = r.id
      · exact .inr hid
      · exact .inl ((hw b).mpr ⟨hid, hs.listed b hb⟩)
    case removed =>
      intro b hb hne
      change gone b (v.events ++ [.retired r.id]) = true at hb
      rw [hgone, if_neg (Ne.symm hne)] at hb
      exact hs.removed b hb
    case holds =>
      intro r' hl'
      obtain ⟨hknown, hguarded⟩ := hholds r' hl'
      refine ⟨hknown, fun hne hget => ?_⟩
      show gone r'.id (v.events ++ [.retired r.id]) = false
      rw [hgone, if_neg fun hid => hne ?_]
      · exact hguarded hget
      · change v.state.mgr.branches.get? r'.id = some r' at hget
        rw [← hid, hheld.1] at hget
        exact (Option.some.inj hget).symm

/-- The branch leaves the live registry. -/
theorem own_unlisted (hreg : .branchRegistry ∈ H) (hv : Sound live v) (hr : Retiring live H r v) (h : List Event) :
    Own (protocol live) H h [] v { v.state with
        mgr := { v.state.mgr with liveBranches := v.state.mgr.liveBranches.erase r.id } } ∧
      Retiring live H r (v.step [] { v.state with
        mgr := { v.state.mgr with liveBranches := v.state.mgr.liveBranches.erase r.id } }) ∧
      r.id ∉ (v.state.mgr.liveBranches.erase r.id).keys := by
  obtain ⟨hown, -⟩ := own_replaceLive (K := []) (d := v.state.mgr.liveBranches.erase r.id) hreg (quiet_read v hv) h
  refine ⟨hown, ⟨hr.registered, fun b hb => ?_, fun b hb => ?_, fun r' hr' => ?_⟩, ?_⟩
  · exact hr.listed b (Dict.mem_keys_erase.mp hb).2
  · exact hr.removed b (by simpa [View.step] using hb)
  · obtain ⟨hknown, hguarded⟩ := hr.holds r' hr'
    refine ⟨⟨hknown.allocated, hknown.unique⟩, fun hne hget => ?_⟩
    simpa [View.step] using hguarded hne hget
  · simp [Dict.mem_keys_erase]

/-- The record goes, and with it the last trace of the branch. -/
theorem own_removed (hop : .operation r ∈ H) (hreg : .branchRegistry ∈ H) (hcurrent : .currentBranch ∈ H)
    (hv : Sound live v) (hr : Retiring live H r v) (hunlisted : r.id ∉ v.state.mgr.liveBranches.keys)
    (hmain : r.id ≠ defaultBranchId) (hne : v.state.mgr.currentBranchId ≠ r.id) (h : List Event) :
    Own (protocol live) H h [] v { v.state with mgr := v.state.mgr.removeBranch r.id } ∧
      Settled live (v.step [] { v.state with mgr := v.state.mgr.removeBranch r.id }) ∧
      Holds H (v.step [] { v.state with mgr := v.state.mgr.removeBranch r.id }) := by
  have hremove : v.state.mgr.removeBranch r.id =
      { v.state.mgr.modifyRecord r fun s => { s with active := false } with
        branches := v.state.mgr.branches.erase r.id } := by
    unfold Manager.removeBranch
    rw [hr.registered]
  have hkept {b : String} (hb : b ≠ r.id) : (v.state.mgr.branches.erase r.id).get? b = v.state.mgr.branches.get? b :=
    Dict.get?_erase_of_ne _ hb
  have hold {b : String} {r' : Ref} (hget : (v.state.mgr.branches.erase r.id).get? b = some r') :
      b ≠ r.id ∧ v.state.mgr.branches.get? b = some r' := by
    have hb : b ≠ r.id := by
      rintro rfl
      rw [Dict.get?_erase_self] at hget
      cases hget
    exact ⟨hb, hkept hb ▸ hget⟩
  have hregular := hv.regular.removeBranch r.id
  rw [hremove] at hregular ⊢
  have honward : Onward v (v.step [] { v.state with
      mgr := { v.state.mgr.modifyRecord r fun s => { s with active := false } with
        branches := v.state.mgr.branches.erase r.id } }) :=
    ⟨List.prefix_append _ _, le_refl _, fun _ _ hget => .inl (hold hget).2⟩
  refine ⟨⟨?_, ?_⟩, ⟨fun b hb => ?_, fun b hb => ?_⟩, fun r' hl' => ?_⟩
  · constructor
    case regular => exact hregular
    case active =>
      intro a ha hact
      have hra : a ≠ r.addr := by
        rintro rfl
        change ((v.state.mgr.records.modify r.addr fun s => { s with active := false }).cell r.addr).active = true at hact
        rw [Heap.cell_modify_self] at hact
        cases hact
      change ((v.state.mgr.records.modify r.addr fun s => { s with active := false }).cell a).active = true at hact
      rw [Heap.cell_modify_of_ne _ _ hra] at hact
      obtain ⟨b, hb⟩ := hv.active a ha hact
      refine ⟨b, (hkept fun hid => hra ?_).trans hb⟩
      rw [hid, hr.registered] at hb
      exact (congrArg Ref.addr (Option.some.inj hb)).symm
    case main =>
      show ((v.state.mgr.branches.erase r.id).get? defaultBranchId).isSome
      rw [hkept hmain.symm]
      exact hv.main
    case current =>
      show ((v.state.mgr.branches.erase r.id).get? v.state.mgr.currentBranchId).isSome
      rw [hkept hne]
      exact hv.current
    case dead => exact fun b hb => hv.dead b (by simpa [View.step] using hb)
    case looked => exact fun r' hr' => (hv.looked r' (by simpa [View.step] using hr')).onward honward
    case stale =>
      intro r' hr' hget
      have hb := hv.stale r' (by simpa [View.step] using hr') (hold hget).2
      simpa [View.step] using hb
    case used => simpa [View.step] using hv.used
  · constructor
    case onward => exact honward
    case removed =>
      intro b r' hget
      by_cases hb : b = r.id
      · rw [hb, hr.registered] at hget
        cases hget
        exact .inr ⟨hop, hreg, hcurrent⟩
      · exact .inl ((hkept hb).trans hget)
    case made => exact fun _ _ hget => .inl (hold hget).2
    case retired => exact fun b hb => .inl (by simpa [View.step] using hb)
    case revived => exact fun _ _ => .inr hreg
    case live => exact .inl rfl
    case keys => exact .inl rfl
    case current => exact .inl rfl
    case justified => simp
  · exact (hr.listed b hb).resolve_right fun hid => hunlisted (hid ▸ hb)
  · by_cases hid : b = r.id
    · subst hid
      exact Dict.get?_erase_self _ _
    · exact (hkept hid).trans (hr.removed b (by simpa [View.step] using hb) hid)
  · obtain ⟨hknown, hguarded⟩ := hr.holds r' hl'
    refine ⟨hknown.onward honward, fun hget => ?_⟩
    obtain ⟨hid, hget⟩ := hold hget
    have hb := hguarded (fun he => hid (congrArg Ref.id he)) hget
    simpa [View.step] using hb

/-! ### Programs -/

theorem Holds.mono {H H' : List Lock} (h : Holds H' v) (hH : H ⊆ H') : Holds H v := fun r hl => h r (hH hl)

/-- A section of the state lock that only reads, and what follows it. -/
theorem triple_read {α β : Type} {F : List Event → View (Sys W) Event → Prop} (hF : (protocol live).Stable H F)
    {g : Manager → α} {C : α → List Event → View (Sys W) Event → Prop} (hC : ∀ x, (protocol live).Stable H (C x))
    (hg : ∀ h v, Sound live v → F h v → C (g v.state.mgr) h v) {f : α → M W β}
    {Q : Except PyError β → List Event → View (Sys W) Event → Prop}
    (hf : ∀ x, (protocol live).Triple H (fun h v => F h v ∧ C x h v) (f x) Q) :
    (protocol live).Triple H F (readState g >>= f) Q := by
  have hread : ∀ h v, (protocol live).valid v → (protocol live).guar H h [] v v := by
    intro h v hv
    have hguar := (quiet_read v hv).guar H h
    rwa [View.step_nil] at hguar
  refine triple_bind_total (Q := fun r h v => F h v ∧ ∀ x, r = .ok x → C x h v) (neverRaises_readState g) ?_ fun x =>
    Triple.weaken (hf x) (fun h v hp => ⟨hp.1, hp.2 x rfl⟩) fun _ _ _ hq => hq
  refine triple_readState plain_state hread hF ?_ fun h v hv hp => ⟨hp, ?_⟩
  · exact fun r h v v' hr hp => ⟨hF h v v' hr hp.1, fun x hx => hC x h v v' hr (hp.2 x hx)⟩
  · rintro x ⟨⟩
    exact hg h v hv hp

/-- Both registries forget a retired branch. -/
theorem triple_forget (hop : .operation r ∈ H) (hreg : .branchRegistry ∈ H) (hcurrent : .currentBranch ∈ H)
    (hmain : r.id ≠ defaultBranchId) {L : List Event → Prop} {α : Type} {k : M W α}
    {Q : Except PyError α → List Event → View (Sys W) Event → Prop}
    (hk : (protocol live).Triple H (fun h v => (Settled live v ∧ Holds H v) ∧ L h) k Q) :
    (protocol live).Triple H
      (fun h v => (Retiring live H r v ∧ v.state.mgr.currentBranchId ≠ r.id) ∧ L h) (do
        updateState fun m => { m with liveBranches := m.liveBranches.erase r.id }
        removeBranch r.id
        k) Q := by
  have haway : (protocol live).Frame H fun _ v => v.state.mgr.currentBranchId ≠ r.id :=
    ⟨fun _ v v' hr hp => (hr.current hcurrent).symm ▸ hp, fun _ _ _ hp => hp⟩
  have hP := (frame_retiring (r := r) hreg).and haway
  let Unlisted : List Event → View (Sys W) Event → Prop := fun h v =>
    ((Retiring live H r v ∧ v.state.mgr.currentBranchId ≠ r.id) ∧ r.id ∉ v.state.mgr.liveBranches.keys) ∧ L h
  have hunlisted : (protocol live).Stable H Unlisted := by
    rintro h v v' hr ⟨⟨hp, hkeys⟩, hl⟩
    refine ⟨⟨hP.stable h v v' hr hp, ?_⟩, hl⟩
    rw [(hr.registry hreg).2.1]
    exact hkeys
  refine triple_bind_total (Q := fun _ => Unlisted) (by simp) ?_ fun _ => ?_
  · show (protocol live).Triple H _ (withState fun m => ((), { m with liveBranches := m.liveBranches.erase r.id })) _
    refine triple_withState plain_state (fun h v v' hr hp => ⟨hP.stable h v v' hr hp.1, hp.2⟩) (fun _ => hunlisted)
      fun h v hv hp => ?_
    obtain ⟨hown, hretiring, hkeys⟩ := own_unlisted hreg hv hp.1.1 h
    exact ⟨hown, ⟨⟨hretiring, hp.1.2⟩, hkeys⟩, hp.2⟩
  · refine triple_bind_total (Q := fun _ h v => (Settled live v ∧ Holds H v) ∧ L h) ?_ ?_ fun _ => hk
    · exact neverRaises_updateState _
    · show (protocol live).Triple H _ (withState fun m => ((), m.removeBranch r.id)) _
      refine triple_withState plain_state hunlisted (fun x h v v' hr hq => ?_) fun h v hv hp => ?_
      · exact ⟨((frame_settled hreg).and frame_holds).stable h v v' hr hq.1, hq.2⟩
      · obtain ⟨⟨⟨hretiring, hne⟩, hkeys⟩, hl⟩ := hp
        obtain ⟨hown, hsettled, hholds⟩ := own_removed hop hreg hcurrent hv hretiring hkeys hmain hne h
        exact ⟨hown, ⟨hsettled, hholds⟩, hl⟩

/-- `lookupLive` finds a known record of the branch, or none. -/
theorem triple_lookupLive {β : Type} {F : List Event → View (Sys W) Event → Prop} (hF : (protocol live).Stable H F)
    {b : String} {f : Option Ref → M W β} {Q : Except PyError β → List Event → View (Sys W) Event → Prop}
    (hnone : (protocol live).Triple H F (f none) Q)
    (hsome : ∀ state, state.id = b →
      (protocol live).Triple H (fun h v => F h v ∧ Known state v.state.mgr) (f (some state)) Q) :
    (protocol live).Triple H F (lookupLive b >>= f) Q := by
  refine triple_read (C := fun found _ v => ∀ state, found = some state → Known state v.state.mgr ∧ state.id = b) hF
    (fun found h v v' hr hp state hs => ?_) (fun h v hv hp state hs => ?_) fun found => ?_
  · obtain ⟨hknown, hid⟩ := hp state hs
    exact ⟨hknown.onward hr.onward, hid⟩
  · split at hs
    · exact ⟨hv.known hs, hv.regular.ids b state hs⟩
    · cases hs
  · cases found with
    | none => exact Triple.weaken hnone (fun _ _ hp => hp.1) fun _ _ _ hq => hq
    | some state =>
      refine triple_of_fact (fun h v hp => (hp.2 state rfl).2) fun hid => ?_
      exact Triple.weaken (hsome state hid) (fun h v hp => ⟨hp.1, (hp.2 state rfl).1⟩) fun _ _ _ hq => hq

/-! ### Under the operation lock and the registry lock -/

section Ready

variable {state : Ref} {C : String → Prop}

/-- What a thread knows after it has looked the record up and taken both locks. -/
structure Ready (live : W → String → Prop) (H : List Lock) (state : Ref) (C : String → Prop) (h : List Event)
    (v : View (Sys W) Event) : Prop where
  settled : Settled live v
  holds : Holds (.operation state :: H) v
  known : Known state v.state.mgr
  looked : .lookedUp state ∈ h
  current : C v.state.mgr.currentBranchId

theorem frame_ready (hcurrent : .currentBranch ∈ H) :
    (protocol live).Frame (.branchRegistry :: .operation state :: H) (Ready live H state C) where
  stable h v v' hr hp := by
    have hsub : .operation state :: H ⊆ .branchRegistry :: .operation state :: H := List.subset_cons_self _ _
    constructor
    case settled => exact (frame_settled (List.mem_cons_self ..)).stable h v v' hr hp.settled
    case holds => exact (frame_mono frame_holds hsub).stable h v v' hr hp.holds
    case known => exact hp.known.onward hr.onward
    case looked => exact hp.looked
    case current =>
      rw [hr.current (by simp [hcurrent])]
      exact hp.current
  log h ev v hp := ⟨hp.settled, hp.holds, hp.known, List.mem_append_left _ hp.looked, hp.current⟩

/-- The two sections that discarding and parking work in. -/
theorem triple_sections (hcurrent : .currentBranch ∈ H) (hreg : .branchRegistry ∉ H) {α : Type} {body : M W α}
    {Q : Except PyError α → List Event → Prop}
    (hbody : (protocol live).Triple (.branchRegistry :: .operation state :: H)
      (fun h v => Ready live H state C h v ∧ Only A state h) body
      fun r h v => Settled live v ∧ Holds (.operation state :: H) v ∧ Q r h) :
    (protocol live).Triple H
      (fun h v => (((Holds H v ∧ C v.state.mgr.currentBranchId) ∧ Known state v.state.mgr) ∧ .lookedUp state ∈ h) ∧
        Only A state h)
      (withLock (.operation state) (withLock .branchRegistry body)) fun r h v => Holds H v ∧ Q r h := by
  have hC {H : List Lock} (hl : .currentBranch ∈ H) :
      (protocol live).Frame H fun _ v => C v.state.mgr.currentBranchId :=
    ⟨fun _ v v' hr hp => (hr.current hl).symm ▸ hp, fun _ _ _ hp => hp⟩
  have hF := ((frame_holds.and (hC hcurrent)).and (frame_known (r := state))).and (frame_logged (e := .lookedUp state))
  have hP : (protocol live).Stable H fun h v =>
      (((Holds H v ∧ C v.state.mgr.currentBranchId) ∧ Known state v.state.mgr) ∧ .lookedUp state ∈ h) ∧ Only A state h :=
    fun h v v' hr hp => ⟨hF.stable h v v' hr hp.1, hp.2⟩
  have hQ : ∀ r, (protocol live).Stable H fun h v => Holds H v ∧ Q r h :=
    fun r h v v' hr hq => ⟨frame_holds.stable h v v' hr hq.1, hq.2⟩
  have hsub : H ⊆ .operation state :: H := List.subset_cons_self _ _
  refine triple_operation hP hQ (fun h v hv hp => ⟨hp.1.1.2, hp.1.1.1.1⟩) ?_
  refine triple_registry (by simp [hreg]) (fun h v v' hr hp => ?_) (fun r h v v' hr hq => ?_) ?_
  · exact ⟨frame_holds.stable h v v' hr hp.1, stable_mono hP hsub h v v' hr hp.2⟩
  · exact ⟨frame_holds.stable h v v' hr hq.1, stable_mono (hQ r) hsub h v v' hr hq.2⟩
  · refine Triple.weaken hbody (fun h v hp => ?_) fun r h v hq => ⟨hq.1, hq.2.1, hq.2.1.mono hsub, hq.2.2⟩
    obtain ⟨hsettled, hholds, ⟨⟨⟨-, hc⟩, hknown⟩, hlooked⟩, honly⟩ := hp
    exact ⟨⟨hsettled, hholds, hknown, hlooked, hc⟩, honly⟩

/-- A record that is known and active can be used under its lock. -/
theorem Ready.held {h : List Event} (hp : Ready live H state C h v) (hv : Sound live v)
    (hactive : (v.state.mgr.record state).active = true) : Held state v := by
  have hget := hv.registered hp.known hactive
  exact ⟨hget, (hp.holds state (List.mem_cons_self ..)).2 hget⟩

end Ready

/-- What a thread knows while it uses the branch. -/
def Using (live : W → String → Prop) (H : List Lock) (state : Ref) (C : String → Prop) (A : Prop) (h : List Event)
    (v : View (Sys W) Event) : Prop :=
  (Ready live H state C h v ∧ Held state v) ∧ Called A h

/-- What it knows after the backend has retired the branch. -/
def Retired (live : W → String → Prop) (H : List Lock) (state : Ref) (C : String → Prop) (A : Prop) (h : List Event)
    (v : View (Sys W) Event) : Prop :=
  (Retiring live (.branchRegistry :: .operation state :: H) state v ∧ C v.state.mgr.currentBranchId) ∧
    .retired state.id ∈ h ∧ Called A h

section Retire

variable {state : Ref} {C : String → Prop}

theorem frame_using (hcurrent : .currentBranch ∈ H) :
    (protocol live).Frame (.branchRegistry :: .operation state :: H) (Using live H state C A) :=
  ((frame_ready hcurrent).and (frame_held (by simp))).and frame_called

theorem frame_retired (hcurrent : .currentBranch ∈ H) :
    (protocol live).Frame (.branchRegistry :: .operation state :: H) (Retired live H state C A) := by
  have hC : (protocol live).Frame (.branchRegistry :: .operation state :: H) fun _ v => C v.state.mgr.currentBranchId :=
    ⟨fun _ v v' hr hp => (hr.current (by simp [hcurrent])).symm ▸ hp, fun _ _ _ hp => hp⟩
  exact ((frame_retiring (List.mem_cons_self ..)).and hC).and (frame_logged.and frame_called)

/-- The call of the backend that retires the branch when it succeeds. -/
theorem triple_retire (hcurrent : .currentBranch ∈ H) {α : Type} (won : Except PyError α → Prop)
    {g : W → Except PyError α × W} {events : Except PyError α → List Event}
    (hwon : ∀ w r w', g w = (r, w') → won r → events r = [.retired state.id] ∧
      ∀ b, live w' b ↔ b ≠ state.id ∧ live w b)
    (hlost : ∀ w r w', g w = (r, w') → ¬ won r → events r = [] ∧ live w' = live w) :
    (protocol live).Triple (.branchRegistry :: .operation state :: H) (Using live H state C A) (tryWorld g events)
      fun r h v => (won r → Retired live H state C A h v) ∧ (¬ won r → Using live H state C A h v) := by
  have hU : (protocol live).Frame _ (Using live H state C A) := frame_using hcurrent
  have hR : (protocol live).Frame _ (Retired live H state C A) := frame_retired hcurrent
  refine triple_tryWorld (fun r h v v' hr hq => ⟨fun hw => hR.stable h v v' hr (hq.1 hw), fun hw =>
    hU.stable h v v' hr (hq.2 hw)⟩) fun h v hv hp => ?_
  rcases hg : g v.state.world with ⟨r, w⟩
  dsimp only
  by_cases hw : won r
  · obtain ⟨hev, hlive⟩ := hwon _ _ _ hg hw
    rw [hev]
    obtain ⟨⟨hready, hheld⟩, hcalled⟩ := hp
    have hholds : Holds (.branchRegistry :: .operation state :: H) v := fun r' hr' =>
      hready.holds r' ((List.mem_cons.mp hr').resolve_left (by simp))
    obtain ⟨hown, hretiring⟩ := own_retired (H := .branchRegistry :: .operation state :: H) (by simp) (by simp) hv hheld
      hready.settled hholds hlive h
    refine ⟨hown, fun _ => ⟨⟨hretiring, hready.current⟩, ?_, hcalled.append _⟩, fun hn => absurd hw hn⟩
    exact List.mem_append_right _ (List.mem_singleton_self _)
  · obtain ⟨hev, hlive⟩ := hlost _ _ _ hg hw
    rw [hev]
    have hq : (protocol live).Quiet [] v { v.state with world := w } := quiet_of_world hv hlive (by simp)
    exact ⟨.of_quiet hq h, fun hn => absurd hn hw, fun _ => hq.frame hU hp⟩

end Retire

/-! ### Discarding -/

section Discard

variable {B : ForkableBackend W} (hB : KeepsLive B live)

/-- A discard that succeeds has retired the branch, and one that has called no hook fails. -/
def DiscardEnds (A : Prop) (b : String) (r : Except PyError Bool) (h : List Event) : Prop :=
  (r = .ok true → .retired b ∈ h) ∧ (Called A h ∨ r = .ok false)

include hB

/-- The inner section of `_discard_branch`. -/
theorem triple_discardSection (hcurrent : .currentBranch ∈ H) {state : Ref} {current : String}
    (hmain : state.id ≠ defaultBranchId) (hne : current ≠ state.id) :
    (protocol live).Triple (.branchRegistry :: .operation state :: H)
      (fun h v => Ready live H state (· = current) h v ∧ Only A state h) (do
      if ← stillLive state.id state then
        announce (.call .discard state)
        if ← B.hooks.coreDiscardBranch state.id then
          updateState fun m => { m with liveBranches := m.liveBranches.erase state.id }
          removeBranch state.id
          return true
        else return false
      else return false)
      fun r h v => Settled live v ∧ Holds (.operation state :: H) v ∧ DiscardEnds A state.id r h := by
  have hfails : ∀ h : List Event, DiscardEnds A state.id (.ok false) h := fun _ => ⟨by simp, .inr rfl⟩
  have hready : (protocol live).Frame _ (Ready live H state (· = current)) := frame_ready hcurrent
  have hheld : (protocol live).Frame (.branchRegistry :: .operation state :: H) fun _ v => Held state v :=
    frame_held (by simp)
  refine triple_read (C := fun ok _ v => ok = true → Held state v)
    (fun h v v' hr hp => ⟨hready.stable h v v' hr hp.1, hp.2⟩)
    (fun ok h v v' hr hp hok => hheld.stable h v v' hr (hp hok)) (fun h v hv hp hok => ?_) fun ok => ?_
  · rw [Bool.and_eq_true] at hok
    exact hp.1.held hv hok.2
  cases ok with
  | false => exact triple_ret fun h v hp => ⟨hp.1.1.settled, hp.1.1.holds, hfails h⟩
  | true =>
    refine Triple.weaken (P := fun h v => (Ready live H state (· = current) h v ∧ Held state v) ∧ Only A state h) ?_
      (fun h v hp => ⟨⟨hp.1.1, hp.2 rfl⟩, hp.1.2⟩) fun _ _ _ hq => hq
    refine triple_bind_total (by simp) (triple_call (A := A) (hready.and hheld)
      fun h v hp => ⟨hp.1, hp.1.2, hp.1.1.looked, hp.2⟩) fun _ => ?_
    show (protocol live).Triple _ (Using live H state (· = current) A) _ _
    refine triple_bind (triple_retire hcurrent (· = .ok true) (fun w r w' hg hr => ?_) fun w r w' hg hr => ?_)
      (fun ok => ?_) fun e h v hq => ?_
    · subst hr
      exact ⟨rfl, hB.discarded _ _ _ hg⟩
    · refine ⟨?_, hB.notDiscarded _ _ _ _ hg hr⟩
      rcases r with _ | _ | _
      · rfl
      · rfl
      · exact absurd rfl hr
    · cases ok with
      | false =>
        refine triple_ret fun h v hq => ?_
        obtain ⟨⟨hready, -⟩, hcalled⟩ := hq.2 (by simp)
        exact ⟨hready.settled, hready.holds, by simp, .inl hcalled⟩
      | true =>
        refine Triple.weaken (triple_forget (H := .branchRegistry :: .operation state :: H) (r := state)
          (L := fun h => .retired state.id ∈ h ∧ Called A h) (by simp) (by simp) (by simp [hcurrent]) hmain
          (triple_ret fun h v hp => ?_)) (fun h v hq => ?_) fun _ _ _ hq => hq
        · exact ⟨hp.1.1, hp.1.2.mono (List.subset_cons_self _ _), fun _ => hp.2.1, .inl hp.2.2⟩
        · obtain ⟨⟨hretiring, hcur⟩, hlog⟩ := hq.1 rfl
          exact ⟨⟨hretiring, fun he => hne (hcur.symm.trans he)⟩, hlog⟩
    · obtain ⟨⟨hready, -⟩, hcalled⟩ := hq.2 (by simp)
      exact ⟨hready.settled, hready.holds, by simp, .inl hcalled⟩

theorem triple_discardBranchBody (hcurrent : .currentBranch ∈ H) (hreg : .branchRegistry ∉ H) (b : String) :
    (protocol live).Triple H (fun h v => Holds H v ∧ Unlooked A h) (discardBranchBody B.hooks b)
      fun r h v => Holds H v ∧ DiscardEnds A b r h := by
  have hfails : ∀ h : List Event, DiscardEnds A b (.ok false) h := fun _ => ⟨by simp, .inr rfl⟩
  have hstable : (protocol live).Stable H fun h v => Holds H v ∧ Unlooked A h :=
    fun h v v' hr hp => ⟨frame_holds.stable h v v' hr hp.1, hp.2⟩
  unfold discardBranchBody
  split_ifs with hmain
  · exact triple_ret fun h v hp => ⟨hp.1, hfails h⟩
  refine triple_read (C := fun c _ v => v.state.mgr.currentBranchId = c) hstable (fun c => (frame_current hcurrent).stable)
    (fun _ _ _ _ => rfl) fun current => ?_
  have hF : (protocol live).Frame H fun _ v => Holds H v ∧ v.state.mgr.currentBranchId = current :=
    frame_holds.and (frame_current hcurrent)
  split_ifs with hne
  · exact triple_ret fun h v hp => ⟨hp.1.1, hfails h⟩
  refine triple_lookupLive (fun h v v' hr hp => ⟨hstable h v v' hr hp.1, (frame_current hcurrent).stable h v v' hr hp.2⟩)
    (triple_ret fun h v hp => ⟨hp.1.1, hfails h⟩) ?_
  rintro state rfl
  refine triple_bind_total (by simp) (triple_lookedUp (A := A) (hF.and (frame_known (r := state)))
    (fun _ _ hp => ⟨⟨⟨hp.1.1.1, hp.1.2⟩, hp.2⟩, hp.1.1.2⟩) fun _ _ _ hp => hp.2) fun _ => ?_
  exact triple_sections hcurrent hreg (triple_discardSection hB hcurrent hmain (Ne.symm hne))

end Discard

/-! ### Switching -/

/-- The pointer moves to a registered branch. -/
theorem own_switched {b : String} (hcurrent : .currentBranch ∈ H) (hv : Sound live v)
    (hb : (v.state.mgr.branches.get? b).isSome) (h : List Event) :
    Own (protocol live) H h [] v { v.state with mgr := { v.state.mgr with currentBranchId := b } } := by
  have hg := (quiet_read v hv).guar H h
  refine ⟨⟨hv.regular.congr rfl rfl rfl, hv.active, hv.main, hb, fun b' hb' => hv.dead b' ?_, fun r hr => ?_,
    fun r hr hget => ?_, ?_⟩, ⟨⟨List.prefix_append _ _, le_refl _, fun _ _ hr => .inl hr⟩, hg.removed, hg.made, hg.retired,
    hg.revived, hg.live, hg.keys, .inr hcurrent, hg.justified⟩⟩
  · simpa [View.step] using hb'
  · obtain ⟨hallocated, hunique⟩ := hv.looked r (by simpa [View.step] using hr)
    exact ⟨hallocated, hunique⟩
  · have hgone := hv.stale r (by simpa [View.step] using hr) hget
    simpa [View.step] using hgone
  · simpa [View.step] using hv.used

theorem Holds.switched (hp : Holds H v) (b : String) :
    Holds H (v.step [] { v.state with mgr := { v.state.mgr with currentBranchId := b } }) := by
  intro r hl
  obtain ⟨hknown, hguarded⟩ := hp r hl
  refine ⟨⟨hknown.allocated, hknown.unique⟩, fun hget => ?_⟩
  simpa [View.step] using hguarded hget

theorem Retiring.switched (hp : Retiring live H r v) (b : String) :
    Retiring live H r (v.step [] { v.state with mgr := { v.state.mgr with currentBranchId := b } }) := by
  refine ⟨hp.registered, hp.listed, fun b' hb' => hp.removed b' (by simpa [View.step] using hb'), fun r' hl => ?_⟩
  obtain ⟨hknown, hguarded⟩ := hp.holds r' hl
  refine ⟨⟨hknown.allocated, hknown.unique⟩, fun hne hget => ?_⟩
  simpa [View.step] using hguarded hne hget

/-- `_set_current_branch`; `N` is what follows if the branch is not registered. -/
theorem triple_setCurrentBranch {b : String} {N : Prop}
    {F F' : List Event → View (Sys W) Event → Prop} (hF : (protocol live).Frame H F) (hF' : (protocol live).Frame H F')
    (hswitch : ∀ h v, F h v → F' h (v.step [] { v.state with mgr := { v.state.mgr with currentBranchId := b } }))
    (hfail : ∀ h v, Sound live v → F h v → v.state.mgr.branches.get? b = none → N) :
    (protocol live).Triple H F (setCurrentBranch b : M W Unit) fun r h v =>
      (∀ u, r = .ok u → F' h v) ∧ ∀ e, r = .error e → F h v ∧ N := by
  have hsub : H ⊆ .currentBranch :: H := List.subset_cons_self _ _
  have hafter : ∀ r : Except PyError Unit, (protocol live).Stable H fun h v =>
      (∀ u, r = .ok u → F' h v) ∧ ∀ e, r = .error e → F h v ∧ N := fun r h v v' hr hq =>
    ⟨fun u hu => hF'.stable h v v' hr (hq.1 u hu), fun e he => ⟨hF.stable h v v' hr (hq.2 e he).1, (hq.2 e he).2⟩⟩
  refine triple_plain plain_current hF.stable hafter ?_
  refine triple_tryState plain_state (stable_mono hF.stable hsub) (fun r => stable_mono (hafter r) hsub)
    fun h v hv hp => ?_
  unfold Manager.setCurrentBranch
  cases hget : v.state.mgr.branches.get? b with
  | none =>
    refine ⟨.of_quiet (quiet_read v hv) h, by simp, fun e _ => ⟨?_, hfail h v hv hp hget⟩⟩
    rw [View.step_nil]
    exact hp
  | some r => exact ⟨own_switched (by simp) hv (by simp [hget]) h, fun _ _ => hswitch h v hp, by simp⟩

/-! ### Parking -/

section Park

variable {B : ForkableBackend W} (hB : KeepsLive B live)

/-- A park that succeeds has retired the branch, and one that has called no hook fails. -/
def ParkEnds (A : Prop) (b : String) (r : Except PyError (Option String)) (h : List Event) : Prop :=
  (∀ id, r = .ok (some id) → .retired b ∈ h) ∧ (Called A h ∨ r = .ok none)

/-- The bookkeeping after the backend has parked the branch. -/
theorem triple_retireParked (hcurrent : .currentBranch ∈ H) {state : Ref} (hmain : state.id ≠ defaultBranchId)
    (snapshotId : String) (parentId : Option String) (elapsed : ℚ) :
    (protocol live).Triple (.branchRegistry :: .operation state :: H) (Retired live H state (fun _ => True) A)
      (retireParked state.id snapshotId parentId elapsed : M W Unit)
      fun r h v => (Settled live v ∧ Holds (.operation state :: H) v) ∧ (.retired state.id ∈ h ∧ Called A h) ∧ r = .ok () := by
  have hmem : Lock.currentBranch ∈ .branchRegistry :: .operation state :: H := by simp [hcurrent]
  have hR {C : String → Prop} : (protocol live).Frame _ (Retired live H state C A) := frame_retired hcurrent
  have hforget : (protocol live).Triple (.branchRegistry :: .operation state :: H) (Retired live H state (· ≠ state.id) A)
      (updateState (fun m => { m with liveBranches := m.liveBranches.erase state.id }) >>= fun _ =>
        removeBranch state.id : M W Unit)
      fun r h v => (Settled live v ∧ Holds (.operation state :: H) v) ∧ (.retired state.id ∈ h ∧ Called A h) ∧ r = .ok () := by
    have hthen := triple_forget (H := .branchRegistry :: .operation state :: H) (r := state) (W := W)
      (L := fun h => .retired state.id ∈ h ∧ Called A h) (k := pure ()) (by simp) (by simp) hmem hmain
      (Q := fun r h v => (Settled live v ∧ Holds (.operation state :: H) v) ∧ (.retired state.id ∈ h ∧ Called A h) ∧
        r = .ok ())
      (triple_ret fun h v hp => ⟨⟨hp.1.1, hp.1.2.mono (List.subset_cons_self _ _)⟩, hp.2, rfl⟩)
    simp only [bind_pure_unit] at hthen
    exact hthen
  refine triple_bind_total (neverRaises_updateState _) (keep_updateState hR plain_state fun v hv => ?_) fun _ => ?_
  · exact quiet_of_records hv (hv.regular.recordSnapshotNode rfl) rfl rfl rfl rfl
  refine triple_bind_total (by simp) (StateFork.keep_addEntry hR plain_stats fun v hv =>
    quiet_of_records hv (hv.regular.congr rfl rfl rfl) rfl rfl rfl rfl) fun _ => ?_
  refine triple_read (C := fun c _ v => v.state.mgr.currentBranchId = c) hR.stable (fun c => (frame_current hmem).stable)
    (fun _ _ _ _ => rfl) fun current => ?_
  split_ifs with hparked
  · have hmoved : (protocol live).Frame _ (Retired live H state (· ≠ state.id) A) := hR
    refine triple_bind (Triple.weaken (triple_setCurrentBranch (N := False) hR hmoved (fun h v hp => ?_)
      fun h v hv _ hnone => ?_) (fun h v hp => hp.1) fun _ _ _ hq => hq) (fun _ => ?_) ?_
    · obtain ⟨⟨hretiring, -⟩, hlog⟩ := hp
      exact ⟨⟨hretiring.switched defaultBranchId, hmain.symm⟩, hlog⟩
    · have hsome := hv.main
      rw [hnone] at hsome
      cases hsome
    · exact Triple.weaken hforget (fun h v hp => hp.1 _ rfl) fun _ _ _ hq => hq
    · exact fun e h v hp => (hp.2 e rfl).2.elim
  · exact Triple.weaken hforget (fun h v hp => ⟨⟨hp.1.1.1, fun he => hparked (he.symm.trans hp.2)⟩, hp.1.2⟩) fun _ _ _ hq => hq

include hB

/-- `_core_park_branch`: the capture and its registration. -/
theorem triple_corePark (hcurrent : .currentBranch ∈ H) {state : Ref} {C : String → Prop} :
    (protocol live).Triple (.branchRegistry :: .operation state :: H) (Using live H state C A)
      (B.hooks.coreParkBranch state.id) fun r h v =>
        (∀ id elapsed, r = .ok (some id, elapsed) → Retired live H state C A h v) ∧
          ((∀ id elapsed, r ≠ .ok (some id, elapsed)) → Using live H state C A h v) := by
  refine triple_bind (triple_retire hcurrent (fun r => ∃ x t, r = .ok (some x, t)) (fun w r w' hg hr => ?_)
    fun w r w' hg hr => ?_) (fun captured => ?_) fun e h v hq => ⟨by simp, fun _ => hq.2 (by simp)⟩
  · obtain ⟨x, t, rfl⟩ := hr
    exact ⟨rfl, hB.parked _ _ _ _ _ hg⟩
  · refine ⟨?_, hB.notParked _ _ _ _ hg fun x t he => hr ⟨x, t, he⟩⟩
    rcases r with _ | ⟨_ | _, _⟩
    · rfl
    · rfl
    · exact absurd ⟨_, _, rfl⟩ hr
  · rcases captured with ⟨_ | ⟨id, resource⟩, elapsed⟩
    · exact triple_ret fun h v hq => ⟨by simp, fun _ => hq.2 (by simp)⟩
    · have hR : (protocol live).Frame _ (Retired live H state C A) := frame_retired hcurrent
      refine Triple.weaken (P := Retired live H state C A) ?_ (fun h v hq => hq.1 ⟨_, _, rfl⟩) fun _ _ _ hq => hq
      refine triple_bind_total (neverRaises_updateState _) (keep_updateState hR plain_state fun v hv => ?_) fun _ => ?_
      · exact quiet_of_records hv (hv.regular.congr rfl rfl rfl) rfl rfl rfl rfl
      · exact triple_ret fun h v hq => ⟨fun _ _ _ => hq, fun hn => absurd rfl (hn _ _)⟩

/-- The inner section of `_park_branch`. -/
theorem triple_parkSection (hcurrent : .currentBranch ∈ H) {state : Ref} (hmain : state.id ≠ defaultBranchId) :
    (protocol live).Triple (.branchRegistry :: .operation state :: H) 
      (fun h v => Ready live H state (fun _ => True) h v ∧ Only A state h) (do
      let parent ← readState fun m =>
        if (m.liveBranches.get? state.id).isSome && (m.record state).active then some (m.record state).lastSnapshotId
        else none
      match parent with
      | none => return none
      | some parentId =>
        announce (.call .park state)
        let (snapshotId, elapsed) ← B.hooks.coreParkBranch state.id
        match snapshotId with
        | none => return none
        | some snapshotId =>
          retireParked state.id snapshotId parentId elapsed
          return some snapshotId)
      fun r h v => Settled live v ∧ Holds (.operation state :: H) v ∧ ParkEnds A state.id r h := by
  have hready : (protocol live).Frame _ (Ready live H state fun _ => True) := frame_ready hcurrent
  have hheld : (protocol live).Frame (.branchRegistry :: .operation state :: H) fun _ v => Held state v :=
    frame_held (by simp)
  refine triple_read (C := fun parent _ v => parent ≠ none → Held state v)
    (fun h v v' hr hp => ⟨hready.stable h v v' hr hp.1, hp.2⟩)
    (fun parent h v v' hr hp hne => hheld.stable h v v' hr (hp hne)) (fun h v hv hp hparent => ?_) fun parent => ?_
  · split_ifs at hparent with hok
    · rw [Bool.and_eq_true] at hok
      exact hp.1.held hv hok.2
    · exact absurd rfl hparent
  cases parent with
  | none => exact triple_ret fun h v hp => ⟨hp.1.1.settled, hp.1.1.holds, by simp, .inr rfl⟩
  | some parentId =>
    refine Triple.weaken (P := fun h v => (Ready live H state (fun _ => True) h v ∧ Held state v) ∧ Only A state h) ?_
      (fun h v hp => ⟨⟨hp.1.1, hp.2 (by simp)⟩, hp.1.2⟩) fun _ _ _ hq => hq
    refine triple_bind_total (by simp) (triple_call (A := A) (hready.and hheld)
      fun h v hp => ⟨hp.1, hp.1.2, hp.1.1.looked, hp.2⟩) fun _ => ?_
    show (protocol live).Triple _ (Using live H state (fun _ => True) A) _ _
    have hlost {r : Except PyError (Option String)} {h : List Event} {v : View (Sys W) Event}
        (hp : Using live H state (fun _ => True) A h v) (hr : ∀ id, r ≠ .ok (some id)) :
        Settled live v ∧ Holds (.operation state :: H) v ∧ ParkEnds A state.id r h :=
      ⟨hp.1.1.settled, hp.1.1.holds, fun id he => absurd he (hr id), .inl hp.2⟩
    refine triple_bind (triple_corePark hB hcurrent) (fun parked => ?_) fun e h v hq => hlost (hq.2 (by simp)) (by simp)
    rcases parked with ⟨_ | snapshotId, elapsed⟩
    · exact triple_ret fun h v hq => hlost (hq.2 (by simp)) (by simp)
    · refine Triple.weaken (P := Retired live H state (fun _ => True) A) ?_ (fun h v hq => hq.1 _ _ rfl) fun _ _ _ hq => hq
      refine triple_bind (triple_retireParked hcurrent hmain snapshotId parentId elapsed) (fun _ => ?_)
        fun e h v hq => absurd hq.2.2 (by simp)
      exact triple_ret fun h v hq => ⟨hq.1.1, hq.1.2, fun _ _ => hq.2.1.1, .inl hq.2.1.2⟩

theorem triple_parkBranchBody (hcurrent : .currentBranch ∈ H) (hreg : .branchRegistry ∉ H) (b : String) :
    (protocol live).Triple H (fun h v => Holds H v ∧ Unlooked A h) (parkBranchBody B.hooks b)
      fun r h v => Holds H v ∧ ParkEnds A b r h := by
  have hfails : ∀ h : List Event, ParkEnds A b (.ok none) h := fun _ => ⟨by simp, .inr rfl⟩
  unfold parkBranchBody
  split_ifs with hmain
  · exact triple_ret fun h v hp => ⟨hp.1, hfails h⟩
  refine triple_lookupLive (fun h v v' hr hp => ⟨frame_holds.stable h v v' hr hp.1, hp.2⟩)
    (triple_ret fun h v hp => ⟨hp.1, hfails h⟩) ?_
  rintro state rfl
  refine triple_bind_total (by simp) (triple_lookedUp (A := A) (frame_holds.and (frame_known (r := state)))
    (fun _ _ hp => ⟨⟨hp.1.1, hp.2⟩, hp.1.2⟩) fun _ _ _ hp => hp.2) fun _ => ?_
  exact Triple.weaken (triple_sections hcurrent hreg (C := fun _ => True) (triple_parkSection hB hcurrent hmain))
    (fun h v hp => ⟨⟨⟨⟨hp.1.1.1, trivial⟩, hp.1.1.2⟩, hp.1.2⟩, hp.2⟩) fun _ _ _ hq => hq

end Park

end Lifetime

end StateFork
