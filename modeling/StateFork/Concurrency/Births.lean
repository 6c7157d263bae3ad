import StateFork.Concurrency.Lifetime
import StateFork.Forkable.Effects

/-!
# Branches come to life

Listings, forks and the materialization of a restored branch keep to the protocol of `Lifetime`: they make records for
branches that exist, under the registry lock, and a listing that shows the live branches drops no record.
-/

namespace StateFork

open Conc Conc.Prog Conc.Protocol EnvironmentManager ForkableEnvironmentManager

namespace Lifetime

variable {W : Type} {live : W → String → Prop} {H K : List Lock} {F : List Event → View (Sys W) Event → Prop}
  {v : View (Sys W) Event}

/-! ### Steps under the registry lock -/

def OnlyOperations (K : List Lock) : Prop := ∀ l ∈ K, ∃ r, l = .operation r

/-- Whoever holds operation locks only cannot notice a step that spares all branches. -/
theorem tolerated_of_spared (hK : OnlyOperations K) {v' : View (Sys W) Event} (ho : Onward v v')
    (hs : ∀ b r, Spared b r v v') : Tolerated live K v v' where
  onward := ho
  operation r _ := hs r.id r
  registry hl := by
    obtain ⟨r, he⟩ := hK _ hl
    cases he
  registered hl := by
    rcases hl with hl | hl <;> obtain ⟨r, he⟩ := hK _ hl <;> cases he
  current hl := by
    obtain ⟨r, he⟩ := hK _ hl
    cases he

/-- A quiet step that also replaces the live registry. -/
theorem own_replaceLive {m : Manager} {d : Dict String Ref} (hl : .branchRegistry ∈ H)
    (hq : (protocol live).Quiet [] v { v.state with mgr := m }) (h : List Event) :
    Own (protocol live) H h [] v { v.state with mgr := { m with liveBranches := d } } ∧
      (OnlyOperations K → Tolerated live K v (v.step [] { v.state with mgr := { m with liveBranches := d } })) := by
  have hv := hq.valid
  have hg := hq.guar H h
  have hspared := (hq.rely K).operation
  have honward : Onward v (v.step [] { v.state with mgr := { m with liveBranches := d } }) :=
    ⟨hg.onward.events, hg.onward.next, hg.onward.fresh⟩
  refine ⟨⟨⟨hv.regular.congr rfl rfl rfl, hv.active, hv.main, hv.current, hv.dead, fun r hr => ?_, hv.stale, hv.used⟩,
    ⟨honward, hg.removed, hg.made, hg.retired, hg.revived, hg.live, .inr hl, hg.current, hg.justified⟩⟩, fun hK => ?_⟩
  · obtain ⟨hallocated, hunique⟩ := hv.looked r hr
    exact ⟨hallocated, hunique⟩
  · refine ⟨honward, hspared, fun hl' => ?_, fun hl' => ?_, fun hl' => ?_⟩
    · obtain ⟨r, he⟩ := hK _ hl'
      cases he
    · rcases hl' with hl' | hl' <;> obtain ⟨r, he⟩ := hK _ hl' <;> cases he
    · obtain ⟨r, he⟩ := hK _ hl'
      cases he

/-- The step of the backend that materializes branches. -/
theorem own_materialized {l : List String} {w : W} (hl : .branchRegistry ∈ H) (hv : Sound live v)
    (hs : Settled live v) (hw : ∀ b, live w b ↔ live v.state.world b ∨ b ∈ l) (h : List Event) :
    Own (protocol live) H h (l.map .materialized) v { v.state with world := w } ∧
      Settled live (v.step (l.map .materialized) { v.state with world := w }) ∧
      (OnlyOperations K → Tolerated live K v (v.step (l.map .materialized) { v.state with world := w })) := by
  have hgone : ∀ b, gone b (v.events ++ l.map .materialized) = if b ∈ l then false else gone b v.events := fun b =>
    gone_append_materialized b v.events l
  have hold : ∀ b, gone b (v.events ++ l.map .materialized) = true → b ∉ l ∧ gone b v.events = true := by
    intro b hb
    rw [hgone] at hb
    split_ifs at hb with hmem
    exact ⟨hmem, hb⟩
  have hnot {e : Event} (he : ∀ b, e ≠ .materialized b) : e ∉ l.map Event.materialized := by
    intro hmem
    obtain ⟨b, -, rfl⟩ := List.mem_map.mp hmem
    exact he b rfl
  have honward : Onward v (v.step (l.map .materialized) { v.state with world := w }) :=
    ⟨List.prefix_append _ _, le_refl _, fun _ _ hr => .inl hr⟩
  refine ⟨⟨?_, ?_⟩, ⟨fun b hb => (hw b).mpr (.inl (hs.listed b hb)), fun b hb => hs.removed b (hold b hb).2⟩,
    fun hK => tolerated_of_spared hK honward fun b r hr => ⟨hr, fun hg => (hold b hg).2⟩⟩
  · constructor
    case regular => exact hv.regular
    case active => exact hv.active
    case main => exact hv.main
    case current => exact hv.current
    case dead =>
      intro b hb hlive
      obtain ⟨hmem, hb'⟩ := hold b hb
      exact hv.dead b hb' (((hw b).mp hlive).resolve_right hmem)
    case looked =>
      intro r hr
      exact hv.looked r ((List.mem_append.mp hr).resolve_right (hnot (by simp)))
    case stale =>
      intro r hr hget
      have hb := hv.stale r ((stale_append (hnot (by simp))).mp hr) hget
      -- a record of a branch that is gone would have been removed
      have hnone := hs.removed r.id hb
      change v.state.mgr.branches.get? r.id = some r at hget
      rw [hnone] at hget
      cases hget
    case used => exact hv.used.append fun hook r => hnot (by simp)
  · constructor
    case onward => exact honward
    case removed => exact fun _ _ hr => .inl hr
    case made => exact fun _ _ hr => .inl hr
    case retired => exact fun b hb => .inl (hold b hb).2
    case revived => exact fun _ _ => .inr hl
    case live => exact .inr hl
    case keys => exact .inl rfl
    case current => exact .inl rfl
    case justified =>
      intro e he
      obtain ⟨b, -, rfl⟩ := List.mem_map.mp he
      trivial

/-! ### Registering a branch -/

theorem triple_registerBranch (hl : .branchRegistry ∈ H ∨ .currentBranch ∈ H) (hF : (protocol live).Frame H F)
    {b : String} {base : Option String}
    (hb : ∀ h v, Sound live v → F h v → (v.state.mgr.branches.get? b).isSome ∨ gone b v.events = false) :
    (protocol live).Triple H F (registerBranch b base : M W Ref) fun r h v =>
      F h v ∧ ∀ state, r = .ok state → v.state.mgr.branches.get? b = some state := by
  refine triple_withState plain_state hF.stable (fun r h v v' hr hp => ?_) fun h v hv hp => ?_
  · exact ⟨hF.stable h v v' hr hp.1, fun state hs => hr.registered hl b state (hp.2 state hs)⟩
  · have hq : (protocol live).Quiet [] v { v.state with mgr := (v.state.mgr.registerBranch b base).2 } :=
      quiet_registerBranch hv (hb h v hv hp)
    refine ⟨.of_quiet hq h, hq.frame_nil hF hp, fun state hs => ?_⟩
    obtain rfl := Except.ok.inj hs
    exact v.state.mgr.get?_registerBranch b base

theorem keep_setBranchPosition (hl : .branchRegistry ∈ H ∨ .currentBranch ∈ H) (hF : (protocol live).Frame H F)
    {b : String} {snapshotId : Option String}
    (hb : ∀ h v, Sound live v → F h v → (v.state.mgr.branches.get? b).isSome ∨ gone b v.events = false) :
    (protocol live).Keep H F (setBranchPosition b snapshotId : M W Unit) := by
  refine triple_bind (triple_registerBranch hl hF hb) (fun state => ?_) fun _ _ _ hp => hp.1
  refine triple_updateStateEmit plain_state (fun h v v' hr hp => ?_) (fun _ => hF.stable) fun h v hv hp => ?_
  · exact ⟨hF.stable h v v' hr hp.1, fun state' hs => hr.registered hl b state' (hp.2 state' hs)⟩
  · have hq : (protocol live).Quiet [.positioned b snapshotId] v { v.state with
        mgr := v.state.mgr.modifyRecord state fun _ => .positionedAt snapshotId } :=
      quiet_modify hv (hp.2 state rfl) rfl (by simp [Event.Mute])
    exact ⟨.of_quiet hq h, hq.frame hF hp.1⟩

theorem keep_reconcile (hl : .branchRegistry ∈ H) (hF : (protocol live).Frame H F) {branch : Ref}
    (hb : ∀ h v, Sound live v → F h v → gone branch.id v.events = false) :
    (protocol live).Keep H F (reconcile branch : M W Unit) := by
  have hb' : ∀ h v, Sound live v → F h v →
      (v.state.mgr.branches.get? branch.id).isSome ∨ gone branch.id v.events = false := fun h v hv hp =>
    .inr (hb h v hv hp)
  refine keep_bind (keep_peek hF quiet_read) fun base => ?_
  refine triple_bind (triple_registerBranch (.inl hl) hF hb') (fun state => ?_) fun _ _ _ hp => hp.1
  refine Triple.weaken (P := F) ?_ (fun _ _ hp => hp.1) fun _ _ _ hq => hq
  refine keep_bind (keep_peek hF quiet_read) fun base => ?_
  split
  · exact keep_ret ()
  · refine keep_bind (keep_peek hF quiet_read) fun current => ?_
    refine keep_bind (keep_peek hF quiet_read) fun base => ?_
    split
    · exact keep_ret ()
    · exact keep_bind (keep_peek hF quiet_read) fun base => keep_setBranchPosition (.inl hl) hF hb'

/-- A branch that is live is not gone. -/
theorem Sound.gone_of_live (hv : Sound live v) {b : String} (hb : live v.state.world b) : gone b v.events = false :=
  Bool.eq_false_of_not_eq_true fun hg => hv.dead b hg hb

/-! ### Listing and forking -/

section Registry

variable {B : ForkableBackend W} (hB : KeepsLive B live) (hK : OnlyOperations K) (hKH : K ⊆ H)
  (hF : (protocol live).Frame K F)

include hKH hF in
/-- What a thread knows under the registry lock, while the registries are settled. -/
theorem frame_settled_and : (protocol live).Frame (.branchRegistry :: H) fun h v => Settled live v ∧ F h v :=
  (frame_settled (List.mem_cons_self ..)).and (frame_mono hF (List.subset_cons_of_subset _ hKH))

include hB hK hKH hF

theorem keep_listBranches (hl : .branchRegistry ∉ H) {refresh : M W Unit} :
    (protocol live).Keep H F (listBranches (B.hooksWith refresh)) := by
  have hmem : Lock.branchRegistry ∈ .branchRegistry :: H := List.mem_cons_self ..
  have hG := frame_settled_and hKH hF
  refine triple_registry hl (stable_mono hF.stable hKH) (fun _ => stable_mono hF.stable hKH) ?_
  let Exact : List EnvironmentBranch → List Event → View (Sys W) Event → Prop := fun listing h v =>
    (Settled live v ∧ F h v) ∧ ∀ b, live v.state.world b ↔ b ∈ listing.map EnvironmentBranch.id
  have hlisting {listing : List EnvironmentBranch} : (protocol live).Frame (.branchRegistry :: H) fun _ v =>
      ∀ b, live v.state.world b ↔ b ∈ listing.map EnvironmentBranch.id :=
    frame_live hmem (C := fun live => ∀ b, live b ↔ b ∈ listing.map EnvironmentBranch.id)
  have hexact : ∀ listing, (protocol live).Frame (.branchRegistry :: H) (Exact listing) := fun listing =>
    hG.and hlisting
  let Object : Ref → List Event → View (Sys W) Event → Prop := fun _ _ _ => True
  have hobject : ∀ ref, (protocol live).Frame (.branchRegistry :: H) (Object ref) := fun _ =>
    ⟨fun _ _ _ _ hp => hp, fun _ _ _ hp => hp⟩
  refine keep_listBranchesBody plain_state quiet_read
    (fun v branch hv => quiet_of_records hv (hv.regular.congr rfl rfl rfl) rfl rfl rfl rfl) hG hexact hobject
    (fun _ _ _ hp => hp.1) ?_ (fun _ _ _ _ _ _ _ => trivial) (fun listing refs hrefs h v hv hp hmade => ?_)
    fun listing refs ref _ href => ?_
  · show (protocol live).Triple _ _ (tryWorld B.list ForkableBackend.fetchedEvents) _
    refine triple_tryWorld (fun r h v v' hr hp => ?_) fun h v hv hp => ?_
    · exact ⟨hG.stable h v v' hr hp.1, fun listing he => (hexact listing).stable h v v' hr (hp.2 listing he)⟩
    · have hq : (protocol live).Quiet (ForkableBackend.fetchedEvents (B.list v.state.world).1) v
          { v.state with world := (B.list v.state.world).2 } :=
        quiet_of_world hv (hB.list _) fun e he => by rw [ForkableBackend.eq_fetched_of_mem he]; exact trivial
      refine ⟨.of_quiet hq h, hq.frame hG hp, fun listing he => ⟨hq.frame hG hp, fun b => ?_⟩⟩
      show live (B.list v.state.world).2 b ↔ _
      rw [hB.list]
      exact hB.listed v.state.world listing he b
  · obtain ⟨hown, htolerated⟩ := own_replaceLive (K := K) (m := v.state.mgr)
      (d := .ofList (refs.map fun r => (r.id, r))) hmem (quiet_read v hv) h
    refine ⟨hown, ⟨⟨⟨⟨fun b hb => ?_, fun b hb => hp.1.1.removed b ?_⟩, hF.stable h _ _ (htolerated hK) hp.1.2⟩, hp.2⟩,
      hmade⟩, fun b hb => ?_⟩
    · change b ∈ (Dict.ofList (refs.map fun r => (r.id, r))).keys at hb
      rw [Dict.mem_keys_ofList, List.map_map] at hb
      refine (hp.2 b).mpr ?_
      rw [← hrefs]
      exact hb
    · simpa [View.step] using hb
    · exact (hp.2 b).mp (hp.1.1.listed b hb)
  · exact keep_reconcile hmem ((hexact listing).and (.all fun ref _ => hobject ref)) fun h v hv hp =>
      hv.gone_of_live ((hp.1.2 ref.id).mpr href)

omit hB in
/-- A branch that is live is registered and enters the live registry. -/
theorem keep_registerOutcome {activate : Bool} {outcome : EnvironmentBranch × ℚ} {l : List String} (hmem : outcome.1.id ∈ l) :
    (protocol live).Keep (.branchRegistry :: H) (fun h v => (Settled live v ∧ F h v) ∧ ∀ b ∈ l, live v.state.world b)
      (registerOutcome activate outcome : M W Unit) := by
  have hl : Lock.branchRegistry ∈ .branchRegistry :: H := List.mem_cons_self ..
  have hG : (protocol live).Frame (.branchRegistry :: H)
      fun h v => (Settled live v ∧ F h v) ∧ ∀ b ∈ l, live v.state.world b :=
    (frame_settled_and hKH hF).and (frame_live hl (C := fun live => ∀ b ∈ l, live b))
  unfold registerOutcome baseSnapshotId
  refine triple_bind (Q := fun r h v => ((Settled live v ∧ F h v) ∧ ∀ b ∈ l, live v.state.world b) ∧
    ∀ ref, r = .ok ref → ref.id = outcome.1.id) ?_ (fun branch => ?_) fun _ _ _ hp => hp.1
  · refine triple_access (fun r h v v' hr hp => ⟨hG.stable h v v' hr hp.1, hp.2⟩) fun h v hv hp => ?_
    have hq : (protocol live).Quiet [] v { v.state with mgr := (v.state.mgr.newLiveObject outcome.1).2 } :=
      quiet_of_records hv (hv.regular.congr rfl rfl rfl) rfl rfl rfl rfl
    refine ⟨.of_quiet hq h, hq.frame_nil hG hp, ?_⟩
    rintro _ ⟨⟩
    rfl
  · refine triple_of_fact (fun _ _ hp => hp.2 branch rfl) fun hid => ?_
    refine Triple.weaken (P := fun h v => (Settled live v ∧ F h v) ∧ ∀ b ∈ l, live v.state.world b) ?_
      (fun _ _ hp => hp.1) fun _ _ _ hq => hq
    refine keep_bind (keep_peek hG quiet_read) fun base => ?_
    refine triple_bind (triple_registerBranch (.inl hl) hG fun h v hv hp =>
      .inr (hv.gone_of_live (hp.2 branch.id (hid ▸ hmem)))) (fun state => ?_) fun _ _ _ hp => hp.1
    let G : List Event → View (Sys W) Event → Prop := fun h v =>
      (Settled live v ∧ F h v) ∧ ∀ b ∈ l, live v.state.world b
    refine triple_bind (Q := fun _ => G) ?_ (fun _ => ?_) fun _ _ _ hp => hp
    · refine triple_withState plain_state (fun h v v' hr hp => ?_) (fun _ => hG.stable) fun h v hv hp => ?_
      · exact ⟨hG.stable h v v' hr hp.1, fun state' hs => hr.registered (.inl hl) branch.id state' (hp.2 state' hs)⟩
      · have hq : (protocol live).Quiet [] v { v.state with
            mgr := v.state.mgr.modifyRecord state fun r => { r with active := activate } } :=
          quiet_modify hv (hp.2 state rfl) rfl (by simp)
        obtain ⟨hown, htolerated⟩ := own_replaceLive (K := K) (d := v.state.mgr.liveBranches.set branch.id branch) hl hq h
        refine ⟨hown, ⟨⟨fun b hb => ?_, fun b hb => hp.1.1.1.removed b ?_⟩, hF.stable h _ _ (htolerated hK) hp.1.1.2⟩,
          hp.1.2⟩
        · rcases Dict.mem_keys_set.mp hb with rfl | hb
          · exact hp.1.2 branch.id (hid ▸ hmem)
          · exact hp.1.1.1.listed b hb
        · simpa [View.step] using hb
    · exact keep_addEntry hG plain_stats fun v hv => quiet_of_records hv (hv.regular.congr rfl rfl rfl) rfl rfl rfl rfl

/-- The body of `_materialize_branches`. -/
theorem keep_materialize {snapshotId : String} {requestedIds : List (Option String)} {activate : Bool} :
    (protocol live).Keep (.branchRegistry :: H) (fun h v => Settled live v ∧ F h v) (do
      let outcomes ← B.hooks.coreFork snapshotId requestedIds
      each outcomes (registerOutcome activate)
      return outcomes.map Prod.fst) := by
  have hl : Lock.branchRegistry ∈ .branchRegistry :: H := List.mem_cons_self ..
  have hG := frame_settled_and hKH hF
  refine triple_bind (Q := fun r h v => (Settled live v ∧ F h v) ∧ ∀ outcomes, r = .ok outcomes →
    ∀ b ∈ outcomes.map (fun o => o.1.id), live v.state.world b) ?_ (fun outcomes => ?_) fun _ _ _ hp => hp.1
  · show (protocol live).Triple _ _ (tryWorld (B.fork snapshotId requestedIds) ForkableBackend.forkedEvents) _
    refine triple_tryWorld (fun r h v v' hr hp => ⟨hG.stable h v v' hr hp.1, fun outcomes he => ?_⟩) fun h v hv hp => ?_
    · rw [(hr.registry hl).1]
      exact hp.2 outcomes he
    · rcases hf : B.fork snapshotId requestedIds v.state.world with ⟨e | outcomes, w⟩
      · have hq : (protocol live).Quiet [] v { v.state with world := w } :=
          quiet_of_world hv (hB.notForked _ _ _ _ _ hf) (by simp)
        exact ⟨.of_quiet hq h, hq.frame hG hp, fun _ he => by cases he⟩
      · have hevents : ForkableBackend.forkedEvents (.ok outcomes) =
            (outcomes.map fun o => o.1.id).map Event.materialized := by
          simp [ForkableBackend.forkedEvents]
        obtain ⟨-, -, hw⟩ := hB.forked _ _ _ _ _ hf
        obtain ⟨hown, hsettled, htolerated⟩ := own_materialized (K := K) hl hv hp.1 hw h
        dsimp only
        rw [hevents]
        refine ⟨hown, ⟨hsettled, hF.log _ _ _ (hF.stable _ _ _ (htolerated hK) hp.2)⟩, ?_⟩
        rintro _ ⟨⟩ b hb
        exact (hw b).mpr (.inr hb)
  · let G : List Event → View (Sys W) Event → Prop := fun h v =>
      (Settled live v ∧ F h v) ∧ ∀ b ∈ outcomes.map (fun o => o.1.id), live v.state.world b
    refine Triple.weaken (P := G) ?_ (fun _ _ hp => ⟨hp.1, hp.2 outcomes rfl⟩) fun _ _ _ (hq : G _ _) => hq.1
    refine keep_bind (keep_each fun outcome ho => ?_) fun _ => keep_ret _
    exact keep_registerOutcome hK hKH hF (List.mem_map_of_mem ho)

/-- `_materialize_branches`, as `restore` calls it. -/
theorem keep_materializeBranches (hl : .branchRegistry ∉ H) {snapshotId : String} {requestedIds : List (Option String)}
    {activate : Bool} :
    (protocol live).Keep H F (materializeBranches B.hooks snapshotId requestedIds activate) :=
  triple_registry hl (stable_mono hF.stable hKH) (fun _ => stable_mono hF.stable hKH) (keep_materialize hB hK hKH hF)

end Registry

end Lifetime

end StateFork
