import StateFork.Forkable.Backend
import StateFork.Lib.RelyGuarantee

/-!
# Rules for the accesses of a manager

The rules of a protocol for the ways in which controller code touches the shared state: sections of the
state lock, entries of the benchmark log, attribute accesses without a lock, and backend actions. They
hold for every protocol in which the state lock and the statistics lock play no role. The loops of
`_list_branches` come with a rule of their own: what they need is that the listing stays exact while they
run.
-/

namespace StateFork

open Conc Conc.Prog Conc.Protocol

variable {W α β : Type} {R : Protocol (Sys W) Lock Event} {H : List Lock}
  {P F : List Event → View (Sys W) Event → Prop} {Q : Except PyError α → List Event → View (Sys W) Event → Prop}

/-- The program's own step from `v` to the state `s` keeps the promises. -/
def Own (R : Protocol (Sys W) Lock Event) (H : List Lock) (h ev : List Event) (v : View (Sys W) Event)
    (s : Sys W) : Prop :=
  R.valid (v.step ev s) ∧ R.guar H h ev v (v.step ev s)

theorem Own.of_quiet {ev : List Event} {v : View (Sys W) Event} {s : Sys W} (hq : R.Quiet ev v s) (h : List Event) :
    Own R H h ev v s :=
  ⟨hq.valid, hq.guar H h⟩

/-! ### Sections of the state lock -/

theorem triple_withState (hl : R.Plain .state) {g : Manager → α × Manager} (hP : R.Stable H P)
    (hQ : ∀ x, R.Stable H (Q x)) (hstep : ∀ h v, R.valid v → P h v →
      Own R H h [] v { v.state with mgr := (g v.state.mgr).2 } ∧
        Q (.ok (g v.state.mgr).1) h (v.step [] { v.state with mgr := (g v.state.mgr).2 })) :
    R.Triple H P (withState g : M W α) Q :=
  triple_section hl (r := fun s => .ok (g s.mgr).1) hP hQ fun h v hv hp => by
    rw [List.append_nil]
    exact ⟨(hstep h v hv hp).1.1, (hstep h v hv hp).1.2, (hstep h v hv hp).2⟩

theorem triple_tryState (hl : R.Plain .state) {g : Manager → Except PyError α × Manager} (hP : R.Stable H P)
    (hQ : ∀ x, R.Stable H (Q x)) (hstep : ∀ h v, R.valid v → P h v →
      Own R H h [] v { v.state with mgr := (g v.state.mgr).2 } ∧
        Q (g v.state.mgr).1 h (v.step [] { v.state with mgr := (g v.state.mgr).2 })) :
    R.Triple H P (tryState g : M W α) Q :=
  triple_section hl (r := fun s => (g s.mgr).1) hP hQ fun h v hv hp => by
    rw [List.append_nil]
    exact ⟨(hstep h v hv hp).1.1, (hstep h v hv hp).1.2, (hstep h v hv hp).2⟩

/-- A section that only reads. -/
theorem triple_readState (hl : R.Plain .state) (hread : ∀ h v, R.valid v → R.guar H h [] v v) {g : Manager → α}
    (hP : R.Stable H P) (hQ : ∀ x, R.Stable H (Q x))
    (hstep : ∀ h v, R.valid v → P h v → Q (.ok (g v.state.mgr)) h v) : R.Triple H P (readState g : M W α) Q := by
  refine triple_withState hl hP hQ fun h v hv hp => ?_
  show Own R H h [] v v.state ∧ Q (.ok (g v.state.mgr)) h (v.step [] v.state)
  unfold Own
  rw [View.step_nil]
  exact ⟨⟨hv, hread h v hv⟩, hstep h v hv hp⟩

/-- The lookup that every template starts with. -/
theorem triple_getBranchState (hl : R.Plain .state) (hread : ∀ h v, R.valid v → R.guar H h [] v v)
    {b : Option String} {Q : Except PyError Ref → List Event → View (Sys W) Event → Prop} (hP : R.Stable H P)
    (hQ : ∀ x, R.Stable H (Q x)) (hstep : ∀ h v, R.valid v → P h v → Q (v.state.mgr.getBranchState b) h v) :
    R.Triple H P (EnvironmentManager.getBranchState b : M W Ref) Q := by
  refine triple_tryState hl hP hQ fun h v hv hp => ?_
  show Own R H h [] v v.state ∧ Q (v.state.mgr.getBranchState b) h (v.step [] v.state)
  unfold Own
  rw [View.step_nil]
  exact ⟨⟨hv, hread h v hv⟩, hstep h v hv hp⟩

theorem Manager.get?_of_getBranchState {m : Manager} {b : String} {state : Ref}
    (h : m.getBranchState (some b) = .ok state) : m.branches.get? b = some state := by
  unfold getBranchState at h
  dsimp only [Option.getD_some] at h
  split at h
  · next r hr =>
    cases h
    exact hr
  · cases h

theorem triple_updateStateEmit (hl : R.Plain .state) {events : List Event} {g : Manager → Manager}
    {Q : Except PyError Unit → List Event → View (Sys W) Event → Prop} (hP : R.Stable H P)
    (hQ : ∀ x, R.Stable H (Q x)) (hstep : ∀ h v, R.valid v → P h v →
      Own R H h events v { v.state with mgr := g v.state.mgr } ∧
        Q (.ok ()) (h ++ events) (v.step events { v.state with mgr := g v.state.mgr })) :
    R.Triple H P (updateStateEmit events g : M W Unit) Q :=
  triple_section hl (r := fun _ => .ok ()) hP hQ fun h v hv hp =>
    ⟨(hstep h v hv hp).1.1, (hstep h v hv hp).1.2, (hstep h v hv hp).2⟩

/-! ### Steps without a lock -/

theorem triple_access {f : Sys W → α × Sys W} (hQ : ∀ x, R.Stable H (Q x)) (hstep : ∀ h v, R.valid v → P h v →
      Own R H h [] v (f v.state).2 ∧ Q (.ok (f v.state).1) h (v.step [] (f v.state).2)) :
    R.Triple H P (access f : M W α) Q :=
  triple_step (r := fun s => .ok (f s).1) hQ fun h v hv hp => by
    rw [List.append_nil]
    exact ⟨(hstep h v hv hp).1.1, (hstep h v hv hp).1.2, (hstep h v hv hp).2⟩

theorem triple_tryWorld {g : W → Except PyError α × W} {events : Except PyError α → List Event}
    (hQ : ∀ x, R.Stable H (Q x)) (hstep : ∀ h v, R.valid v → P h v →
      Own R H h (events (g v.state.world).1) v { v.state with world := (g v.state.world).2 } ∧
        Q (g v.state.world).1 (h ++ events (g v.state.world).1)
          (v.step (events (g v.state.world).1) { v.state with world := (g v.state.world).2 })) :
    R.Triple H P (tryWorld g events : M W α) Q :=
  triple_step hQ fun h v hv hp =>
    ⟨(hstep h v hv hp).1.1, (hstep h v hv hp).1.2, (hstep h v hv hp).2⟩

theorem triple_announce {e : Event} {Q : Except PyError Unit → List Event → View (Sys W) Event → Prop}
    (hQ : ∀ x, R.Stable H (Q x)) (hstep : ∀ h v, R.valid v → P h v →
      Own R H h [e] v v.state ∧ Q (.ok ()) (h ++ [e]) (v.step [e] v.state)) :
    R.Triple H P (announce e : M W Unit) Q :=
  triple_step (r := fun _ => .ok ()) hQ fun h v hv hp =>
    ⟨(hstep h v hv hp).1.1, (hstep h v hv hp).1.2, (hstep h v hv hp).2⟩

/-! ### Accesses that do not raise -/

@[simp] theorem neverRaises_withState (g : Manager → α × Manager) : NeverRaises (withState g : M W α) := fun _ => trivial

@[simp] theorem neverRaises_readState (g : Manager → α) : NeverRaises (readState g : M W α) := neverRaises_withState _

@[simp] theorem neverRaises_updateState (g : Manager → Manager) : NeverRaises (updateState g : M W Unit) :=
  neverRaises_withState _

@[simp] theorem neverRaises_access (f : Sys W → α × Sys W) : NeverRaises (access f : M W α) := fun _ => trivial

@[simp] theorem neverRaises_announce (e : Event) : NeverRaises (announce e : M W Unit) := fun _ => trivial

@[simp] theorem neverRaises_addEntry (operation target : String) (elapsed : ℚ) (b : String) :
    NeverRaises (EnvironmentManager.addEntry operation target elapsed b : M W Unit) := fun _ => trivial

/-! ### Quiet accesses -/

section Quiet

variable (hF : R.Frame H F)

include hF

theorem keep_withState (hl : R.Plain .state) {g : Manager → α × Manager}
    (hq : ∀ v, R.valid v → R.Quiet [] v { v.state with mgr := (g v.state.mgr).2 }) :
    R.Keep H F (withState g : M W α) :=
  hF.keep_section hl (r := fun s => .ok (g s.mgr).1) hq

theorem keep_readState (hl : R.Plain .state) {g : Manager → α} (hq : ∀ v, R.valid v → R.Quiet [] v v.state) :
    R.Keep H F (readState g : M W α) :=
  keep_withState hF hl hq

theorem keep_peek {g : Manager → α} (hq : ∀ v, R.valid v → R.Quiet [] v v.state) :
    R.Keep H F (peek g : M W α) :=
  hF.keep_step (r := fun s => .ok (g s.mgr)) hq

theorem keep_updateState (hl : R.Plain .state) {g : Manager → Manager}
    (hq : ∀ v, R.valid v → R.Quiet [] v { v.state with mgr := g v.state.mgr }) :
    R.Keep H F (updateState g : M W Unit) :=
  keep_withState hF hl hq

theorem keep_tryState (hl : R.Plain .state) {g : Manager → Except PyError α × Manager}
    (hq : ∀ v, R.valid v → R.Quiet [] v { v.state with mgr := (g v.state.mgr).2 }) :
    R.Keep H F (tryState g : M W α) :=
  hF.keep_section hl (r := fun s => (g s.mgr).1) hq

theorem keep_addEntry (hl : R.Plain .stats) {operation target b : String} {elapsed : ℚ}
    (hq : ∀ v, R.valid v → R.Quiet [] v
      { v.state with mgr := v.state.mgr.addEntry operation target elapsed b }) :
    R.Keep H F (EnvironmentManager.addEntry operation target elapsed b : M W Unit) :=
  hF.keep_section hl (r := fun _ => .ok ()) hq

theorem keep_access {f : Sys W → α × Sys W} (hq : ∀ v, R.valid v → R.Quiet [] v (f v.state).2) :
    R.Keep H F (access f : M W α) :=
  hF.keep_step (r := fun s => .ok (f s).1) hq

theorem keep_tryWorld {g : W → Except PyError α × W} {events : Except PyError α → List Event}
    (hq : ∀ v, R.valid v → R.Quiet (events (g v.state.world).1) v
      { v.state with world := (g v.state.world).2 }) : R.Keep H F (tryWorld g events : M W α) :=
  hF.keep_step hq

theorem keep_announce {e : Event} (hq : ∀ v, R.valid v → R.Quiet [e] v v.state) :
    R.Keep H F (announce e : M W Unit) :=
  hF.keep_step (r := fun _ => .ok ()) hq

end Quiet

/-! ### The loops of `_list_branches` -/

section Listing

open EnvironmentManager ForkableEnvironmentManager

/-- The objects for a listing name what it names, and each of them is as `Object` says. -/
theorem triple_newLiveObjects (hF : R.Frame H F) {Object : Ref → List Event → View (Sys W) Event → Prop}
    (hobject : ∀ ref, R.Frame H (Object ref))
    (hnew : ∀ v branch, R.valid v → R.Quiet [] v { v.state with mgr := (v.state.mgr.newLiveObject branch).2 })
    {l : List EnvironmentBranch} (hmade : ∀ branch ∈ l, ∀ h v, R.valid v → F h v →
      Object (v.state.mgr.newLiveObject branch).1 h (v.step [] { v.state with mgr := (v.state.mgr.newLiveObject branch).2 })) :
    R.Triple H F (newLiveObjects l : M W (List Ref)) fun r h v =>
      F h v ∧ ∀ refs, r = .ok refs → refs.map Ref.id = l.map EnvironmentBranch.id ∧ ∀ ref ∈ refs, Object ref h v := by
  unfold newLiveObjects
  induction l generalizing F with
  | nil =>
    refine triple_ret fun h v hp => ⟨hp, ?_⟩
    rintro refs ⟨⟩
    exact ⟨rfl, fun _ href => absurd href List.not_mem_nil⟩
  | cons branch l ih =>
    refine triple_bind (Q := fun r h v => F h v ∧ ∀ ref, r = .ok ref → ref.id = branch.id ∧ Object ref h v) ?_
      (fun ref => ?_) fun e h v hp => ⟨hp.1, by simp⟩
    · refine triple_access (fun r h v v' hr hp => ⟨hF.stable h v v' hr hp.1, fun ref he => ?_⟩) fun h v hv hp => ?_
      · exact ⟨(hp.2 ref he).1, (hobject ref).stable h v v' hr (hp.2 ref he).2⟩
      · refine ⟨.of_quiet (hnew v branch hv) h, (hnew v branch hv).frame_nil hF hp, ?_⟩
        rintro ref ⟨⟩
        exact ⟨rfl, hmade branch (List.mem_cons_self ..) h v hv hp⟩
    · refine triple_of_fact (fun h v hp => (hp.2 ref rfl).1) fun hid => ?_
      have hrest := ih (hF.and (hobject ref)) fun branch' hbranch' h v hv hp =>
        hmade branch' (List.mem_cons_of_mem _ hbranch') h v hv hp.1
      refine triple_bind (Triple.weaken hrest (fun _ _ hp => ⟨hp.1, (hp.2 ref rfl).2⟩) fun _ _ _ hq => hq)
        (fun refs => ?_) fun e h v hp => ⟨hp.1.1, by simp⟩
      refine triple_ret fun h v hp => ⟨hp.1.1, ?_⟩
      rintro _ ⟨⟩
      obtain ⟨hids, hobjects⟩ := hp.2 refs rfl
      exact ⟨by rw [List.map_cons, List.map_cons, hid, hids], List.forall_mem_cons.mpr ⟨hp.1.2, hobjects⟩⟩

/-- `_list_branches` keeps `F` if what `Exact` says of the fetched listing lasts, and what `Object` says of the objects
for it: the listing covers the registry that it replaces, so no record is dropped. -/
theorem keep_listBranchesBody {G : ForkHooks W} {Exact : List EnvironmentBranch → List Event → View (Sys W) Event → Prop}
    {Object : Ref → List Event → View (Sys W) Event → Prop} (hl : R.Plain .state)
    (hread : ∀ v, R.valid v → R.Quiet [] v v.state)
    (hnew : ∀ v branch, R.valid v → R.Quiet [] v { v.state with mgr := (v.state.mgr.newLiveObject branch).2 })
    (hF : R.Frame H F) (hexact : ∀ listing, R.Frame H (Exact listing)) (hobject : ∀ ref, R.Frame H (Object ref))
    (hkeeps : ∀ listing h v, Exact listing h v → F h v)
    (hfetch : R.Triple H F G.coreListBranches fun r h v =>
      F h v ∧ ∀ listing, r = .ok (some listing) → Exact listing h v)
    (hmade : ∀ listing, ∀ branch ∈ listing, ∀ h v, R.valid v → Exact listing h v →
      Object (v.state.mgr.newLiveObject branch).1 h (v.step [] { v.state with mgr := (v.state.mgr.newLiveObject branch).2 }))
    (hreplace : ∀ listing (refs : List Ref), refs.map Ref.id = listing.map EnvironmentBranch.id → ∀ h v, R.valid v →
      Exact listing h v → (∀ ref ∈ refs, Object ref h v) →
        let s := { v.state with mgr := { v.state.mgr with liveBranches := .ofList (refs.map fun r => (r.id, r)) } }
        Own R H h [] v s ∧ (Exact listing h (v.step [] s) ∧ ∀ ref ∈ refs, Object ref h (v.step [] s)) ∧
          ∀ b ∈ v.state.mgr.liveBranches.keys, b ∈ listing.map EnvironmentBranch.id)
    (hreconcile : ∀ listing (refs : List Ref) (ref : Ref), ref ∈ refs → ref.id ∈ listing.map EnvironmentBranch.id →
      R.Keep H (fun h v => Exact listing h v ∧ ∀ ref ∈ refs, Object ref h v) (reconcile ref)) :
    R.Keep H F (listBranchesBody G) := by
  unfold listBranchesBody
  refine triple_bind hfetch (fun fetched => ?_) fun _ _ _ hp => hp.1
  cases fetched with
  | none => exact Triple.weaken (keep_readState hF hl hread) (fun _ _ hp => hp.1) fun _ _ _ hq => hq
  | some listing =>
    have hG := hexact listing
    refine Triple.weaken (P := Exact listing) ?_ (fun h v hp => hp.2 listing rfl) fun _ h v hq => hkeeps listing h v hq
    refine triple_bind (triple_newLiveObjects hG hobject hnew (hmade listing)) (fun refs => ?_) fun _ _ _ hp => hp.1
    refine triple_of_fact (fun _ _ hp => (hp.2 refs rfl).1) fun hrefs => ?_
    let Listed : List Event → View (Sys W) Event → Prop := fun h v => Exact listing h v ∧ ∀ ref ∈ refs, Object ref h v
    have hlisted : R.Frame H Listed := hG.and (.all fun ref _ => hobject ref)
    refine Triple.weaken (P := Listed) ?_ (fun _ _ hp => ⟨hp.1, (hp.2 refs rfl).2⟩) fun r h v (hq : Listed h v) => hq.1
    refine triple_bind (Q := fun r h v => Listed h v ∧ ∀ previous, r = .ok previous →
      ∀ b ∈ previous, b ∈ refs.map Ref.id) ?_ (fun previous => ?_) fun _ _ _ hp => hp.1
    · refine triple_withState hl hlisted.stable (fun r h v v' hr hp => ⟨hlisted.stable h v v' hr hp.1, hp.2⟩)
        fun h v hv hp => ?_
      obtain ⟨hown, hstill, hcovers⟩ := hreplace listing refs hrefs h v hv hp.1 hp.2
      refine ⟨hown, hstill, ?_⟩
      rintro _ ⟨⟩ b hb
      rw [hrefs]
      exact hcovers b hb
    · refine triple_of_fact (fun _ _ hp => hp.2 previous rfl) fun hcovered => ?_
      have hstale : previous.filter (fun b => b ∉ refs.map Ref.id) = [] := by
        rw [List.filter_eq_nil_iff]
        intro b hb
        simpa using hcovered b hb
      refine Triple.weaken (P := Listed) ?_ (fun _ _ hp => hp.1) fun _ _ _ hq => hq
      refine keep_bind (keep_each fun ref href => hreconcile listing refs ref href ?_) fun _ => ?_
      · rw [← hrefs]
        exact List.mem_map_of_mem href
      · rw [hstale]
        exact keep_bind (keep_ret ()) fun _ => keep_peek hlisted hread

end Listing

end StateFork
