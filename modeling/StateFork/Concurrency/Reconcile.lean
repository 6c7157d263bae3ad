import StateFork.Concurrency.Sections
import StateFork.Concurrency.Standing
import StateFork.Forkable.Bases
import StateFork.Forkable.LiveNames

/-!
# Listings beside snapshots

Any number of threads call `list_branches` and `snapshot_branch`. A snapshot moves its branch under the operation lock,
a listing under the registry lock, and a listing is applied some time after it was fetched. A listing is overtaken where
a snapshot of a branch is both captured and recorded between the fetch and the step in which the listing is applied to
that branch. `advance_kept` says that no advance of a branch is lost in runs in which no listing is overtaken;
`not_advanceKept_of_overtaken` shows a run that moves a branch back. A fetch may take several steps, with the base of
each branch read at any of them; the time between the fetch and the application begins with the first.

A snapshot keeps the `Standing` of its branch to itself by its operation lock. A listing keeps to itself, by the registry
lock, that what it fetched is `Supported`.
-/

namespace StateFork

open Conc Conc.Prog Conc.Protocol

/-! ### Listings that take several steps -/

/-- What a step of a fetch makes of the listing that was read so far. -/
abbrev ListingStep (W : Type) := List EnvironmentBranch → W → List EnvironmentBranch

namespace ForkableBackend

variable {W : Type} (B : ForkableBackend W)

def readOn : List (ListingStep W) → List EnvironmentBranch → M W (List EnvironmentBranch)
  | [], listing => return listing
  | step :: steps, listing => do
    let listing ← world fun w => (step listing w, w)
    readOn steps listing

/-- A listing hook that goes on reading after its first step. -/
def listStepwise (steps : List (ListingStep W)) : M W (Option (List EnvironmentBranch)) := do
  match ← tryWorld B.list fetchedEvents with
  | none => return none
  | some listing => some <$> readOn steps listing

def refreshStepwise (steps : List (ListingStep W)) : M W Unit :=
  if B.refreshes then do
    let _ ← ForkableEnvironmentManager.listBranches { B.hooksWith (pure ()) with coreListBranches := B.listStepwise steps }
    return ()
  else pure ()

/-- The hooks of a backend whose listings take these steps. -/
def hooksStepwise (steps : List (ListingStep W)) : ForkHooks W :=
  { B.hooksWith (B.refreshStepwise steps) with coreListBranches := B.listStepwise steps }

theorem listStepwise_nil : B.listStepwise [] = tryWorld B.list fetchedEvents := by
  refine congrArg (Prog.atomic _ _) (funext fun s => ?_)
  beta_reduce
  rcases (B.list s.world).1 with e | _ | listing
  · rfl
  · rfl
  · rfl

/-- Without further steps, these are the hooks. -/
theorem hooksStepwise_nil : B.hooksStepwise [] = B.hooks := by
  unfold hooksStepwise refreshStepwise hooks refresh
  rw [listStepwise_nil]
  rfl

end ForkableBackend

/-- The step lists the same branches, each with the base that was listed or with the one on which it stands now. -/
def ListingStep.Truthful {W : Type} (base : W → String → Option String) (step : ListingStep W) : Prop :=
  ∀ listing w, (step listing w).map EnvironmentBranch.id = listing.map EnvironmentBranch.id ∧
    ∀ branch ∈ step listing w, base w branch.id = some branch.baseSnapshotId ∨
      ∃ listed ∈ listing, listed.id = branch.id ∧ listed.baseSnapshotId = branch.baseSnapshotId

/-! ### The protocol -/

namespace Reconcile

section Protocol

variable {W : Type} (base : W → String → Option String)

/-- The object is there, under the id of its branch. -/
def Made (r : Ref) (m : Manager) : Prop := r.addr < m.liveObjects.next ∧ (m.liveObject r).id = r.id

structure Upheld (v : View (Sys W) Event) : Prop where
  regular : Regular v.state.mgr
  listed : ∀ b ∈ v.state.mgr.liveBranches.keys, base v.state.world b ≠ none
  objects : ∀ b l, v.state.mgr.liveBranches.get? b = some l → l.id = b ∧ Made l v.state.mgr
  newest : ∀ b y, (standing b v.events).newest = some y → base v.state.world b = some y
  kept : NotOvertaken v.events → AdvanceKept v.events v.state.mgr

/-- What no thread changes: the past, the registered records and which branches are live. -/
structure Lasting (v v' : View (Sys W) Event) : Prop where
  events : v.events <+: v'.events
  registered : ∀ b r, v.state.mgr.branches.get? b = some r → v'.state.mgr.branches.get? b = some r
  live : ∀ b, base v'.state.world b = none ↔ base v.state.world b = none

/-- The object of a listing whose base is supported. -/
def Backed (r : Ref) (v : View (Sys W) Event) : Prop :=
  Made r v.state.mgr ∧ Supported r.id (v.state.mgr.liveObject r).baseSnapshotId v.events

/-- What is supported stays so, and so do the bases that the objects have. -/
structure Sustains (v v' : View (Sys W) Event) : Prop where
  supported : ∀ b id, Supported b id v.events → Supported b id v'.events
  backed : ∀ r, Backed r v → Backed r v'

/-- The standing of a branch belongs to whoever holds the operation lock of its record, and the fetched listing to
whoever holds the registry lock. -/
def reconcileProtocol : Protocol (Sys W) Lock Event where
  valid v := Upheld base v
  rely H v v' := Lasting base v v' ∧
    (∀ r, .operation r ∈ H → v.state.mgr.branches.get? r.id = some r → standing r.id v'.events = standing r.id v.events) ∧
    (.branchRegistry ∈ H → Sustains v v')
  guar H _ _ v v' := Lasting base v v' ∧
    (∀ b, standing b v'.events ≠ standing b v.events → ∃ r, v.state.mgr.branches.get? b = some r ∧ .operation r ∈ H) ∧
    (.branchRegistry ∈ H ∨ Sustains v v')
  acq _ _ _ := True
  inv _ _ := True

variable {base}

theorem Lasting.refl (v : View (Sys W) Event) : Lasting base v v :=
  ⟨List.prefix_refl _, fun _ _ h => h, fun _ => Iff.rfl⟩

theorem Lasting.trans {v v' v'' : View (Sys W) Event} (h : Lasting base v v') (h' : Lasting base v' v'') :
    Lasting base v v'' :=
  ⟨h.events.trans h'.events, fun b r hr => h'.registered b r (h.registered b r hr), fun b => (h'.live b).trans (h.live b)⟩

theorem Sustains.refl (v : View (Sys W) Event) : Sustains v v := ⟨fun _ _ h => h, fun _ h => h⟩

theorem Sustains.trans {v v' v'' : View (Sys W) Event} (h : Sustains v v') (h' : Sustains v' v'') : Sustains v v'' :=
  ⟨fun b id hs => h'.supported b id (h.supported b id hs), fun r hr => h'.backed r (h.backed r hr)⟩

theorem reconcileProtocol_coherent : (reconcileProtocol base).Coherent where
  refl H v := ⟨.refl v, fun _ _ _ => rfl, fun _ => .refl v⟩
  trans H v v' v'' h h' :=
    ⟨h.1.trans h'.1, fun r hr hget => (h'.2.1 r hr (h.1.registered r.id r hget)).trans (h.2.1 r hr hget),
      fun hl => (h.2.2 hl).trans (h'.2.2 hl)⟩
  guar_rely H H' h ev v v' hdisjoint _ hg := by
    refine ⟨hg.1, fun r hr hget => ?_, fun hl => hg.2.2.resolve_left fun hl' => hdisjoint _ hl' hl⟩
    by_contra hne
    obtain ⟨r', hr', hlock⟩ := hg.2.1 r.id hne
    obtain rfl := Option.some.inj (hget.symm.trans hr')
    exact hdisjoint _ hlock hr
  guar_inv _ _ _ _ _ _ _ _ _ _ := trivial

theorem reconcileProtocol_plain (l : Lock) : (reconcileProtocol base).Plain l where
  acq _ _ := trivial
  inv _ := trivial
  rely H v v' h := ⟨h.1, fun r hr => h.2.1 r (List.mem_cons_of_mem _ hr), fun hl => h.2.2 (List.mem_cons_of_mem _ hl)⟩
  guar H h ev v v' hg := by
    refine ⟨hg.1, fun b hb => ?_, hg.2.2.imp_left (List.mem_cons_of_mem _)⟩
    obtain ⟨r, hr, hlock⟩ := hg.2.1 b hb
    exact ⟨r, hr, List.mem_cons_of_mem _ hlock⟩

/-- Reading keeps the promises. -/
theorem reconcileProtocol_reads {H : List Lock} {h : List Event} (v : View (Sys W) Event) :
    (reconcileProtocol base).guar H h [] v v :=
  ⟨.refl v, fun _ hb => absurd rfl hb, .inr (.refl v)⟩

/-- The live registry is as before, and so are the objects and where the records stand. -/
structure Kept (m m' : Manager) : Prop where
  regular : Regular m'
  records : ∀ b r, m.branches.get? b = some r →
    m'.branches.get? b = some r ∧ (m'.record r).lastSnapshotId = (m.record r).lastSnapshotId
  registry : m'.liveBranches = m.liveBranches
  objects : ∀ r : Ref, r.addr < m.liveObjects.next →
    r.addr < m'.liveObjects.next ∧ m'.liveObject r = m.liveObject r

theorem Kept.congr {m m' : Manager} (hregular : Regular m') (hbranches : m'.branches = m.branches)
    (hrecords : m'.records = m.records) (hregistry : m'.liveBranches = m.liveBranches)
    (hobjects : m'.liveObjects = m.liveObjects) : Kept m m' where
  regular := hregular
  records b r hr := by
    unfold Manager.record
    rw [hbranches, hrecords]
    exact ⟨hr, rfl⟩
  registry := hregistry
  objects r hr := by
    unfold Manager.liveObject
    rw [hobjects]
    exact ⟨hr, rfl⟩

theorem Kept.refl {m : Manager} (h : Regular m) : Kept m m := .congr h rfl rfl rfl rfl

variable {v : View (Sys W) Event} {s : Sys W} {ev : List Event}

theorem Made.congr {r : Ref} {m m' : Manager} (h : Made r m) (hobjects : r.addr < m.liveObjects.next →
    r.addr < m'.liveObjects.next ∧ m'.liveObject r = m.liveObject r) : Made r m' := by
  obtain ⟨haddr, hobject⟩ := hobjects h.1
  exact ⟨haddr, hobject ▸ h.2⟩

/-- Objects that nobody touches stay backed. -/
theorem Sustains.of_objects {v' : View (Sys W) Event}
    (hsupported : ∀ b id, Supported b id v.events → Supported b id v'.events)
    (hobjects : ∀ r : Ref, r.addr < v.state.mgr.liveObjects.next →
      r.addr < v'.state.mgr.liveObjects.next ∧ v'.state.mgr.liveObject r = v.state.mgr.liveObject r) : Sustains v v' where
  supported := hsupported
  backed r hr := by
    refine ⟨hr.1.congr (hobjects r), ?_⟩
    rw [(hobjects r hr.1.1).2]
    exact hsupported _ _ hr.2

/-- A step of the manager that keeps the live registry, while the backend keeps its bases. -/
theorem Upheld.of_kept (hv : Upheld base v) (hk : Kept v.state.mgr s.mgr) (hbase : base s.world = base v.state.world)
    (hstanding : ∀ b, standing b (v.events ++ ev) = standing b v.events)
    (hkept : NotOvertaken (v.events ++ ev) → AdvanceKept (v.events ++ ev) s.mgr) : Upheld base (v.step ev s) where
  regular := hk.regular
  listed b hb := by
    show base s.world b ≠ none
    rw [hbase]
    exact hv.listed b (hk.registry ▸ hb)
  objects b l hl := by
    obtain ⟨hid, hmade⟩ := hv.objects b l (hk.registry ▸ hl)
    exact ⟨hid, hmade.congr (hk.objects l)⟩
  newest b y hy := by
    show base s.world b = some y
    rw [hbase]
    exact hv.newest b y ((hstanding b) ▸ hy)
  kept := hkept

/-- A step that changes no standing and sustains what is supported disturbs nobody. -/
theorem quiet_of_sustains (hvalid : Upheld base (v.step ev s)) (hlasting : Lasting base v (v.step ev s))
    (hstanding : ∀ b, standing b (v.events ++ ev) = standing b v.events) (hsustains : Sustains v (v.step ev s)) :
    (reconcileProtocol base).Quiet ev v s :=
  ⟨hvalid, fun _ _ => ⟨hlasting, fun b hb => absurd (hstanding b) hb, .inr hsustains⟩,
    fun _ => ⟨hlasting, fun r _ _ => hstanding r.id, fun _ => hsustains⟩⟩

/-- A step that leaves the branches where they are. -/
theorem quiet_of_kept (hv : Upheld base v) (hk : Kept v.state.mgr s.mgr) (hbase : base s.world = base v.state.world)
    (hev : ∀ e ∈ ev, e.Neutral) (hfetched : .fetched ∉ ev) : (reconcileProtocol base).Quiet ev v s := by
  have hstanding : ∀ b, standing b (v.events ++ ev) = standing b v.events := fun b => standing_append_neutral hev
  refine quiet_of_sustains (hv.of_kept hk hbase hstanding fun hn => ?_) ⟨List.prefix_append _ _,
    fun b r hr => (hk.records b r hr).1, fun b => ?_⟩ hstanding (.of_objects (fun b id hs => ?_) hk.objects)
  · exact ((hv.kept (hn.of_prefix (List.prefix_append _ _))).congr hk.records).neutral hev
  · rw [View.step, hbase]
  · exact hs.append_neutral hev hfetched

/-- A step of the manager. -/
theorem quiet_of_manager {m : Manager} (hv : Upheld base v) (hk : Kept v.state.mgr m) :
    (reconcileProtocol base).Quiet [] v { v.state with mgr := m } :=
  quiet_of_kept hv hk rfl (by simp) (by simp)

/-- Reading disturbs nobody. -/
theorem quiet_read (v : View (Sys W) Event) (hv : Upheld base v) : (reconcileProtocol base).Quiet [] v v.state :=
  quiet_of_manager hv (.refl hv.regular)

/-- An object that nobody has registered. -/
theorem kept_newLiveObject {m : Manager} (h : Regular m) (branch : EnvironmentBranch) :
    Kept m (m.newLiveObject branch).2 where
  regular := h.congr rfl rfl rfl
  records _ _ hr := ⟨hr, rfl⟩
  registry := rfl
  objects _ hr := ⟨Nat.lt_succ_of_lt hr, Heap.cell_alloc_of_lt m.liveObjects branch hr⟩

end Protocol

/-! ### The listing -/

section Listing

open EnvironmentManager ForkableEnvironmentManager

variable {W α : Type} {base : W → String → Option String} {H : List Lock} {F : List Event → View (Sys W) Event → Prop}

/-- What is fetched under the registry lock stays supported. -/
theorem frame_supported (hl : .branchRegistry ∈ H) (b id : String) :
    (reconcileProtocol base).Frame H fun _ v => Supported b id v.events :=
  ⟨fun _ _ _ hr hp => (hr.2.2 hl).supported b id hp, fun _ _ _ hp => hp⟩

theorem frame_backed (hl : .branchRegistry ∈ H) (r : Ref) : (reconcileProtocol base).Frame H fun _ v => Backed r v :=
  ⟨fun _ _ _ hr hp => (hr.2.2 hl).backed r hp, fun _ _ _ hp => hp⟩

section Loop

variable (hF : (reconcileProtocol base).Frame H F)

include hF

theorem triple_registerBranch {b : String} {start : Option String} :
    (reconcileProtocol base).Triple H F (registerBranch b start : M W Ref) fun r h v =>
      F h v ∧ ∀ state, r = .ok state → v.state.mgr.branches.get? b = some state := by
  refine triple_withState (reconcileProtocol_plain _) hF.stable (fun r h v v' hr hp => ?_) fun h v hv hp => ?_
  · exact ⟨hF.stable h v v' hr hp.1, fun state hs => hr.1.registered b state (hp.2 state hs)⟩
  · have hq : (reconcileProtocol base).Quiet [] v { v.state with mgr := (v.state.mgr.registerBranch b start).2 } := by
      refine quiet_of_manager hv ⟨hv.regular.registerBranch b start, fun b' r hr => ?_,
        Manager.liveBranches_registerBranch .., fun r hr => ?_⟩
      · have hkept : (v.state.mgr.registerBranch b start).2.branches.get? b' = some r ∧
            (v.state.mgr.registerBranch b start).2.record r = v.state.mgr.record r :=
          hv.regular.get?_registerBranch_of_get? hr
        obtain ⟨hget, hrecord⟩ := hkept
        exact ⟨hget, congrArg BranchState.lastSnapshotId hrecord⟩
      · have hobjects : (v.state.mgr.registerBranch b start).2.liveObjects = v.state.mgr.liveObjects := by
          unfold Manager.registerBranch
          split <;> rfl
        unfold Manager.liveObject
        rw [hobjects]
        exact ⟨hr, rfl⟩
    refine ⟨.of_quiet hq h, hq.frame_nil hF hp, fun state hs => ?_⟩
    obtain rfl := Except.ok.inj hs
    exact v.state.mgr.get?_registerBranch b start

/-- A listed base is applied. -/
theorem keep_setBranchPosition {b id : String} (hid : ∀ h v, F h v → Supported b id v.events) :
    (reconcileProtocol base).Keep H F (setBranchPosition b (some id) : M W Unit) := by
  refine triple_bind (triple_registerBranch hF) (fun state => ?_) fun _ _ _ hp => hp.1
  refine triple_updateStateEmit (reconcileProtocol_plain _) (fun h v v' hr hp => ?_) (fun _ => hF.stable)
    fun h v hv hp => ?_
  · exact ⟨hF.stable h v v' hr hp.1, fun state' hs => hr.1.registered b state' (hp.2 state' hs)⟩
  · have hget := hp.2 state rfl
    have hstanding : ∀ b', standing b' (v.events ++ [.positioned b (some id)]) = standing b' v.events :=
      fun b' => standing_snoc b' v.events _
    have hq : (reconcileProtocol base).Quiet [.positioned b (some id)] v { v.state with
        mgr := v.state.mgr.modifyRecord state fun _ => .positionedAt (some id) } := by
      refine quiet_of_sustains ⟨hv.regular.modifyRecord state _, hv.listed, hv.objects,
        fun b' y hy => hv.newest b' y (hstanding b' ▸ hy), fun hn => ?_⟩
        ⟨List.prefix_append _ _, fun _ _ hr => hr, fun _ => Iff.rfl⟩ hstanding
        (.of_objects (fun b' id' hs => hs.snoc (by simp) (by simp)) fun r hr => ⟨hr, rfl⟩)
      have hold := hv.kept (hn.of_prefix (List.prefix_append _ _))
      refine hold.positioned hn (hid h v hp.1) fun b' r' hr' => ⟨hr', ?_⟩
      show ((v.state.mgr.modifyRecord state fun _ => .positionedAt (some id)).record r').lastSnapshotId = _
      rw [hv.regular.record_modifyRecord hget hr']
      split_ifs <;> rfl
    exact ⟨.of_quiet hq h, hq.frame hF hp.1⟩

/-- The object of a listing is applied. -/
theorem keep_reconcile {branch : Ref} (hl : .branchRegistry ∈ H) (hbacked : ∀ h v, F h v → Backed branch v) :
    (reconcileProtocol base).Keep H F (reconcile branch : M W Unit) := by
  refine keep_bind (keep_peek hF quiet_read) fun start => ?_
  refine triple_bind (triple_registerBranch hF) (fun state => ?_) fun _ _ _ hp => hp.1
  refine Triple.weaken (P := F) ?_ (fun _ _ hp => hp.1) fun _ _ _ hq => hq
  refine keep_bind (keep_peek hF quiet_read) fun named => ?_
  split
  · exact keep_ret ()
  · refine keep_bind (keep_peek hF quiet_read) fun current => ?_
    refine keep_bind (keep_peek hF quiet_read) fun expected => ?_
    split
    · exact keep_ret ()
    · -- the base that is read last is the one that is applied
      refine triple_bind (Q := fun r h v => F h v ∧ ∀ id, r = .ok id → Supported branch.id id v.events) ?_ (fun id => ?_)
        fun _ _ _ hp => hp.1
      · refine triple_access (fun r h v v' hr hp => ⟨hF.stable h v v' hr hp.1, fun id he => ?_⟩) fun h v hv hp => ?_
        · exact (frame_supported hl branch.id id).stable h v v' hr (hp.2 id he)
        · have hq := quiet_read v hv
          refine ⟨.of_quiet hq h, hq.frame_nil hF hp, ?_⟩
          rintro id ⟨⟩
          show Supported branch.id (v.state.mgr.liveObject branch).baseSnapshotId (v.events ++ [])
          rw [List.append_nil]
          exact (hbacked h v hp).2
      · have hG := hF.and (frame_supported hl branch.id id)
        exact Triple.weaken (keep_setBranchPosition hG fun _ _ hp => hp.2) (fun _ _ hp => ⟨hp.1, hp.2 id rfl⟩)
          fun _ _ _ hq => hq.1

end Loop

/-- What the backend stands on is supported. -/
theorem supported_of_base {v : View (Sys W) Event} (hv : Upheld base v) {b id : String}
    (h : base v.state.world b = some id) : Supported b id v.events := by
  refine supported_of_newest fun y hy => ?_
  rw [hv.newest b y hy] at h
  exact Option.some.inj h

/-- What is known of a fetched listing: it has the live branches, and its bases are supported. -/
def Exact (base : W → String → Option String) (F : List Event → View (Sys W) Event → Prop)
    (listing : List EnvironmentBranch) (h : List Event) (v : View (Sys W) Event) : Prop :=
  (F h v ∧ ∀ b, base v.state.world b ≠ none ↔ b ∈ listing.map EnvironmentBranch.id) ∧
    ∀ branch, branch ∈ listing → Supported branch.id branch.baseSnapshotId v.events

theorem frame_exact (hF : (reconcileProtocol base).Frame H F) (hl : .branchRegistry ∈ H)
    (listing : List EnvironmentBranch) : (reconcileProtocol base).Frame H (Exact base F listing) := by
  have hlive : (reconcileProtocol base).Frame H fun _ v =>
      ∀ b, base v.state.world b ≠ none ↔ b ∈ listing.map EnvironmentBranch.id :=
    ⟨fun _ v v' hr hp b => (not_congr (hr.1.live b)).trans (hp b), fun _ _ _ hp => hp⟩
  exact (hF.and hlive).and (.all fun branch _ => frame_supported hl _ _)

variable {B : ForkableBackend W} (hB : KeepsBases B base) {steps : List (ListingStep W)}
  (hsteps : ∀ step ∈ steps, step.Truthful base)

include hsteps in
/-- A base that is read later in the fetch is supported as well. -/
theorem triple_readOn (hF : (reconcileProtocol base).Frame H F) (hl : .branchRegistry ∈ H)
    {listing : List EnvironmentBranch} :
    (reconcileProtocol base).Triple H (Exact base F listing) (ForkableBackend.readOn steps listing) fun r h v =>
      F h v ∧ ∀ listing', r = .ok listing' → Exact base F listing' h v := by
  induction steps generalizing listing with
  | nil =>
    refine triple_ret fun h v hp => ⟨hp.1.1, ?_⟩
    rintro _ ⟨⟩
    exact hp
  | cons step steps ih =>
    have hrest := fun listing => @ih (fun step' hstep' => hsteps step' (List.mem_cons_of_mem _ hstep')) listing
    refine triple_bind (Q := fun r h v => F h v ∧ ∀ listing', r = .ok listing' → Exact base F listing' h v) ?_
      (fun listing' => Triple.weaken (hrest listing') (fun _ _ hp => hp.2 listing' rfl) fun _ _ _ hq => hq)
      fun _ _ _ hp => ⟨hp.1, fun _ he => by cases he⟩
    refine triple_access (fun r h v v' hr hp => ⟨hF.stable h v v' hr hp.1, fun listing' he =>
      (frame_exact hF hl listing').stable h v v' hr (hp.2 listing' he)⟩) fun h v hv hp => ?_
    have hq := quiet_read v hv
    have hsame : v.events ++ [] = v.events := List.append_nil _
    refine ⟨.of_quiet hq h, hq.frame_nil hF hp.1.1, ?_⟩
    rintro _ ⟨⟩
    obtain ⟨hids, hbases⟩ := hsteps step (List.mem_cons_self ..) listing v.state.world
    refine ⟨⟨hq.frame_nil hF hp.1.1, fun b => ?_⟩, fun branch hbranch => ?_⟩
    · dsimp only
      rw [hids]
      exact hp.1.2 b
    · show Supported branch.id branch.baseSnapshotId (v.events ++ [])
      rw [hsame]
      rcases hbases branch hbranch with hnow | ⟨listed, hlisted, hid, hbase⟩
      · exact supported_of_base hv hnow
      · rw [← hid, ← hbase]
        exact hp.2 listed hlisted

include hB hsteps

/-- The fetch of a listing; its thread starts to keep what is supported to itself. -/
theorem triple_listStepwise (hF : (reconcileProtocol base).Frame H F) (hl : .branchRegistry ∉ H) :
    (reconcileProtocol base).Triple (.branchRegistry :: H) F (B.listStepwise steps) fun r h v =>
      F h v ∧ ∀ listing, r = .ok (some listing) → Exact base F listing h v := by
  have hmem : Lock.branchRegistry ∈ .branchRegistry :: H := List.mem_cons_self ..
  have hF' := (reconcileProtocol_plain .branchRegistry).frame hF
  have hexact := frame_exact hF' hmem
  refine triple_bind (Q := fun r h v => F h v ∧ ∀ listing, r = .ok (some listing) → Exact base F listing h v) ?_
    (fun fetched => ?_) fun _ _ _ hp => ⟨hp.1, fun _ he => by cases he⟩
  · refine triple_tryWorld (fun r h v v' hr hp => ⟨hF'.stable h v v' hr hp.1, fun listing he =>
      (hexact listing).stable h v v' hr (hp.2 listing he)⟩) fun h v hv hp => ?_
    obtain ⟨hbase, hnone | ⟨listing, hlisting, htruthful⟩⟩ := hB.listed v.state.world
    · rw [hnone]
      have hq : (reconcileProtocol base).Quiet [] v { v.state with world := (B.list v.state.world).2 } :=
        quiet_of_kept hv (.refl hv.regular) hbase (by simp) (by simp)
      exact ⟨.of_quiet hq h, hq.frame hF' hp, fun _ he => by cases he⟩
    · rw [hlisting]
      have hstanding : ∀ b, standing b (v.events ++ [.fetched]) = standing b v.events := fun b => standing_snoc b v.events _
      have hneutral : ∀ e ∈ ForkableBackend.fetchedEvents (.ok (some listing)), e.Neutral := by
        intro e he
        rw [ForkableBackend.eq_fetched_of_mem he]
        exact trivial
      set v' := v.step [.fetched] { v.state with world := (B.list v.state.world).2 } with hv'
      have hlasting : Lasting base v v' := ⟨List.prefix_append _ _, fun _ _ hr => hr, fun b => by rw [hv', View.step, hbase]⟩
      have hupheld : Upheld base v' := by
        refine hv.of_kept (.refl hv.regular) hbase hstanding fun hn => ?_
        exact (hv.kept (hn.of_prefix (List.prefix_append _ _))).neutral hneutral
      have hstill : F (h ++ [.fetched]) v' :=
        hF.log _ _ _ (hF.stable h v _ ⟨hlasting, fun r _ _ => hstanding r.id, fun hl' => absurd hl' hl⟩ hp)
      refine ⟨⟨hupheld, hlasting, fun b hb => absurd (hstanding b) hb, .inl hmem⟩, hstill, ?_⟩
      rintro _ ⟨⟩
      have hnow : base v'.state.world = base v.state.world := hbase
      refine ⟨⟨hstill, fun b => ?_⟩, fun branch hbranch => supported_of_base hupheld ?_⟩
      · show base v'.state.world b ≠ none ↔ _
        rw [hnow]
        exact htruthful.ne_none_iff
      · show base v'.state.world branch.id = _
        rw [hnow]
        exact (htruthful.exact _ _).mpr ⟨branch, hbranch, rfl, rfl⟩
  · cases fetched with
    | none => exact triple_ret fun _ _ hp => ⟨hp.1, fun _ he => by cases he⟩
    | some listing =>
      refine Triple.weaken (triple_map (triple_readOn hsteps hF' hmem)) (fun _ _ hp => hp.2 listing rfl) ?_
      rintro _ h v ⟨r, rfl, hp, hread⟩
      refine ⟨hp, fun listing' he => ?_⟩
      cases r with
      | error e => cases he
      | ok result =>
        cases he
        exact hread _ rfl

/-- `list_branches` disturbs nobody: it drops no branch, and it moves branches only as it may. -/
theorem keep_listBranches {G : ForkHooks W} (hG : G.coreListBranches = B.listStepwise steps)
    (hF : (reconcileProtocol base).Frame H F) (hl : .branchRegistry ∉ H) :
    (reconcileProtocol base).Keep H F (listBranches G) := by
  have hplain : (reconcileProtocol base).Plain .branchRegistry := reconcileProtocol_plain _
  have hmem : Lock.branchRegistry ∈ .branchRegistry :: H := List.mem_cons_self ..
  refine triple_plain hplain hF.stable (fun _ => hF.stable) ?_
  have hF' := hplain.frame hF
  have hexact := frame_exact hF' hmem
  have hfetch : (reconcileProtocol base).Triple (.branchRegistry :: H) F G.coreListBranches fun r h v =>
      F h v ∧ ∀ listing, r = .ok (some listing) → Exact base F listing h v := by
    rw [hG]
    exact triple_listStepwise hB hsteps hF hl
  refine keep_listBranchesBody (reconcileProtocol_plain _) quiet_read
    (fun v branch hv => quiet_of_manager hv (kept_newLiveObject hv.regular branch)) hF' hexact (frame_backed hmem)
    (fun _ _ _ hp => hp.1.1) hfetch (fun listing branch hbranch h v hv hp => ?_)
    (fun listing refs hrefs h v hv hp hmade => ?_) fun listing refs ref href _ =>
      keep_reconcile ((hexact listing).and (.all fun ref _ => frame_backed hmem ref)) hmem fun _ _ hp => hp.2 ref href
  · have hobject : (v.state.mgr.newLiveObject branch).2.liveObject (v.state.mgr.newLiveObject branch).1 = branch :=
      Heap.cell_alloc_self v.state.mgr.liveObjects branch
    refine ⟨⟨Nat.lt_succ_self _, congrArg EnvironmentBranch.id hobject⟩, ?_⟩
    show Supported branch.id ((v.state.mgr.newLiveObject branch).2.liveObject
      (v.state.mgr.newLiveObject branch).1).baseSnapshotId (v.events ++ [])
    rw [hobject, List.append_nil]
    exact hp.2 branch hbranch
  · intro s
    have hregistered (b : String) (l : Ref) (hget : s.mgr.liveBranches.get? b = some l) : l ∈ refs ∧ l.id = b := by
      obtain ⟨ref, href, he⟩ := List.mem_map.mp (Dict.mem_of_get?_ofList hget)
      cases he
      exact ⟨href, rfl⟩
    have hq : (reconcileProtocol base).Quiet [] v s := by
      refine quiet_of_sustains ⟨hv.regular.congr rfl rfl rfl, fun b hb => ?_, fun b l hget => ?_, fun b y hy => ?_,
        fun hn => ?_⟩ ⟨List.prefix_append _ _, fun _ _ hr => hr, fun _ => Iff.rfl⟩ (fun b => by rw [List.append_nil])
        (.of_objects (fun b id hs => by rw [View.step, List.append_nil]; exact hs) fun r hr => ⟨hr, rfl⟩)
      · refine (hp.1.2 b).mpr ?_
        have hb' : b ∈ (Dict.ofList (refs.map fun r => (r.id, r))).keys := hb
        rw [Dict.mem_keys_ofList, List.map_map] at hb'
        exact hrefs ▸ hb'
      · obtain ⟨href, hid⟩ := hregistered b l hget
        exact ⟨hid, (hmade l href).1⟩
      · exact hv.newest b y (by simpa [View.step] using hy)
      · have hsame : v.events ++ [] = v.events := List.append_nil _
        have hn' : NotOvertaken v.events := hsame ▸ hn
        show AdvanceKept (v.events ++ []) s.mgr
        rw [hsame]
        exact (hv.kept hn').congr fun _ _ hr => ⟨hr, rfl⟩
    have hlisted := (hexact listing).and (.all fun ref (_ : ref ∈ refs) => frame_backed hmem ref)
    exact ⟨.of_quiet hq h, hq.frame_nil hlisted ⟨hp, hmade⟩, fun b hb => (hp.1.2 b).mp (hv.listed b hb)⟩

end Listing

/-! ### The snapshot -/

section Snapshot

open EnvironmentManager ForkableEnvironmentManager

variable {W α : Type} {base : W → String → Option String} {H : List Lock}

/-- What a thread knows of the branch whose operation lock it holds; `sound` is what it knows while no listing has been
overtaken. -/
def Knows (state : Ref) (always sound : Standing → Prop) (v : View (Sys W) Event) : Prop :=
  v.state.mgr.branches.get? state.id = some state ∧ always (standing state.id v.events) ∧
    (NotOvertaken v.events → sound (standing state.id v.events))

/-- `p` was read as the last snapshot of the branch. -/
def HasRead (state : Ref) (p : Option String) (v : View (Sys W) Event) : Prop :=
  Knows state (fun _ => True) (Standing.Last p) v

/-- `y` was captured after `p` was read. -/
def HasCaptured (state : Ref) (p : Option String) (y : String) (v : View (Sys W) Event) : Prop :=
  Knows state (fun st => st.pending = some y) (Standing.Follows p) v

/-- The branch was advanced to what is returned. -/
def ReturnsAdvanced (b : String) (r : Except PyError (Option String)) (v : View (Sys W) Event) : Prop :=
  ∀ x, r = .ok (some x) → ∃ p, .advanced b x p ∈ v.events

theorem frame_registered {b : String} {state : Ref} :
    (reconcileProtocol base).Frame H fun _ v => v.state.mgr.branches.get? b = some state :=
  ⟨fun _ _ _ hr hp => hr.1.registered b state hp, fun _ _ _ hp => hp⟩

theorem frame_knows {state : Ref} (hH : .operation state ∈ H) {always sound : Standing → Prop} :
    (reconcileProtocol base).Frame H fun _ v => Knows state always sound v where
  stable h v v' hr hp := by
    refine ⟨hr.1.registered _ _ hp.1, ?_, fun hn => ?_⟩
    · rw [hr.2.1 state hH hp.1]
      exact hp.2.1
    · rw [hr.2.1 state hH hp.1]
      exact hp.2.2 (hn.of_prefix hr.1.events)
  log _ _ _ hp := hp

theorem stable_returnsAdvanced {b : String} {r : Except PyError (Option String)} :
    (reconcileProtocol base).Stable H fun _ v => ReturnsAdvanced b r v := by
  intro h v v' hr hp x hx
  obtain ⟨p, hmem⟩ := hp x hx
  exact ⟨p, hr.1.events.subset hmem⟩

theorem keep_neutral {F : List Event → View (Sys W) Event → Prop} (hF : (reconcileProtocol base).Frame H F) {e : Event}
    (he : e.Neutral) (hfetched : e ≠ .fetched) : (reconcileProtocol base).Keep H F (announce e : M W Unit) :=
  keep_announce hF fun _ hv => quiet_of_kept hv (.refl hv.regular) rfl (by simpa using he) (by simpa using hfetched.symm)

theorem triple_register {F : List Event → View (Sys W) Event → Prop} (hF : (reconcileProtocol base).Frame H F)
    {captured : Option (String × String) × ℚ} :
    (reconcileProtocol base).Triple H F (ForkableBackend.register captured : M W (Option String × ℚ)) fun r h v =>
      F h v ∧ ∀ result, r = .ok result → result = (captured.1.map Prod.fst, captured.2) := by
  obtain ⟨_ | ⟨snapshotId, resource⟩, elapsed⟩ := captured
  · exact triple_ret fun h v hp => ⟨hp, fun result hr => (Except.ok.inj hr).symm⟩
  · have hquiet : ∀ v : View (Sys W) Event, Upheld base v → (reconcileProtocol base).Quiet [] v
        { v.state with mgr := v.state.mgr.registerSnapshotResource snapshotId resource } := fun v hv =>
      quiet_of_manager hv (.congr (hv.regular.congr rfl rfl rfl) rfl rfl rfl rfl)
    refine Keep.bind (keep_updateState hF (reconcileProtocol_plain _) hquiet) (fun _ => ?_)
      fun _ _ _ hp => ⟨hp, by simp⟩
    exact triple_ret fun h v hp => ⟨hp, fun result hr => (Except.ok.inj hr).symm⟩

/-- The step of the backend that captures a branch. -/
theorem own_captured {state : Ref} {p : Option String} {y : String} {v : View (Sys W) Event} {w : W}
    (hH : .operation state ∈ H) (hv : Upheld base v)
    (hw : base w = Function.update (base v.state.world) state.id (some y)) (halive : base v.state.world state.id ≠ none)
    (hp : HasRead state p v) (h : List Event) :
    Own (reconcileProtocol base) H h [.captured state.id y] v { v.state with world := w } ∧
      HasCaptured state p y (v.step [.captured state.id y] { v.state with world := w }) := by
  have hstanding : ∀ b, standing b (v.events ++ [.captured state.id y]) =
      (standing b v.events).after b (.captured state.id y) := fun b => standing_snoc b v.events _
  have hlive (b : String) : base w b = none ↔ base v.state.world b = none := by
    rw [hw, Function.update_apply]
    split_ifs with hb
    · rw [hb]
      simp [halive]
    · rfl
  refine ⟨⟨⟨hv.regular, fun b hb => ?_, hv.objects, fun b x hx => ?_, fun hn => ?_⟩,
    ⟨List.prefix_append _ _, fun _ _ hr => hr, hlive⟩, fun b hb => ?_,
    .inr (.of_objects (fun b id hs => hs.snoc (by simp) (by simp)) fun r hr => ⟨hr, rfl⟩)⟩, hp.1, ?_, fun hn => ?_⟩
  · exact (not_congr (hlive b)).mpr (hv.listed b hb)
  · show base w b = some x
    have hx' : ((standing b v.events).after b (.captured state.id y)).newest = some x := hstanding b ▸ hx
    rw [hw, Function.update_apply]
    split_ifs with hb
    · rw [hb] at hx'
      simp only [Standing.after, if_true, Standing.newest, Option.some_or] at hx'
      exact hx'
    · rw [show (standing b v.events).after b (.captured state.id y) = standing b v.events from
        if_neg fun he => hb he.symm] at hx'
      exact hv.newest b x hx'
  · exact (hv.kept (hn.of_prefix (List.prefix_append _ _))).captured state.id y
  · have hid : state.id = b := by
      by_contra hne
      exact hb ((hstanding b).trans (if_neg hne))
    exact ⟨state, hid ▸ hp.1, hH⟩
  · show (standing state.id (v.events ++ [.captured state.id y])).pending = some y
    rw [hstanding]
    simp only [Standing.after, if_true]
  · have hlast := hp.2.2 (hn.of_prefix (List.prefix_append _ _))
    show Standing.Follows p (standing state.id (v.events ++ [.captured state.id y]))
    rw [hstanding]
    rcases hst : standing state.id v.events with ⟨settled, pending⟩
    rw [hst] at hlast
    simp only [Standing.after, if_true]
    intro x hx
    dsimp only at hx
    split_ifs at hx with hpending
    rw [hx, hpending] at hlast
    exact hlast x rfl

/-- The step of the template that advances a branch. -/
theorem own_advanced {state : Ref} {p : Option String} {y : String} {v : View (Sys W) Event} {f : BranchState → BranchState}
    (hH : .operation state ∈ H) (hv : Upheld base v) (hp : HasCaptured state p y v)
    (hf : ∀ r, (f r).lastSnapshotId = some y) (h : List Event) :
    Own (reconcileProtocol base) H h [.advanced state.id y p] v { v.state with mgr := v.state.mgr.modifyRecord state f } ∧
      Knows state (fun st => st = ⟨some y, none⟩) (fun _ => True)
        (v.step [.advanced state.id y p] { v.state with mgr := v.state.mgr.modifyRecord state f }) := by
  obtain ⟨hget, hpending, hfollows⟩ := hp
  have hstanding : ∀ b, standing b (v.events ++ [.advanced state.id y p]) =
      (standing b v.events).after b (.advanced state.id y p) := fun b => standing_snoc b v.events _
  have hown : standing state.id (v.events ++ [.advanced state.id y p]) = ⟨some y, none⟩ :=
    (hstanding state.id).trans (if_pos rfl)
  refine ⟨⟨⟨hv.regular.modifyRecord state f, hv.listed, hv.objects, fun b x hx => ?_, fun hn => ?_⟩,
    ⟨List.prefix_append _ _, fun _ _ hr => hr, fun _ => Iff.rfl⟩, fun b hb => ?_,
    .inr (.of_objects (fun b id hs => hs.snoc (by simp) ?_) fun r hr => ⟨hr, rfl⟩)⟩, hget, hown, fun _ => trivial⟩
  · refine hv.newest b x ?_
    have hx' : ((standing b v.events).after b (.advanced state.id y p)).newest = some x := hstanding b ▸ hx
    by_cases hb : state.id = b
    · subst hb
      simp only [Standing.after, if_true, Standing.newest, Option.none_or] at hx'
      rw [Standing.newest, hpending, Option.some_or]
      exact hx'
    · rwa [show (standing b v.events).after b (.advanced state.id y p) = standing b v.events from if_neg hb] at hx'
  · have hn' := hn.of_prefix (List.prefix_append _ _)
    refine (hv.kept hn').advanced hget (fun x pending hst => ?_) fun b r hr => ⟨hr, ?_⟩
    · have hfollows' := hfollows hn'
      rw [hst] at hpending hfollows'
      exact ⟨hpending, hfollows' x rfl⟩
    · show ((v.state.mgr.modifyRecord state f).record r).lastSnapshotId = _
      rw [hv.regular.record_modifyRecord hget hr]
      split_ifs
      · exact hf _
      · rfl
  · have hid : state.id = b := by
      by_contra hne
      exact hb ((hstanding b).trans (if_neg hne))
    exact ⟨state, hid ▸ hget, hH⟩
  · rintro y' p' he
    cases he
    exact hpending

/-- `_after_snapshot` moves the object of the branch to the snapshot that was just recorded. -/
theorem quiet_advanceLiveBase {state : Ref} {y : String} {v : View (Sys W) Event} (hv : Upheld base v)
    (hst : standing state.id v.events = ⟨some y, none⟩) :
    (reconcileProtocol base).Quiet [] v { v.state with mgr := v.state.mgr.advanceLiveBase state.id y } := by
  unfold Manager.advanceLiveBase
  cases hget : v.state.mgr.liveBranches.get? state.id with
  | none => exact quiet_of_manager hv (.refl hv.regular)
  | some l =>
    obtain ⟨hid, hmade⟩ := hv.objects _ _ hget
    dsimp only
    set m := { v.state.mgr with
      liveObjects := v.state.mgr.liveObjects.modify l.addr fun o => { o with baseSnapshotId := y } } with hm
    have hobject (r : Ref) : m.liveObject r = if r.addr = l.addr then { v.state.mgr.liveObject l with baseSnapshotId := y }
        else v.state.mgr.liveObject r := by
      show (v.state.mgr.liveObjects.modify l.addr fun o => { o with baseSnapshotId := y }).cell r.addr = _
      rw [Heap.cell_modify]
      rfl
    have hname (r : Ref) (hr : Made r v.state.mgr) : Made r m := by
      refine ⟨hr.1, ?_⟩
      rw [hobject]
      split_ifs with haddr
      · rw [← hr.2]
        unfold Manager.liveObject
        rw [haddr]
      · exact hr.2
    have hsame : v.events ++ [] = v.events := List.append_nil _
    refine quiet_of_sustains ⟨hv.regular.congr rfl rfl rfl, hv.listed, fun b l' hl' => ?_, fun b x hx => ?_, fun hn => ?_⟩
      ⟨List.prefix_append _ _, fun _ _ hr => hr, fun _ => Iff.rfl⟩ (fun b => by rw [hsame])
      ⟨fun b id hs => by rw [View.step, hsame]; exact hs, fun r hr => ⟨hname r hr.1, ?_⟩⟩
    · obtain ⟨hid', hmade'⟩ := hv.objects b l' hl'
      exact ⟨hid', hname l' hmade'⟩
    · exact hv.newest b x (by rwa [View.step, hsame] at hx)
    · have hn' : NotOvertaken v.events := hsame ▸ hn
      show AdvanceKept (v.events ++ []) m
      rw [hsame]
      exact (hv.kept hn').congr fun _ _ hr => ⟨hr, rfl⟩
    · show Supported r.id (m.liveObject r).baseSnapshotId (v.events ++ [])
      rw [hsame, hobject]
      split_ifs with haddr
      · -- the object is that of the branch
        have hbranch : r.id = state.id := by
          rw [← hid, ← hmade.2, ← hr.1.2]
          unfold Manager.liveObject
          rw [haddr]
        rw [hbranch]
        intro _
        rw [hst]
        exact ⟨.inr (.inl rfl), fun _ he => by cases he⟩
      · exact hr.2

variable {B : ForkableBackend W} {steps : List (ListingStep W)}

/-- The template advances the branch to its capture. -/
theorem triple_commitSnapshot {state : Ref} {node : SnapshotNode} (hH : .operation state ∈ H)
    (hnode : node.isVirtual = false) :
    (reconcileProtocol base).Triple H (fun _ v => HasCaptured state node.parentId node.snapshotId v)
      (commitSnapshot (B.hooksStepwise steps).toHooks state.id state true node) fun r _ v => ReturnsAdvanced state.id r v := by
  have hframe : (reconcileProtocol base).Frame H fun _ v => HasCaptured (W := W) state node.parentId node.snapshotId v :=
    frame_knows hH
  let F : List Event → View (Sys W) Event → Prop := fun _ v =>
    .advanced state.id node.snapshotId node.parentId ∈ v.events
  have hF : (reconcileProtocol base).Frame H F := ⟨fun _ _ _ hr hp => hr.1.events.subset hp, fun _ _ _ hp => hp⟩
  let G : List Event → View (Sys W) Event → Prop := fun _ v =>
    Knows state (fun st => st = ⟨some node.snapshotId, none⟩) (fun _ => True) v
  have hG : (reconcileProtocol base).Frame H G := frame_knows hH
  have hFG := hF.and hG
  unfold commitSnapshot
  refine Keep.bind (F := fun _ v => HasCaptured state node.parentId node.snapshotId v)
    ?_ (fun _ => ?_) fun _ _ _ _ _ he => by cases he
  · exact keep_updateState hframe (reconcileProtocol_plain _) fun _ hv =>
      quiet_of_manager hv (.congr (hv.regular.recordSnapshotNode hnode) rfl rfl rfl rfl)
  · refine triple_bind (Q := fun _ h v => F h v ∧ G h v) ?_ (fun _ => ?_) fun _ _ _ _ _ he => by cases he
    · refine triple_updateStateEmit (reconcileProtocol_plain _) hframe.stable (fun _ => hFG.stable) fun h v hv hp => ?_
      let advance (r : BranchState) : BranchState :=
        { r with
          currentSnapshotId := some node.snapshotId
          lastSnapshotId := some node.snapshotId
          commandLog := []
          cumulativeExecTime := 0 }
      obtain ⟨hown, hknows⟩ := own_advanced (f := advance) hH hv hp (fun _ => rfl) h
      exact ⟨hown, List.mem_append_right _ (List.mem_singleton_self _), hknows⟩
    · refine triple_bind (Q := fun _ => F) ?_ (fun _ => ?_) fun _ _ _ _ _ he => by cases he
      · show (reconcileProtocol base).Triple H _ (updateState (·.advanceLiveBase state.id node.snapshotId)) _
        refine triple_withState (reconcileProtocol_plain _) hFG.stable (fun _ => hF.stable) fun h v hv hp => ?_
        have hq := quiet_advanceLiveBase hv hp.2.2.1
        exact ⟨.of_quiet hq h, hq.frame_nil (h := h) hF hp.1⟩
      · refine Keep.bind (F := F) ?_ (fun _ => ?_) fun _ _ _ _ _ he => by cases he
        · exact keep_access hF fun v hv => quiet_of_manager hv (.congr (hv.regular.congr rfl rfl rfl) rfl rfl rfl rfl)
        · refine triple_ret fun _ _ hp => ?_
          rintro _ ⟨⟩
          exact ⟨_, hp⟩

variable (hB : KeepsBases B base) (hsteps : ∀ step ∈ steps, step.Truthful base)
  (halive : ∀ b w captured elapsed w', B.snapshot b w = (.ok (some captured, elapsed), w') → base w b ≠ none)

include hB hsteps

theorem keep_refresh {F : List Event → View (Sys W) Event → Prop} (hF : (reconcileProtocol base).Frame H F)
    (hl : .branchRegistry ∉ H) : (reconcileProtocol base).Keep H F (B.refreshStepwise steps) := by
  unfold ForkableBackend.refreshStepwise
  split
  · exact keep_bind (keep_listBranches hB hsteps rfl hF hl) fun _ => keep_ret ()
  · exact keep_ret ()

include halive

/-- A capture under the operation lock of the branch. -/
theorem triple_coreSnapshot {state : Ref} {p : Option String} (hH : .operation state ∈ H) (hl : .branchRegistry ∉ H) :
    (reconcileProtocol base).Triple H (fun _ v => HasRead state p v) ((B.hooksStepwise steps).coreSnapshot state.id)
      fun r _ v => ∀ y elapsed, r = .ok (some y, elapsed) → HasCaptured state p y v := by
  have hframe (always sound : Standing → Prop) : (reconcileProtocol base).Frame H fun _ v =>
      Knows (W := W) state always sound v := frame_knows hH
  show (reconcileProtocol base).Triple H _ (do
    let captured ← tryWorld (B.snapshot state.id) (ForkableBackend.capturedEvents state.id)
    let registered ← ForkableBackend.register captured
    if registered.1.isSome then B.refreshStepwise steps
    return registered) _
  refine triple_bind (Q := fun r _ v => ∀ y resource elapsed, r = .ok (some (y, resource), elapsed) →
    HasCaptured state p y v) ?_ (fun captured => ?_) (by simp)
  · refine triple_tryWorld (fun r h v v' hr hp y resource elapsed he => ?_) fun h v hv hp => ?_
    · exact (hframe _ _).stable h v v' hr (hp y resource elapsed he)
    · rcases hc : B.snapshot state.id v.state.world with ⟨r, w⟩
      by_cases hcaptured : ∃ captured elapsed, r = .ok (some captured, elapsed)
      · obtain ⟨⟨y, resource⟩, elapsed, rfl⟩ := hcaptured
        obtain ⟨hown, hknows⟩ := own_captured hH hv (hB.captured _ _ _ _ _ _ hc).2 (halive _ _ _ _ _ hc) hp h
        refine ⟨hown, ?_⟩
        rintro _ _ _ ⟨⟩
        exact hknows
      · have hevents : ForkableBackend.capturedEvents state.id r = [] := by
          unfold ForkableBackend.capturedEvents
          split
          · next y resource elapsed => exact absurd ⟨(y, resource), elapsed, rfl⟩ hcaptured
          · rfl
        have hbase := hB.notCaptured _ _ _ _ hc fun captured elapsed he => hcaptured ⟨captured, elapsed, he⟩
        have hq : (reconcileProtocol base).Quiet [] v { v.state with world := w } :=
          quiet_of_kept hv (.refl hv.regular) hbase (by simp) (by simp)
        dsimp only
        rw [hevents]
        refine ⟨.of_quiet hq h, fun y resource elapsed he => ?_⟩
        exact absurd ⟨(y, resource), elapsed, he⟩ hcaptured
  · obtain ⟨_ | ⟨y, resource⟩, elapsed⟩ := captured
    · exact triple_ret fun _ _ _ y elapsed he => by cases he
    · refine Triple.weaken (P := fun _ v => HasCaptured state p y v) ?_
        (fun _ v hp => hp y resource elapsed rfl) fun _ _ _ hq => hq
      refine triple_bind (triple_register (hframe _ _)) (fun result => ?_) fun _ _ _ _ _ _ he => by cases he
      refine triple_of_fact (fun _ _ hp => hp.2 result rfl) fun hresult => ?_
      obtain rfl := hresult
      refine Triple.weaken ?_ (fun _ _ hp => hp.1) fun _ _ _ hq => hq
      refine Keep.bind (keep_refresh hB hsteps (hframe _ _) hl) (fun _ => ?_) fun _ _ _ _ _ _ he => by cases he
      refine triple_ret fun _ _ hp => ?_
      rintro _ _ ⟨⟩
      exact hp

/-- The physical branch of the template. -/
theorem triple_capturePhysical {state : Ref} {p : Option String} (hH : .operation state ∈ H) (hl : .branchRegistry ∉ H) :
    (reconcileProtocol base).Triple H (fun _ v => HasRead state p v)
      (capturePhysical (B.hooksStepwise steps).toHooks state.id state p) fun r _ v => ∀ node, r = .ok (some node) →
        node.isVirtual = false ∧ HasCaptured state node.parentId node.snapshotId v := by
  unfold capturePhysical
  refine Keep.bind (keep_neutral (frame_knows hH) trivial (by simp)) (fun _ => ?_) fun _ _ _ _ _ he => by cases he
  refine triple_bind (triple_coreSnapshot hB hsteps halive hH hl) (fun result => ?_) fun _ _ _ _ _ he => by cases he
  obtain ⟨_ | y, elapsed⟩ := result
  · exact triple_ret fun _ _ _ node he => by cases he
  · refine Triple.weaken (P := fun _ v => HasCaptured state p y v) ?_
      (fun _ _ hp => hp y elapsed rfl) fun _ _ _ hq => hq
    refine Keep.bind (keep_addEntry (frame_knows hH) (reconcileProtocol_plain _) fun v hv => ?_) (fun _ => ?_)
      fun _ _ _ _ _ he => by cases he
    · exact quiet_of_manager hv (.congr (hv.regular.congr rfl rfl rfl) rfl rfl rfl rfl)
    · refine triple_ret fun _ _ hp => ?_
      rintro _ ⟨⟩
      exact ⟨rfl, hp⟩

/-- `_snapshot_branch` returns what it has advanced the branch to. -/
theorem triple_snapshotBranch {b : String} :
    (reconcileProtocol base).Triple [] (fun _ _ => True)
      (EnvironmentManager.snapshotBranch (B.hooksStepwise steps).toHooks b true) fun r _ v => ReturnsAdvanced b r v := by
  unfold EnvironmentManager.snapshotBranch
  refine triple_bind (Q := fun r _ v => ∀ state, r = .ok state →
    v.state.mgr.branches.get? b = some state ∧ state.id = b) ?_ (fun state => ?_) fun _ _ _ _ _ he => by cases he
  · refine triple_getBranchState (reconcileProtocol_plain _) (fun _ v _ => reconcileProtocol_reads v) (fun _ _ _ _ hp => hp)
      (fun r h v v' hr hp state he => ⟨hr.1.registered b state (hp state he).1, (hp state he).2⟩)
      fun h v hv _ state he => ?_
    have hget := Manager.get?_of_getBranchState he
    exact ⟨hget, hv.regular.ids b state hget⟩
  · refine triple_of_fact (fun _ _ hp => (hp state rfl).2) fun hid => ?_
    subst hid
    refine Triple.weaken (P := fun _ v => v.state.mgr.branches.get? state.id = some state) ?_
      (fun _ _ hp => (hp state rfl).1) fun _ _ _ hq => hq
    refine Keep.bind (keep_neutral frame_registered trivial (by simp)) (fun _ => ?_) fun _ _ _ _ _ he => by cases he
    refine triple_plain (reconcileProtocol_plain _) frame_registered.stable
      (fun _ => stable_returnsAdvanced) ?_
    have hH : Lock.operation state ∈ [Lock.operation state] := List.mem_singleton_self _
    have hl : Lock.branchRegistry ∉ [Lock.operation state] := by simp
    refine triple_bind (Q := fun r _ v => ∀ p t c, r = .ok (some (p, t, c)) → HasRead state p v)
      ?_ (fun seen => ?_) fun _ _ _ _ _ he => by cases he
    · refine triple_readState (reconcileProtocol_plain _) (fun _ v _ => reconcileProtocol_reads v)
        frame_registered.stable (fun r h v v' hr hp p t c he => (frame_knows hH).stable h v v' hr (hp p t c he))
        fun h v hv hget p t c he => ⟨hget, trivial, fun hn x hst => ?_⟩
      have hp : p = (v.state.mgr.record state).lastSnapshotId := by
        have he' := Except.ok.inj he
        dsimp only at he'
        split_ifs at he' with hactive
        cases he'
        rfl
      obtain ⟨r, hr, hlast | ⟨y, hy, -⟩⟩ := (hv.kept hn).kept state.id x none hst
      · obtain rfl := Option.some.inj (hget.symm.trans hr)
        exact hp.trans hlast
      · cases hy
    · obtain _ | ⟨parentId, cumulativeExecTime, replayCommands⟩ := seen
      · exact triple_ret fun _ _ _ x he => by cases he
      · show (reconcileProtocol base).Triple _ _ (capturePhysical (B.hooksStepwise steps).toHooks state.id state parentId >>=
          commitCaptured (B.hooksStepwise steps).toHooks state.id state true) _
        refine Triple.weaken (P := fun _ v => HasRead state parentId v) ?_
          (fun _ _ hp => hp parentId _ _ rfl) fun _ _ _ hq => hq
        refine triple_bind (triple_capturePhysical hB hsteps halive hH hl) (fun node => ?_) fun _ _ _ _ _ he => by cases he
        cases node with
        | none => exact triple_ret fun _ _ _ x he => by cases he
        | some node =>
          refine triple_of_fact (fun _ _ hp => (hp node rfl).1) fun hnode => ?_
          exact Triple.weaken (triple_commitSnapshot hH hnode) (fun _ _ hp => (hp node rfl).2) fun _ _ _ hq => hq

/-! ### The clients -/

/-- `snapshot_branch` returns what it has advanced the branch to. -/
theorem triple_named {b : String} :
    (reconcileProtocol base).Triple [] (fun _ _ => True)
      (ForkableEnvironmentManager.snapshotBranch (B.hooksStepwise steps) b false) fun r _ v => ReturnsAdvanced b r v := by
  have htrue : (reconcileProtocol base).Frame [] fun _ _ => True := ⟨fun _ _ _ _ hp => hp, fun _ _ _ hp => hp⟩
  show (reconcileProtocol base).Triple [] _ (do
    if ← isLive b then onKeyError (EnvironmentManager.snapshotBranch (B.hooksStepwise steps).toHooks b true) none
    else return none) _
  refine Keep.bind (keep_readState htrue (reconcileProtocol_plain _) quiet_read) (fun alive => ?_) fun _ _ _ _ _ he => by cases he
  split
  · refine triple_andThen (triple_snapshotBranch hB hsteps halive) fun r => ?_
    cases r with
    | ok id => exact triple_ret fun _ _ hp => hp
    | error e =>
      dsimp only
      split
      · exact triple_ret fun _ _ _ _ he => by cases he
      · exact triple_throw fun _ _ _ _ he => by cases he
  · exact triple_ret fun _ _ _ _ he => by cases he

theorem triple_client {op : PublicOp} (hop : Reconciling op) :
    (reconcileProtocol base).Triple [] (fun _ _ => True) (client (B.hooksStepwise steps) op) fun _ _ _ => True := by
  have hprog : (reconcileProtocol base).Triple [] (fun _ _ => True) (PublicOp.prog (B.hooksStepwise steps) op) fun r _ v =>
      ∀ b x, op = .snapshotBranch b false → r = .ok (.snapshotId (some x)) → ∃ p, .advanced b x p ∈ v.events := by
    rcases hop with rfl | ⟨b, rfl⟩
    · have htrue : (reconcileProtocol base).Frame [] fun _ _ => True :=
        ⟨fun _ _ _ _ hp => hp, fun _ _ _ hp => hp⟩
      refine Triple.weaken (triple_map (keep_listBranches hB hsteps rfl htrue List.not_mem_nil)) (fun _ _ hp => hp) ?_
      intro r _ v _ b x he
      cases he
    · refine Triple.weaken (triple_map (triple_named hB hsteps halive)) (fun _ _ hp => hp) ?_
      rintro r _ v ⟨r', rfl, hr'⟩ _ x ⟨⟩ hx
      cases r' with
      | error e => cases hx
      | ok id =>
        cases hx
        exact hr' x rfl
  refine triple_bind (triple_attempt hprog) (fun r => ?_) fun _ _ _ _ => trivial
  refine triple_announce (fun _ _ _ _ _ hp => hp) fun h v hv hp => ?_
  have hstanding : ∀ b, standing b (v.events ++ [.returned op (Outcome.ofResult r)]) = standing b v.events :=
    fun b => standing_snoc b v.events _
  refine ⟨⟨hv.of_kept (.refl hv.regular) rfl hstanding fun hn => ?_,
    ⟨List.prefix_append _ _, fun _ _ hr => hr, fun _ => Iff.rfl⟩, fun b hb => absurd (hstanding b) hb,
    .inr (.of_objects (fun b id hs => hs.snoc (by simp) (by simp)) fun r hr => ⟨hr, rfl⟩)⟩, trivial⟩
  obtain ⟨r', he, hr'⟩ := hp
  obtain rfl := Except.ok.inj he
  refine (hv.kept (hn.of_prefix (List.prefix_append _ _))).returns fun b x hop' ho => ?_
  refine hr' b x hop' ?_
  cases r with
  | ok o => exact congrArg Except.ok ho
  | error e => cases ho

end Snapshot

end Reconcile

open ForkableEnvironmentManager Reconcile in
/-- In every run of `list_branches` and `snapshot_branch` in which no snapshot of a branch is captured and recorded
between the fetch of a listing and the step in which the listing is applied to the branch, no advance of a branch is
lost. -/
theorem advance_kept {W : Type} (B : ForkableBackend W) (base : W → String → Option String) (hB : KeepsBases B base)
    (halive : ∀ b w captured elapsed w', B.snapshot b w = (.ok (some captured, elapsed), w') → base w b ≠ none)
    (steps : List (ListingStep W)) (hsteps : ∀ step ∈ steps, step.Truthful base)
    (s : Sys W) (hs : Regular s.mgr) (hobjects : LiveRegular s.mgr) (hnamed : LiveNamed s.mgr)
    (hlive : ∀ b ∈ s.mgr.liveBranches.keys, base s.world b ≠ none)
    {c : Config (Sys W) Lock Event PyError Unit}
    (h : Config.Reach (fun p => ∃ op, Reconciling op ∧ p = client (B.hooksStepwise steps) op) Lock.reentrant s c)
    (hn : NotOvertaken c.view.events) : AdvanceKept c.view.events c.state.mgr := by
  have hupheld : Upheld base ⟨s, []⟩ := by
    refine ⟨hs, hlive, fun b l hl => ?_, fun b y hy => (by cases hy), fun _ => .init _⟩
    have hid := hobjects.ids b l hl
    exact ⟨hid, hobjects.allocated b l hl, (hnamed b l hl).trans hid.symm⟩
  have hsafe : c.Safe (reconcileProtocol base) := by
    refine Config.safe_reach reconcileProtocol_coherent ?_ hupheld (fun _ => trivial) h
    rintro p ⟨op, hop, rfl⟩ v
    exact (triple_client hB hsteps halive hop [] v trivial).mono fun _ _ _ _ hq => hq.1
  exact hsafe.valid.kept hn

open ForkableEnvironmentManager

/-- A listing that reads the bases once more before it is done. -/
def rereading : ListingStep Fleet := fun listing w =>
  listing.map fun branch => { branch with baseSnapshotId := (w.base branch.id).getD branch.baseSnapshotId }

theorem rereading_truthful : rereading.Truthful Fleet.base := by
  intro listing w
  refine ⟨?_, fun branch hbranch => ?_⟩
  · unfold rereading
    rw [List.map_map]
    rfl
  · obtain ⟨listed, hlisted, rfl⟩ := List.mem_map.mp hbranch
    dsimp only
    cases hbase : w.base listed.id with
    | none => exact .inr ⟨listed, hlisted, rfl, rfl⟩
    | some id => exact .inl rfl

/-- While a listing is read, a snapshot is captured, which the listing then shows. It is applied before that snapshot is
recorded; then another snapshot is taken. -/
def listingInTime : List (Config.Move (Sys Fleet) Lock Event PyError Unit) :=
  let F := (Fleet.sole false).hooksStepwise [rereading]
  .start 0 (client F .listBranches) :: List.replicate 2 (.run 0) ++
    .start 1 (client F (.snapshotBranch "main" false)) :: List.replicate 13 (.run 1) ++ .run 0 ::
    List.replicate 4 (.run 1) ++ List.replicate 22 (.run 0) ++ List.replicate 15 (.run 1) ++
    .start 2 (client F (.snapshotBranch "main" false)) :: List.replicate 32 (.run 2)

theorem advance_kept_inTime :
    ∃ c : Config (Sys Fleet) Lock Event PyError Unit,
      [.fetched, .captured "main" "s1", .positioned "main" (some "s1"), .returned .listBranches
        (.branches [⟨"main", "s1", "running"⟩]), .advanced "main" "s1" (some "base"), .captured "main" "s2",
        .advanced "main" "s2" (some "s1")].Sublist c.view.events ∧
      AdvanceKept c.view.events c.state.mgr := by
  have hmenu : ∀ t p, Config.Move.start t p ∈ listingInTime →
      ∃ op, Reconciling op ∧ p = client ((Fleet.sole false).hooksStepwise [rereading]) op := by
    intro t p hp
    simp only [listingInTime, List.mem_cons, List.mem_append, List.mem_replicate, Config.Move.start.injEq,
      reduceCtorEq, and_false, or_false] at hp
    rcases hp with (⟨-, rfl⟩ | ⟨-, rfl⟩) | ⟨-, rfl⟩
    · exact ⟨_, .inl rfl, rfl⟩
    · exact ⟨_, .inr ⟨_, rfl⟩, rfl⟩
    · exact ⟨_, .inr ⟨_, rfl⟩, rfl⟩
  let q : Config (Sys Fleet) Lock Event PyError Unit → Bool := fun c => decide
    ([.fetched, .captured "main" "s1", .positioned "main" (some "s1"), .returned .listBranches
        (.branches [⟨"main", "s1", "running"⟩]), .advanced "main" "s1" (some "base"), .captured "main" "s2",
        .advanced "main" "s2" (some "s1")].Sublist c.view.events ∧ NotOvertaken c.view.events)
  have hplay : (Config.play Lock.reentrant listingInTime { state := Fleet.start ["s1", "s2"] [] }).any q = true := by
    decide +kernel
  obtain ⟨c, hreach, hq⟩ := Config.exists_reach_of_play hmenu hplay
  obtain ⟨hevents, hn⟩ := of_decide_eq_true hq
  have hsteps : ∀ step ∈ [rereading], step.Truthful Fleet.base := fun step hstep =>
    List.mem_singleton.mp hstep ▸ rereading_truthful
  have hlive : ∀ b ∈ (Fleet.start ["s1", "s2"] []).mgr.liveBranches.keys,
      (Fleet.start ["s1", "s2"] []).world.base b ≠ none := by decide +kernel
  exact ⟨c, hevents, advance_kept (Fleet.sole false) Fleet.base (Fleet.sole_keepsBases false)
    (fun _ _ _ _ _ h => Fleet.alive_of_capture h) [rereading] hsteps _ (.seeded "base" "base") (.seeded "base" "base")
    (.seeded "base" "base") hlive hreach hn⟩

/-- A listing is fetched, then a snapshot is taken, then the listing is applied. -/
def overtaking : List (Config.Move (Sys Fleet) Lock Event PyError Unit) :=
  .start 0 (client (Fleet.sole false).hooks .listBranches) :: List.replicate 2 (.run 0) ++
    .start 1 (client (Fleet.sole false).hooks (.snapshotBranch "main" false)) :: List.replicate 32 (.run 1) ++
    List.replicate 22 (.run 0)

/-- The listings of the fleet are truthful; still, after `snapshot_branch` has returned `s1`, the branch is
back on the snapshot it started from. -/
theorem not_advanceKept_of_overtaken :
    KeepsBases (Fleet.sole false) Fleet.base ∧ InStep Fleet.base (Fleet.start ["s1", "s2"] []) ∧
      ∃ c : Config (Sys Fleet) Lock Event PyError Unit,
        Config.Reach (fun p => ∃ op, Reconciling op ∧ p = client ((Fleet.sole false).hooksStepwise []) op) Lock.reentrant
          (Fleet.start ["s1", "s2"] []) c ∧
        .returned (.snapshotBranch "main" false) (.snapshotId (some "s1")) ∈ c.view.events ∧
        standing "main" c.view.events = ⟨some "s1", none⟩ ∧
        ((c.state.mgr.branches.get? "main").map fun r => (c.state.mgr.record r).lastSnapshotId) =
          some (some "base") ∧
        ¬ AdvanceKept c.view.events c.state.mgr := by
  rw [ForkableBackend.hooksStepwise_nil]
  have hmenu : ∀ t p, Config.Move.start t p ∈ overtaking →
      ∃ op, Reconciling op ∧ p = client (Fleet.sole false).hooks op := by
    intro t p hp
    simp only [overtaking, List.mem_cons, List.mem_append, List.mem_replicate, Config.Move.start.injEq,
      reduceCtorEq, and_false, or_false] at hp
    rcases hp with ⟨-, rfl⟩ | ⟨-, rfl⟩
    · exact ⟨_, .inl rfl, rfl⟩
    · exact ⟨_, .inr ⟨_, rfl⟩, rfl⟩
  let q : Config (Sys Fleet) Lock Event PyError Unit → Bool := fun c => decide
    (.returned (.snapshotBranch "main" false) (.snapshotId (some "s1")) ∈ c.view.events ∧
      standing "main" c.view.events = ⟨some "s1", none⟩ ∧
      ((c.state.mgr.branches.get? "main").map fun r => (c.state.mgr.record r).lastSnapshotId) = some (some "base"))
  have hplay : (Config.play Lock.reentrant overtaking { state := Fleet.start ["s1", "s2"] [] }).any q = true := by
    decide +kernel
  obtain ⟨c, hreach, hq⟩ := Config.exists_reach_of_play hmenu hplay
  obtain ⟨hreturned, hstanding, hlast⟩ := of_decide_eq_true hq
  refine ⟨Fleet.sole_keepsBases false, Fleet.start_inStep _ _, c, hreach, hreturned, hstanding, hlast,
    fun hkept => ?_⟩
  obtain ⟨r, hr, hs1 | ⟨y, hy, -⟩⟩ := hkept.kept "main" "s1" none hstanding
  · rw [hr, Option.map_some, hs1] at hlast
    exact absurd hlast (by decide)
  · cases hy

end StateFork
