import StateFork.Forkable.LiveObjects
import StateFork.Forkable.TrueAncestry
import StateFork.Waypoint.Shared

/-!
# The printed tree of a Waypoint manager

`print_snapshot_tree` starts at the nodes without a parent and follows the children. It prints the whole graph if and
only if every node is linked up to such a node, within the limit of the recursion. In a shared session a branch can be
moved to a checkpoint that the graph does not have, because another manager took it; a node that is recorded for such a
branch is not printed, nor is anything below it. A synchronization repairs this.
-/

namespace StateFork

open Conc Conc.Prog EnvironmentManager ForkableEnvironmentManager WaypointAttachManager

variable {W : Type} {B : WaypointBackend W} {journal : W → Journal} {s : Sys W}

/-- The listing of the checkpoints arrives. -/
def WaypointBackend.Arrives (B : WaypointBackend W) (w : W) : Prop :=
  ∃ checkpoints, (B.checkpoints w).1 = .ok (some checkpoints)

/-- The branch that a call captures, if it captures one. -/
def WaypointAttachManager.Call.target (m : Manager) : Call → Option String
  | .inherited op => op.target m
  | .syncSnapshotTree => none

theorem Captures.onKeyError {b : String} {p : M W (Option String)} (h : Captures journal (some b) s (p.run s).2) :
    Captures journal (some b) s ((onKeyError p none).run s).2 := by
  unfold ForkableEnvironmentManager.onKeyError Prog.tryCatch
  rw [run_andThen]
  rcases hr : p.run s with ⟨e | r, s'⟩
  · rw [hr] at h
    dsimp only
    split_ifs
    · exact h
    · exact h
  · rw [hr] at h
    exact h

/-! ### Attaching -/

/-- The live branches that a listing leaves have the bases that it reports. -/
theorem Manager.currentBase_relist {m : Manager} {listing : List EnvironmentBranch} {p : String}
    (h : (m.relist listing).currentBase = some p) : p ≠ "" ∧ ∃ o ∈ listing, o.baseSnapshotId = p := by
  have ha := adopted_newLiveObjects m listing
  unfold currentBase relist at h
  dsimp only at h
  set refs := (newLiveObjects listing m).1
  set m₁ := (newLiveObjects listing m).2
  obtain ⟨-, hlive, hobjects⟩ := foldl_reconcile refs (m₁.replaceLive refs)
  have hlive' := (foldl_dropStale (m₁.liveBranches.keys.filter fun b => b ∉ refs.map Ref.id)
    (refs.foldl reconcile (m₁.replaceLive refs))).2.2.1
  have hobjects' := liveObjects_foldl_dropStale (m₁.liveBranches.keys.filter fun b => b ∉ refs.map Ref.id)
    (refs.foldl reconcile (m₁.replaceLive refs))
  unfold liveObject at h
  rw [hlive', hlive, hobjects', hobjects] at h
  split at h
  · cases h
  · next l hl =>
    split_ifs at h with hempty
    obtain rfl := Option.some.inj h
    obtain ⟨r, hr, he⟩ := List.mem_map.mp (Dict.mem_of_get?_ofList hl)
    obtain ⟨-, rfl⟩ := Prod.mk.inj he
    obtain ⟨o, ho, -, hobject⟩ := ha.objects r hr
    exact ⟨hempty, o, ho, congrArg EnvironmentBranch.baseSnapshotId hobject.symm⟩

/-- The bookkeeping of the initial snapshot. -/
def Manager.attached (m : Manager) (parentId : Option String) (id : String) : Manager :=
  let m := if id ∈ m.snapshotGraph.keys then m else m.recordSnapshotNode { snapshotId := id, parentId }
  let m := m.setBranchPosition m.currentBranchId (some id)
  m.keepMinimal m.currentBranchId id

/-- An attach that succeeds has taken an initial snapshot. -/
theorem attach_ok {s' : Sys W} (h : (attach B).run s = (.ok (), s')) :
    ∃ n s₁ l s₂ id elapsed s₃, (syncSnapshotTree B).run s = (.ok n, s₁) ∧
      (listBranches B.hooks).run s₁ = (.ok l, s₂) ∧
      (B.hooks.coreSnapshot s₂.mgr.currentBranchId).run s₂ = (.ok (some id, elapsed), s₃) ∧
      s' = { s₃ with mgr := s₃.mgr.attached s₂.mgr.currentBase id } := by
  unfold attach at h
  rw [run_bind] at h
  rcases hsync : (syncSnapshotTree B).run s with ⟨e | n, s₁⟩
  · rw [hsync] at h
    cases h
  · rw [hsync, run_afterValue_ok, run_bind] at h
    rcases hlist : (listBranches B.hooks).run s₁ with ⟨e | l, s₂⟩
    · rw [hlist] at h
      cases h
    · rw [hlist] at h
      simp only [run_afterValue_ok, run_bind, run_readState, getCurrentBranchId] at h
      rcases hhook : (B.hooks.coreSnapshot s₂.mgr.currentBranchId).run s₂ with ⟨e | ⟨_ | id, elapsed⟩, s₃⟩
      · rw [hhook] at h
        cases h
      · rw [hhook] at h
        cases h
      · rw [hhook] at h
        refine ⟨n, s₁, l, s₂, id, elapsed, s₃, rfl, hlist, hhook, ?_⟩
        simp only [run_afterValue_ok, run_bind, run_readState] at h
        unfold Manager.attached
        by_cases hknown : id ∈ s₃.mgr.snapshotGraph.keys
        · simp only [hknown, decide_true, Bool.not_true, Bool.false_eq_true, if_false, run_afterValue_ok, run_bind,
            run_readState, ForkableEnvironmentManager.run_setBranchPosition, run_updateState] at h
          simp only [hknown, if_true]
          exact (Prod.mk.inj h).2.symm
        · simp only [hknown, decide_false, Bool.not_false, if_true, EnvironmentManager.recordSnapshotNode,
            run_updateState, run_afterValue_ok, run_bind, run_readState, ForkableEnvironmentManager.run_setBranchPosition] at h
          simp only [hknown, if_false]
          exact (Prod.mk.inj h).2.symm

@[simp] theorem Manager.snapshotGraph_keepMinimal (m : Manager) (b id : String) :
    (m.keepMinimal b id).snapshotGraph = m.snapshotGraph := by
  unfold keepMinimal
  split_ifs <;> rfl

/-- A minimal live record of a registered branch. -/
theorem InSession.keepMinimal {H : Journal} {m : Manager} (h : InSession H m) {b : String} (hb : b ∈ m.branches.keys)
    (id : String) : InSession H (m.keepMinimal b id) := by
  unfold Manager.keepMinimal
  split_ifs
  · exact h
  · refine ⟨⟨h.consistent.regular.congr rfl rfl rfl, h.consistent.main, h.consistent.current, ?_, h.consistent.graph⟩,
      h.placed.congr rfl rfl, h.charted, Manager.graphLinked_iff.mpr (Manager.graphLinked_iff.mp h.linked)⟩
    intro b' hb'
    rcases Dict.mem_keys_set.mp hb' with rfl | hb'
    · exact hb
    · exact h.consistent.live b' hb'

/-- The state in which an attach takes its initial snapshot. -/
def inherited (B : WaypointBackend W) (w₀ : W) : Sys W :=
  ((syncSnapshotTree B >>= fun _ => listBranches B.hooks).run ⟨Manager.init, w₀⟩).2

/-- The attach finds the base of the current branch in the graph, if the branch has one. -/
def AttachesKnown (B : WaypointBackend W) (w₀ : W) : Prop :=
  ∀ p, (inherited B w₀).mgr.currentBase = some p → p ∈ (inherited B w₀).mgr.snapshotGraph.keys

variable (hB : B.Truthful journal)

section

include hB

/-! ### Synchronizing -/

/-- A synchronization changes the tree only; if its listing arrives, the graph has the parents of all nodes then. -/
theorem captures_syncSnapshotTree (h : InSession (journal s.world) s.mgr) :
    Captures journal none s ((syncSnapshotTree B).run s).2 ∧ s.mgr.TreeOnly ((syncSnapshotTree B).run s).2.mgr ∧
      (B.Arrives s.world → Manager.ParentsKnown ((syncSnapshotTree B).run s).2.mgr.snapshotGraph) := by
  have hgrows := hB.checkpoints s.world
  rw [run_syncSnapshotTree]
  unfold WaypointBackend.Arrives
  rcases hlisting : B.checkpoints s.world with ⟨e | _ | checkpoints, w⟩
  · rw [hlisting] at hgrows
    exact ⟨((Quiet.refl h).call hgrows).captures _, ⟨_, _, rfl⟩, by simp⟩
  · rw [hlisting] at hgrows
    exact ⟨((Quiet.refl h).call hgrows).captures _, ⟨_, _, rfl⟩, by simp⟩
  · rw [hlisting] at hgrows
    dsimp only
    have hcalled := h.mono hgrows
    have hhydrating : Manager.Hydrating (journal w) s.mgr.snapshotGraph :=
      ⟨hcalled.charted, (Manager.graphLinked_iff.mp h.linked).1, h.consistent.regular.physical⟩
    obtain ⟨honly, hcharted, hlinked, hphysical, hall⟩ :=
      Manager.synced_spec (hB.sound w) (hB.history _ _ _ hlisting) hhydrating
    have hknown : Manager.ParentsKnown (synced checkpoints s.mgr).snapshotGraph :=
      fun id node p hn hp => (hall p).mpr ((hcharted id node hn).2 p hp).1
    refine ⟨?_, honly, fun _ => hknown⟩
    generalize synced checkpoints s.mgr = m at honly hcharted hlinked hphysical hall hknown
    obtain ⟨snapshots, graph, rfl⟩ := honly
    have hclosed : ClosedGraph graph := fun p parent hp c hc => by
      obtain ⟨child, hchild, -⟩ := (Manager.graphLinked_iff.mp hlinked).1.sound p parent hp c hc
      exact Dict.mem_keys_of_get? hchild
    have hregular := h.consistent.regular
    constructor
    case session =>
      refine ⟨?_, hcalled.placed.congr rfl rfl, hcharted, hlinked⟩
      exact h.consistent.congr ⟨hregular.ids, hregular.allocated, hregular.distinct, hphysical⟩ rfl rfl rfl hclosed
    case keys => exact fun id hid => (hall id).mpr (hcalled.charted.mem_ids hid)
    case known => exact fun _ _ => hknown

/-! ### Calls -/

theorem captures_prog (h : InSession (journal s.world) s.mgr) (op : PublicOp) :
    Captures journal (op.target s.mgr) s ((PublicOp.prog B.hooks op).run s).2 := by
  have hkeeps {α : Type} {p : M W α} (hp : Keeps (Quiet journal s) p) (f : α → Outcome) (b : Option String) :
      Captures journal b s ((f <$> p).run s).2 :=
    Quiet.captures (keeps_map f hp s (.refl h)) b
  have hcurrent {α : Type} {p : String → M W α} (hp : ∀ b, Keeps (Quiet journal s) (p b)) :
      Keeps (Quiet journal s) (withLock .currentBranch (getCurrentBranchId >>= p)) :=
    hoare_withLock (keeps_bind reads_getCurrentBranchId.keeps hp)
  have hnamed {α : Type} {b : String} {p : M W α} {a c : α} (hp : Keeps (Quiet journal s) p) :
      Keeps (Quiet journal s) (isLive b >>= fun live => if live then onKeyError p a else pure c : M W α) := by
    refine keeps_bind (reads_readState _).keeps fun live => ?_
    split
    · refine keeps_tryCatch hp fun e => ?_
      split
      · exact keeps_ret _
      · exact hoare_throw fun _ hs => hs
    · exact keeps_ret _
  have hpark (b : String) :
      Captures journal (some b) s ((Outcome.snapshotId <$> parkBranch B.hooks b).run s).2 := by
    rw [run_map, parkBranch, run_withLock]
    exact captures_parkBranchBody hB h
  cases op with
  | snapshot =>
    show Captures journal (some s.mgr.currentBranchId) s ((Outcome.snapshotId <$> snapshot B.hooks.toHooks).run s).2
    simp only [run_map, EnvironmentManager.snapshot, getCurrentBranchId, run_withLock, run_bind, run_readState,
      run_afterValue_ok]
    exact captures_snapshotBranch hB h
  | restore id =>
    show Captures journal none s ((Outcome.flag <$> restore B.hooks.toHooks id).run s).2
    rw [run_map, B.run_restore id h.consistent.regular]
    exact ((Quiet.refl h).restored hB id).captures _
  | execCommand c t => exact hkeeps (hcurrent fun b => quiet_execBranch hB b c t) _ _
  | copyIn src path => exact hkeeps (hcurrent fun b => quiet_copyBranch hB b src path true) _ _
  | copyOut path dst => exact hkeeps (hcurrent fun b => quiet_copyBranch hB b dst path false) _ _
  | cleanup =>
    have hcleanup : Keeps (Quiet journal s) (B.hooks.coreCleanup) :=
      keeps_tryWorld (fun _ => []) fun s' hs' => hs'.call (hB.cleanup s'.world)
    refine hkeeps (hoare_withLock (keeps_bind hcleanup fun ok => ?_)) _ _
    refine keeps_bind (fun s' hs' => ?_) fun _ => keeps_ret _
    exact hs'.mgr (hs'.session.update (.cleaned _) (hs'.session.placed.congr rfl rfl) rfl) rfl
  | snapshotBranch b park =>
    show Captures journal (some b) s
      ((Outcome.snapshotId <$> ForkableEnvironmentManager.snapshotBranch B.hooks b park).run s).2
    cases park with
    | true => exact hpark b
    | false =>
      simp only [run_map, ForkableEnvironmentManager.snapshotBranch, Bool.false_eq_true, if_false, isLive, run_bind, run_readState,
        run_afterValue_ok]
      split
      · exact (captures_snapshotBranch hB h).onKeyError
      · exact (Quiet.refl h).captures _
  | parkBranch b => exact hpark b
  | execOnBranch b c t => exact hkeeps (hnamed (quiet_execBranch hB b c t)) _ _
  | copyInBranch b src path => exact hkeeps (hnamed (quiet_copyBranch hB b src path true)) _ _
  | copyOutBranch b path dst => exact hkeeps (hnamed (quiet_copyBranch hB b dst path false)) _ _
  | fork id n ids => exact hkeeps (quiet_fork hB id n ids) _ _
  | discardBranch b => exact hkeeps (hoare_withLock (quiet_discardBranchBody hB b)) _ _
  | listBranches => exact hkeeps (quiet_listBranches hB _) _ _
  | listSnapshots => exact hkeeps (reads_readState _).keeps _ _
  | printSnapshotTree limit => exact hkeeps (reads_tryState _).keeps _ _
  | currentSnapshot =>
    exact hkeeps (hoare_withLock (keeps_bind (reads_getBranchState none).keeps fun _ => (reads_peek _).keeps)) _ _
  | currentBranchId => exact hkeeps reads_getCurrentBranchId.keeps _ _
  | statsLog => exact hkeeps (hoare_withLock (reads_peek _).keeps) _ _
  | liveBranches => exact hkeeps (reads_readState _).keeps _ _

theorem captures_call (h : InSession (journal s.world) s.mgr) (call : Call) :
    Captures journal (call.target s.mgr) s ((Call.prog B call).run s).2 := by
  cases call with
  | inherited op =>
    have hop := captures_prog hB h op
    simp only [Call.prog, run_bind]
    rcases hr : (PublicOp.prog B.hooks op).run s with ⟨e | r, s'⟩
    · rw [hr] at hop
      exact hop
    · rw [hr] at hop
      exact hop
  | syncSnapshotTree =>
    have hsync := (captures_syncSnapshotTree hB h).1
    simp only [Call.prog, run_bind]
    rcases hr : (syncSnapshotTree B).run s with ⟨e | r, s'⟩
    · rw [hr] at hsync
      exact hsync
    · rw [hr] at hsync
      exact hsync

/-- An attach that succeeds puts the manager into the session. -/
theorem session_attach {w₀ : W} (h : (attach B).run ⟨Manager.init, w₀⟩ = (.ok (), s)) :
    InSession (journal s.world) s.mgr ∧ s.mgr.snapshotGraph.keys ≠ [] ∧
      (AttachesKnown B w₀ → Manager.ParentsKnown s.mgr.snapshotGraph) := by
  obtain ⟨n, s₁, l, s₂, id, elapsed, s₃, hsync, hlist, hhook, rfl⟩ := attach_ok h
  have hinit : InSession (journal w₀) Manager.init := by
    refine ⟨.init, fun b r hr => ?_, fun id node hn => ?_, Manager.graphLinked_iff.mpr ⟨⟨?_, ?_⟩, ?_⟩⟩
    · obtain rfl : r = ⟨defaultBranchId, 0⟩ := by
        rw [Manager.init, Dict.get?_set] at hr
        split_ifs at hr
        · exact (Option.some.inj hr).symm
        · simp at hr
      exact placed_none
    · simp [Manager.init] at hn
    · exact fun p parent hp => by simp [Manager.init] at hp
    · exact fun p parent hp => by simp [Manager.init] at hp
    · exact fun c child p parent hc => by simp [Manager.init] at hc
  obtain ⟨hcaptures, honly, -⟩ := captures_syncSnapshotTree hB (s := ⟨Manager.init, w₀⟩) hinit
  rw [hsync] at hcaptures honly
  have hlisted : Quiet journal s₁ s₂ := by
    have hkeeps := quiet_listBranches hB B.refresh s₁ (.refl hcaptures.session)
    have hlist' : (listBranches (B.hooksWith B.refresh)).run s₁ = (.ok l, s₂) := hlist
    rw [hlist'] at hkeeps
    exact hkeeps
  -- the base of the current branch comes from the listing
  have hbase (p : String) (hp : s₂.mgr.currentBase = some p) : p ∈ (journal s₂.world).ids := by
    have hafter : s₂ = B.afterListing s₁ := by
      rw [← (B.run_listBranches B.refresh s₁).1]
      exact (congrArg Prod.snd hlist).symm
    have hnone : s₁.mgr.currentBase = none := by
      obtain ⟨snapshots, graph, hm⟩ := honly
      rw [hm]
      rfl
    unfold ForkableBackend.afterListing at hafter
    rcases hlisting : B.list s₁.world with ⟨e | _ | listing, w⟩
    · rw [hlisting] at hafter
      subst hafter
      exact absurd (hnone.symm.trans hp) (by simp)
    · rw [hlisting] at hafter
      subst hafter
      exact absurd (hnone.symm.trans hp) (by simp)
    · rw [hlisting] at hafter
      subst hafter
      obtain ⟨hne, o, ho, rfl⟩ := Manager.currentBase_relist hp
      exact hB.listed _ _ _ hlisting o ho hne
  obtain ⟨hquiet, hid⟩ := quiet_coreSnapshot hB hlisted.session hhook
  obtain ⟨hnew, hid⟩ := hid id elapsed rfl
  have hunknown : id ∉ s₃.mgr.snapshotGraph.keys := by
    rw [hquiet.graph]
    exact fun hk => hnew (hlisted.session.charted.mem_ids hk)
  have hrecorded := hquiet.session.record hquiet.grows (hquiet.graph ▸ hlisted.session.charted) (hB.sound _) hnew hid
    hbase
  have hpositioned := hrecorded.position s₃.mgr.currentBranchId hid
  have hattached : s₃.mgr.attached s₂.mgr.currentBase id =
      ((s₃.mgr.recordSnapshotNode { snapshotId := id, parentId := s₂.mgr.currentBase }).setBranchPosition
        s₃.mgr.currentBranchId (some id)).keepMinimal s₃.mgr.currentBranchId id := by
    unfold Manager.attached
    rw [if_neg hunknown]
    dsimp only
    rw [(Grows.setBranchPosition _ _ _).current]
    rfl
  have hgraph : (s₃.mgr.attached s₂.mgr.currentBase id).snapshotGraph =
      Manager.recordNode s₂.mgr.snapshotGraph { snapshotId := id, parentId := s₂.mgr.currentBase } := by
    rw [hattached, Manager.snapshotGraph_keepMinimal, (Grows.setBranchPosition _ _ _).graph, ← hquiet.graph]
    rfl
  refine ⟨?_, fun hnil => ?_, fun hknown => ?_⟩
  · show InSession (journal s₃.world) (s₃.mgr.attached s₂.mgr.currentBase id)
    rw [hattached]
    exact hpositioned.keepMinimal (Manager.mem_keys_setBranchPosition.mpr (.inl rfl)) id
  · have hmem : id ∈ (s₃.mgr.attached s₂.mgr.currentBase id).snapshotGraph.keys := by
      rw [hgraph]
      exact Manager.mem_keys_recordNode.mpr (.inl rfl)
    exact absurd (hnil ▸ hmem) List.not_mem_nil
  · have hinherited : inherited B w₀ = s₂ := by
      unfold inherited
      rw [run_bind, hsync, run_afterValue_ok, hlist]
    have hknown₂ : Manager.ParentsKnown s₂.mgr.snapshotGraph := by
      rw [hlisted.graph]
      exact hcaptures.known (by simp) fun id node p hn => by simp [Manager.init] at hn
    show Manager.ParentsKnown (s₃.mgr.attached s₂.mgr.currentBase id).snapshotGraph
    rw [hgraph]
    unfold AttachesKnown at hknown
    rw [hinherited] at hknown
    exact hknown₂.recordNode hknown

end

/-! ### Runs -/

/-- What a caller has to see to for the tree to be printed completely: a call that captures a branch finds the place
where the branch stands in the graph. A synchronization whose listing arrives makes up for what was before it. -/
def KnownAfter (B : WaypointBackend W) : List Call → Sys W → Prop → Prop
  | [], _, known => known
  | call :: calls, s, known =>
    KnownAfter B calls ((Call.prog B call).run s).2
      ((known ∧ ∀ b ∈ call.target s.mgr, s.mgr.StandsKnown b) ∨ (call = .syncSnapshotTree ∧ B.Arrives s.world))

include hB in
theorem session_runCalls (calls : List Call) {known : Prop} (h : InSession (journal s.world) s.mgr)
    (hne : s.mgr.snapshotGraph.keys ≠ []) (hknown : known → Manager.ParentsKnown s.mgr.snapshotGraph) :
    InSession (journal (runCalls B calls s).world) (runCalls B calls s).mgr ∧
      (runCalls B calls s).mgr.snapshotGraph.keys ≠ [] ∧
      (KnownAfter B calls s known → Manager.ParentsKnown (runCalls B calls s).mgr.snapshotGraph) := by
  induction calls generalizing s known with
  | nil => exact ⟨h, hne, hknown⟩
  | cons call calls ih =>
    have hcall := captures_call hB h call
    refine ih hcall.session (fun hnil => hne (List.eq_nil_of_subset_nil (hnil ▸ hcall.keys))) ?_
    rintro (⟨hbefore, hstands⟩ | ⟨rfl, harrives⟩)
    · exact hcall.known hstands (hknown hbefore)
    · have hsync := (captures_syncSnapshotTree hB h).2.2 harrives
      simp only [Call.prog, run_bind]
      rcases hr : (syncSnapshotTree B).run s with ⟨e | n, s'⟩
      · rw [hr] at hsync
        exact hsync
      · rw [hr] at hsync
        exact hsync

/-- After an attach that succeeded and any calls, with other managers at work in the session: the tree is printed
completely if and only if every node is rooted within the limit of the recursion, and it is if every capture found its
parent in the graph and the journal is not longer than the limit. -/
theorem printsCompletely_runCalls {W : Type} (B : WaypointBackend W) (journal : W → Journal)
    (hB : B.Truthful journal) (w₀ : W) (s₀ : Sys W) (hattach : (attach B).run ⟨Manager.init, w₀⟩ = (.ok (), s₀))
    (calls : List Call) (limit : Nat) :
    let s := runCalls B calls s₀
    (s.mgr.PrintsCompletely limit ↔ ∀ id ∈ s.mgr.snapshotGraph.keys, ∃ n < limit, s.mgr.RootedAt n id) ∧
      (KnownAfter B calls s₀ (AttachesKnown B w₀) → (journal s.world).length ≤ limit →
        s.mgr.PrintsCompletely limit) := by
  intro s
  obtain ⟨hsession₀, hne₀, hknown₀⟩ := session_attach hB hattach
  obtain ⟨hsession, hne, hknown⟩ := session_runCalls hB calls hsession₀ hne₀ hknown₀
  have hiff : s.mgr.PrintsCompletely limit ↔ ∀ id ∈ s.mgr.snapshotGraph.keys, ∃ n < limit, s.mgr.RootedAt n id :=
    Manager.printsCompletely_iff hsession.linked hne (hsession.charted.unnamed (hB.sound s.world))
  refine ⟨hiff, fun hcalls hlimit => hiff.mpr fun id hid => ?_⟩
  obtain ⟨n, hn, hrooted⟩ := Manager.rootedAt_of_charted hsession.charted (hknown hcalls) hid
  exact ⟨n, hn.trans_le hlimit, hrooted⟩

/-- A manager that has attached to a new session; another manager will take a snapshot before its next listing. -/
def Shared.attached : Except PyError Unit × Sys Shared :=
  (attach Shared.backend).run ⟨Manager.init, Shared.start ["a", "b", "c"] [false, false, true]⟩

/-- The branch was moved to the checkpoint of the other manager, and a synchronization came before the next capture. -/
theorem printsCompletely_visited :
    (runCalls Shared.backend [.inherited .listBranches, .syncSnapshotTree, .inherited .snapshot]
      Shared.attached.2).mgr.PrintsCompletely 1000 := by
  have hattach : (attach Shared.backend).run ⟨Manager.init, Shared.start ["a", "b", "c"] [false, false, true]⟩ =
      (.ok (), Shared.attached.2) := Prod.ext rfl rfl
  refine (printsCompletely_runCalls Shared.backend Shared.journal Shared.backend_truthful _ _ hattach _ 1000).2
    (.inl ⟨.inr ⟨rfl, _, rfl⟩, ?_⟩) (by decide)
  rintro _ ⟨⟩ r p hr hp
  obtain rfl := Option.some.inj hr
  obtain rfl := Option.some.inj hp
  decide

/-- Without the synchronization, the next capture is recorded under a parent that the graph does not have. -/
theorem not_printsCompletely_visited :
    ¬ (runCalls Shared.backend [.inherited .listBranches, .inherited .snapshot]
      Shared.attached.2).mgr.PrintsCompletely 1000 := by
  rintro ⟨entries, -, hentries, hcomplete⟩
  have hprinted : (runCalls Shared.backend [.inherited .listBranches, .inherited .snapshot]
      Shared.attached.2).mgr.printedEntries 1000 = .ok [("a", 0)] := rfl
  obtain rfl := Except.ok.inj (hentries.symm.trans hprinted)
  exact absurd hcomplete.once.length_eq (by decide)

end StateFork
