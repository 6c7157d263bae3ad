import StateFork.Forkable.WorldHooks

/-!
# A forkable manager refines branching worlds

Each operation of a manager in front of a backend that isolates is the few acts on worlds that its outcome stands for
(`refines_step`).
-/

namespace StateFork

open Conc Conc.Prog Branching EnvironmentManager ForkableEnvironmentManager

variable {W E : Type} {B : ForkableBackend W} {live : W → String → Option (String × E)}
  {stored : W → String → Option E}

/-! ### One operation -/

/-- What an operation must do: the controller is in step again, and the worlds took the acts that the outcome stands for. -/
structure Refines (live : W → String → Option (String × E)) (stored : W → String → Option E) (op : PublicOp) (s : Sys W)
    (x : Except PyError Outcome × Sys W) : Prop where
  represents : Represents live stored x.2
  acts : ∃ acts, Meaning op (Outcome.ofResult x.1) (view live stored s) acts ∧
    Steps defaultBranchId (view live stored s) acts (view live stored x.2)

section

variable {s : Sys W} {op : PublicOp}

/-- What the controller does by itself. -/
theorem Represents.next (hB : Isolating B live stored) (h : Represents live stored s) (hop : op ≠ .cleanup)
    (hregistry : ∀ b, live ((PublicOp.prog B.hooks op).run s).2.world b ≠ none →
      b ∈ ((PublicOp.prog B.hooks op).run s).2.mgr.liveBranches.keys)
    (hresources : ∀ id, id ∈ ((PublicOp.prog B.hooks op).run s).2.mgr.snapshots.keys →
      id ∈ ((PublicOp.prog B.hooks op).run s).2.mgr.snapshotGraph.keys)
    (hstored : ∀ id, id ∈ ((PublicOp.prog B.hooks op).run s).2.mgr.snapshotGraph.keys →
      stored ((PublicOp.prog B.hooks op).run s).2.world id ≠ none) :
    Represents live stored ((PublicOp.prog B.hooks op).run s).2 := by
  have hupdates := B.updates_prog op h.consistent.regular h.consistent.main
  have hobjects : LiveRegular ((PublicOp.prog B.hooks op).run s).2.mgr ∧
      LiveNamed ((PublicOp.prog B.hooks op).run s).2.mgr :=
    hupdates.invariant (P := fun m => LiveRegular m ∧ LiveNamed m)
      (fun _ _ hupdate hm => ⟨hm.1.update hupdate, hm.2.update hm.1 hupdate⟩) ⟨h.objects, h.named⟩
  exact ⟨(faithful_step hB.keepsBases h.inStep hop).inStep, ForkableBackend.consistent_prog h.consistent op, hobjects.1, hobjects.2,
    hregistry, hresources, hstored⟩

/-- An operation that captured nothing. -/
theorem refines_of_acts (hB : Isolating B live stored) (h : Represents live stored s) (hop : op ≠ .cleanup)
    (hcapture : capture B.hooks op s = none)
    (hstays : ∀ id, Stays stored s.world ((PublicOp.prog B.hooks op).run s).2.world id)
    (hregistry : ∀ b, live ((PublicOp.prog B.hooks op).run s).2.world b ≠ none →
      b ∈ ((PublicOp.prog B.hooks op).run s).2.mgr.liveBranches.keys)
    (hresources : ((PublicOp.prog B.hooks op).run s).2.mgr.snapshots = s.mgr.snapshots)
    (acts : List (Act String String E))
    (hmeaning : Meaning op (Outcome.ofResult ((PublicOp.prog B.hooks op).run s).1) (view live stored s) acts)
    (hsteps : Steps defaultBranchId (view live stored s) acts
      ⟨live ((PublicOp.prog B.hooks op).run s).2.world, (view live stored s).frozen,
        ((PublicOp.prog B.hooks op).run s).2.mgr.currentBranchId⟩) :
    Refines live stored op s ((PublicOp.prog B.hooks op).run s) := by
  have hfaithful := faithful_step hB.keepsBases h.inStep hop
  have hparents (id : String) : parentOf ((PublicOp.prog B.hooks op).run s).2 id = parentOf s id :=
    hfaithful.kept id (by simp [hcapture])
  obtain ⟨hfrozen, hstored⟩ := h.frozen_eq hparents hstays
  refine ⟨h.next hB hop hregistry (fun id hid => ?_) hstored, acts, hmeaning, ?_⟩
  · rw [hresources] at hid
    exact mem_keys_iff_parentOf.mpr (hparents id ▸ mem_keys_iff_parentOf.mp (h.resources id hid))
  rw [← hfrozen] at hsteps
  exact hsteps

/-- An operation that moved nothing. -/
theorem refines_of_quiet (hB : Isolating B live stored) (h : Represents live stored s) (hop : op ≠ .cleanup)
    (hcapture : capture B.hooks op s = none) (hquiet : Calm live stored s ((PublicOp.prog B.hooks op).run s).2)
    (hmeaning : Meaning op (Outcome.ofResult ((PublicOp.prog B.hooks op).run s).1) (view live stored s) []) :
    Refines live stored op s ((PublicOp.prog B.hooks op).run s) := by
  refine refines_of_acts hB h hop hcapture hquiet.unmoved.stored (hquiet.registry h.registry) hquiet.resources [] hmeaning ?_
  rw [hquiet.unmoved.live, hquiet.current]
  exact .nil _

/-- An operation that captured a branch. -/
theorem refines_of_froze (hB : Isolating B live stored) (h : Represents live stored s) (hop : op ≠ .cleanup)
    {b id : String} (hcapture : capture B.hooks op s = some (b, id)) (after : E → Option (String × E)) (current : String)
    (hfroze : Froze live stored b id after current s ((PublicOp.prog B.hooks op).run s).2)
    (acts : List (Act String String E))
    (hmeaning : Meaning op (Outcome.ofResult ((PublicOp.prog B.hooks op).run s).1) (view live stored s) acts)
    (hsteps : ∀ base e, live s.world b = some (base, e) → Steps defaultBranchId (view live stored s) acts
      ⟨Function.update (live s.world) b (after e),
        Function.update (view live stored s).frozen id (some (some base, e)), current⟩) :
    Refines live stored op s ((PublicOp.prog B.hooks op).run s) := by
  have hfaithful := faithful_step hB.keepsBases h.inStep hop
  obtain ⟨base, e, hhere, hlive, hstored⟩ := hfroze.stores
  have hrecorded : parentOf ((PublicOp.prog B.hooks op).run s).2 id = some (some base) := by
    rw [hfaithful.recorded b id hcapture]
    unfold baseOf
    rw [hhere]
    rfl
  have hkept (id' : String) (hne : id' ≠ id) : parentOf ((PublicOp.prog B.hooks op).run s).2 id' = parentOf s id' := by
    refine hfaithful.kept id' fun b' he => hne ?_
    rw [hcapture] at he
    exact ((Prod.mk.inj (Option.some.inj he)).2).symm
  obtain ⟨hfrozen, hstored'⟩ := h.frozen_update hrecorded hkept hstored hfroze.stays
  refine ⟨h.next hB hop (hfroze.registry h.registry) (fun id' hid' => ?_) hstored', acts, hmeaning, ?_⟩
  · rw [mem_keys_iff_parentOf]
    by_cases hid : id' = id
    · simp [hid, hrecorded]
    · rw [hkept id' hid]
      exact mem_keys_iff_parentOf.mp (h.resources id' ((hfroze.resources id' hid').resolve_left hid))
  have hview : view live stored ((PublicOp.prog B.hooks op).run s).2 = ⟨Function.update (live s.world) b (after e),
      Function.update (view live stored s).frozen id (some (some base, e)), current⟩ :=
    Worlds.ext hlive hfrozen hfroze.current
  rw [hview]
  exact hsteps base e hhere

/-- An operation that writes to `b` at most. -/
theorem refines_of_within (hB : Isolating B live stored) {b : String} (h : Represents live stored s) (hop : op ≠ .cleanup)
    (hcapture : capture B.hooks op s = none) (hwithin : Keeps (AltersOnlyAt live stored b s) (PublicOp.prog B.hooks op))
    (hmeaning : ∀ acts, (acts = [] ∨ ∃ e, acts = [.write b e]) →
      Meaning op (Outcome.ofResult ((PublicOp.prog B.hooks op).run s).1) (view live stored s) acts) :
    Refines live stored op s ((PublicOp.prog B.hooks op).run s) := by
  have hstart : AltersOnlyAt live stored b s s := ⟨(Unmoved.refl ..).within b, rfl, rfl, rfl⟩
  have hend : AltersOnlyAt live stored b s ((PublicOp.prog B.hooks op).run s).2 := hwithin s hstart
  obtain ⟨acts, hacts, hsteps⟩ := hend.1.steps (v := view live stored s) rfl
  refine refines_of_acts hB h hop hcapture hend.1.stored (hend.registry h.registry) hend.2.2.2 acts
    (hmeaning acts hacts) ?_
  rw [hend.2.1]
  exact hsteps

end

/-! ### The simulation -/

section

variable {s : Sys W} {op : PublicOp}

theorem capture_eq_none {F : ForkHooks W} (h : op.target s.mgr = none) : capture F op s = none := by
  unfold capture
  rw [h]

/-- A program that captures `b` under the id that it returns, for which the acts are taken, or moves nothing. -/
def Capturing (live : W → String → Option (String × E)) (stored : W → String → Option E) (b : String)
    (acts : String → List (Act String String E)) (s : Sys W) (x : Except PyError (Option String) × Sys W) : Prop :=
  (∃ id after current, x.1 = .ok (some id) ∧ Froze live stored b id after current s x.2 ∧
      ∀ base e, (view live stored s).live b = some (base, e) → (view live stored s).frozen id = none →
        Steps defaultBranchId (view live stored s) (acts id)
          ⟨Function.update (live s.world) b (after e),
            Function.update (view live stored s).frozen id (some (some base, e)), current⟩) ∨
    (∀ id, x.1 ≠ .ok (some id)) ∧ Calm live stored s x.2

theorem Capturing.nothing (b : String) (acts : String → List (Act String String E)) :
    Capturing live stored b acts s (.ok none, s) :=
  .inr ⟨by simp, .refl ..⟩

/-- A named operation refuses where the template raises a `KeyError`. -/
theorem Capturing.caught {b : String} {acts : String → List (Act String String E)}
    {x : Except PyError (Option String) × Sys W} (h : Capturing live stored b acts s x) :
    Capturing live stored b acts s (Apart.caught none x) := by
  obtain ⟨e | r, s'⟩ := x
  · rcases h with ⟨_, _, _, he, -⟩ | ⟨-, hquiet⟩
    · cases he
    · unfold Apart.caught
      dsimp only
      split_ifs
      · exact .inr ⟨by simp, hquiet⟩
      · exact .inr ⟨by simp, hquiet⟩
  · exact h

theorem Isolating.captures_snapshot (hB : Isolating B live stored) (b : String) :
    Capturing live stored b (fun id => [.freeze b id]) s
      ((EnvironmentManager.snapshotBranch B.hooks.toHooks b true).run s) := by
  rcases hB.snapshotBranch (s := s) (b := b) rfl with ⟨id, hid, hfroze⟩ | hquiet
  · exact .inl ⟨id, _, _, hid, hfroze, fun base e hhere hfresh => (Step.freeze hhere hfresh).steps⟩
  · exact .inr hquiet

theorem Isolating.captures_park (hB : Isolating B live stored) (h : Represents live stored s) (b : String) :
    Capturing live stored b (parking (view live stored s) b) s
      ((ForkableEnvironmentManager.parkBranch B.hooks b).run s) := by
  rw [ForkableEnvironmentManager.parkBranch, run_withLock]
  rcases hB.parkBranch (b := b) h.consistent.main rfl with ⟨id, hid, hmain, hfroze⟩ | hquiet
  · refine .inl ⟨id, _, _, hid, hfroze, fun base e hhere hfresh => ?_⟩
    unfold parking
    by_cases hcurrent : b = s.mgr.currentBranchId
    · have hcurrent' : b = (view live stored s).current := hcurrent
      have hlive : (view live stored s).live defaultBranchId ≠ none := by
        obtain ⟨r, hr⟩ := Dict.mem_keys_iff.mp h.consistent.main
        obtain ⟨base', hbase', -⟩ := h.inStep.tracks.position _ r hr
        intro hnone
        have hbase : (live s.world defaultBranchId).map Prod.fst = some base' := hbase'
        have hdead : live s.world defaultBranchId = none := hnone
        rw [hdead] at hbase
        cases hbase
      rw [if_pos hcurrent, if_pos hcurrent']
      have hparked : Step defaultBranchId { view live stored s with current := defaultBranchId } (.park b id) _ :=
        .park hhere hfresh hmain hmain
      exact .cons (.switch hlive) hparked.steps
    · have hcurrent' : b ≠ (view live stored s).current := hcurrent
      rw [if_neg hcurrent, if_neg hcurrent']
      exact (Step.park hhere hfresh hmain hcurrent').steps
  · exact .inr hquiet

/-- An operation that captures a branch if it returns an id. -/
theorem refines_of_capture (hB : Isolating B live stored) (h : Represents live stored s) (hop : op ≠ .cleanup)
    (hnew : B.SuppliesNew op s) (htakes : op.takes = true) {b : String} {p : M W (Option String)}
    (htarget : op.target s.mgr = some b) (hprog : PublicOp.prog B.hooks op = Outcome.snapshotId <$> p)
    {acts : String → List (Act String String E)} (hp : Capturing live stored b acts s (p.run s))
    (hmeaning : ∀ id, Meaning op (.snapshotId (some id)) (view live stored s) (acts id))
    (hraised : ∀ e, Meaning op (.raised e) (view live stored s) [])
    (hrefused : Meaning op (.snapshotId none) (view live stored s) []) :
    Refines live stored op s ((PublicOp.prog B.hooks op).run s) := by
  have hrun : (PublicOp.prog B.hooks op).run s = ((p.run s).1.map Outcome.snapshotId, (p.run s).2) := by
    rw [hprog, run_map]
  have hcaptured (id : String) (hid : (p.run s).1 = .ok (some id)) : capture B.hooks op s = some (b, id) := by
    unfold capture
    rw [htarget, hrun, hid]
    rfl
  have huncaptured (hnone : ∀ id, (p.run s).1 ≠ .ok (some id)) : capture B.hooks op s = none := by
    unfold capture
    rw [htarget, hrun]
    rcases hr : (p.run s).1 with e | _ | id
    · rfl
    · rfl
    · exact absurd hr (hnone id)
  rcases hp with ⟨id, after, current, hid, hfroze, hsteps⟩ | ⟨hnone, hquiet⟩
  · have hcapture := hcaptured id hid
    have hreturned : ((PublicOp.prog B.hooks op).run s).1 = .ok (.snapshotId (some id)) := by
      rw [hrun, hid]
      rfl
    have hfresh := ((ForkableBackend.takes_prog h.consistent hnew).2 id htakes hreturned).1
    have hnone : (view live stored s).frozen id = none := by
      by_contra hne
      exact hfresh (h.frozen_ne_none.mp hne)
    refine refines_of_froze hB h hop hcapture after current ?_ (acts id) ?_ ?_
    · rw [hrun]
      exact hfroze
    · rw [hreturned]
      exact hmeaning id
    · exact fun base e hhere => hsteps base e hhere hnone
  · refine refines_of_quiet hB h hop ?_ ?_ ?_
    · exact huncaptured hnone
    · rw [hrun]
      exact hquiet
    · rw [hrun]
      rcases hr : (p.run s).1 with e | _ | id
      · exact hraised e
      · exact hrefused
      · exact absurd hr (hnone id)

/-- An operation that only reads. -/
theorem refines_of_reads (hB : Isolating B live stored) (h : Represents live stored s) (hop : op ≠ .cleanup)
    (htarget : op.target s.mgr = none) (hreads : ((PublicOp.prog B.hooks op).run s).2 = s)
    (hmeaning : Meaning op (Outcome.ofResult ((PublicOp.prog B.hooks op).run s).1) (view live stored s) []) :
    Refines live stored op s ((PublicOp.prog B.hooks op).run s) := by
  refine refines_of_quiet hB h hop (capture_eq_none htarget) ?_ hmeaning
  rw [hreads]
  exact .refl ..

theorem refines_fork (hB : Isolating B live stored) (h : Represents live stored s) (id : String) (n : Int)
    (ids : Option (List String)) :
    Refines live stored (.fork id n ids) s ((PublicOp.prog B.hooks (.fork id n ids)).run s) := by
  have hprog : (PublicOp.prog B.hooks (.fork id n ids)).run s =
      (((ForkableEnvironmentManager.fork B.hooks id n ids).run s).1.map Outcome.branches,
        ((ForkableEnvironmentManager.fork B.hooks id n ids).run s).2) := run_map ..
  have hrun := B.run_fork id n ids s
  rcases hrequest : forkRequest s.mgr id n ids with _ | requestedIds
  · rw [hrequest] at hrun
    refine refines_of_reads hB h (by simp) rfl ?_ ?_
    · rw [hprog, hrun]
    · rw [hprog, hrun]
      exact ⟨by simp, .inl ⟨rfl, rfl⟩⟩
  · rw [hrequest] at hrun
    dsimp only at hrun
    rcases hm : B.materialized id requestedIds true s with ⟨r, s'⟩
    rw [hm] at hrun
    rcases hB.materialized hm with ⟨branches, rfl, hbases, hforked⟩ | ⟨⟨e, rfl⟩, hquiet⟩
    · have hid : id ∈ s.mgr.snapshotGraph.keys := by
        have hforkable : forkable s.mgr id = true := by
          unfold forkRequest at hrequest
          by_contra hno
          rw [if_neg hno] at hrequest
          cases hrequest
        unfold forkable at hforkable
        cases hnode : s.mgr.snapshotGraph.get? id with
        | some node => exact Dict.mem_keys_of_get? hnode
        | none =>
          rw [hnode] at hforkable
          obtain ⟨resource, hresource⟩ := Option.isSome_iff_exists.mp hforkable
          exact h.resources id (Dict.mem_keys_of_get? hresource)
      have hacts : ∃ acts, (branches = [] ∧ acts = [] ∨
          branches ≠ [] ∧ acts = [.fork id (branches.map EnvironmentBranch.id)]) ∧
          Steps defaultBranchId (view live stored s) acts
            ⟨live s'.world, (view live stored s).frozen, s'.mgr.currentBranchId⟩ := by
        by_cases hnil : branches = []
        · subst hnil
          have hlive : live s'.world = live s.world := by simpa using hforked.worlds
          refine ⟨[], .inl ⟨rfl, rfl⟩, ?_⟩
          rw [hlive, hforked.current]
          exact .nil _
        · exact ⟨_, .inr ⟨hnil, rfl⟩, (hforked.step hid (by simpa using hnil)).steps⟩
      obtain ⟨acts, hmeaning, hsteps⟩ := hacts
      refine refines_of_acts hB h (by simp) (capture_eq_none rfl) ?_ ?_ ?_ acts ?_ ?_
      · rw [hprog, hrun]
        exact hforked.stays
      · rw [hprog, hrun]
        exact hforked.registry h.registry
      · rw [hprog, hrun]
        exact hforked.resources
      · rw [hprog, hrun]
        exact ⟨hbases, hmeaning⟩
      · rw [hprog, hrun]
        exact hsteps
    · refine refines_of_quiet hB h (by simp) (capture_eq_none rfl) ?_ ?_
      · rw [hprog, hrun]
        exact hquiet
      · rw [hprog, hrun]
        rfl

theorem refines_restore (hB : Isolating B live stored) (hrequests : B.ForksOnRequest) (h : Represents live stored s)
    (id : String) : Refines live stored (.restore id) s ((PublicOp.prog B.hooks (.restore id)).run s) := by
  have hprog : (PublicOp.prog B.hooks (.restore id)).run s =
      ((B.restored id s).1.map Outcome.flag, (B.restored id s).2) := by
    rw [← B.run_restore id h.consistent.regular]
    exact run_map ..
  rcases hr : B.restored id s with ⟨r, s'⟩
  rw [hr] at hprog
  rcases hB.restored hrequests h hr with ⟨hfailed, hquiet⟩ | ⟨b, acts, hacts, hsteps, hstays, hresources, hregistry⟩
  · refine refines_of_quiet hB h (by simp) (capture_eq_none rfl) ?_ ?_
    · rw [hprog]
      exact hquiet
    · rw [hprog]
      rcases r with e | _ | _
      · exact .inl rfl
      · rfl
      · exact absurd rfl hfailed
  · refine refines_of_acts hB h (by simp) (capture_eq_none rfl) ?_ ?_ ?_ acts ?_ ?_
    · rw [hprog]
      exact hstays
    · rw [hprog]
      exact hregistry
    · rw [hprog]
      exact hresources
    · rw [hprog]
      rcases hacts with ⟨rfl, rfl | ⟨e, rfl⟩⟩ | ⟨rfl, rfl⟩
      · exact ⟨b, .inl rfl⟩
      · exact .inr ⟨b, rfl⟩
      · exact ⟨b, .inr rfl⟩
    · rw [hprog]
      exact hsteps

theorem refines_discard (hB : Isolating B live stored) (h : Represents live stored s) (b : String) :
    Refines live stored (.discardBranch b) s ((PublicOp.prog B.hooks (.discardBranch b)).run s) := by
  have hprog : (PublicOp.prog B.hooks (.discardBranch b)).run s =
      (((discardBranchBody B.hooks b).run s).1.map Outcome.flag, ((discardBranchBody B.hooks b).run s).2) := by
    have hlocked : (discardBranch B.hooks b).run s = (discardBranchBody B.hooks b).run s := run_withLock ..
    rw [← hlocked]
    exact run_map ..
  rcases hr : (discardBranchBody B.hooks b).run s with ⟨r, s'⟩
  rw [hr] at hprog
  rcases hB.discardBranch hr with ⟨rfl, hgave⟩ | ⟨hfailed, hquiet⟩
  · have hlive : live s.world b ≠ none := by
      obtain ⟨l, hl⟩ := Dict.mem_keys_iff.mp hgave.known
      obtain ⟨-, base, hbase, -⟩ := h.inStep.tracks.live b l hl
      intro hnone
      unfold baseOf at hbase
      rw [hnone] at hbase
      cases hbase
    refine refines_of_acts hB h (by simp) (capture_eq_none rfl) ?_ ?_ ?_ [.discard b] ?_ ?_
    · rw [hprog]
      exact hgave.stays
    · rw [hprog]
      exact hgave.registry h.registry
    · rw [hprog]
      exact hgave.resources
    · rw [hprog]
      rfl
    · rw [hprog]
      exact (hgave.step hlive (view live stored s).frozen).steps
  · refine refines_of_quiet hB h (by simp) (capture_eq_none rfl) ?_ ?_
    · rw [hprog]
      exact hquiet
    · rw [hprog]
      rcases r with e | _ | _
      · rfl
      · rfl
      · exact absurd rfl hfailed

theorem refines_exec (hB : Isolating B live stored) (h : Represents live stored s) {b : String} (hop : op ≠ .cleanup)
    (htarget : op.target s.mgr = none) (hwithin : Keeps (AltersOnlyAt live stored b s) (PublicOp.prog B.hooks op))
    (hmeaning : ∀ o acts, (acts = [] ∨ ∃ e, acts = [.write b e]) → Meaning op o (view live stored s) acts) :
    Refines live stored op s ((PublicOp.prog B.hooks op).run s) :=
  refines_of_within hB h hop (capture_eq_none htarget) hwithin fun acts => hmeaning _ acts

/-- A program that starts by reading the current branch. -/
theorem keeps_current {α : Type} {P : Sys W → Prop} {b : String} {f : String → M W α}
    (hb : ∀ s, P s → s.mgr.currentBranchId = b) (hf : Keeps P (f b)) : Keeps P (getCurrentBranchId >>= f) := by
  intro s hs
  rw [getCurrentBranchId, run_bind, run_readState, run_afterValue_ok, hb s hs]
  exact hf s hs

/-- Every operation but the cleanup is, for the worlds, what its outcome stands for. -/
theorem refines_step (hB : Isolating B live stored) (hrequests : B.ForksOnRequest) (h : Represents live stored s)
    (hop : op ≠ .cleanup) (hnew : B.SuppliesNew op s) :
    Refines live stored op s ((PublicOp.prog B.hooks op).run s) := by
  have hcopyOut {o : PublicOp} (ho : o ≠ .cleanup) (htarget : o.target s.mgr = none)
      (hkeeps : Keeps (Calm live stored s) (PublicOp.prog B.hooks o))
      (hmeaning : ∀ x, Meaning o x (view live stored s) []) : Refines live stored o s ((PublicOp.prog B.hooks o).run s) :=
    refines_of_quiet hB h ho (capture_eq_none htarget) (hkeeps s (.refl ..)) (hmeaning _)
  cases op with
  | cleanup => exact absurd rfl hop
  | snapshot =>
    refine refines_of_capture hB h hop hnew rfl rfl rfl ?_ (fun _ => rfl) (fun _ => rfl) rfl
    simp only [EnvironmentManager.snapshot, getCurrentBranchId, run_withLock, run_bind, run_readState, run_afterValue_ok]
    exact hB.captures_snapshot s.mgr.currentBranchId
  | snapshotBranch b park =>
    cases park with
    | true =>
      exact refines_of_capture hB h hop hnew rfl rfl rfl (hB.captures_park h b) (fun _ => rfl) (fun _ => rfl) rfl
    | false =>
      refine refines_of_capture hB h hop hnew rfl rfl rfl ?_ (fun _ => rfl) (fun _ => rfl) rfl
      show Capturing _ _ _ _ s ((isLive b >>= fun live => if live then
        onKeyError (EnvironmentManager.snapshotBranch B.hooks.toHooks b true) none else pure none).run s)
      rw [Apart.run_ifLive]
      split_ifs
      · exact (hB.captures_snapshot b).caught
      · exact .nothing ..
  | parkBranch b =>
    exact refines_of_capture hB h hop hnew rfl rfl rfl (hB.captures_park h b) (fun _ => rfl) (fun _ => rfl) rfl
  | restore id => exact refines_restore hB hrequests h id
  | execCommand c t =>
    refine refines_exec hB h hop rfl (keeps_map _ (hoare_withLock ?_)) fun _ _ hacts => hacts
    exact keeps_current (fun _ hs => hs.2.1) hB.within_exec
  | copyIn src path =>
    refine refines_exec hB h hop rfl (keeps_map _ (hoare_withLock ?_)) fun _ _ hacts => hacts
    exact keeps_current (fun _ hs => hs.2.1) hB.within_copyIn
  | copyOut path dst =>
    refine hcopyOut hop rfl (keeps_map _ (hoare_withLock ?_)) fun _ => rfl
    exact keeps_current (fun _ hs => hs.current) hB.quiet_copyOut
  | execOnBranch b c t =>
    exact refines_exec hB h hop rfl (keeps_map _ (keeps_named hB.within_exec)) fun _ _ hacts => hacts
  | copyInBranch b src path =>
    exact refines_exec hB h hop rfl (keeps_map _ (keeps_named hB.within_copyIn)) fun _ _ hacts => hacts
  | copyOutBranch b path dst => exact hcopyOut hop rfl (keeps_map _ (keeps_named hB.quiet_copyOut)) fun _ => rfl
  | fork id n ids => exact refines_fork hB h id n ids
  | discardBranch b => exact refines_discard hB h b
  | listBranches =>
    have hrun : (PublicOp.prog B.hooks .listBranches).run s =
        (((ForkableEnvironmentManager.listBranches B.hooks).run s).1.map Outcome.branches, B.afterListing s) := by
      rw [← (B.run_listBranches B.refresh s).1]
      exact run_map ..
    refine refines_of_quiet hB h hop (capture_eq_none rfl) ?_ ?_
    · rw [hrun]
      exact hB.quiet_listing
    · rw [hrun]
      rcases hr : ((ForkableEnvironmentManager.listBranches B.hooks).run s).1 with e | l
      · rfl
      · exact ⟨rfl, hB.listBranches h hr⟩
  | listSnapshots => exact refines_of_reads hB h hop rfl rfl rfl
  | printSnapshotTree limit =>
    have hsame : Keeps (fun s' => s' = s) (PublicOp.prog B.hooks (.printSnapshotTree limit)) :=
      keeps_map _ (reads_tryState _).keeps
    exact refines_of_reads hB h hop rfl (hsame s rfl) rfl
  | currentSnapshot =>
    obtain ⟨r, hr⟩ := Dict.mem_keys_iff.mp h.consistent.current
    obtain ⟨base, hbase, hposition⟩ := h.inStep.tracks.position _ r hr
    have hrun : (PublicOp.prog B.hooks .currentSnapshot).run s = (.ok (.snapshotId (s.mgr.record r).currentSnapshotId), s) := by
      have hlookup : s.mgr.getBranchState none = .ok r := by
        unfold Manager.getBranchState
        dsimp only [Option.getD_none]
        rw [hr]
      show (Outcome.snapshotId <$> currentSnapshot).run s = _
      simp only [run_map, currentSnapshot, getBranchState, run_withLock, run_bind, run_tryState, hlookup,
        run_afterValue_ok, run_peek]
      rfl
    refine refines_of_reads hB h hop rfl ?_ ?_
    · rw [hrun]
    · rw [hrun]
      exact ⟨rfl, (hposition not_false).1.trans hbase.symm⟩
  | currentBranchId => exact refines_of_reads hB h hop rfl rfl ⟨rfl, rfl⟩
  | statsLog => exact refines_of_reads hB h hop rfl rfl rfl
  | liveBranches => exact refines_of_reads hB h hop rfl rfl ⟨rfl, h.shows⟩

end

end StateFork
