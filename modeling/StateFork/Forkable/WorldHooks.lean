import StateFork.Forkable.Worlds

/-!
# What the templates do to worlds

For a backend that isolates, one lemma for each template says what it leaves behind: it moves no branch (`Calm`), it
captures one (`Froze`), it makes some (`Forked`) or it gives one up (`GaveUp`).
-/

namespace StateFork

open Conc Conc.Prog Branching EnvironmentManager ForkableEnvironmentManager

variable {W E : Type} {B : ForkableBackend W} {live : W → String → Option (String × E)}
  {stored : W → String → Option E}

/-! ### The snapshots of the view -/

section

variable {s s' : Sys W}

theorem mem_keys_of_parentOf {id : String} {parent : Option String} (h : parentOf s id = some parent) :
    id ∈ s.mgr.snapshotGraph.keys := by
  obtain ⟨node, hnode, -⟩ := Option.map_eq_some_iff.mp h
  exact Dict.mem_keys_of_get? hnode

theorem mem_keys_iff_parentOf {id : String} : id ∈ s.mgr.snapshotGraph.keys ↔ parentOf s id ≠ none := by
  unfold parentOf
  rw [Dict.mem_keys_iff, ne_eq, Option.map_eq_none_iff, ← ne_eq, Option.ne_none_iff_exists']

theorem Represents.frozen_ne_none (h : Represents live stored s) {id : String} :
    (view live stored s).frozen id ≠ none ↔ id ∈ s.mgr.snapshotGraph.keys := by
  unfold view
  dsimp only
  constructor
  · intro hid
    obtain ⟨x, hx⟩ := Option.ne_none_iff_exists'.mp hid
    obtain ⟨parent, hparent, -⟩ := Option.bind_eq_some_iff.mp hx
    exact mem_keys_of_parentOf hparent
  · intro hid
    obtain ⟨parent, hparent⟩ := Option.ne_none_iff_exists'.mp (mem_keys_iff_parentOf.mp hid)
    obtain ⟨e, he⟩ := Option.ne_none_iff_exists'.mp (h.stored id hid)
    rw [hparent, he]
    simp

/-- Nothing was recorded. -/
theorem Represents.frozen_eq (h : Represents live stored s) (hparents : ∀ id, parentOf s' id = parentOf s id)
    (hstays : ∀ id, Stays stored s.world s'.world id) :
    (view live stored s').frozen = (view live stored s).frozen ∧
      ∀ id, id ∈ s'.mgr.snapshotGraph.keys → stored s'.world id ≠ none := by
  have hstored {id : String} {parent : Option String} (hparent : parentOf s id = some parent) :
      ∃ e, stored s.world id = some e ∧ stored s'.world id = some e := by
    obtain ⟨e, he⟩ := Option.ne_none_iff_exists'.mp (h.stored id (mem_keys_of_parentOf hparent))
    exact ⟨e, he, hstays id e he⟩
  constructor
  · funext id
    unfold view
    dsimp only
    rw [hparents]
    cases hparent : parentOf s id with
    | none => rfl
    | some parent =>
      obtain ⟨e, he, he'⟩ := hstored hparent
      rw [he, he']
  · intro id hid
    cases hparent : parentOf s id with
    | none => exact absurd ((hparents id).trans hparent) (mem_keys_iff_parentOf.mp hid)
    | some parent =>
      obtain ⟨e, -, he'⟩ := hstored hparent
      rw [he']
      simp

/-- A capture was recorded. -/
theorem Represents.frozen_update (h : Represents live stored s) {id base : String} {e : E}
    (hrecorded : parentOf s' id = some (some base)) (hkept : ∀ id', id' ≠ id → parentOf s' id' = parentOf s id')
    (hstored : stored s'.world id = some e) (hstays : ∀ id', id' ≠ id → Stays stored s.world s'.world id') :
    (view live stored s').frozen = Function.update (view live stored s).frozen id (some (some base, e)) ∧
      ∀ id', id' ∈ s'.mgr.snapshotGraph.keys → stored s'.world id' ≠ none := by
  have hold {id' : String} {parent : Option String} (hne : id' ≠ id) (hparent : parentOf s id' = some parent) :
      ∃ e', stored s.world id' = some e' ∧ stored s'.world id' = some e' := by
    obtain ⟨e', he'⟩ := Option.ne_none_iff_exists'.mp (h.stored id' (mem_keys_of_parentOf hparent))
    exact ⟨e', he', hstays id' hne e' he'⟩
  constructor
  · funext id'
    unfold view
    dsimp only
    rw [Function.update_apply]
    split_ifs with hid
    · rw [hid, hrecorded, hstored]
      rfl
    · rw [hkept id' hid]
      cases hparent : parentOf s id' with
      | none => rfl
      | some parent =>
        obtain ⟨e', he, he'⟩ := hold hid hparent
        rw [he, he']
  · intro id' hid'
    by_cases hid : id' = id
    · rw [hid, hstored]
      simp
    · cases hparent : parentOf s id' with
      | none => exact absurd ((hkept id' hid).trans hparent) (mem_keys_iff_parentOf.mp hid')
      | some parent =>
        obtain ⟨e', -, he'⟩ := hold hid hparent
        rw [he']
        simp

end

/-! ### Environments that change -/

section

variable {v : Worlds String String E} {w w' : W} {b : String}

/-- A command or a copy writes to one environment, if it is live. -/
theorem AltersOnly.steps (h : AltersOnly live stored b w w') (hv : v.live = live w) :
    ∃ acts, (acts = [] ∨ ∃ e, acts = [.write b e]) ∧ Steps defaultBranchId v acts { v with live := live w' } := by
  cases hb : live w b with
  | none =>
    have hnone : live w' b = none := by
      have hbase := h.base
      rw [hb] at hbase
      simpa using hbase
    have hsame : live w' = v.live := by
      rw [hv]
      funext b'
      by_cases he : b' = b
      · rw [he, hb, hnone]
      · exact h.others b' he
    rw [hsame]
    exact ⟨[], .inl rfl, .nil v⟩
  | some x =>
    obtain ⟨base, e⟩ := x
    obtain ⟨e', he'⟩ : ∃ e', live w' b = some (base, e') := by
      have hbase := h.base
      rw [hb, Option.map_some] at hbase
      obtain ⟨⟨base', e'⟩, hx, rfl⟩ := Option.map_eq_some_iff.mp hbase
      exact ⟨e', hx⟩
    have hlive : live w' = Function.update v.live b (some (base, e')) := by
      rw [hv]
      funext b'
      rw [Function.update_apply]
      split_ifs with he
      · rw [he, he']
      · exact h.others b' he
    rw [hlive]
    exact ⟨[.write b e'], .inr ⟨e', rfl⟩, (Step.write e' (hv ▸ hb)).steps⟩

end

/-! ### The hooks of a capture -/

section

variable {s s' : Sys W} {b : String}

/-- What a program may leave behind that moves no branch: the environments and the live branches are as before, for the
backend and the controller. -/
structure Calm (live : W → String → Option (String × E)) (stored : W → String → Option E) (s s' : Sys W) : Prop where
  unmoved : Unmoved live stored s.world s'.world
  current : s'.mgr.currentBranchId = s.mgr.currentBranchId
  registry : (∀ b, live s.world b ≠ none → b ∈ s.mgr.liveBranches.keys) →
    ∀ b, live s'.world b ≠ none → b ∈ s'.mgr.liveBranches.keys
  resources : s'.mgr.snapshots = s.mgr.snapshots

theorem Calm.refl (live : W → String → Option (String × E)) (stored : W → String → Option E) (s : Sys W) :
    Calm live stored s s := ⟨.refl .., rfl, id, rfl⟩

theorem Calm.trans {s'' : Sys W} (h : Calm live stored s s') (h' : Calm live stored s' s'') : Calm live stored s s'' :=
  ⟨h.unmoved.trans h'.unmoved, h'.current.trans h.current, fun hs => h'.registry (h.registry hs),
    h'.resources.trans h.resources⟩

theorem Calm.of_world {w : W} (h : Unmoved live stored s.world w) : Calm live stored s { s with world := w } :=
  ⟨h, rfl, fun hs b hb => hs b (h.live ▸ hb), rfl⟩

/-- A section that keeps the current branch and the live registry. -/
theorem Calm.of_mgr {m : Manager} (hcurrent : m.currentBranchId = s.mgr.currentBranchId)
    (hlive : m.liveBranches.keys = s.mgr.liveBranches.keys) (hresources : m.snapshots = s.mgr.snapshots) :
    Calm live stored s { s with mgr := m } :=
  ⟨.refl .., hcurrent, fun hs b hb => hlive ▸ hs b hb, hresources⟩

/-- What a capture of the branch leaves behind: its environment is stored, `after` says what the branch is then, and
`current` is the current branch. -/
structure Froze (live : W → String → Option (String × E)) (stored : W → String → Option E) (b id : String)
    (after : E → Option (String × E)) (current : String) (s s' : Sys W) : Prop where
  stores : ∃ base e, live s.world b = some (base, e) ∧ live s'.world = Function.update (live s.world) b (after e) ∧
    stored s'.world id = some e
  stays : ∀ id', id' ≠ id → Stays stored s.world s'.world id'
  current : s'.mgr.currentBranchId = current
  registry : (∀ b, live s.world b ≠ none → b ∈ s.mgr.liveBranches.keys) →
    ∀ b, live s'.world b ≠ none → b ∈ s'.mgr.liveBranches.keys
  resources : ∀ id', id' ∈ s'.mgr.snapshots.keys → id' = id ∨ id' ∈ s.mgr.snapshots.keys

theorem Froze.trans {id current : String} {after : E → Option (String × E)} {s'' : Sys W}
    (h : Froze live stored b id after current s s') (h' : Calm live stored s' s'') :
    Froze live stored b id after current s s'' := by
  obtain ⟨base, e, hhere, hlive, hstored⟩ := h.stores
  refine ⟨⟨base, e, hhere, h'.unmoved.live.trans hlive, h'.unmoved.stored id e hstored⟩, ?_, ?_, ?_, ?_⟩
  · exact fun id' hid' => (h.stays id' hid').trans (h'.unmoved.stored id')
  · exact h'.current.trans h.current
  · exact fun hs => h'.registry (h.registry hs)
  · rw [h'.resources]
    exact h.resources

/-- Parking the current branch makes the default branch current. -/
theorem Manager.retireParked_spec {m : Manager} (b id : String) (parentId : Option String) (elapsed : ℚ)
    (hmain : defaultBranchId ∈ m.branches.keys) :
    (m.retireParked b id parentId elapsed).currentBranchId =
        (if b = m.currentBranchId then defaultBranchId else m.currentBranchId) ∧
      (m.retireParked b id parentId elapsed).liveBranches = m.liveBranches.erase b := by
  set m₁ := (m.recordSnapshotNode { snapshotId := id, parentId }).addEntry "park" id elapsed b with hm₁
  have hset : m₁.setCurrentBranch defaultBranchId = (.ok (), m₁.switch defaultBranchId) :=
    Manager.setCurrentBranch_of_mem hmain
  have hretired : m.retireParked b id parentId elapsed =
      (if b = m₁.currentBranchId then m₁.switch defaultBranchId else m₁).forget b := by
    unfold Manager.retireParked
    rw [← hm₁]
    dsimp only
    rw [hset]
  have hlive (m : Manager) : (m.forget b).liveBranches = m.liveBranches.erase b := Manager.liveBranches_removeBranch ..
  rw [hretired, Manager.currentBranchId_forget, hlive]
  by_cases hcurrent : b = m.currentBranchId
  · have hcurrent' : b = m₁.currentBranchId := hcurrent
    rw [if_pos hcurrent, if_pos hcurrent']
    exact ⟨rfl, rfl⟩
  · have hcurrent' : b ≠ m₁.currentBranchId := hcurrent
    rw [if_neg hcurrent, if_neg hcurrent']
    exact ⟨rfl, rfl⟩

variable (hB : Isolating B live stored)

include hB

theorem Isolating.quiet_listing : Calm live stored s (B.afterListing s) := by
  have hresources : (B.afterListing s).mgr.snapshots = s.mgr.snapshots := by
    have hleaves : LeavesView Manager.snapshots (listBranches (B.hooksWith (pure ()))) :=
      leavesView_of_keeps fun _ => keepsView_listBranches (fun h _ _ => h) (B.hooksWith_leave (pure ()))
    rw [← (B.run_listBranches (pure ()) s).1]
    exact hleaves s
  have hlist := hB.list s.world
  have hlisted := hB.listed s.world
  unfold ForkableBackend.afterListing at hresources ⊢
  rcases hl : B.list s.world with ⟨r, w⟩
  rw [hl] at hlist hlisted hresources
  rcases hlisted with hr | ⟨listing, hr, htrue⟩
  · obtain rfl : r = _ := hr
    exact .of_world hlist
  · obtain rfl : r = _ := hr
    obtain ⟨-, hkeys, hcurrent, -⟩ := s.mgr.relist_spec listing
    refine ⟨hlist, hcurrent, fun _ b hb => (hkeys b).mpr ?_, hresources⟩
    rw [hlist.live] at hb
    obtain ⟨x, hx⟩ := Option.ne_none_iff_exists'.mp hb
    obtain ⟨o, ho, hid, -⟩ := (htrue.exact b x.1).mp (by rw [hx]; rfl)
    exact List.mem_map.mpr ⟨o, ho, hid⟩

/-- The snapshot hook: it captures the branch, or it does nothing. -/
theorem Isolating.coreSnapshot {r : Except PyError (Option String × ℚ)}
    (hr : (B.hooks.coreSnapshot b).run s = (r, s')) :
    (∃ id elapsed, r = .ok (some id, elapsed) ∧
        Froze live stored b id (fun e => some (id, e)) s.mgr.currentBranchId s s') ∨
      ((∀ id elapsed, r ≠ .ok (some id, elapsed)) ∧ Calm live stored s s') := by
  simp only [ForkableBackend.hooks, ForkableBackend.hooksWith, run_bind, run_tryWorld] at hr
  rcases hhook : B.snapshot b s.world with ⟨e | ⟨_ | ⟨id, resource⟩, elapsed⟩, w⟩
  · rw [hhook] at hr
    obtain ⟨rfl, rfl⟩ := Prod.mk.inj hr
    exact .inr ⟨by simp, .of_world (hB.notCaptured b s.world _ w hhook (by simp))⟩
  · rw [hhook] at hr
    obtain ⟨rfl, rfl⟩ := Prod.mk.inj hr
    exact .inr ⟨by simp, .of_world (hB.notCaptured b s.world _ w hhook (by simp))⟩
  · obtain ⟨-, base, e, hhere, hlive, hstored, hstays⟩ := hB.captured b s.world id resource elapsed w hhook
    rw [hhook] at hr
    simp only [run_afterValue_ok, ForkableBackend.register, EnvironmentManager.registerSnapshotResource, run_bind,
      run_updateState, run_pure, Option.isSome_some, if_true] at hr
    set s₁ : Sys W := ⟨s.mgr.registerSnapshotResource id resource, w⟩
    have hfroze : Froze live stored b id (fun e => some (id, e)) s.mgr.currentBranchId s s₁ := by
      refine ⟨⟨base, e, hhere, hlive, hstored⟩, hstays, rfl, fun hs b' hb' => hs b' fun hnone => hb' ?_,
        fun id' hid' => Dict.mem_keys_set.mp hid'⟩
      show live w b' = none
      rw [hlive, Function.update_of_ne, hnone]
      rintro rfl
      rw [hnone] at hhere
      cases hhere
    refine .inl ⟨id, elapsed, ?_⟩
    unfold ForkableBackend.refresh at hr
    split_ifs at hr
    · obtain ⟨l, hl⟩ := hB.keepsBases.listBranches_ok (pure ()) s₁
      rw [run_bind, hl] at hr
      obtain ⟨rfl, rfl⟩ := Prod.mk.inj hr
      exact ⟨rfl, hfroze.trans hB.quiet_listing⟩
    · obtain ⟨rfl, rfl⟩ := Prod.mk.inj hr
      exact ⟨rfl, hfroze⟩

/-- `_snapshot_branch` -/
theorem Isolating.snapshotBranch {r : Except PyError (Option String)}
    (hr : (EnvironmentManager.snapshotBranch B.hooks.toHooks b true).run s = (r, s')) :
    (∃ id, r = .ok (some id) ∧ Froze live stored b id (fun e => some (id, e)) s.mgr.currentBranchId s s') ∨
      ((∀ id, r ≠ .ok (some id)) ∧ Calm live stored s s') := by
  have hcase := snapshot_cases B.hooks b s
  rw [hr] at hcase
  cases hcase with
  | unregistered => exact .inr ⟨by simp, .refl ..⟩
  | retired => exact .inr ⟨by simp, .refl ..⟩
  | raised hook =>
    rcases hB.coreSnapshot hook with ⟨_, _, he, -⟩ | ⟨-, hquiet⟩
    · cases he
    · exact .inr ⟨by simp, hquiet⟩
  | failed hook =>
    rcases hB.coreSnapshot hook with ⟨_, _, he, -⟩ | ⟨-, hquiet⟩
    · cases he
    · exact .inr ⟨by simp, hquiet⟩
  | @committed r id elapsed s₁ lookup hactive hook =>
    rcases hB.coreSnapshot hook with ⟨_, _, he, hfroze⟩ | ⟨hno, -⟩
    · cases he
      refine .inl ⟨id, rfl, hfroze.trans (.of_mgr ?_ ?_ ?_)⟩
      · unfold Manager.commit Manager.advanceLiveBase
        dsimp only
        split <;> rfl
      · exact congrArg Dict.keys (Manager.liveBranches_commit ..)
      · unfold Manager.commit Manager.advanceLiveBase
        dsimp only
        split <;> rfl
    · exact absurd rfl (hno id elapsed)

/-- `_park_branch` -/
theorem Isolating.parkBranch (hmain : defaultBranchId ∈ s.mgr.branches.keys) {r : Except PyError (Option String)}
    (hr : (parkBranchBody B.hooks b).run s = (r, s')) :
    (∃ id, r = .ok (some id) ∧ b ≠ defaultBranchId ∧ Froze live stored b id (fun _ => none)
        (if b = s.mgr.currentBranchId then defaultBranchId else s.mgr.currentBranchId) s s') ∨
      ((∀ id, r ≠ .ok (some id)) ∧ Calm live stored s s') := by
  have hcase := B.park_cases b hmain
  rw [hr] at hcase
  cases hcase with
  | refused => exact .inr ⟨by simp, .refl ..⟩
  | raised hook => exact .inr ⟨by simp, .of_world (hB.notParked b s.world _ _ hook (by simp))⟩
  | failed hook => exact .inr ⟨by simp, .of_world (hB.notParked b s.world _ _ hook (by simp))⟩
  | @parked r id resource elapsed w notMain lookup hook =>
    obtain ⟨-, base, e, hhere, hlive, hstored, hstays⟩ := hB.parked b s.world id resource elapsed w hook
    have hmain' : defaultBranchId ∈ (s.mgr.registerSnapshotResource id resource).branches.keys := hmain
    obtain ⟨hcurrent, hregistry⟩ := Manager.retireParked_spec b id (s.mgr.record r).lastSnapshotId elapsed hmain'
    refine .inl ⟨id, rfl, notMain, ⟨base, e, hhere, hlive, hstored⟩, hstays, hcurrent, fun hs b' hb' => ?_, ?_⟩
    swap
    · rw [(Manager.graph_retireParked ..).2]
      exact fun id' hid' => Dict.mem_keys_set.mp hid'
    have hne : b' ≠ b := by
      rintro rfl
      refine hb' ?_
      show live w b' = none
      rw [hlive, Function.update_self]
    have hsame : live w b' = live s.world b' := by rw [hlive, Function.update_of_ne hne]
    rw [hregistry, Dict.mem_keys_erase]
    exact ⟨hne, hs b' (hsame ▸ hb')⟩

end

/-! ### Commands and copies -/

section

variable {s : Sys W} {b : String}

/-- The states that a command or a copy on `b` can reach. -/
def AltersOnlyAt (live : W → String → Option (String × E)) (stored : W → String → Option E) (b : String) (s s' : Sys W) :
    Prop :=
  AltersOnly live stored b s.world s'.world ∧ s'.mgr.currentBranchId = s.mgr.currentBranchId ∧
    s'.mgr.liveBranches = s.mgr.liveBranches ∧ s'.mgr.snapshots = s.mgr.snapshots

theorem AltersOnlyAt.world {s' : Sys W} {w : W} (h : AltersOnlyAt live stored b s s') (hw : AltersOnly live stored b s'.world w) :
    AltersOnlyAt live stored b s { s' with world := w } :=
  ⟨h.1.trans hw, h.2⟩

theorem AltersOnlyAt.registry {s' : Sys W} (h : AltersOnlyAt live stored b s s')
    (hs : ∀ b, live s.world b ≠ none → b ∈ s.mgr.liveBranches.keys) :
    ∀ b, live s'.world b ≠ none → b ∈ s'.mgr.liveBranches.keys := by
  intro b' hb'
  rw [h.2.2.1]
  refine hs b' fun hnone => hb' ?_
  have hbase := congrFun h.1.bases b'
  unfold baseOf at hbase
  rw [hnone] at hbase
  simpa using hbase

variable (hB : Isolating B live stored)

include hB

theorem Isolating.within_time : Keeps (AltersOnlyAt live stored b s) (B.hooks.time : M W ℚ) :=
  keeps_world fun _ hs => hs.world ((hB.time _).within b)

theorem Isolating.within_exec {command : Command} {timeout : Option ℚ} :
    Keeps (AltersOnlyAt live stored b s) (execBranch B.hooks.toHooks b command timeout) := by
  have hexec : Keeps (AltersOnlyAt live stored b s) (B.hooks.coreExec command timeout b) :=
    keeps_tryWorld (fun _ => []) fun _ hs => hs.world (hB.exec command timeout b _)
  exact keeps_execBranch hexec hB.within_time (fun _ _ _ _ _ hs => hs) fun _ _ _ hs => hs

theorem Isolating.within_copyIn {hostPath envPath : String} :
    Keeps (AltersOnlyAt live stored b s) (copyBranch B.hooks.toHooks b hostPath envPath true) := by
  have hcopy : Keeps (AltersOnlyAt live stored b s) (B.hooks.coreCopy b hostPath envPath true) :=
    keeps_tryWorld (fun _ => []) fun _ hs => hs.world (hB.copyIn b hostPath envPath _)
  exact keeps_copyBranch hcopy hB.within_time fun _ _ _ hs => hs

theorem Isolating.quiet_copyOut {hostPath envPath : String} :
    Keeps (Calm live stored s) (copyBranch B.hooks.toHooks b hostPath envPath false) := by
  have hcopy : Keeps (Calm live stored s) (B.hooks.coreCopy b hostPath envPath false) :=
    keeps_tryWorld (fun _ => []) fun _ hs => hs.trans (.of_world (hB.copyOut b hostPath envPath _))
  have htime : Keeps (Calm live stored s) (B.hooks.time : M W ℚ) :=
    keeps_world fun _ hs => hs.trans (.of_world (hB.time _))
  exact keeps_copyBranch hcopy htime fun _ _ _ hs => hs.trans (.of_mgr rfl rfl rfl)

omit hB in
/-- A named operation tests first whether its branch is live. -/
theorem keeps_named {α : Type} {P : Sys W → Prop} {p : M W α} {a c : α} (hp : Keeps P p) :
    Keeps P (isLive b >>= fun live => if live then onKeyError p a else pure c : M W α) := by
  refine keeps_bind (reads_readState _).keeps fun live => ?_
  split
  · refine keeps_tryCatch hp fun e => ?_
    split
    · exact keeps_ret _
    · exact hoare_throw fun _ hs => hs
  · exact keeps_ret _

end

/-! ### Forks, discards and restores -/

section

variable {s s' : Sys W}

/-- Registering the outcomes of a fork makes them live, and nothing else. -/
theorem Manager.foldl_registerOutcome_spec (activate : Bool) (outcomes : List (EnvironmentBranch × ℚ)) (m : Manager) :
    (outcomes.foldl (Manager.registerOutcome activate) m).currentBranchId = m.currentBranchId ∧
      (outcomes.foldl (Manager.registerOutcome activate) m).snapshots = m.snapshots ∧
      ∀ b, b ∈ (outcomes.foldl (Manager.registerOutcome activate) m).liveBranches.keys ↔
        b ∈ outcomes.map (fun o => o.1.id) ∨ b ∈ m.liveBranches.keys := by
  induction outcomes generalizing m with
  | nil => simp
  | cons o outcomes ih =>
    obtain ⟨hcurrent, hsnapshots, hkeys⟩ := ih (m.registerOutcome activate o)
    have hsnapshots₀ : (m.registerOutcome activate o).snapshots = m.snapshots := by
      unfold Manager.registerOutcome Manager.registerBranch
      dsimp only [Manager.newLiveObject]
      split <;> rfl
    refine ⟨hcurrent.trans (Grows.registerOutcome m activate o).current, hsnapshots.trans hsnapshots₀, fun b => ?_⟩
    rw [List.foldl_cons, hkeys, Manager.liveBranches_registerOutcome, Dict.mem_keys_set, List.map_cons, List.mem_cons]
    tauto

/-- What a fork that returned branches leaves behind. -/
structure Forked (live : W → String → Option (String × E)) (stored : W → String → Option E) (id : String)
    (bs : List String) (s s' : Sys W) : Prop where
  worlds : live s'.world = fun b => if b ∈ bs then (stored s.world id).map fun e => (id, e) else live s.world b
  known : bs ≠ [] → stored s.world id ≠ none
  nodup : bs.Nodup
  free : ∀ b ∈ bs, live s.world b = none
  stays : ∀ id, Stays stored s.world s'.world id
  current : s'.mgr.currentBranchId = s.mgr.currentBranchId
  resources : s'.mgr.snapshots = s.mgr.snapshots
  keys : ∀ b, b ∈ s'.mgr.liveBranches.keys ↔ b ∈ bs ∨ b ∈ s.mgr.liveBranches.keys

variable {id : String}

theorem Forked.registry {bs : List String} (h : Forked live stored id bs s s')
    (hs : ∀ b, live s.world b ≠ none → b ∈ s.mgr.liveBranches.keys) :
    ∀ b, live s'.world b ≠ none → b ∈ s'.mgr.liveBranches.keys := by
  intro b hb
  rw [h.keys]
  rw [h.worlds] at hb
  dsimp only at hb
  split_ifs at hb with hmem
  · exact .inl hmem
  · exact .inr (hs b hb)

variable (hB : Isolating B live stored)

include hB

theorem Isolating.materialized {requestedIds : List (Option String)} {activate : Bool}
    {r : Except PyError (List EnvironmentBranch)} (hr : B.materialized id requestedIds activate s = (r, s')) :
    (∃ branches, r = .ok branches ∧ (∀ o ∈ branches, o.baseSnapshotId = id) ∧
        Forked live stored id (branches.map EnvironmentBranch.id) s s') ∨
      ((∃ e, r = .error e) ∧ Calm live stored s s') := by
  unfold ForkableBackend.materialized at hr
  rcases hfork : B.fork id requestedIds s.world with ⟨e | outcomes, w⟩
  · rw [hfork] at hr
    obtain ⟨rfl, rfl⟩ := Prod.mk.inj hr
    exact .inr ⟨⟨e, rfl⟩, .of_world (hB.notForked id requestedIds s.world e w hfork)⟩
  · rw [hfork] at hr
    obtain ⟨rfl, rfl⟩ := Prod.mk.inj hr
    obtain ⟨hout, hnodup, hlive, hstays⟩ := hB.forked id requestedIds s.world outcomes w hfork
    obtain ⟨hcurrent, hsnapshots, hkeys⟩ := Manager.foldl_registerOutcome_spec activate outcomes s.mgr
    have hids : (outcomes.map Prod.fst).map EnvironmentBranch.id = outcomes.map fun o => o.1.id := List.map_map ..
    refine .inl ⟨_, rfl, fun o ho => ?_, ?_⟩
    · obtain ⟨x, hx, rfl⟩ := List.mem_map.mp ho
      exact (hout x hx).1
    · rw [hids]
      refine ⟨hlive, fun hne => ?_, hnodup, fun b hb => ?_, hstays, hcurrent, hsnapshots, hkeys⟩
      · obtain ⟨o, ho⟩ := List.exists_mem_of_ne_nil _ hne
        obtain ⟨x, hx, -⟩ := List.mem_map.mp ho
        exact (hout x hx).2.2
      · obtain ⟨x, hx, rfl⟩ := List.mem_map.mp hb
        exact (hout x hx).2.1

omit hB in
/-- The fork of a snapshot that the controller has recorded. -/
theorem Forked.step {bs : List String} (h : Forked live stored id bs s s')
    (hid : id ∈ s.mgr.snapshotGraph.keys) (hne : bs ≠ []) :
    Step defaultBranchId (view live stored s) (.fork id bs)
      ⟨live s'.world, (view live stored s).frozen, s'.mgr.currentBranchId⟩ := by
  obtain ⟨e, he⟩ := Option.ne_none_iff_exists'.mp (h.known hne)
  obtain ⟨parent, hparent⟩ := Option.ne_none_iff_exists'.mp (mem_keys_iff_parentOf.mp hid)
  have hknown : (view live stored s).frozen id = some (parent, e) := by
    unfold view
    dsimp only
    rw [hparent, he]
    rfl
  have hlive : live s'.world = fun b => if b ∈ bs then some (id, e) else (view live stored s).live b := by
    rw [h.worlds, he]
    rfl
  rw [hlive, h.current]
  exact .fork hknown h.nodup h.free

/-- What a discard that succeeded leaves behind. -/
structure GaveUp (live : W → String → Option (String × E)) (stored : W → String → Option E) (b : String)
    (s s' : Sys W) : Prop where
  notMain : b ≠ defaultBranchId
  notCurrent : b ≠ s.mgr.currentBranchId
  known : b ∈ s.mgr.liveBranches.keys
  worlds : live s'.world = Function.update (live s.world) b none
  stays : ∀ id, Stays stored s.world s'.world id
  current : s'.mgr.currentBranchId = s.mgr.currentBranchId
  resources : s'.mgr.snapshots = s.mgr.snapshots
  keys : s'.mgr.liveBranches = s.mgr.liveBranches.erase b

omit hB in
theorem GaveUp.registry {b : String} (h : GaveUp live stored b s s')
    (hs : ∀ b, live s.world b ≠ none → b ∈ s.mgr.liveBranches.keys) :
    ∀ b, live s'.world b ≠ none → b ∈ s'.mgr.liveBranches.keys := by
  intro b' hb'
  rw [h.worlds, Function.update_apply] at hb'
  split_ifs at hb' with hne
  · exact absurd rfl hb'
  · rw [h.keys, Dict.mem_keys_erase]
    exact ⟨hne, hs b' hb'⟩

omit hB in
/-- The discard of a branch that is live. -/
theorem GaveUp.step {b : String} (h : GaveUp live stored b s s') (hlive : live s.world b ≠ none)
    (frozen : String → Option (Option String × E)) :
    Step defaultBranchId ⟨live s.world, frozen, s.mgr.currentBranchId⟩ (.discard b)
      ⟨live s'.world, frozen, s'.mgr.currentBranchId⟩ := by
  rw [h.worlds, h.current]
  exact .discard hlive h.notMain h.notCurrent

theorem Isolating.discardAnswer {b : String} {r : Except PyError Bool} (hr : B.discardAnswer b s = (r, s'))
    (hgets : ForkableBackend.discardable s.mgr b = true) :
    (r = .ok true ∧ GaveUp live stored b s s') ∨ (r ≠ .ok true ∧ Calm live stored s s') := by
  obtain ⟨hmain, hcurrent, hlive, -⟩ := ForkableBackend.discardable_iff.mp hgets
  unfold ForkableBackend.discardAnswer at hr
  rcases hook : B.discard b s.world with ⟨e | _ | _, w⟩
  · rw [hook] at hr
    obtain ⟨rfl, rfl⟩ := Prod.mk.inj hr
    exact .inr ⟨by simp, .of_world (hB.notDiscarded b s.world _ w hook (by simp))⟩
  · rw [hook] at hr
    obtain ⟨rfl, rfl⟩ := Prod.mk.inj hr
    exact .inr ⟨by simp, .of_world (hB.notDiscarded b s.world _ w hook (by simp))⟩
  · rw [hook] at hr
    obtain ⟨rfl, rfl⟩ := Prod.mk.inj hr
    obtain ⟨hworlds, hstays⟩ := hB.discarded b s.world w hook
    have hsnapshots : (s.mgr.forget b).snapshots = s.mgr.snapshots := by
      unfold Manager.forget Manager.removeBranch
      split <;> rfl
    obtain ⟨l, hl⟩ := Option.isSome_iff_exists.mp hlive
    exact .inl ⟨rfl, hmain, hcurrent, Dict.mem_keys_of_get? hl, hworlds, hstays, Manager.currentBranchId_forget ..,
      hsnapshots, Manager.liveBranches_removeBranch ..⟩

/-- `_discard_branch` -/
theorem Isolating.discardBranch {b : String} {r : Except PyError Bool}
    (hr : (discardBranchBody B.hooks b).run s = (r, s')) :
    (r = .ok true ∧ GaveUp live stored b s s') ∨ (r ≠ .ok true ∧ Calm live stored s s') := by
  rw [B.run_discardBranchBody] at hr
  split_ifs at hr with hgets
  · exact hB.discardAnswer hr hgets
  · obtain ⟨rfl, rfl⟩ := Prod.mk.inj hr
    exact .inr ⟨by simp, .refl ..⟩

/-- Leaving a branch for a restored one. -/
theorem Isolating.left {departing restored : String} {r : Except PyError Unit}
    (hr : B.left departing restored s = (r, s')) :
    Calm live stored s s' ∨ r = .ok () ∧ departing ≠ restored ∧ GaveUp live stored departing s s' := by
  unfold ForkableBackend.left at hr
  split_ifs at hr with hleaves hgets
  · rcases hanswer : B.discardAnswer departing s with ⟨answer, s₁⟩
    rw [hanswer] at hr
    obtain ⟨rfl, rfl⟩ := Prod.mk.inj hr
    rcases hB.discardAnswer hanswer hgets with ⟨rfl, hgave⟩ | ⟨-, hquiet⟩
    · exact .inr ⟨rfl, hleaves.2, hgave⟩
    · exact .inl hquiet
  · obtain ⟨rfl, rfl⟩ := Prod.mk.inj hr
    exact .inl (.refl ..)
  · obtain ⟨rfl, rfl⟩ := Prod.mk.inj hr
    exact .inl (.refl ..)

omit hB in
/-- A reading of the clock. -/
theorem Represents.of_unmoved (h : Represents live stored s) {w : W} (hw : Unmoved live stored s.world w) :
    Represents live stored { s with world := w } ∧ view live stored { s with world := w } = view live stored s := by
  have hparents (id : String) : parentOf { s with world := w } id = parentOf s id := rfl
  obtain ⟨hfrozen, hstored⟩ := h.frozen_eq hparents hw.stored
  refine ⟨⟨⟨?_, h.inStep.registered⟩, h.consistent, h.objects, h.named, fun b hb => ?_, h.resources, hstored⟩, ?_⟩
  · show Tracks _ (baseOf live w) s.mgr
    rw [hw.base]
    exact h.inStep.tracks
  · exact h.registry b fun hnone => hb (hw.live ▸ hnone)
  · exact Worlds.ext hw.live hfrozen rfl

omit hB in
/-- The end of a restore positions a branch that is registered. -/
theorem quiet_restoredTo (s : Sys W) (b id : String) (elapsed : ℚ) :
    Calm live stored s { s with mgr := s.mgr.restoredTo b id elapsed } := by
  refine .of_mgr ?_ ?_ ?_
  · exact Manager.currentBranchId_registerBranch ..
  · exact congrArg Dict.keys (Manager.liveBranches_registerBranch ..)
  · unfold Manager.restoredTo Manager.setBranchPosition Manager.registerBranch
    dsimp only
    split <;> rfl

/-- A restore forks a branch from the snapshot and switches to it; the branch that it leaves is discarded, unless it is
the default branch or the backend fails to destroy it. -/
theorem Isolating.restored (hrequests : B.ForksOnRequest) (h : Represents live stored s) {r : Except PyError Bool}
    (hr : B.restored id s = (r, s')) :
    (r ≠ .ok true ∧ Calm live stored s s') ∨ ∃ b acts,
      (acts = [.fork id [b], .switch b] ∧ (r = .ok true ∨ ∃ e, r = .error e) ∨
        acts = [.fork id [b], .switch b, .discard s.mgr.currentBranchId] ∧ r = .ok true) ∧
      Steps defaultBranchId (view live stored s) acts
        ⟨live s'.world, (view live stored s).frozen, s'.mgr.currentBranchId⟩ ∧
      (∀ id, Stays stored s.world s'.world id) ∧ s'.mgr.snapshots = s.mgr.snapshots ∧
      ∀ b, live s'.world b ≠ none → b ∈ s'.mgr.liveBranches.keys := by
  obtain ⟨departing, hdeparting⟩ := Dict.mem_keys_iff.mp h.consistent.current
  have hdepartingId : departing.id = s.mgr.currentBranchId := h.consistent.regular.ids _ _ hdeparting
  have hlookup : s.mgr.getBranchState none = .ok departing := by
    unfold Manager.getBranchState
    dsimp only [Option.getD_none]
    rw [hdeparting]
  unfold ForkableBackend.restored ForkableBackend.switched at hr
  rw [hlookup] at hr
  dsimp only at hr
  rcases hwalk : s.mgr.physicalAncestor id with e | found
  · rw [hwalk] at hr
    obtain ⟨rfl, rfl⟩ := Prod.mk.inj hr
    exact .inl ⟨by simp, .refl ..⟩
  · have hid : id ∈ s.mgr.snapshotGraph.keys := by
      obtain ⟨rfl, -⟩ := h.consistent.regular.physicalAncestor hwalk
      obtain ⟨hmem, -⟩ := Manager.physicalAncestor_ok
        (fun i n hn => (h.consistent.regular.physical i n hn).1) hwalk
      exact Dict.mem_keys_of_get? hmem
    rw [hwalk, hdepartingId] at hr
    set s₁ : Sys W := { s with world := (B.time s.world).2 }
    have hstart : Calm live stored s s₁ := .of_world (hB.time s.world)
    obtain ⟨-, hview⟩ := h.of_unmoved (hB.time s.world)
    rcases hmaterialized : B.materialized id [none] false s₁ with ⟨r₁, s₂⟩
    rw [hmaterialized] at hr
    rcases hB.materialized hmaterialized with ⟨branches, rfl, -, hforked⟩ | ⟨⟨e, rfl⟩, hquiet⟩
    · have hlength : branches.length ≤ 1 := by
        obtain ⟨outcomes, w, hfork, rfl, -⟩ := B.materialized_ok hmaterialized
        rw [List.length_map]
        exact hrequests _ _ _ _ _ hfork
      rcases branches with _ | ⟨branch, _ | ⟨extra, rest⟩⟩
      · -- no branch came to life
        obtain ⟨rfl, rfl⟩ := Prod.mk.inj hr
        have hlive : live s₂.world = live s₁.world := by simpa using hforked.worlds
        have hkeys (b : String) : b ∈ s₂.mgr.liveBranches.keys ↔ b ∈ s₁.mgr.liveBranches.keys := by
          simpa using hforked.keys b
        refine .inl ⟨by simp, hstart.trans ⟨⟨hlive, hforked.stays⟩, hforked.current, fun hs b hb => ?_, hforked.resources⟩⟩
        exact (hkeys b).mpr (hs b (hlive ▸ hb))
      · have hforkStep := hforked.step hid (by simp)
        rw [hview] at hforkStep
        set s₃ : Sys W := { s₂ with mgr := s₂.mgr.switch branch.id } with hs₃
        have hhere : live s₂.world branch.id ≠ none := by
          obtain ⟨e, he⟩ := Option.ne_none_iff_exists'.mp (hforked.known (by simp))
          rw [hforked.worlds, he]
          simp
        have hswitchStep : Step defaultBranchId ⟨live s₂.world, (view live stored s).frozen, s₂.mgr.currentBranchId⟩
            (.switch branch.id) ⟨live s₃.world, (view live stored s).frozen, s₃.mgr.currentBranchId⟩ := .switch hhere
        have hsteps := Steps.cons hforkStep hswitchStep.steps
        have hregistry₃ : ∀ b, live s₃.world b ≠ none → b ∈ s₃.mgr.liveBranches.keys :=
          hforked.registry (hstart.registry h.registry)
        have hstays₃ (id' : String) : Stays stored s.world s₃.world id' :=
          (hstart.unmoved.stored id').trans (hforked.stays id')
        dsimp only [List.map_cons, List.map_nil] at hr
        rcases hleft : B.left s.mgr.currentBranchId branch.id s₃ with ⟨r₄, s₄⟩
        rw [hleft] at hr
        have hend : (∃ e, r₄ = .error e ∧ r = .error e ∧ s' = s₄) ∨
            r₄ = .ok () ∧ r = .ok true ∧ Calm live stored s₄ s' := by
          rcases r₄ with e | ⟨⟩
          · obtain ⟨rfl, rfl⟩ := Prod.mk.inj hr
            exact .inl ⟨e, rfl, rfl, rfl⟩
          · obtain ⟨rfl, rfl⟩ := Prod.mk.inj hr
            refine .inr ⟨rfl, rfl, (Calm.of_world (hB.time s₄.world)).trans (quiet_restoredTo _ _ _ _)⟩
        rcases hB.left hleft with hquiet | ⟨hok, hne, hgave⟩
        · have hquiet' : Calm live stored s₃ s' ∧ (r = .ok true ∨ ∃ e, r = .error e) := by
            rcases hend with ⟨e, -, rfl, rfl⟩ | ⟨-, rfl, hlast⟩
            · exact ⟨hquiet, .inr ⟨e, rfl⟩⟩
            · exact ⟨hquiet.trans hlast, .inl rfl⟩
          refine .inr ⟨branch.id, _, .inl ⟨rfl, hquiet'.2⟩, ?_, fun id' => (hstays₃ id').trans (hquiet'.1.unmoved.stored id'),
            hquiet'.1.resources.trans hforked.resources, hquiet'.1.registry hregistry₃⟩
          rw [hquiet'.1.unmoved.live, hquiet'.1.current]
          exact hsteps
        · rcases hend with ⟨e, he, -⟩ | ⟨-, rfl, hlast⟩
          · rw [hok] at he
            cases he
          · -- the departing branch is live, since the registry knows it
            have hlive : live s₃.world s.mgr.currentBranchId ≠ none := by
              have hknown : s.mgr.currentBranchId ∈ s.mgr.liveBranches.keys := by
                have hkeys := (hforked.keys s.mgr.currentBranchId).mp hgave.known
                rcases hkeys with hmem | hmem
                · exact absurd (List.mem_singleton.mp hmem) hne
                · exact hmem
              obtain ⟨l, hl⟩ := Dict.mem_keys_iff.mp hknown
              obtain ⟨-, base, hbase, -⟩ := h.inStep.tracks.live _ l hl
              have hother : live s₃.world s.mgr.currentBranchId = live s.world s.mgr.currentBranchId := by
                show live s₂.world _ = _
                rw [hforked.worlds]
                dsimp only
                rw [if_neg (by simpa using hne), hstart.unmoved.live]
              rw [hother]
              intro hnone
              unfold baseOf at hbase
              rw [hnone] at hbase
              cases hbase
            have hdiscardStep := hgave.step hlive (view live stored s).frozen
            refine .inr ⟨branch.id, _, .inr ⟨rfl, rfl⟩, ?_, fun id' => ?_, ?_, ?_⟩
            · rw [hlast.unmoved.live, hlast.current]
              exact .cons hforkStep (.cons hswitchStep hdiscardStep.steps)
            · exact ((hstays₃ id').trans (hgave.stays id')).trans (hlast.unmoved.stored id')
            · exact hlast.resources.trans (hgave.resources.trans hforked.resources)
            · exact hlast.registry (hgave.registry hregistry₃)
      · simp at hlength
    · obtain ⟨rfl, rfl⟩ := Prod.mk.inj hr
      exact .inl ⟨by simp, hstart.trans hquiet⟩

end

/-! ### Listings -/

section

variable {s : Sys W}

/-- The live registry shows the live branches. -/
theorem Represents.shows (h : Represents live stored s) :
    ShownAs (view live stored s) (s.mgr.liveBranches.values.map s.mgr.liveObject) := by
  have hobject {b : String} {l : Ref} (hl : s.mgr.liveBranches.get? b = some l) :
      (s.mgr.liveObject l).id = b ∧ (live s.world b).map Prod.fst = some (s.mgr.liveObject l).baseSnapshotId := by
    obtain ⟨-, base, hbase, hat⟩ := h.inStep.tracks.live b l hl
    rw [hat not_false]
    exact ⟨h.named b l hl, hbase⟩
  intro b id
  constructor
  · intro hb
    have hlive : live s.world b ≠ none := by
      intro hnone
      have hb' : (live s.world b).map Prod.fst = some id := hb
      rw [hnone] at hb'
      cases hb'
    obtain ⟨l, hl⟩ := Dict.mem_keys_iff.mp (h.registry b hlive)
    obtain ⟨hid, hbase⟩ := hobject hl
    refine ⟨_, List.mem_map_of_mem (List.mem_map_of_mem (Dict.mem_entries_of_get? hl)), hid, ?_⟩
    exact Option.some.inj (hbase.symm.trans hb)
  · rintro ⟨o, ho, rfl, rfl⟩
    obtain ⟨l, hl, rfl⟩ := List.mem_map.mp ho
    obtain ⟨⟨b, l⟩, hentry, rfl⟩ := List.mem_map.mp hl
    obtain ⟨hid, hbase⟩ := hobject (Dict.get?_of_mem_entries hentry)
    rw [hid]
    exact hbase

/-- `list_branches` returns the live branches. -/
theorem Isolating.listBranches (hB : Isolating B live stored) (h : Represents live stored s) {l : List EnvironmentBranch}
    (hl : ((ForkableEnvironmentManager.listBranches B.hooks).run s).1 = .ok l) : ShownAs (view live stored s) l := by
  have hlisted := hB.listed s.world
  simp only [ForkableEnvironmentManager.listBranches, listBranchesBody, run_withLock, run_bind, ForkableBackend.hooks,
    ForkableBackend.hooksWith, run_tryWorld] at hl
  rcases hlist : B.list s.world with ⟨r, w⟩
  rw [hlist] at hl hlisted
  rcases hlisted with hr | ⟨listing, hr, htrue⟩
  · obtain rfl : r = _ := hr
    simp only [run_afterValue_ok, liveBranches, run_readState] at hl
    obtain rfl := Except.ok.inj hl
    exact h.shows
  · obtain rfl : r = _ := hr
    simp only [run_afterValue_ok, run_bind, run_newLiveObjects, run_withState, run_peek,
      run_each_mgr (run_reconcile (W := W)), run_each_mgr (run_dropStale (W := W))] at hl
    obtain rfl := Except.ok.inj hl
    -- the loops do not touch the objects
    set refs := (Manager.newLiveObjects listing s.mgr).1 with hrefs
    have hobjects : refs.map (Manager.newLiveObjects listing s.mgr).2.liveObject = listing :=
      Manager.objects_newLiveObjects s.mgr listing
    have hkept (stale : List String) (m : Manager) :
        (stale.foldl Manager.dropStale (refs.foldl Manager.reconcile m)).liveObject = m.liveObject := by
      funext l
      unfold Manager.liveObject
      rw [Manager.liveObjects_foldl_dropStale, (Manager.foldl_reconcile refs m).2.2]
    rw [hkept]
    show ShownAs _ (refs.map (Manager.newLiveObjects listing s.mgr).2.liveObject)
    rw [hobjects]
    exact htrue.exact

end

end StateFork
