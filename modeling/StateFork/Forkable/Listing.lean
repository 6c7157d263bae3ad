import StateFork.Forkable.Contract

/-!
# What a listing reconciles

`_list_branches` makes the live registry the listing, registers what it lists and positions it, and drops the
records of branches that were live before and are not listed. A record whose branch was not live before is never
dropped (`Manager.Orphan`); a restore leaves one behind when its departing branch has already vanished from the live
registry. Without such records a listing reconciles completely, and listing the same again changes nothing.
-/

namespace StateFork

open Conc Conc.Prog

/-! ### The loops of a listing -/

namespace Manager

variable {m : Manager} {b : String}

/-- The new objects are what the backend listed. -/
theorem objects_newLiveObjects (m : Manager) (listing : List EnvironmentBranch) :
    (newLiveObjects listing m).1.map (newLiveObjects listing m).2.liveObject = listing := by
  induction listing generalizing m with
  | nil => rfl
  | cons branch listing ih =>
    have hkept := (adopted_newLiveObjects (m.newLiveObject branch).2 listing).kept (m.newLiveObject branch).1
      (Nat.lt_succ_self _)
    show (newLiveObjects listing (m.newLiveObject branch).2).2.liveObject (m.newLiveObject branch).1 :: _ = _
    rw [hkept, liveObject_newLiveObject_self]
    exact congrArg (branch :: ·) (ih _)

theorem unchanged_registerBranch (hregular : Regular m) {b' : String} {base : Option String} (hb : b ≠ b') :
    m.Unchanged b (m.registerBranch b' base).2 := by
  have hbranch : (m.registerBranch b' base).2.branches.get? b = m.branches.get? b := by
    unfold registerBranch
    cases m.branches.get? b' with
    | some r => rfl
    | none => exact Dict.get?_set_of_ne _ _ hb
  exact ⟨hbranch, congrArg (Dict.get? · b) (m.liveBranches_registerBranch b' base),
    fun r hr => (hregular.get?_registerBranch_of_get? hr).2, fun l _ => m.liveObject_registerBranch b' base l⟩

theorem unchanged_reconcile (hregular : Regular m) {r : Ref} (hb : b ≠ r.id) : m.Unchanged b (m.reconcile r) := by
  unfold reconcile
  dsimp only
  generalize (if (m.liveObject r).baseSnapshotId = "" then none else some (m.liveObject r).baseSnapshotId) = base
  have hregistered : m.Unchanged b (m.registerBranch r.id base).2 := unchanged_registerBranch hregular hb
  split_ifs
  · exact hregistered
  · exact hregistered.trans (unchanged_setBranchPosition (hregular.registerBranch _ _) hb)

theorem unchanged_dropStale (hregular : Regular m) {stale : String} (hb : b ≠ stale) :
    m.Unchanged b (m.dropStale stale) := by
  unfold dropStale
  split_ifs
  · exact .refl b m
  · unfold removeBranch
    cases hgone : m.branches.get? stale with
    | none => exact .refl b m
    | some r₀ =>
      refine ⟨Dict.get?_erase_of_ne _ hb, rfl, fun r hr => ?_, fun _ _ => rfl⟩
      show (m.modifyRecord r₀ fun s => { s with active := false }).record r = m.record r
      rw [hregular.record_modifyRecord hgone hr, if_neg hb]

/-- A loop that leaves a branch alone. -/
theorem Unchanged.foldl {α : Type} {f : Manager → α → Manager} {l : List α}
    (hregular : ∀ m a, Regular m → Regular (f m a)) (hf : ∀ m, ∀ a ∈ l, Regular m → m.Unchanged b (f m a))
    (hm : Regular m) : m.Unchanged b (l.foldl f m) := by
  induction l generalizing m with
  | nil => exact .refl b m
  | cons a l ih =>
    exact (hf m a (List.mem_cons_self ..) hm).trans
      (ih (fun m a' ha' => hf m a' (List.mem_cons_of_mem _ ha')) (hregular m a hm))

/-- A loop that has nothing to do. -/
theorem foldl_of_fixed {α : Type} {f : Manager → α → Manager} {l : List α} (hf : ∀ a ∈ l, f m a = m) : l.foldl f m = m := by
  induction l with
  | nil => rfl
  | cons a l ih =>
    rw [List.foldl_cons, hf a (List.mem_cons_self ..)]
    exact ih fun a' ha' => hf a' (List.mem_cons_of_mem _ ha')

/-! ### What a complete listing establishes -/

/-- The live registry is the listing, in its order. -/
def LiveIs (m : Manager) (listing : List EnvironmentBranch) : Prop :=
  m.liveBranches.keys = listing.map EnvironmentBranch.id ∧ m.liveBranches.values.map m.liveObject = listing

/-- The branch has a record; if the listing names its base, then the record is positioned there, and the next snapshot of
the branch is taken to follow it. -/
def SettledAt (m : Manager) (branch : EnvironmentBranch) : Prop :=
  ∃ r, m.branches.get? branch.id = some r ∧
    (branch.baseSnapshotId ≠ "" →
      (m.record r).currentSnapshotId = some branch.baseSnapshotId ∧
        (m.record r).lastSnapshotId = some branch.baseSnapshotId)

theorem SettledAt.of_unchanged {m' : Manager} {branch : EnvironmentBranch} (h : m.SettledAt branch)
    (hunchanged : m.Unchanged branch.id m') : m'.SettledAt branch := by
  obtain ⟨r, hr, hposition⟩ := h
  refine ⟨r, hunchanged.branch.trans hr, fun hbase => ?_⟩
  rw [hunchanged.record r hr]
  exact hposition hbase

theorem settledAt_reconcile (hregular : Regular m) (haligned : m.Aligned) {r : Ref} (hid : (m.liveObject r).id = r.id) :
    (m.reconcile r).SettledAt (m.liveObject r) := by
  unfold reconcile SettledAt
  rw [hid]
  dsimp only
  generalize hbase : (if (m.liveObject r).baseSnapshotId = "" then none else some (m.liveObject r).baseSnapshotId) = base
  have hself := m.get?_registerBranch r.id base
  split_ifs with hsettled
  · refine ⟨_, hself, fun hne => ?_⟩
    have hregistered : (m.registerBranch r.id base).2.Aligned := haligned.registerBranch hregular r.id rfl
    have hcurrent := hsettled.resolve_left hne
    exact ⟨hcurrent, (hregistered r.id _ hself).symm.trans hcurrent⟩
  · obtain ⟨hr, hrecord⟩ := record_setBranchPosition_self hself (some (m.liveObject r).baseSnapshotId)
    refine ⟨_, hr, fun _ => ?_⟩
    rw [hrecord]
    exact ⟨rfl, rfl⟩

/-- A branch that stands where it is listed is left alone. -/
theorem reconcile_of_settledAt {r : Ref} (hid : (m.liveObject r).id = r.id) (h : m.SettledAt (m.liveObject r)) :
    m.reconcile r = m := by
  obtain ⟨state, hstate, hposition⟩ := h
  rw [hid] at hstate
  have hregister (base : Option String) : m.registerBranch r.id base = (state, m) := by
    unfold registerBranch
    rw [hstate]
  unfold reconcile
  dsimp only
  rw [hregister]
  by_cases hbase : (m.liveObject r).baseSnapshotId = ""
  · exact if_pos (.inl hbase)
  · exact if_pos (.inr (hposition hbase).1)

/-- After the first loop every listed branch stands where it is listed. -/
theorem settledAt_foldl_reconcile (hregular : Regular m) (haligned : m.Aligned) {refs : List Ref} (hdistinct : (refs.map Ref.id).Nodup)
    (hids : ∀ r ∈ refs, (m.liveObject r).id = r.id) {r : Ref} (hr : r ∈ refs) :
    (refs.foldl reconcile m).SettledAt (m.liveObject r) := by
  induction refs generalizing m with
  | nil => exact absurd hr List.not_mem_nil
  | cons r₀ refs ih =>
    rw [List.map_cons, List.nodup_cons] at hdistinct
    have hobjects (l : Ref) : (m.reconcile r₀).liveObject l = m.liveObject l := by
      unfold liveObject
      rw [(m.reconcile_frame r₀).1]
    rcases List.mem_cons.mp hr with rfl | hr'
    · have hsettled := settledAt_reconcile hregular haligned (hids r (List.mem_cons_self ..))
      refine hsettled.of_unchanged (Unchanged.foldl (fun m r hm => hm.reconcile r) (fun m r' hr' hm => ?_)
        (hregular.reconcile r))
      refine unchanged_reconcile hm fun he => hdistinct.1 ?_
      rw [← hids r (List.mem_cons_self ..), he]
      exact List.mem_map_of_mem hr'
    · rw [List.foldl_cons, ← hobjects r]
      exact ih (hregular.reconcile r₀) (haligned.reconcile hregular r₀ rfl fun _ => rfl) hdistinct.2
        (fun r' hr'' => (congrArg EnvironmentBranch.id (hobjects r')).trans (hids r' (List.mem_cons_of_mem _ hr''))) hr'

/-- The objects that a listing makes carry the ids of their references. -/
theorem id_newLiveObjects {listing : List EnvironmentBranch} {r : Ref} (hr : r ∈ (newLiveObjects listing m).1) :
    ((newLiveObjects listing m).2.liveObject r).id = r.id := by
  obtain ⟨o, -, hid, hobject⟩ := (adopted_newLiveObjects m listing).objects r hr
  rw [hobject, hid]

theorem liveIs_relist (m : Manager) {listing : List EnvironmentBranch}
    (hdistinct : (listing.map EnvironmentBranch.id).Nodup) : (m.relist listing).LiveIs listing := by
  have ha := adopted_newLiveObjects m listing
  have hobjects := objects_newLiveObjects m listing
  unfold LiveIs relist
  dsimp only
  set refs := (newLiveObjects listing m).1
  set m₁ := (newLiveObjects listing m).2
  obtain ⟨-, hlive, hkept⟩ := foldl_reconcile refs (m₁.replaceLive refs)
  have hlive' := (foldl_dropStale (m₁.liveBranches.keys.filter fun b => b ∉ refs.map Ref.id)
    (refs.foldl reconcile (m₁.replaceLive refs))).2.2.1
  have hobject (l : Ref) : ((m₁.liveBranches.keys.filter fun b => b ∉ refs.map Ref.id).foldl dropStale
      (refs.foldl reconcile (m₁.replaceLive refs))).liveObject l = m₁.liveObject l := by
    unfold liveObject
    rw [liveObjects_foldl_dropStale, hkept]
    rfl
  have hentries : (Dict.ofList (refs.map fun r => (r.id, r))).entries = refs.map fun r => (r.id, r) := by
    refine Dict.entries_ofList ?_
    rw [List.map_map]
    show (refs.map Ref.id).Nodup
    rw [ha.ids]
    exact hdistinct
  have hregistry : (m₁.replaceLive refs).liveBranches = Dict.ofList (refs.map fun r => (r.id, r)) := rfl
  rw [hlive', hlive, hregistry]
  unfold Dict.keys Dict.values
  rw [hentries]
  constructor
  · rw [List.map_map]
    exact ha.ids
  · rw [List.map_map, List.map_map, ← hobjects]
    exact List.map_congr_left fun l _ => hobject l

theorem settledAt_relist (hregular : Regular m) (haligned : m.Aligned) {listing : List EnvironmentBranch}
    (hdistinct : (listing.map EnvironmentBranch.id).Nodup) :
    ∀ branch ∈ listing, (m.relist listing).SettledAt branch := by
  intro branch hbranch
  have ha := adopted_newLiveObjects m listing
  have hobjects := objects_newLiveObjects m listing
  have hadopted : Regular (newLiveObjects listing m).2 := by
    rw [ha.rest]
    exact hregular.congr rfl rfl rfl
  have hids (r : Ref) (hr : r ∈ (newLiveObjects listing m).1) := id_newLiveObjects hr
  unfold relist
  dsimp only
  set refs := (newLiveObjects listing m).1
  set m₁ := (newLiveObjects listing m).2
  have hreplaced : Regular (m₁.replaceLive refs) := hadopted.congr rfl rfl rfl
  have hbranches : (m₁.replaceLive refs).branches = m.branches ∧ (m₁.replaceLive refs).records = m.records := by
    unfold replaceLive
    rw [ha.rest]
    exact ⟨rfl, rfl⟩
  rw [← hobjects] at hbranch
  obtain ⟨r, hr, rfl⟩ := List.mem_map.mp hbranch
  have hsettled : (refs.foldl reconcile (m₁.replaceLive refs)).SettledAt (m₁.liveObject r) :=
    settledAt_foldl_reconcile hreplaced (haligned.congr hbranches.1 hbranches.2) (by rw [ha.ids]; exact hdistinct) hids hr
  refine hsettled.of_unchanged (Unchanged.foldl (fun m b hm => hm.dropStale b) (fun m b hb hm => ?_)
    (Regular.foldl (fun m r hm => hm.reconcile r) refs hreplaced))
  refine unchanged_dropStale hm fun he => ?_
  rw [hids r hr] at he
  exact (of_decide_eq_true (List.mem_filter.mp hb).2) (he ▸ List.mem_map_of_mem hr)

/-- Listing the same again makes new live objects and changes nothing else. -/
theorem relist_again {listing : List EnvironmentBranch} (hlive : m.liveBranches.keys = listing.map EnvironmentBranch.id)
    (hsettled : ∀ branch ∈ listing, m.SettledAt branch) :
    ∃ liveObjects liveBranches, m.relist listing = { m with liveObjects, liveBranches } := by
  have ha := adopted_newLiveObjects m listing
  have hids (r : Ref) (hr : r ∈ (newLiveObjects listing m).1) := id_newLiveObjects hr
  have hobjects := objects_newLiveObjects m listing
  unfold relist
  dsimp only
  set refs := (newLiveObjects listing m).1
  set m₁ := (newLiveObjects listing m).2 with hm₁
  have hrest : m₁ = { m with liveObjects := m₁.liveObjects } := ha.rest
  have hstays (r : Ref) (hr : r ∈ refs) : (m₁.replaceLive refs).reconcile r = m₁.replaceLive refs := by
    refine reconcile_of_settledAt (hids r hr) ?_
    have hmem : m₁.liveObject r ∈ listing := by
      rw [← hobjects]
      exact List.mem_map_of_mem hr
    obtain ⟨state, hstate, hposition⟩ := hsettled _ hmem
    refine ⟨state, ?_, fun hbase => ?_⟩
    · show m₁.branches.get? _ = _
      rw [hrest]
      exact hstate
    · show (m₁.record state).currentSnapshotId = _ ∧ (m₁.record state).lastSnapshotId = _
      rw [hrest]
      exact hposition hbase
  have hloop : refs.foldl reconcile (m₁.replaceLive refs) = m₁.replaceLive refs := foldl_of_fixed hstays
  have hstale : (m₁.liveBranches.keys.filter fun b => b ∉ refs.map Ref.id) = [] := by
    have hkeys : m₁.liveBranches.keys = refs.map Ref.id := by
      rw [ha.ids, ← hlive, hrest]
    rw [hkeys]
    simp
  rw [hloop, hstale]
  refine ⟨m₁.liveObjects, (m₁.replaceLive refs).liveBranches, ?_⟩
  show m₁.replaceLive refs = _
  unfold replaceLive
  rw [hrest]

/-- A record that is only reachable by name: its branch is not live, nor the default or the current one. -/
def Orphan (m : Manager) (b : String) : Prop :=
  b ∈ m.branches.keys ∧ b ∉ m.liveBranches.keys ∧ b ≠ defaultBranchId ∧ b ≠ m.currentBranchId

/-- What `list_branches` is for. -/
structure Reconciled (m : Manager) (listing : List EnvironmentBranch) : Prop where
  live : m.LiveIs listing
  records : ∀ b, b ∈ m.branches.keys ↔ b ∈ listing.map EnvironmentBranch.id ∨ b = defaultBranchId ∨ b = m.currentBranchId
  positions : ∀ branch ∈ listing, m.SettledAt branch
  /-- Listing the same again only replaces the live objects by equal ones. -/
  again : (m.relist listing).LiveIs listing ∧
    ∃ liveObjects liveBranches, m.relist listing = { m with liveObjects, liveBranches }

/-- A listing reconciles if and only if it lists every orphan. -/
theorem reconciled_relist_iff (hc : Consistent m) (haligned : m.Aligned) {listing : List EnvironmentBranch}
    (hdistinct : (listing.map EnvironmentBranch.id).Nodup) :
    (m.relist listing).Reconciled listing ↔ ∀ b, m.Orphan b → b ∈ listing.map EnvironmentBranch.id := by
  obtain ⟨hkeys, hlive, hcurrent, -⟩ := m.relist_spec listing
  constructor
  · rintro ⟨-, hrecords, -, -⟩ b ⟨hb, hdead, hmain, hother⟩
    have hkept : b ∈ (m.relist listing).branches.keys := (hkeys b).mpr (.inr ⟨hb, fun h => absurd h hdead⟩)
    rw [hrecords, hcurrent] at hkept
    rcases hkept with h | h | h
    · exact h
    · exact absurd h hmain
    · exact absurd h hother
  · intro horphans
    have hlists := liveIs_relist m hdistinct
    have hsettled := settledAt_relist hc.regular haligned hdistinct
    constructor
    case live => exact hlists
    case records =>
      intro b
      rw [hkeys, hcurrent]
      constructor
      · rintro (h | ⟨hb, hspared⟩)
        · exact .inl h
        · by_cases hdead : b ∈ m.liveBranches.keys
          · exact .inr (hspared hdead)
          · by_cases hother : b = defaultBranchId ∨ b = m.currentBranchId
            · exact .inr hother
            · rw [not_or] at hother
              exact .inl (horphans b ⟨hb, hdead, hother⟩)
      · rintro (h | h | h)
        · exact .inl h
        · subst h
          exact .inr ⟨hc.main, fun _ => .inl rfl⟩
        · subst h
          exact .inr ⟨hc.current, fun _ => .inr rfl⟩
    case positions => exact hsettled
    case again => exact ⟨liveIs_relist _ hdistinct, relist_again hlists.1 hsettled⟩

/-! ### Which operations leave orphans behind -/

/-- There are no orphans. -/
def NoOrphans (m : Manager) : Prop :=
  ∀ b ∈ m.branches.keys, b ∈ m.liveBranches.keys ∨ b = defaultBranchId ∨ b = m.currentBranchId

namespace NoOrphans

variable {m' : Manager}

theorem not_orphan (h : m.NoOrphans) : ¬ m.Orphan b := by
  rintro ⟨hb, hdead, hmain, hother⟩
  rcases h b hb with h | h | h
  · exact hdead h
  · exact hmain h
  · exact hother h

theorem congr (h : m.NoOrphans) (hbranches : m'.branches = m.branches) (hlive : m'.liveBranches = m.liveBranches)
    (hcurrent : m'.currentBranchId = m.currentBranchId) : m'.NoOrphans := by
  unfold NoOrphans
  rw [hbranches, hlive, hcurrent]
  exact h

theorem relist (h : m.NoOrphans) (listing : List EnvironmentBranch) : (m.relist listing).NoOrphans := by
  obtain ⟨hkeys, hlive, hcurrent, -⟩ := m.relist_spec listing
  intro b hb
  rw [hlive, hcurrent]
  rcases (hkeys b).mp hb with hlisted | ⟨hold, hspared⟩
  · exact .inl hlisted
  · rcases h b hold with hdead | hother
    · exact .inr (hspared hdead)
    · exact .inr hother

theorem registerOutcome (h : m.NoOrphans) (activate : Bool) (outcome : EnvironmentBranch × ℚ) :
    (m.registerOutcome activate outcome).NoOrphans := by
  have hkeys : (m.registerOutcome activate outcome).branches = ((m.newLiveObject outcome.1).2.registerBranch outcome.1.id
      (some outcome.1.baseSnapshotId)).2.branches := by
    rw [registerOutcome_eq]
    rfl
  intro b hb
  rw [hkeys, mem_keys_registerBranch] at hb
  rw [liveBranches_registerOutcome, Dict.mem_keys_set, (Grows.registerOutcome m activate outcome).current]
  rcases hb with hb | hb
  · exact .inl (.inl hb)
  · rcases h b hb with hlive | hother
    · exact .inl (.inr hlive)
    · exact .inr hother

theorem forget (h : m.NoOrphans) (gone : String) : (m.forget gone).NoOrphans := by
  intro b hb
  obtain ⟨hne, hb⟩ := Consistent.mem_keys_forget.mp hb
  rw [currentBranchId_forget]
  unfold Manager.forget
  rw [liveBranches_removeBranch]
  rcases h b hb with hlive | hother
  · exact .inl (Dict.mem_keys_erase.mpr ⟨hne, hlive⟩)
  · exact .inr hother

/-- Switching away from the default branch or a live one. -/
theorem switch (h : m.NoOrphans) (hleaves : m.currentBranchId = defaultBranchId ∨ m.currentBranchId ∈ m.liveBranches.keys)
    (b : String) : (m.switch b).NoOrphans := by
  intro b' hb'
  rcases h b' hb' with hlive | hmain | hcurrent
  · exact .inl hlive
  · exact .inr (.inl hmain)
  · rw [← hcurrent] at hleaves
    rcases hleaves with hmain | hlive
    · exact .inr (.inl hmain)
    · exact .inl hlive

theorem setBranchPosition (h : m.NoOrphans) (snapshotId : Option String) :
    (m.setBranchPosition m.currentBranchId snapshotId).NoOrphans := by
  intro b hb
  have hcurrent : (m.setBranchPosition m.currentBranchId snapshotId).currentBranchId = m.currentBranchId :=
    currentBranchId_registerBranch _ _ _
  rw [liveBranches_setBranchPosition, hcurrent]
  rcases mem_keys_setBranchPosition.mp hb with rfl | hb
  · exact .inr (.inr rfl)
  · exact h b hb

/-- Outside of a restore no update leaves an orphan behind. -/
theorem update (h : m.NoOrphans) (hupdate : Manager.Update false m m') : m'.NoOrphans := by
  cases hupdate with
  | bench stats => exact h.congr rfl rfl rfl
  | cleaned => exact h.congr rfl rfl rfl
  | logged r command counted => exact h.congr rfl rfl rfl
  | registered snapshotId resource => exact h.congr rfl rfl rfl
  | listed listing => exact h.relist listing
  | forked outcome active => exact h.registerOutcome _ outcome
  | committed b state snapshotId parentId =>
    exact h.congr (branches_commit ..) (liveBranches_commit ..) (currentBranchId_commit ..)
  | recorded snapshotId parentId => exact h.congr rfl rfl rfl
  | switched registered restores => exact absurd restores (by simp)
  | stashed main notMain =>
    intro b hb
    obtain ⟨hne, hb⟩ := Consistent.mem_keys_forget.mp hb
    rw [currentBranchId_forget]
    unfold Manager.forget
    rw [liveBranches_removeBranch]
    rcases h b hb with hlive | hmain | hcurrent
    · exact .inl (Dict.mem_keys_erase.mpr ⟨hne, hlive⟩)
    · exact .inr (.inl hmain)
    · exact absurd hcurrent hne
  | forgotten => exact h.forget _
  | positioned b snapshotId restores => exact absurd restores (by simp)

theorem seeded (root resource : String) : (Manager.seeded root resource).NoOrphans := by
  intro b hb
  have hkeys : (Manager.seeded root resource).branches = Dict.empty.set defaultBranchId ⟨defaultBranchId, 0⟩ := rfl
  rw [hkeys, Dict.mem_keys_set] at hb
  rcases hb with hb | hb
  · exact .inr (.inl hb)
  · exact absurd hb List.not_mem_nil

end NoOrphans

end Manager

namespace ForkableBackend

open EnvironmentManager ForkableEnvironmentManager

variable {W : Type} {B : ForkableBackend W} {s : Sys W}

/-- The branch that a restore would depart from is the default branch or a live one. -/
def CurrentLive (m : Manager) : Prop := m.currentBranchId = defaultBranchId ∨ m.currentBranchId ∈ m.liveBranches.keys

theorem noOrphans_registerOutcomes {activate : Bool} (outcomes : List (EnvironmentBranch × ℚ)) {m : Manager}
    (h : m.NoOrphans) (hlive : CurrentLive m) :
    (outcomes.foldl (Manager.registerOutcome activate) m).NoOrphans ∧
      CurrentLive (outcomes.foldl (Manager.registerOutcome activate) m) := by
  induction outcomes generalizing m with
  | nil => exact ⟨h, hlive⟩
  | cons o outcomes ih =>
    refine ih (h.registerOutcome activate o) ?_
    unfold CurrentLive
    rw [(Grows.registerOutcome m activate o).current, Manager.liveBranches_registerOutcome, Dict.mem_keys_set]
    exact hlive.imp id .inr

theorem noOrphans_left {departing restored : String} {s' : Sys W} {e : Except PyError Unit} (h : s.mgr.NoOrphans)
    (hleft : B.left departing restored s = (e, s')) : s'.mgr.NoOrphans := by
  have hforgets : s'.mgr = s.mgr ∨ s'.mgr = s.mgr.forget departing := by
    have hs' : s' = (B.left departing restored s).2 := (congrArg Prod.snd hleft).symm
    rw [hs']
    unfold left discardAnswer
    split_ifs
    · rcases B.discard departing s.world with ⟨e | _ | _, w⟩
      · exact .inl rfl
      · exact .inl rfl
      · exact .inr rfl
    · exact .inl rfl
    · exact .inl rfl
  rcases hforgets with hsame | hforgot
  · rw [hsame]
    exact h
  · rw [hforgot]
    exact h.forget departing

theorem noOrphans_switched (h : s.mgr.NoOrphans) (hlive : CurrentLive s.mgr) (snapshotId departing : String) :
    (B.switched snapshotId departing s).2.mgr.NoOrphans := by
  unfold switched
  dsimp only
  have hmaterialized :
      (B.materialized snapshotId [none] false { s with world := (B.time s.world).2 }).2.mgr.NoOrphans ∧
        CurrentLive (B.materialized snapshotId [none] false { s with world := (B.time s.world).2 }).2.mgr := by
    unfold materialized
    split
    · exact ⟨h, hlive⟩
    · exact noOrphans_registerOutcomes _ h hlive
  rcases hm : B.materialized snapshotId [none] false { s with world := (B.time s.world).2 } with
    ⟨e | ⟨_ | ⟨branch, rest⟩⟩, s₁⟩
  · rw [hm] at hmaterialized
    exact hmaterialized.1
  · rw [hm] at hmaterialized
    exact hmaterialized.1
  · rw [hm] at hmaterialized
    have hswitched : ({ s₁ with mgr := s₁.mgr.switch branch.id } : Sys W).mgr.NoOrphans :=
      hmaterialized.1.switch hmaterialized.2 branch.id
    dsimp only
    rcases hleft : B.left departing branch.id { s₁ with mgr := s₁.mgr.switch branch.id } with ⟨e | _, s₂⟩
    · exact noOrphans_left hswitched hleft
    · have hleaves : s₂.mgr.NoOrphans := noOrphans_left hswitched hleft
      exact hleaves

/-- A restore leaves no orphan behind if it departs from the default branch or a live one. -/
theorem noOrphans_restored (h : s.mgr.NoOrphans) (hlive : CurrentLive s.mgr) (snapshotId : String) :
    (B.restored snapshotId s).2.mgr.NoOrphans := by
  unfold restored
  split
  · exact h
  · next departing _ =>
    split
    · exact h
    · have hswitched := noOrphans_switched (B := B) h hlive snapshotId departing.id
      split
      · next hs => rw [hs] at hswitched; exact hswitched
      · next hs => rw [hs] at hswitched; exact hswitched
      · next elapsed s₁ hs =>
        rw [hs] at hswitched
        have hlogged : (s₁.mgr.addEntry "restore" snapshotId elapsed s₁.mgr.currentBranchId).NoOrphans :=
          hswitched.congr rfl rfl rfl
        exact hlogged.setBranchPosition (some snapshotId)

theorem noOrphans_prog (hc : Consistent s.mgr) (h : s.mgr.NoOrphans) {op : PublicOp}
    (hlive : op.restoring = true → CurrentLive s.mgr) : ((PublicOp.prog B.hooks op).run s).2.mgr.NoOrphans := by
  cases hop : op.restoring with
  | false =>
    have hupdates : Manager.Updates false s.mgr ((PublicOp.prog B.hooks op).run s).2.mgr := by
      rw [← hop]
      exact B.updates_prog op hc.regular hc.main
    exact hupdates.invariant (fun _ _ hupdate hm => hm.update hupdate) h
  | true =>
    obtain ⟨id, rfl⟩ := PublicOp.eq_restore hop
    show ((Outcome.flag <$> restore B.hooks.toHooks id).run s).2.mgr.NoOrphans
    rw [run_map, B.run_restore id hc.regular]
    exact noOrphans_restored h (hlive hop) id

variable (B) in
/-- Every restore of the run departs from the default branch or a live one. -/
def DepartsLive : List PublicOp → Sys W → Prop
  | [], _ => True
  | op :: ops, s =>
    (op.restoring = true → CurrentLive s.mgr) ∧ DepartsLive ops ((PublicOp.prog B.hooks op).run s).2

theorem noOrphans_runOps (ops : List PublicOp) (hc : Consistent s.mgr) (h : s.mgr.NoOrphans)
    (hdeparts : B.DepartsLive ops s) : (runOps B.hooks ops s).mgr.NoOrphans := by
  induction ops generalizing s with
  | nil => exact h
  | cons op ops ih => exact ih (consistent_prog hc op) (noOrphans_prog hc h hdeparts.1) hdeparts.2

end ForkableBackend

open ForkableBackend ForkableEnvironmentManager in
/-- After any operations, a listing with distinct ids reconciles the manager with it if and only if it lists every
orphan; and there are none if every restore departed from the default branch or a live one. -/
theorem listBranches_reconciles_iff {W : Type} (B : ForkableBackend W) (s₀ : Sys W) (h₀ : Consistent s₀.mgr)
    (haligned₀ : s₀.mgr.Aligned) (hclean₀ : s₀.mgr.NoOrphans) (ops : List PublicOp) (listing : List EnvironmentBranch) (w : W)
    (hlist : B.list (runOps B.hooks ops s₀).world = (.ok (some listing), w))
    (hdistinct : (listing.map EnvironmentBranch.id).Nodup) :
    let s := runOps B.hooks ops s₀
    let s' := ((PublicOp.prog B.hooks .listBranches).run s).2
    (s'.mgr.Reconciled listing ↔ ∀ b, s.mgr.Orphan b → b ∈ listing.map EnvironmentBranch.id) ∧
      (B.DepartsLive ops s₀ → s'.mgr.Reconciled listing) := by
  intro s s'
  have hc : Consistent s.mgr := consistent_runOps ops h₀
  have hrun : s'.mgr = s.mgr.relist listing := by
    show ((Outcome.branches <$> listBranches B.hooks).run s).2.mgr = _
    rw [run_map, hooks, (B.run_listBranches _ s).1]
    unfold afterListing
    rw [hlist]
  rw [hrun]
  have hiff := Manager.reconciled_relist_iff hc (aligned_runOps ops h₀ haligned₀) hdistinct
  refine ⟨hiff, fun hdeparts => hiff.mpr fun b hb => ?_⟩
  exact absurd hb (noOrphans_runOps ops h₀ hclean₀ hdeparts).not_orphan

open ForkableEnvironmentManager in
/-- The branch of a restore, which another manager destroys before the listing. -/
theorem listBranches_reconciles_raided :
    ((PublicOp.prog (Fleet.backend false).hooks .listBranches).run
      (runOps (Fleet.backend false).hooks [.restore "base"] (Fleet.start ["3f2a"] [["3f2a"]]))).2.mgr.Reconciled
      [⟨"main", "base", "running"⟩] := by
  have hlist : ((Fleet.backend false).list (runOps (Fleet.backend false).hooks [.restore "base"]
      (Fleet.start ["3f2a"] [["3f2a"]])).world).1 = .ok (some [⟨"main", "base", "running"⟩]) := by decide +kernel
  exact (listBranches_reconciles_iff (Fleet.backend false) (Fleet.start ["3f2a"] [["3f2a"]]) (.seeded "base" "base")
    (.seeded "base" "base") (.seeded "base" "base") [.restore "base"] [⟨"main", "base", "running"⟩] _ (Prod.ext hlist rfl)
    (by decide)).2 ⟨fun _ => .inl rfl, trivial⟩

open ForkableEnvironmentManager in
/-- The record of a branch that had vanished before the current branch moved away from it survives every listing. -/
theorem not_reconciled_staleRun :
    let s := runOps (Fleet.backend false).hooks staleRun staleStart
    let s' := ((PublicOp.prog (Fleet.backend false).hooks .listBranches).run s).2
    ((Fleet.backend false).list s.world).1 =
        .ok (some [⟨"main", "base", "running"⟩, ⟨"b07d", "base", "running"⟩]) ∧
      ¬ s'.mgr.Reconciled [⟨"main", "base", "running"⟩, ⟨"b07d", "base", "running"⟩] ∧
      s'.mgr.branches.keys = ["main", "3f2a", "b07d"] ∧ s'.mgr.currentBranchId = "b07d" := by
  refine ⟨by decide +kernel, fun h => ?_, by decide +kernel, by decide +kernel⟩
  have hstale := (h.records "3f2a").mp (by decide +kernel)
  exact absurd hstale (by decide +kernel)

end StateFork
