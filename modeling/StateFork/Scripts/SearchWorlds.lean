import StateFork.Forkable.WorldRuns
import StateFork.Scripts.SearchWorkflow

/-!
# What the search does to the branches

The search runs on branching worlds. What each query means for them is `Query.Means`, and a manager in front of a
backend that isolates its branches answers so (`answer_means`). On worlds, whatever the candidates print and whatever
fails, a generation touches its own candidates only, and the checkpoint of its winner stands on the frontier. The
generations of a search therefore form a line of descent that nothing later changes (`search_keeps_lineage`).
-/

namespace StateFork.SearchWorkflow

open Conc Conc.Prog Branching ForkableEnvironmentManager

variable {W E : Type}

/-! ### What the queries mean -/

/-- A branch that is asked for by name gets that name, as `_core_fork` documents. -/
def NamesAsAsked (B : ForkableBackend W) : Prop :=
  ∀ (snapshotId : String) (ids : List String) (w : W) (outcomes : List (EnvironmentBranch × ℚ)) (w' : W),
    B.fork snapshotId (ids.map some) w = (.ok outcomes, w') → ∀ o ∈ outcomes, o.1.id ∈ ids

/-- The effect of a query on the worlds, by its answer. -/
def Query.Means : (q : Query) → Except PyError q.Answer → Worlds String String E → Worlds String String E → Prop
  | .fork snapshotId ids, _, v, v' =>
    v'.frozen = v.frozen ∧ v'.current = v.current ∧
      ∀ b, v'.live b = v.live b ∨ b ∈ ids ∧ v.live b = none ∧ ∃ e, v'.live b = some (snapshotId, e)
  | .execOnBranch b _ _, _, v, v' => v' = v ∨ ∃ base e e', v.live b = some (base, e) ∧
      v' = { v with live := Function.update v.live b (some (base, e')) }
  | .snapshotBranch b, r, v, v' =>
    (∃ id base e, r = .ok (some id) ∧ v.live b = some (base, e) ∧ v.frozen id = none ∧
      v' = { v with
        live := Function.update v.live b (some (id, e))
        frozen := Function.update v.frozen id (some (some base, e)) }) ∨
      (∀ id, r ≠ .ok (some id)) ∧ v' = v
  | .parkBranch b, r, v, v' =>
    (∃ id base e, r = .ok (some id) ∧ v.live b = some (base, e) ∧ v.frozen id = none ∧
      v' = { v with
        live := Function.update v.live b none
        frozen := Function.update v.frozen id (some (some base, e))
        current := if b = v.current then defaultBranchId else v.current }) ∨
      (∀ id, r ≠ .ok (some id)) ∧ v' = v
  | .discardBranch b, r, v, v' =>
    r = .ok true ∧ v' = { v with live := Function.update v.live b none } ∨ r ≠ .ok true ∧ v' = v
  | .listBranches, r, v, v' =>
    v' = v ∧ ∀ l : List EnvironmentBranch, r = .ok l → ∀ b, b ∈ l.map EnvironmentBranch.id ↔ v.live b ≠ none
  | .parentId snapshotId, r, v, v' => v' = v ∧ ∀ parent, r = .ok parent → ∃ e, v.frozen snapshotId = some (parent, e)

/-- The operation behind a query, if it is one. -/
def Query.op? : Query → Option PublicOp
  | .fork snapshotId ids => some (.fork snapshotId 1 (some ids))
  | .execOnBranch b command timeout => some (.execOnBranch b (.line command) timeout)
  | .snapshotBranch b => some (.snapshotBranch b false)
  | .parkBranch b => some (.parkBranch b)
  | .discardBranch b => some (.discardBranch b)
  | .listBranches => some .listBranches
  | .parentId _ => none

/-- A query that takes a snapshot gets an id that no snapshot has. -/
def Query.SuppliesNew (B : ForkableBackend W) (q : Query) (s : Sys W) : Prop :=
  ∀ op, q.op? = some op → B.SuppliesNew op s

section

variable {B : ForkableBackend W} {live : W → String → Option (String × E)} {stored : W → String → Option E} {s : Sys W}

theorem id_mem_of_fork (hnames : NamesAsAsked B) {snapshotId : String} {n : Int} {ids : List String}
    {branches : List EnvironmentBranch}
    (h : ((ForkableEnvironmentManager.fork B.hooks snapshotId n (some ids)).run s).1 = .ok branches) :
    ∀ o ∈ branches, o.id ∈ ids := by
  intro o ho
  rw [B.run_fork] at h
  split at h
  · cases h
    exact absurd ho List.not_mem_nil
  · next requestedIds hrequest =>
    have hids : requestedIds = ids.map some := by
      unfold forkRequest at hrequest
      dsimp only at hrequest
      split_ifs at hrequest
      exact (Option.some.inj hrequest).symm
    unfold ForkableBackend.materialized at h
    split at h
    · cases h
    · next outcomes w hfork =>
      cases h
      obtain ⟨outcome, houtcome, rfl⟩ := List.mem_map.mp ho
      rw [hids] at hfork
      exact hnames snapshotId ids s.world outcomes w hfork outcome houtcome

theorem eq_of_steps_nil {v v' : Worlds String String E} (h : Steps defaultBranchId v [] v') : v' = v := by
  cases h
  rfl

theorem step_of_steps {v v' : Worlds String String E} {a : Act String String E}
    (h : Steps defaultBranchId v [a] v') : Step defaultBranchId v a v' := by
  obtain ⟨⟩ | ⟨hstep, ⟨⟩⟩ := h
  exact hstep

/-- What is known of an operation whose program wraps that of a query. -/
theorem refines_wrapped (hB : Isolating B live stored) (hrequests : B.ForksOnRequest) (h : Represents live stored s)
    {op : PublicOp} (hop : op ≠ .cleanup) (hnew : B.SuppliesNew op s) {α : Type} {f : α → Outcome} {p : M W α}
    (hprog : PublicOp.prog B.hooks op = f <$> p) :
    Represents live stored (p.run s).2 ∧ ∃ acts, Meaning op (Outcome.ofResult ((p.run s).1.map f)) (view live stored s) acts ∧
      Steps defaultBranchId (view live stored s) acts (view live stored (p.run s).2) := by
  obtain ⟨hnext, hacts⟩ := refines_step hB hrequests h hop hnew
  rw [hprog, run_map] at hnext hacts
  exact ⟨hnext, hacts⟩

section Acts

variable {v v' : Worlds String String E} {acts : List (Act String String E)}

theorem means_fork {snapshotId : String} {ids : List String} {r : Except PyError (List EnvironmentBranch)}
    (hmeaning : Meaning (.fork snapshotId 1 (some ids)) (Outcome.ofResult (r.map .branches)) v acts)
    (hsteps : Steps defaultBranchId v acts v') (hids : ∀ l, r = .ok l → ∀ o ∈ l, o.id ∈ ids) :
    (Query.fork snapshotId ids).Means r v v' := by
  have hsame (hnil : acts = []) : (Query.fork snapshotId ids).Means r v v' := by
    rw [hnil] at hsteps
    obtain rfl := eq_of_steps_nil hsteps
    exact ⟨rfl, rfl, fun b => .inl rfl⟩
  cases r with
  | error e => exact hsame hmeaning
  | ok l =>
    obtain ⟨-, ⟨-, hnil⟩ | ⟨-, rfl⟩⟩ := hmeaning
    · exact hsame hnil
    · cases step_of_steps hsteps with
      | @fork _ parent e _ known nodup free =>
        refine ⟨rfl, rfl, fun b => ?_⟩
        by_cases hb : b ∈ l.map EnvironmentBranch.id
        · obtain ⟨o, ho, rfl⟩ := List.mem_map.mp hb
          exact .inr ⟨hids l rfl o ho, free _ hb, e, if_pos hb⟩
        · exact .inl (if_neg hb)

theorem means_exec {b command : String} {timeout : Option ℚ} {r : Except PyError (Int × String × String)}
    (hmeaning : Meaning (.execOnBranch b (.line command) timeout)
      (Outcome.ofResult (r.map fun x => .exec x.1 x.2.1 x.2.2)) v acts)
    (hsteps : Steps defaultBranchId v acts v') : (Query.execOnBranch b command timeout).Means r v v' := by
  rcases hmeaning with rfl | ⟨e', rfl⟩
  · exact .inl (eq_of_steps_nil hsteps)
  · cases step_of_steps hsteps with
    | write contents here => exact .inr ⟨_, _, e', here, rfl⟩

theorem means_snapshot {b : String} {r : Except PyError (Option String)}
    (hmeaning : Meaning (.snapshotBranch b false) (Outcome.ofResult (r.map .snapshotId)) v acts)
    (hsteps : Steps defaultBranchId v acts v') : (Query.snapshotBranch b).Means r v v' := by
  have hsame (hr : ∀ id, r ≠ .ok (some id)) (hnil : acts = []) : (Query.snapshotBranch b).Means r v v' := by
    rw [hnil] at hsteps
    exact .inr ⟨hr, eq_of_steps_nil hsteps⟩
  rcases r with e | _ | id
  · exact hsame (fun _ h => by cases h) hmeaning
  · exact hsame (fun _ h => by cases h) hmeaning
  · obtain rfl : acts = [.freeze b id] := hmeaning
    cases step_of_steps hsteps with
    | freeze here new => exact .inl ⟨id, _, _, rfl, here, new, rfl⟩

theorem means_park {b : String} {r : Except PyError (Option String)}
    (hmeaning : Meaning (.parkBranch b) (Outcome.ofResult (r.map .snapshotId)) v acts)
    (hsteps : Steps defaultBranchId v acts v') : (Query.parkBranch b).Means r v v' := by
  have hsame (hr : ∀ id, r ≠ .ok (some id)) (hnil : acts = []) : (Query.parkBranch b).Means r v v' := by
    rw [hnil] at hsteps
    exact .inr ⟨hr, eq_of_steps_nil hsteps⟩
  rcases r with e | _ | id
  · exact hsame (fun _ h => by cases h) hmeaning
  · exact hsame (fun _ h => by cases h) hmeaning
  · obtain rfl : acts = parking v b id := hmeaning
    unfold parking at hsteps
    split_ifs at hsteps with hcurrent
    · obtain ⟨⟩ | ⟨hswitch, hrest⟩ := hsteps
      cases hswitch with
      | switch hmain =>
        cases step_of_steps hrest with
        | park here new notMain notCurrent =>
          refine .inl ⟨id, _, _, rfl, here, new, ?_⟩
          rw [if_pos hcurrent]
    · cases step_of_steps hsteps with
      | park here new notMain notCurrent =>
        refine .inl ⟨id, _, _, rfl, here, new, ?_⟩
        rw [if_neg hcurrent]

theorem means_discard {b : String} {r : Except PyError Bool}
    (hmeaning : Meaning (.discardBranch b) (Outcome.ofResult (r.map .flag)) v acts)
    (hsteps : Steps defaultBranchId v acts v') : (Query.discardBranch b).Means r v v' := by
  have hsame (hr : r ≠ .ok true) (hnil : acts = []) : (Query.discardBranch b).Means r v v' := by
    rw [hnil] at hsteps
    exact .inr ⟨hr, eq_of_steps_nil hsteps⟩
  rcases r with e | _ | _
  · exact hsame (fun h => by cases h) hmeaning
  · exact hsame (fun h => by cases h) hmeaning
  · obtain rfl : acts = [.discard b] := hmeaning
    cases step_of_steps hsteps with
    | discard here notMain notCurrent => exact .inl ⟨rfl, rfl⟩

theorem means_list {r : Except PyError (List EnvironmentBranch)}
    (hmeaning : Meaning .listBranches (Outcome.ofResult (r.map .branches)) v acts)
    (hsteps : Steps defaultBranchId v acts v') : Query.listBranches.Means r v v' := by
  cases r with
  | error e =>
    obtain rfl : acts = [] := hmeaning
    exact ⟨eq_of_steps_nil hsteps, fun l hl => by cases hl⟩
  | ok l =>
    obtain ⟨rfl, hshown⟩ : acts = [] ∧ ShownAs v l := hmeaning
    refine ⟨eq_of_steps_nil hsteps, fun l' hl b => ?_⟩
    cases hl
    constructor
    · intro hb
      obtain ⟨o, ho, rfl⟩ := List.mem_map.mp hb
      have hlive := (hshown o.id o.baseSnapshotId).mpr ⟨o, ho, rfl, rfl⟩
      intro hnone
      rw [hnone] at hlive
      cases hlive
    · intro hb
      obtain ⟨x, hx⟩ := Option.ne_none_iff_exists'.mp hb
      obtain ⟨o, ho, hid, -⟩ := (hshown b x.1).mp (by rw [hx]; rfl)
      exact List.mem_map.mpr ⟨o, ho, hid⟩

end Acts

/-- A manager answers as the worlds say. -/
theorem answer_means (hB : Isolating B live stored) (hrequests : B.ForksOnRequest) (hnames : NamesAsAsked B)
    (q : Query) (s : Sys W) (h : Represents live stored s) (hnew : q.SuppliesNew B s) :
    Represents live stored (q.answer B.hooks s).2 ∧
      q.Means (q.answer B.hooks s).1 (view live stored s) (view live stored (q.answer B.hooks s).2) := by
  cases q with
  | fork snapshotId ids =>
    obtain ⟨hnext, acts, hmeaning, hsteps⟩ := refines_wrapped hB hrequests h (by simp) (hnew _ rfl)
      (f := Outcome.branches) (p := ForkableEnvironmentManager.fork B.hooks snapshotId 1 (some ids)) rfl
    exact ⟨hnext, means_fork hmeaning hsteps fun l hl => id_mem_of_fork (n := 1) hnames hl⟩
  | execOnBranch b command timeout =>
    obtain ⟨hnext, acts, hmeaning, hsteps⟩ := refines_wrapped hB hrequests h (by simp) (hnew _ rfl)
      (p := ForkableEnvironmentManager.execOnBranch B.hooks b (.line command) timeout) rfl
    exact ⟨hnext, means_exec hmeaning hsteps⟩
  | snapshotBranch b =>
    obtain ⟨hnext, acts, hmeaning, hsteps⟩ := refines_wrapped hB hrequests h (by simp) (hnew _ rfl)
      (p := ForkableEnvironmentManager.snapshotBranch B.hooks b false) rfl
    exact ⟨hnext, means_snapshot hmeaning hsteps⟩
  | parkBranch b =>
    obtain ⟨hnext, acts, hmeaning, hsteps⟩ := refines_wrapped hB hrequests h (by simp) (hnew _ rfl)
      (p := ForkableEnvironmentManager.parkBranch B.hooks b) rfl
    exact ⟨hnext, means_park hmeaning hsteps⟩
  | discardBranch b =>
    obtain ⟨hnext, acts, hmeaning, hsteps⟩ := refines_wrapped hB hrequests h (by simp) (hnew _ rfl)
      (p := ForkableEnvironmentManager.discardBranch B.hooks b) rfl
    exact ⟨hnext, means_discard hmeaning hsteps⟩
  | listBranches =>
    obtain ⟨hnext, acts, hmeaning, hsteps⟩ := refines_wrapped hB hrequests h (by simp) (hnew _ rfl)
      (p := ForkableEnvironmentManager.listBranches B.hooks) rfl
    exact ⟨hnext, means_list hmeaning hsteps⟩
  | parentId snapshotId =>
    cases hnode : s.mgr.snapshotGraph.get? snapshotId with
    | none =>
      have hanswer : (Query.parentId snapshotId).answer B.hooks s = (.error ⟨.keyError, snapshotId⟩, s) := by
        rw [Query.answer, hnode]
      rw [hanswer]
      exact ⟨h, rfl, fun parent hparent => by cases hparent⟩
    | some node =>
      have hanswer : (Query.parentId snapshotId).answer B.hooks s = (.ok node.parentId, s) := by
        rw [Query.answer, hnode]
      have hparent : parentOf s snapshotId = some node.parentId := by
        unfold parentOf
        rw [hnode]
        rfl
      obtain ⟨e, he⟩ := Option.ne_none_iff_exists'.mp (h.stored snapshotId (Dict.mem_keys_of_get? hnode))
      rw [hanswer]
      refine ⟨h, rfl, fun parent hr => ?_⟩
      cases hr
      refine ⟨e, ?_⟩
      show (parentOf s snapshotId).bind _ = _
      rw [hparent, he]
      rfl

end

/-! ### What is reported -/

/-- The checks that a checkpoint parents onto the frontier. -/
def Check.IsParent : Check → Prop
  | .winnerParent _ | .parkedParent _ => True
  | _ => False

/-- The checks that the winner was sealed and the others are gone. -/
def Check.IsCleaning : Check → Prop
  | .winnerSealed _ _ | .parked _ _ | .discarded _ => True
  | _ => False

def Check.IsLive : Check → Prop
  | .liveForks _ => True
  | _ => False

/-- Every checkpoint parents onto its frontier, and if the rest is gone each time then the live forks are the right
ones. -/
structure WellReported (l : List (Check × Bool)) : Prop where
  parents : AllPass Check.IsParent l
  live : AllPass Check.IsCleaning l → AllPass Check.IsLive l

theorem WellReported.nil : WellReported [] :=
  ⟨fun _ h => absurd h List.not_mem_nil, fun _ _ h => absurd h List.not_mem_nil⟩

theorem WellReported.add {l : List (Check × Bool)} (h : WellReported l) {c : Check} {ok : Bool}
    (hparent : c.IsParent → ok = true) (hlive : c.IsLive → AllPass Check.IsCleaning l → ok = true) :
    WellReported (l ++ [(c, ok)]) where
  parents := allPass_append.mpr ⟨h.parents, allPass_singleton.mpr hparent⟩
  live hclean := allPass_append.mpr
    ⟨h.live hclean.left, allPass_singleton.mpr fun hc => hlive hc hclean.left⟩

theorem parent_not_probe (e : Check × Bool) (h : e.1.IsParent) : ¬ e.1.IsProbe := by
  obtain ⟨c, ok⟩ := e
  cases c <;> first | exact id | exact h.elim

theorem cleaning_not_probe (e : Check × Bool) (h : e.1.IsCleaning) : ¬ e.1.IsProbe := by
  obtain ⟨c, ok⟩ := e
  cases c <;> first | exact id | exact h.elim

theorem live_not_probe (e : Check × Bool) (h : e.1.IsLive) : ¬ e.1.IsProbe := by
  obtain ⟨c, ok⟩ := e
  cases c <;> first | exact id | exact h.elim

theorem cleaning_iff_of_probes {l l' : List (Check × Bool)} (h : Client.Since (fun e => e.1.IsProbe) l l') :
    AllPass Check.IsCleaning l' ↔ AllPass Check.IsCleaning l := allPass_iff_of_since h cleaning_not_probe

theorem WellReported.probes {l l' : List (Check × Bool)} (h : WellReported l)
    (hprobes : Client.Since (fun e => e.1.IsProbe) l l') : WellReported l' where
  parents := (allPass_iff_of_since hprobes parent_not_probe).mpr h.parents
  live hclean := (allPass_iff_of_since hprobes live_not_probe).mpr (h.live ((cleaning_iff_of_probes hprobes).mp hclean))

/-! ### The parts that only run commands -/

/-- Only the contents of the branches `mine` may be others. -/
structure Touched (mine : String → Prop) (v v' : Worlds String String E) : Prop where
  frozen : v'.frozen = v.frozen
  current : v'.current = v.current
  others : ∀ b, ¬ mine b → v'.live b = v.live b
  base : ∀ b, (v'.live b).map Prod.fst = (v.live b).map Prod.fst

namespace Touched

variable {mine : String → Prop} {v v' v'' : Worlds String String E}

theorem refl (mine : String → Prop) (v : Worlds String String E) : Touched mine v v :=
  ⟨rfl, rfl, fun _ _ => rfl, fun _ => rfl⟩

theorem trans (h : Touched mine v v') (h' : Touched mine v' v'') : Touched mine v v'' where
  frozen := h'.frozen.trans h.frozen
  current := h'.current.trans h.current
  others b hb := (h'.others b hb).trans (h.others b hb)
  base b := (h'.base b).trans (h.base b)

theorem of_exec {b command : String} {timeout : Option ℚ} {r : Except PyError (Int × String × String)} (hb : mine b)
    (h : (Query.execOnBranch b command timeout).Means r v v') : Touched mine v v' := by
  rcases h with rfl | ⟨base, e, e', hlive, rfl⟩
  · exact .refl mine v'
  · refine ⟨rfl, rfl, fun b' hb' => ?_, fun b' => ?_⟩
    · refine Function.update_of_ne ?_ _ _
      rintro rfl
      exact hb' hb
    · dsimp only
      rw [Function.update_apply]
      split_ifs with he
      · rw [he, hlive]
        rfl
      · rfl

end Touched

instance (mine : String → Prop) : IsPreorder (Worlds String String E) (Touched mine) where
  refl := .refl mine
  trans _ _ _ := .trans

theorem probes_touched (E : Type) (mine : String → Prop) :
    Probes (Query.Means (E := E)) (Touched mine) (fun e => e.1.IsProbe) mine where
  moves _ hb _ _ _ _ _ := .of_exec hb
  probe _ _ := id

/-! ### One generation -/

/-- A branch that stands on the frontier, if it is there. -/
def StandsOn (frontier : String) (v : Worlds String String E) (b : String) : Prop :=
  ∀ base e, v.live b = some (base, e) → base = frontier

/-- The snapshot descends from the frontier. -/
def Descends (frontier : String) (v : Worlds String String E) (id : String) : Prop :=
  ∃ e, v.frozen id = some (some frontier, e)

/-- What a generation with candidates `ids` leaves alone. -/
structure During (ids : List String) (frontierFork : Option String) (v₀ v : Worlds String String E) : Prop where
  frozen : ∀ id x, v₀.frozen id = some x → v.frozen id = some x
  current : v.current = v₀.current
  others : ∀ b, b ∉ ids → frontierFork ≠ some b → v.live b = v₀.live b
  base : ∀ b, b ∉ ids → (v.live b).map Prod.fst = (v₀.live b).map Prod.fst

section

variable {ids : List String} {frontierFork : Option String} {v₀ v v' : Worlds String String E} {frontier winner : String}

theorem During.touched (h : During ids frontierFork v₀ v)
    (ht : Touched (fun b => b ∈ ids ∨ frontierFork = some b) v v') : During ids frontierFork v₀ v' where
  frozen id x hx := by
    rw [ht.frozen]
    exact h.frozen id x hx
  current := ht.current.trans h.current
  others b hb hff := (ht.others b (not_or.mpr ⟨hb, hff⟩)).trans (h.others b hb hff)
  base b hb := (ht.base b).trans (h.base b hb)

/-- A candidate is changed, and a new snapshot may be taken. -/
theorem During.update (h : During ids frontierFork v₀ v) {b : String} (hb : b ∈ ids)
    (hlive : ∀ b', b' ≠ b → v'.live b' = v.live b') (hfrozen : ∀ id x, v.frozen id = some x → v'.frozen id = some x)
    (hcurrent : v'.current = v.current) : During ids frontierFork v₀ v' := by
  have hother {b' : String} (hb' : b' ∉ ids) : v'.live b' = v.live b' := by
    refine hlive b' ?_
    rintro rfl
    exact hb' hb
  exact ⟨fun id x hx => hfrozen id x (h.frozen id x hx), hcurrent.trans h.current,
    fun b' hb' hff => (hother hb').trans (h.others b' hb' hff), fun b' hb' => by rw [hother hb', h.base b' hb']⟩

theorem StandsOn.touched {mine : String → Prop} (ht : Touched mine v v') {b : String} (h : StandsOn frontier v b) :
    StandsOn frontier v' b := by
  intro base e hlive
  have hbase := ht.base b
  rw [hlive] at hbase
  obtain ⟨here, hhere, rfl⟩ := Option.map_eq_some_iff.mp hbase.symm
  exact h here.1 here.2 hhere

theorem frozen_update {id : String} {x : Option String × E} (new : v.frozen id = none) :
    ∀ id' y, v.frozen id' = some y → Function.update v.frozen id (some x) id' = some y := by
  intro id' y hy
  rw [Function.update_of_ne ?_]
  · exact hy
  · rintro rfl
    cases new.symm.trans hy

theorem checkParent_ensures {l : List (Check × Bool)} (hl : WellReported l) {c : Check} (hc : ¬ c.IsLive)
    (hplain : ¬ c.IsCleaning) {checkpoint : Option String} (hcheckpoint : ∀ id, checkpoint = some id → Descends frontier v id) :
    (checkParent c frontier checkpoint).Ensures Query.Means (fun l' _ v' => WellReported l' ∧ v' = v ∧
      (AllPass Check.IsCleaning l' ↔ AllPass Check.IsCleaning l)) l v := by
  cases checkpoint with
  | none => exact ⟨hl, rfl, Iff.rfl⟩
  | some id =>
    unfold checkParent
    dsimp only
    split_ifs
    · exact ⟨hl, rfl, Iff.rfl⟩
    · refine Client.ensures_call (fun e v' hr => ⟨hl, hr.1, Iff.rfl⟩) fun parent v' hr => ?_
      obtain ⟨e, he⟩ := hcheckpoint id rfl
      obtain ⟨e', he'⟩ := hr.2 parent rfl
      rw [he] at he'
      obtain rfl : some frontier = parent := congrArg Prod.fst (Option.some.inj he')
      refine ⟨hl.add (fun _ => decide_eq_true rfl) fun hlive => absurd hlive hc, hr.1, ?_⟩
      rw [allPass_append, allPass_singleton]
      exact and_iff_left fun hclean => absurd hclean hplain

/-- Once the winner is sealed. -/
structure Sealed (ids : List String) (frontierFork : Option String) (frontier winner : String) (checkpoint : Option String)
    (l : List (Check × Bool)) (v₀ v : Worlds String String E) : Prop where
  during : During ids frontierFork v₀ v
  standing : ∀ b ∈ ids, b ≠ winner → StandsOn frontier v b
  cleaned : AllPass Check.IsCleaning l → checkpoint.isSome = true
  winner : ∀ c, checkpoint = some c → (v.live winner).map Prod.fst = some c ∧ Descends frontier v c

theorem sealWinner_ensures {l : List (Check × Bool)} (hl : WellReported l) (hd : During ids frontierFork v₀ v)
    (hstands : ∀ b ∈ ids, StandsOn frontier v b) (hwinner : winner ∈ ids) (number : Nat) (value move : Option Int) :
    (sealWinner number frontier winner value move).Ensures Query.Means (fun l' r v' => WellReported l' ∧
      (AllPass Check.IsCleaning l' → AllPass Check.IsCleaning l) ∧
      ∀ checkpoint, r = .ok checkpoint → Sealed ids frontierFork frontier winner checkpoint l' v₀ v') l v := by
  refine Client.ensures_call (fun e v' _ => ⟨hl, id, fun _ h => by cases h⟩) fun checkpoint v₁ hr => ?_
  have hsealed : Sealed ids frontierFork frontier winner checkpoint (l ++ [(.winnerSealed number winner, checkpoint.isSome)])
      v₀ v₁ := by
    have hcleaned : AllPass Check.IsCleaning (l ++ [(.winnerSealed number winner, checkpoint.isSome)]) →
        checkpoint.isSome = true := fun h => allPass_singleton.mp (allPass_append.mp h).2 trivial
    rcases hr with ⟨c, base, e, hanswer, hlive, new, rfl⟩ | ⟨hnone, rfl⟩
    · obtain rfl : base = frontier := hstands winner hwinner base e hlive
      obtain rfl : checkpoint = some c := Except.ok.inj hanswer
      have hother {b : String} (hb : b ≠ winner) :
          Function.update v.live winner (some (c, e)) b = v.live b := Function.update_of_ne hb _ _
      refine ⟨hd.update hwinner (fun b => hother) (frozen_update new) rfl, fun b hb hne base' e' hb' => ?_, hcleaned, ?_⟩
      · exact hstands b hb base' e' ((hother hne).symm.trans hb')
      · intro c' hc
        obtain rfl : c = c' := Option.some.inj hc
        refine ⟨?_, e, Function.update_self ..⟩
        dsimp only
        rw [Function.update_self]
        rfl
    · exact ⟨hd, fun b hb _ => hstands b hb, hcleaned, fun c hc => absurd (congrArg Except.ok hc) (hnone c)⟩
  have hl₁ : WellReported (l ++ [(.winnerSealed number winner, checkpoint.isSome)]) :=
    hl.add (fun h => h.elim) fun h => h.elim
  refine Client.ensures_tell (Client.ensures_bind (Client.ensures_mono
    (checkParent_ensures hl₁ (c := .winnerParent number) id id fun c hc => (hsealed.winner c hc).2) ?_))
  rintro l₂ r v₂ ⟨hl₂, rfl, hclean₂⟩
  have hleft₂ (h : AllPass Check.IsCleaning l₂) : AllPass Check.IsCleaning l := (hclean₂.mp h).left
  cases r with
  | error e => exact ⟨hl₂, hleft₂, fun _ h => by cases h⟩
  | ok _ =>
    refine Client.ensures_call (fun e v₃ _ => ⟨hl₂, hleft₂, fun _ h => by cases h⟩) fun out v₃ hr => ?_
    refine Client.ensures_tell ⟨hl₂.add (fun h => h.elim) fun h => h.elim, fun h => hleft₂ h.left, fun checkpoint' hc => ?_⟩
    obtain rfl : checkpoint = checkpoint' := Except.ok.inj hc
    have htouched : Touched (fun b => b ∈ ids ∨ frontierFork = some b) v₂ v₃ := .of_exec (.inl hwinner) hr
    refine ⟨hsealed.during.touched htouched, fun b hb hne => (hsealed.standing b hb hne).touched htouched,
      fun h => hsealed.cleaned (hclean₂.mp h.left), fun c hc => ?_⟩
    obtain ⟨hbase, e, he⟩ := hsealed.winner c hc
    exact ⟨(htouched.base winner).trans hbase, e, by rw [htouched.frozen]; exact he⟩

theorem parkRunnerUp_ensures {l : List (Check × Bool)} (hl : WellReported l) {checkpoint runnerUp : Option String}
    (hs : Sealed ids frontierFork frontier winner checkpoint l v₀ v)
    (hrunnerUp : ∀ b, runnerUp = some b → b ∈ ids ∧ b ≠ winner ∧ b ≠ v₀.current) (number : Nat) :
    (parkRunnerUp number frontier runnerUp).Ensures Query.Means (fun l' r v' => WellReported l' ∧
      (AllPass Check.IsCleaning l' → AllPass Check.IsCleaning l) ∧
      ∀ parked, r = .ok parked → Sealed ids frontierFork frontier winner checkpoint l' v₀ v' ∧
        (∀ id, parked = some id → Descends frontier v' id) ∧
        (AllPass Check.IsCleaning l' → ∀ b, runnerUp = some b → v'.live b = none)) l v := by
  cases runnerUp with
  | none =>
    refine ⟨hl, id, fun parked hparked => ?_⟩
    obtain rfl : none = parked := Except.ok.inj hparked
    exact ⟨hs, fun _ h => (by cases h), fun _ _ h => (by cases h)⟩
  | some b =>
    obtain ⟨hb, hne, hcurrent⟩ := hrunnerUp b rfl
    refine Client.ensures_call (fun e v' _ => ⟨hl, id, fun _ h => by cases h⟩) fun parked v₁ hr => ?_
    let l₁ := l ++ [(Check.parked number b, parked.isSome)]
    have hl₁ : WellReported l₁ := hl.add (fun h => h.elim) fun h => h.elim
    have hpassed (h : AllPass Check.IsCleaning l₁) : parked.isSome = true :=
      allPass_singleton.mp (allPass_append.mp h).2 trivial
    have hparked : Sealed ids frontierFork frontier winner checkpoint l₁ v₀ v₁ ∧
        (∀ id, parked = some id → Descends frontier v₁ id) ∧ (AllPass Check.IsCleaning l₁ → v₁.live b = none) := by
      rcases hr with ⟨c, base, e, hanswer, hlive, new, rfl⟩ | ⟨hnone, rfl⟩
      · obtain rfl : base = frontier := hs.standing b hb hne base e hlive
        obtain rfl : parked = some c := Except.ok.inj hanswer
        have hother {b' : String} (hb' : b' ≠ b) : Function.update v.live b none b' = v.live b' :=
          Function.update_of_ne hb' _ _
        have hstay : (if b = v.current then defaultBranchId else v.current) = v.current :=
          if_neg (hs.during.current ▸ hcurrent)
        refine ⟨⟨hs.during.update hb (fun b' => hother) (frozen_update new) hstay, fun b' hb' hne' base' e' hlive' => ?_,
          fun h => hs.cleaned h.left, fun c' hc' => ?_⟩, fun id hid => ?_, fun _ => Function.update_self ..⟩
        · by_cases he : b' = b
          · rw [he] at hlive'
            exact absurd ((Function.update_self b none v.live).symm.trans hlive') (by simp)
          · exact hs.standing b' hb' hne' base' e' ((hother he).symm.trans hlive')
        · obtain ⟨hbase, e', he'⟩ := hs.winner c' hc'
          exact ⟨(congrArg _ (hother hne.symm)).trans hbase, e', frozen_update new c' _ he'⟩
        · obtain rfl : c = id := Option.some.inj hid
          exact ⟨e, Function.update_self ..⟩
      · have habsent (id : String) : parked ≠ some id := fun h => hnone id (congrArg Except.ok h)
        refine ⟨⟨hs.during, hs.standing, fun h => hs.cleaned h.left, hs.winner⟩, fun id hid => absurd hid (habsent id),
          fun h => ?_⟩
        obtain ⟨id, hid⟩ := Option.isSome_iff_exists.mp (hpassed h)
        exact absurd hid (habsent id)
    obtain ⟨hsealed, hdescends, hgone⟩ := hparked
    refine Client.ensures_tell (Client.ensures_bind (Client.ensures_mono
      (checkParent_ensures hl₁ (c := .parkedParent number) id id hdescends) ?_))
    rintro l₂ r v₂ ⟨hl₂, rfl, hclean₂⟩
    have hleft₂ (h : AllPass Check.IsCleaning l₂) : AllPass Check.IsCleaning l := (hclean₂.mp h).left
    cases r with
    | error e => exact ⟨hl₂, hleft₂, fun _ h => by cases h⟩
    | ok _ =>
      refine ⟨hl₂, hleft₂, fun parked' hparked' => ?_⟩
      obtain rfl : parked = parked' := Except.ok.inj hparked'
      refine ⟨⟨hsealed.during, hsealed.standing, fun h => hsealed.cleaned (hclean₂.mp h), hsealed.winner⟩, hdescends,
        fun h b' hb' => ?_⟩
      obtain rfl : b = b' := Option.some.inj hb'
      exact hgone (hclean₂.mp h)

/-- Once the branches `done` are discarded. -/
structure Discarded (ids : List String) (frontierFork : Option String) (frontier winner : String) (checkpoint : Option String)
    (l l' : List (Check × Bool)) (v₀ v v' : Worlds String String E) (done : List String) : Prop where
  sealed : Sealed ids frontierFork frontier winner checkpoint l' v₀ v'
  frozen : v'.frozen = v.frozen
  clean : AllPass Check.IsCleaning l' → AllPass Check.IsCleaning l
  gone : AllPass Check.IsCleaning l' → ∀ b ∈ done, v'.live b = none
  absent : ∀ b, v.live b = none → v'.live b = none

theorem Discarded.next {checkpoint : Option String} {l l' : List (Check × Bool)} {v'' : Worlds String String E}
    {done : List String} (h : Discarded ids frontierFork frontier winner checkpoint l l' v₀ v v' done) {b : String}
    (hb : b ∈ ids) (hne : b ≠ winner) {ok : Bool} (hr : (Query.discardBranch b).Means (.ok ok) v' v'') :
    Discarded ids frontierFork frontier winner checkpoint l (l' ++ [(.discarded b, ok)]) v₀ v v'' (done ++ [b]) := by
  have hok (hclean : AllPass Check.IsCleaning (l' ++ [(.discarded b, ok)])) : ok = true :=
    (allPass_singleton (c := .discarded b)).mp (allPass_append.mp hclean).2 trivial
  rcases hr with ⟨-, rfl⟩ | ⟨hfalse, rfl⟩
  · have hother {b' : String} (hb' : b' ≠ b) : Function.update v'.live b none b' = v'.live b' :=
      Function.update_of_ne hb' _ _
    have hnone {b' : String} (hb' : v'.live b' = none) : Function.update v'.live b none b' = none := by
      rw [Function.update_apply]
      split_ifs
      · rfl
      · exact hb'
    refine ⟨⟨h.sealed.during.update hb (fun b' => hother) (fun _ _ => id) rfl, fun b' hb' hne' base e hlive => ?_,
      fun hclean => h.sealed.cleaned hclean.left, fun c hc => ?_⟩, h.frozen, fun hclean => h.clean hclean.left,
      fun hclean b' hb' => ?_, fun b' hb' => hnone (h.absent b' hb')⟩
    · by_cases he : b' = b
      · rw [he] at hlive
        exact absurd ((Function.update_self b none v'.live).symm.trans hlive) (by simp)
      · exact h.sealed.standing b' hb' hne' base e ((hother he).symm.trans hlive)
    · obtain ⟨hbase, hdescends⟩ := h.sealed.winner c hc
      exact ⟨(congrArg _ (hother hne.symm)).trans hbase, hdescends⟩
    · rcases List.mem_append.mp hb' with hdone | hlast
      · exact hnone (h.gone hclean.left b' hdone)
      · rw [List.mem_singleton.mp hlast]
        exact Function.update_self ..
  · have hdirty {A : Prop} (hclean : AllPass Check.IsCleaning (l' ++ [(.discarded b, ok)])) : A :=
      absurd (congrArg Except.ok (hok hclean)) hfalse
    exact ⟨⟨h.sealed.during, h.sealed.standing, fun hclean => h.sealed.cleaned hclean.left, h.sealed.winner⟩, h.frozen,
      fun hclean => h.clean hclean.left, fun hclean => hdirty hclean, h.absent⟩

theorem discardRest_ensures {l : List (Check × Bool)} (hl : WellReported l) {checkpoint runnerUp : Option String}
    (hs : Sealed ids frontierFork frontier winner checkpoint l v₀ v) :
    (discardRest ids winner runnerUp).Ensures Query.Means (fun l' r v' => WellReported l' ∧
      (AllPass Check.IsCleaning l' → AllPass Check.IsCleaning l) ∧
      ∀ x, r = .ok x → Discarded ids frontierFork frontier winner checkpoint l l' v₀ v v'
        (ids.filter fun c => c ≠ winner && some c ≠ runnerUp)) l v := by
  refine Client.ensures_bind (Client.ensures_collect (fun done _ l' v' => WellReported l' ∧
    Discarded ids frontierFork frontier winner checkpoint l l' v₀ v v' done) ?_
    (fun ys l' v' h => ⟨h.1, h.2.clean, fun _ _ => h.2⟩)
    ⟨hl, hs, rfl, id, fun _ _ h => absurd h List.not_mem_nil, fun _ h => h⟩)
  rintro done b rest ys l' v' hsplit ⟨hl', h⟩
  have hmem : b ∈ ids.filter fun c => c ≠ winner && some c ≠ runnerUp := by
    rw [hsplit]
    exact List.mem_append_right _ List.mem_cons_self
  obtain ⟨hb, hkept⟩ := List.mem_filter.mp hmem
  rw [Bool.and_eq_true, decide_eq_true_eq] at hkept
  refine Client.ensures_call (fun e v'' _ => ⟨fun _ h => (by cases h), fun _ _ => ⟨hl', h.clean, fun _ h => (by cases h)⟩⟩)
    fun ok v'' hr => ?_
  exact ⟨fun _ _ => ⟨hl'.add (fun h => h.elim) fun h => h.elim, h.next hb hkept.1 hr⟩, fun _ h => (by cases h)⟩

theorem checkLive_ensures {l : List (Check × Bool)} (hl : WellReported l) {winners : List String}
    (hlive : AllPass Check.IsCleaning l → ∀ b, v.live b ≠ none ↔ b ∈ defaultBranchId :: winner :: winners) (number : Nat) :
    (checkLive number winner winners).Ensures Query.Means (fun l' _ v' => WellReported l' ∧ v' = v ∧
      (AllPass Check.IsCleaning l' → AllPass Check.IsCleaning l)) l v := by
  have hlisted {β : Type} {f : Finset String → Script β} {post : List (Check × Bool) → Except PyError β → Worlds String String E → Prop}
      (herror : ∀ e, post l (.error e) v)
      (hok : ∀ live : Finset String, (∀ b, b ∈ live ↔ v.live b ≠ none) → (f live).Ensures Query.Means post l v) :
      (liveIds >>= f).Ensures Query.Means post l v := by
    refine Client.ensures_bind (Client.ensures_call (fun e v' hr => ?_) fun branches v' hr => ?_)
    · obtain ⟨rfl, -⟩ := hr
      exact herror e
    · obtain ⟨rfl, hshown⟩ := hr
      exact hok _ fun b => List.mem_toFinset.trans (hshown branches rfl b)
  refine hlisted (fun _ => ⟨hl, rfl, id⟩) fun live hmem => hlisted (fun _ => ⟨hl, rfl, id⟩) fun _ _ => ?_
  refine ⟨hl.add (fun h => h.elim) fun _ hclean => decide_eq_true ?_, rfl, fun h => h.left⟩
  ext b
  rw [hmem, List.mem_toFinset]
  exact hlive hclean b

/-- What the search needs to start a generation. -/
structure Ready (number : Nat) (frontierFork : Option String) (winners : List String) (l : List (Check × Bool))
    (v : Worlds String String E) : Prop where
  reported : WellReported l
  fresh : ∀ g ≥ number, ∀ i, v.live (candidateId g i) = none
  current : ∀ g i, v.current ≠ candidateId g i
  old : ∀ g ≥ number, ∀ i, frontierFork ≠ some (candidateId g i)
  live : AllPass Check.IsCleaning l → ∀ b, v.live b ≠ none ↔ b ∈ defaultBranchId :: winners

/-- What it has when the generation is over. -/
structure Generated (number fanout : Nat) (frontier : String) (frontierFork : Option String) (winners : List String)
    (l : List (Check × Bool)) (v₀ v : Worlds String String E) (gen : Generation) : Prop where
  during : During (candidateIds number fanout) frontierFork v₀ v
  origin : gen.frontier = frontier
  winner : ∀ c, gen.winnerCheckpoint = some c → ∃ w ∈ candidateIds number fanout, gen.winner = some w ∧
    (v.live w).map Prod.fst = some c ∧ Descends frontier v c
  parked : ∀ c, gen.parkedCheckpoint = some c → Descends frontier v c
  live : gen.winnerCheckpoint ≠ none → AllPass Check.IsCleaning l → ∀ w, gen.winner = some w →
    ∀ b, v.live b ≠ none ↔ b ∈ defaultBranchId :: w :: winners

theorem live_of_discarded {number fanout : Nat} {winners : List String} {l₀ l l' : List (Check × Bool)}
    {checkpoint runnerUp : Option String} (hready : Ready number frontierFork winners l₀ v₀)
    (hids : candidateIds number fanout = ids) (hwinner : winner ∈ ids)
    (hd : Discarded ids frontierFork frontier winner checkpoint l l' v₀ v v'
      (ids.filter fun c => c ≠ winner && some c ≠ runnerUp))
    (hstart : AllPass Check.IsCleaning l' → AllPass Check.IsCleaning l₀)
    (hrunnerUp : AllPass Check.IsCleaning l → ∀ b, runnerUp = some b → v.live b = none)
    (hclean : AllPass Check.IsCleaning l') (b : String) :
    v'.live b ≠ none ↔ b ∈ defaultBranchId :: winner :: winners := by
  have hbefore := hready.live (hstart hclean)
  have hnew {b : String} (hb : b ∈ ids) : b ∉ defaultBranchId :: winners := by
    rw [← hbefore]
    rw [← hids] at hb
    obtain ⟨i, -, rfl⟩ := mem_candidateIds.mp hb
    exact fun hne => hne (hready.fresh number le_rfl (i + 1))
  by_cases hb : b ∈ ids
  · have hold := hnew hb
    rw [List.mem_cons, not_or] at hold
    simp only [List.mem_cons, hold.1, hold.2, false_or, or_false]
    by_cases he : b = winner
    · rw [he]
      obtain ⟨c, hc⟩ := Option.isSome_iff_exists.mp (hd.sealed.cleaned hclean)
      obtain ⟨hbase, -⟩ := hd.sealed.winner c hc
      refine iff_of_true (fun hnone => ?_) rfl
      rw [hnone] at hbase
      cases hbase
    · refine iff_of_false (not_not.mpr ?_) he
      by_cases hr : runnerUp = some b
      · exact hd.absent b (hrunnerUp (hd.clean hclean) b hr)
      · refine hd.gone hclean b (List.mem_filter.mpr ⟨hb, ?_⟩)
        rw [Bool.and_eq_true, decide_eq_true_eq, decide_eq_true_eq]
        exact ⟨he, fun h => hr h.symm⟩
  · have hbase := hd.sealed.during.base b hb
    have hsame : v'.live b ≠ none ↔ v₀.live b ≠ none :=
      not_congr (by rw [← Option.map_eq_none_iff (f := Prod.fst), hbase, Option.map_eq_none_iff])
    have hne : b ≠ winner := fun he => hb (he ▸ hwinner)
    rw [hsame, hbefore]
    simp only [List.mem_cons, hne, false_or]

theorem settle_ensures (args : SearchArgs) {winners rest : List String} {gen : Generation} {l₀ l : List (Check × Bool)}
    (hready : Ready gen.number frontierFork winners l₀ v₀)
    (hcandidates : gen.candidates = candidateIds gen.number args.fanout)
    (hkeys : ∀ b ∈ gen.values.keys, b ∈ gen.candidates) (hrest : ∀ b ∈ rest, b ∈ gen.candidates)
    (hstart : gen.winnerCheckpoint = none) (hstart' : gen.parkedCheckpoint = none)
    (hl : WellReported l) (hclean : AllPass Check.IsCleaning l → AllPass Check.IsCleaning l₀)
    (hd : During gen.candidates frontierFork v₀ v) (hstands : ∀ b ∈ gen.candidates, StandsOn gen.frontier v b) (value : Int) :
    (settle args gen frontierFork value winners rest).Ensures Query.Means (fun l' r v' => WellReported l' ∧
      (AllPass Check.IsCleaning l' → AllPass Check.IsCleaning l₀) ∧
      ∀ gen', r = .ok gen' → Generated gen.number args.fanout gen.frontier frontierFork winners l' v₀ v' gen') l v := by
  have hfailed (e : PyError) (l' : List (Check × Bool)) (v' : Worlds String String E) (hl' : WellReported l')
      (hclean' : AllPass Check.IsCleaning l' → AllPass Check.IsCleaning l) : WellReported l' ∧
        (AllPass Check.IsCleaning l' → AllPass Check.IsCleaning l₀) ∧
        ∀ gen', (.error e : Except PyError Generation) = .ok gen' →
          Generated gen.number args.fanout gen.frontier frontierFork winners l' v₀ v' gen' :=
    ⟨hl', hclean ∘ hclean', fun _ h => by cases h⟩
  have hmem {b : String} (hb : b ∈ (scoredOf args.target gen.candidates gen.values).map Prod.fst) : b ∈ gen.candidates :=
    hkeys b (mem_of_scored hb)
  have hnodup := nodup_scored args.target gen.candidates gen.values
  unfold settle
  split
  · refine ⟨hl.add (fun h => h.elim) fun h => h.elim, fun h => hclean h.left, fun gen' hgen => ?_⟩
    cases hgen
    exact ⟨hcandidates ▸ hd, rfl, fun c hc => (by cases hstart.symm.trans hc), fun c hc => (by cases hstart'.symm.trans hc),
      fun hne => absurd hstart hne⟩
  · next winner best others hscored =>
    let mine (b : String) : Prop := b ∈ gen.candidates ∨ frontierFork = some b
    rw [hscored] at hmem hnodup
    rw [List.map_cons, List.nodup_cons] at hnodup
    have hwinner : winner ∈ gen.candidates := hmem List.mem_cons_self
    have hcurrent {b : String} (hb : b ∈ gen.candidates) : b ≠ v₀.current := by
      rw [hcandidates] at hb
      obtain ⟨i, -, rfl⟩ := mem_candidateIds.mp hb
      exact (hready.current _ _).symm
    have hrunnerUp : ∀ b, others.head?.map Prod.fst = some b → b ∈ gen.candidates ∧ b ≠ winner ∧ b ≠ v₀.current := by
      intro b hb
      obtain ⟨e, he, rfl⟩ := Option.map_eq_some_iff.mp hb
      have hother := List.mem_map_of_mem (f := Prod.fst) (List.mem_of_head? he)
      have hcandidate := hmem (List.mem_cons_of_mem _ hother)
      exact ⟨hcandidate, fun heq => hnodup.1 (heq ▸ hother), hcurrent hcandidate⟩
    have hl₁ : WellReported (l ++ [(.winnerSelected gen.number gen.expectedWinner, decide (winner = gen.expectedWinner))]) :=
      hl.add (fun h => h.elim) fun h => h.elim
    refine Client.ensures_tell ?_
    have hprobes := probes_touched E mine
    refine Client.ensures_keepsTo (hprobes.checkEdits _ _ fun b hb => .inl (hrest b hb)) (fun e l' v' hl' => ?_)
      fun _ l₂ v₂ hl₂ ht₂ => ?_
    · exact hfailed e l' v' (hl₁.probes hl') fun h => ((cleaning_iff_of_probes hl').mp h).left
    have hstart₂ (h : AllPass Check.IsCleaning l₂) : AllPass Check.IsCleaning l :=
      ((cleaning_iff_of_probes hl₂).mp h).left
    refine Client.ensures_keepsTo (hprobes.checkFrontier _ (fun b hb => .inr hb) value) (fun e l' v' hl' => ?_)
      fun _ l₃ v₃ hl₃ ht₃ => ?_
    · exact hfailed e l' v' ((hl₁.probes hl₂).probes hl') fun h =>
        hstart₂ ((cleaning_iff_of_probes hl').mp h)
    have hreported₃ := (hl₁.probes hl₂).probes hl₃
    have hstart₃ (h : AllPass Check.IsCleaning l₃) : AllPass Check.IsCleaning l :=
      hstart₂ ((cleaning_iff_of_probes hl₃).mp h)
    refine Client.ensures_bind (Client.ensures_mono (sealWinner_ensures hreported₃ (hd.touched (ht₂.trans ht₃))
      (fun b hb => (hstands b hb).touched (ht₂.trans ht₃)) hwinner gen.number _ _) ?_)
    rintro l₄ r v₄ ⟨hl₄, hclean₄, hsealed⟩
    cases r with
    | error e => exact hfailed e l₄ v₄ hl₄ (hstart₃ ∘ hclean₄)
    | ok winnerCheckpoint =>
      refine Client.ensures_bind (Client.ensures_mono
        (parkRunnerUp_ensures hl₄ (hsealed winnerCheckpoint rfl) hrunnerUp gen.number) ?_)
      rintro l₅ r v₅ ⟨hl₅, hclean₅, hparked⟩
      cases r with
      | error e => exact hfailed e l₅ v₅ hl₅ (hstart₃ ∘ hclean₄ ∘ hclean₅)
      | ok parkedCheckpoint =>
        obtain ⟨hsealed₅, hdescends, hgone⟩ := hparked parkedCheckpoint rfl
        refine Client.ensures_bind (Client.ensures_mono (discardRest_ensures hl₅ hsealed₅) ?_)
        rintro l₆ r v₆ ⟨hl₆, hclean₆, hdiscarded⟩
        have hstart₆ (h : AllPass Check.IsCleaning l₆) : AllPass Check.IsCleaning l := hstart₃ (hclean₄ (hclean₅ (hclean₆ h)))
        cases r with
        | error e => exact hfailed e l₆ v₆ hl₆ hstart₆
        | ok _ =>
          have hdone := hdiscarded () rfl
          have hlive := live_of_discarded hready hcandidates.symm hwinner hdone (hclean ∘ hstart₆) hgone
          refine Client.ensures_bind (Client.ensures_mono (checkLive_ensures hl₆ hlive gen.number) ?_)
          rintro l₇ r v₇ ⟨hl₇, rfl, hclean₇⟩
          cases r with
          | error e => exact hfailed e l₇ v₇ hl₇ (hstart₆ ∘ hclean₇)
          | ok _ =>
            refine ⟨hl₇, fun h => hclean (hstart₆ (hclean₇ h)), fun gen' hgen => ?_⟩
            cases hgen
            refine ⟨hcandidates ▸ hdone.sealed.during, rfl, fun c hc => ?_, fun c hc => ?_, fun _ h w hw => ?_⟩
            · exact ⟨winner, hcandidates ▸ hwinner, rfl, hdone.sealed.winner c hc⟩
            · obtain ⟨e, he⟩ := hdescends c hc
              exact ⟨e, by rw [hdone.frozen]; exact he⟩
            · cases hw
              exact hlive (hclean₇ h)

theorem runGeneration_ensures (args : SearchArgs) {number : Nat} {winners : List String} {l : List (Check × Bool)}
    (hready : Ready number frontierFork winners l v₀) (value : Int) :
    (runGeneration args number frontier frontierFork value winners).Ensures Query.Means (fun l' r v' => WellReported l' ∧
      (AllPass Check.IsCleaning l' → AllPass Check.IsCleaning l) ∧
      ∀ gen, r = .ok gen → Generated number args.fanout frontier frontierFork winners l' v₀ v' gen) l v₀ := by
  have hfailed (e : PyError) (l' : List (Check × Bool)) (v' : Worlds String String E) (hl' : WellReported l')
      (hclean : AllPass Check.IsCleaning l' → AllPass Check.IsCleaning l) : WellReported l' ∧
        (AllPass Check.IsCleaning l' → AllPass Check.IsCleaning l) ∧ ∀ gen, (.error e : Except PyError Generation) = .ok gen →
          Generated number args.fanout frontier frontierFork winners l' v₀ v' gen :=
    ⟨hl', hclean, fun _ h => by cases h⟩
  unfold runGeneration
  dsimp only
  split
  · exact hfailed _ l v₀ hready.reported id
  · exact hfailed _ l v₀ hready.reported id
  · next first rest expectedWinner hids hexpected =>
    let mine (b : String) : Prop := b ∈ candidateIds number args.fanout ∨ frontierFork = some b
    have hcandidate {b : String} (hb : b ∈ first :: rest) : b ∈ candidateIds number args.fanout := by
      rw [hids]
      exact hb
    refine Client.ensures_call (fun e v' _ => hfailed e l v' hready.reported id) fun forks v₁ hfork => ?_
    obtain ⟨hfrozen, hcurrent, hlive⟩ := hfork
    have hduring : During (candidateIds number args.fanout) frontierFork v₀ v₁ := by
      have hother {b : String} (hb : b ∉ candidateIds number args.fanout) : v₁.live b = v₀.live b :=
        (hlive b).resolve_right fun h => hb h.1
      exact ⟨fun id x hx => by rw [hfrozen]; exact hx, hcurrent, fun b hb _ => hother hb, fun b hb => by rw [hother hb]⟩
    have hstands : ∀ b ∈ candidateIds number args.fanout, StandsOn frontier v₁ b := by
      intro b hb base e hbase
      obtain ⟨i, -, rfl⟩ := mem_candidateIds.mp hb
      rcases hlive (candidateId number (i + 1)) with hsame | ⟨-, -, e', hnew⟩
      · rw [hsame, hready.fresh number le_rfl] at hbase
        cases hbase
      · cases hnew.symm.trans hbase
        rfl
    have hl₁ : WellReported (l ++ [(.materialized number args.fanout,
        decide (forks.map EnvironmentBranch.id = candidateIds number args.fanout))]) :=
      hready.reported.add (fun h => h.elim) fun h => h.elim
    refine Client.ensures_tell ?_
    refine Client.ensures_keepsTo ((probes_touched E mine).measure args number _ fun b hb => .inl (hcandidate hb))
      (fun e l' v' hl' => ?_) fun measured l₂ v₂ hl₂ ht₂ => ?_
    · exact hfailed e l' v' (hl₁.probes hl') fun h => ((cleaning_iff_of_probes hl').mp h).left
    refine Client.ensures_tell (settle_ensures args hready rfl (fun b hb => ?_) (fun b hb => ?_) rfl rfl
      ((hl₁.probes hl₂).add (c := .arithmetic number) (fun h => h.elim) fun h => h.elim)
      (fun h => ((cleaning_iff_of_probes hl₂).mp h.left).left)
      (hduring.touched ht₂)
      (fun b hb => (hstands b hb).touched ht₂) value)
    · rw [Dict.mem_keys_ofList] at hb
      obtain ⟨e, he, rfl⟩ := List.mem_map.mp hb
      exact hcandidate (List.mem_cons_of_mem _ (List.of_mem_zip he).1)
    · exact hcandidate (List.mem_cons_of_mem _ hb)

end

/-! ### The whole search -/

/-- Each generation stands on the checkpoint of the one before it, and so do the checkpoints that it took. Its winner
lives on its own checkpoint, and only the last generation may be without one. -/
def Lineage (v : Worlds String String E) : String → List Generation → Prop
  | _, [] => True
  | frontier, gen :: rest =>
    gen.frontier = frontier ∧ (∀ c, gen.parkedCheckpoint = some c → Descends frontier v c) ∧
      (∀ c, gen.winnerCheckpoint = some c → Descends frontier v c ∧
        (∃ w, gen.winner = some w ∧ (v.live w).map Prod.fst = some c) ∧ Lineage v c rest) ∧
      (gen.winnerCheckpoint = none → rest = [])

/-- The branch is not one of the candidates of these generations. -/
def Foreign (number : Nat) (b : String) : Prop := ∀ g ≥ number, ∀ i, b ≠ candidateId g i

/-- What the generations from this number on leave alone. -/
structure Later (number : Nat) (frontierFork : Option String) (v v' : Worlds String String E) : Prop where
  frozen : ∀ id x, v.frozen id = some x → v'.frozen id = some x
  others : ∀ b, Foreign number b → frontierFork ≠ some b → v'.live b = v.live b
  base : ∀ b, Foreign number b → (v'.live b).map Prod.fst = (v.live b).map Prod.fst

section

variable {number fanout : Nat} {frontier : String} {frontierFork : Option String} {winners : List String}
  {l : List (Check × Bool)} {v v' v'' : Worlds String String E} {gen : Generation}

theorem Later.refl (number : Nat) (frontierFork : Option String) (v : Worlds String String E) :
    Later number frontierFork v v := ⟨fun _ _ h => h, fun _ _ _ => rfl, fun _ _ => rfl⟩

theorem Foreign.not_mem {b : String} (h : Foreign number b) (fanout : Nat) : b ∉ candidateIds number fanout := by
  intro hmem
  obtain ⟨i, -, he⟩ := mem_candidateIds.mp hmem
  exact h number le_rfl (i + 1) he.symm

theorem foreign_of_mem {b : String} (h : b ∈ candidateIds number fanout) : Foreign (number + 1) b := by
  intro g hg i he
  obtain ⟨j, -, rfl⟩ := mem_candidateIds.mp h
  have hnumber := (candidateId_inj he).1
  omega

theorem Later.cons (h : During (candidateIds number fanout) frontierFork v v') {w : Option String}
    (hw : ∀ b, w = some b → b ∈ candidateIds number fanout) (h' : Later (number + 1) w v' v'') :
    Later number frontierFork v v'' := by
  have hnext {b : String} (hb : Foreign number b) : Foreign (number + 1) b :=
    fun g hg => hb g (Nat.le_of_succ_le hg)
  refine ⟨fun id x hx => h'.frozen id x (h.frozen id x hx), fun b hb hff => ?_, fun b hb => ?_⟩
  · exact (h'.others b (hnext hb) fun he => hb.not_mem fanout (hw b he)).trans (h.others b (hb.not_mem fanout) hff)
  · exact (h'.base b (hnext hb)).trans (h.base b (hb.not_mem fanout))

theorem Descends.mono {id : String} (h : Descends frontier v id)
    (hfrozen : ∀ id x, v.frozen id = some x → v'.frozen id = some x) : Descends frontier v' id := by
  obtain ⟨e, he⟩ := h
  exact ⟨e, hfrozen id _ he⟩

/-- The next generation can start from the winner of this one. -/
theorem Generated.ready {l₀ : List (Check × Bool)} (hready : Ready number frontierFork winners l₀ v) (hl : WellReported l)
    (h : Generated number fanout frontier frontierFork winners l v v' gen) {c w : String}
    (hc : gen.winnerCheckpoint = some c) (hw : gen.winner = some w) (hmem : w ∈ candidateIds number fanout) :
    Ready (number + 1) gen.winner (winners ++ [w]) l v' where
  reported := hl
  fresh g hg i := by
    have hforeign : candidateId g i ∉ candidateIds number fanout := by
      intro hin
      exact foreign_of_mem hin g hg i rfl
    have hbase := h.during.base _ hforeign
    rw [hready.fresh g (Nat.le_of_succ_le hg) i] at hbase
    exact Option.map_eq_none_iff.mp hbase
  current g i := by
    rw [h.during.current]
    exact hready.current g i
  old g hg i := by
    rw [hw]
    exact fun he => foreign_of_mem hmem g hg i (Option.some.inj he)
  live hclean b := by
    rw [h.live (by rw [hc]; simp) hclean w hw b]
    simp only [List.mem_cons, List.mem_append, List.not_mem_nil, or_false]
    exact or_congr_right or_comm

theorem generationsFrom_ensures (args : SearchArgs) (left : Nat) (done : List Generation)
    (hready : Ready (done.length + 1) frontierFork (done.filterMap Generation.winner) l v) (value : Int) :
    (generationsFrom args left done frontier frontierFork value).Ensures Query.Means (fun l' r v' => WellReported l' ∧
      ∀ gens, r = .ok gens → ∃ new, gens = done ++ new ∧ Lineage v' frontier new ∧
        Later (done.length + 1) frontierFork v v' ∧
        (AllPass Check.IsCleaning l' → (∀ gen ∈ new, gen.winnerCheckpoint ≠ none) →
          ∀ b, v'.live b ≠ none ↔ b ∈ defaultBranchId :: gens.filterMap Generation.winner)) l v := by
  induction left generalizing done frontier frontierFork value l v with
  | zero =>
    refine ⟨hready.reported, fun gens hgens => ?_⟩
    obtain rfl : done = gens := Except.ok.inj hgens
    exact ⟨[], (List.append_nil done).symm, trivial, .refl .., fun hclean _ => hready.live hclean⟩
  | succ left ih =>
    refine Client.ensures_bind (Client.ensures_mono (runGeneration_ensures args hready value) ?_)
    rintro l₁ r v₁ ⟨hl₁, -, hgenerated⟩
    cases r with
    | error e => exact ⟨hl₁, fun _ h => by cases h⟩
    | ok gen =>
      have hgen := hgenerated gen rfl
      unfold Client.Rest
      dsimp only
      cases hc : gen.winnerCheckpoint with
      | none =>
        refine ⟨hl₁, fun gens hgens => ?_⟩
        obtain rfl : done ++ [gen] = gens := Except.ok.inj hgens
        refine ⟨[gen], rfl, ⟨hgen.origin, hgen.parked, fun c hc' => (by cases hc.symm.trans hc'), fun _ => rfl⟩,
          .cons hgen.during (w := none) (fun _ h => (by cases h)) (.refl ..), fun _ hall => absurd hc ?_⟩
        exact hall gen (List.mem_singleton_self gen)
      | some c =>
        obtain ⟨w, hmem, hw, hbase, hdescends⟩ := hgen.winner c hc
        have hnext := hgen.ready hready hl₁ hc hw hmem
        have hdone : (done ++ [gen]).filterMap Generation.winner = done.filterMap Generation.winner ++ [w] := by
          rw [List.filterMap_append]
          simp [hw]
        rw [← hdone] at hnext
        have hlength : done.length + 1 + 1 = (done ++ [gen]).length + 1 := by
          rw [List.length_append]
          rfl
        rw [hlength] at hnext
        refine Client.ensures_mono (ih (done ++ [gen]) hnext _) ?_
        rintro l₂ r v₂ ⟨hl₂, hrest⟩
        refine ⟨hl₂, fun gens hgens => ?_⟩
        obtain ⟨new, rfl, hlineage, hlater, hlive⟩ := hrest gens hgens
        rw [← hlength] at hlater
        refine ⟨gen :: new, by rw [List.append_assoc]; rfl, ⟨hgen.origin, fun p hp => (hgen.parked p hp).mono hlater.frozen,
          fun c' hc' => ?_, fun hnone => (by cases hc.symm.trans hnone)⟩, .cons hgen.during (w := gen.winner) (fun b hb => ?_)
          hlater, fun hclean hall => hlive hclean fun g hg => hall g (List.mem_cons_of_mem _ hg)⟩
        · obtain rfl : c = c' := Option.some.inj (hc.symm.trans hc')
          exact ⟨hdescends.mono hlater.frozen, ⟨w, hw, (hlater.base w (foreign_of_mem hmem)).trans hbase⟩, hlineage⟩
        · obtain rfl : w = b := Option.some.inj (hw.symm.trans hb)
          exact hmem

end

/-- Whatever the candidates print and whichever calls fail, a search that starts with the default branch alone leaves a
line of descent: each generation stands on the checkpoint of the last winner, whose branch lives on it to the end. All
checks that a checkpoint parents onto the frontier pass, the default branch and the snapshots from before are as they
were, and if every winner was sealed and every other candidate parked or discarded then the forks that live are the
default branch and the winners, and the checks that list them pass as well. -/
theorem search_keeps_lineage (B : ForkableBackend W) (live : W → String → Option (String × E))
    (stored : W → String → Option E) (hB : Isolating B live stored) (hrequests : B.ForksOnRequest) (hnames : NamesAsAsked B)
    (args : SearchArgs) (prepared : String) (s : Sys W) (h : Represents live stored s)
    (hmain : ∀ b, live s.world b ≠ none ↔ b = defaultBranchId) (hcurrent : s.mgr.currentBranchId = defaultBranchId)
    (hnew : (search args prepared).EachQuery (Query.answer B.hooks) (Query.SuppliesNew B) s) :
    let x := (search args prepared).run (Query.answer B.hooks) s
    let v := view live stored x.2.2
    AllPass Check.IsParent x.1 ∧ (AllPass Check.IsCleaning x.1 → AllPass Check.IsLive x.1) ∧
      ∀ gens, x.2.1 = .ok gens → Lineage v prepared gens ∧ v.live defaultBranchId = live s.world defaultBranchId ∧
        (∀ id y, (view live stored s).frozen id = some y → v.frozen id = some y) ∧
        (AllPass Check.IsCleaning x.1 → (∀ gen ∈ gens, gen.winnerCheckpoint ≠ none) →
          ∀ b, v.live b ≠ none ↔ b ∈ defaultBranchId :: gens.filterMap Generation.winner) := by
  have hready : Ready 1 none [] [] (view live stored s) := by
    refine ⟨.nil, fun g _ i => ?_, fun g i => ?_, fun g _ i => by simp, fun _ b => ?_⟩
    · by_contra hne
      exact candidateId_ne_main g i ((hmain _).mp hne)
    · exact fun he => candidateId_ne_main g i (he.symm.trans hcurrent)
    · rw [List.mem_singleton]
      exact hmain b
  have hensures : (search args prepared).Ensures Query.Means _ [] (view live stored s) :=
    generationsFrom_ensures args args.generations [] hready 0
  obtain ⟨-, hreported, hgens⟩ := Client.run_ensures (answer_means hB hrequests hnames) h hnew hensures
  refine ⟨hreported.parents, hreported.live, fun gens hok => ?_⟩
  obtain ⟨new, rfl, hlineage, hlater, hlive⟩ := hgens gens hok
  refine ⟨hlineage, hlater.others defaultBranchId ?_ (by simp), hlater.frozen, hlive⟩
  exact fun g _ i he => candidateId_ne_main g i he.symm

/-! ### A search on a shelf -/

/-- The id of a capture, if it makes one, is that of no snapshot. -/
def idIsNew (m : Manager) : Except PyError (Option (String × String) × ℚ) → Bool
  | .ok (some (id, _), _) => id ∉ m.snapshotGraph.keys
  | _ => true

/-- `Query.SuppliesNew`, computed. -/
def Query.suppliesNew (B : ForkableBackend W) : Query → Sys W → Bool
  | .snapshotBranch b, s => idIsNew s.mgr (B.snapshot b s.world).1
  | .parkBranch b, s => idIsNew s.mgr (B.park b s.world).1
  | _, _ => true

theorem Query.suppliesNew_of_eq_true {B : ForkableBackend W} (q : Query) (s : Sys W) (h : q.suppliesNew B s = true) :
    q.SuppliesNew B s := by
  intro op hop id hid
  cases q with
  | snapshotBranch b =>
    cases hop
    obtain ⟨-, -, resource, elapsed, hcaptured⟩ := hid
    rw [Query.suppliesNew, hcaptured] at h
    exact of_decide_eq_true h
  | parkBranch b =>
    cases hop
    obtain ⟨-, resource, elapsed, hcaptured⟩ := hid
    rw [Query.suppliesNew, hcaptured] at h
    exact of_decide_eq_true h
  | parentId snapshotId => cases hop
  | _ =>
    cases hop
    exact hid.elim

/-- A shelf on which a command prints what is told for its branch. -/
def printing (prints : String → Int × String × String) : ForkableBackend Shelf :=
  { Shelf.backend true with
    exec := fun command _ b w => (.ok (prints b), Shelf.append command b w) }

theorem isolating_printing (prints : String → Int × String × String) :
    Isolating (printing prints) Shelf.live Shelf.kept :=
  { Shelf.isolating true with
    exec := fun command _ b w => Shelf.within_append command b w }

theorem id_mem_of_fleet {snapshotId : String} {ids : List String} {w : Fleet} :
    ∀ o ∈ (Fleet.fork snapshotId (ids.map some) w).1, o.1.id ∈ ids := by
  induction ids generalizing w with
  | nil => exact fun o ho => absurd ho List.not_mem_nil
  | cons id ids ih =>
    intro o ho
    rcases List.mem_append.mp ho with hfirst | hrest
    · obtain ⟨branch, hbranch, rfl⟩ := Option.map_eq_some_iff.mp (Option.mem_toList.mp hfirst)
      have hplaced : (Fleet.place snapshotId id w).1 = some branch := hbranch
      unfold Fleet.place at hplaced
      split at hplaced
      · cases hplaced
      · cases hplaced
        exact List.mem_cons_self
    · exact List.mem_cons_of_mem _ (ih o hrest)

theorem namesAsAsked_printing (prints : String → Int × String × String) : NamesAsAsked (printing prints) := by
  intro snapshotId ids w outcomes w' hfork o ho
  cases hfork
  change o ∈ (Shelf.fork snapshotId (ids.map some) w).1 at ho
  unfold Shelf.fork at ho
  split at ho
  · exact absurd ho List.not_mem_nil
  · exact id_mem_of_fleet o ho

instance : DecidablePred Check.IsCleaning := fun c =>
  match c with
  | .winnerSealed _ _ | .parked _ _ | .discarded _ => isTrue trivial
  | .materialized _ _ | .rejectedExit _ | .rejectedUsable _ | .ran _ | .arithmetic _ | .scored _ | .winnerSelected _ _
  | .ownEdits _ | .frontierUntouched _ _ | .winnerParent _ | .winnerResumed _ | .parkedParent _ | .liveForks _ => isFalse id

instance (l : List (Check × Bool)) : Decidable (AllPass Check.IsCleaning l) :=
  inferInstanceAs (Decidable (∀ e ∈ l, e.1.IsCleaning → e.2 = true))

/-- What the candidates of four generations print. -/
def prints (b : String) : Int × String × String :=
  if b = "g1-c2" then (0, "3\n", "")
  else if b = "g1-c3" then (0, "6\n", "")
  else if b = "g2-c2" then (0, "7\n", "")
  else if b = "g2-c3" then (0, "8\n", "")
  else if b = "g3-c2" then (0, "9\n", "")
  else if b = "g3-c3" then (0, "10\n", "")
  else if b = "g4-c2" then (0, "11\n", "")
  else if b = "g4-c3" then (0, "12\n", "")
  else (1, "", "")

/-- Two generations of three candidates. -/
theorem search_keeps_lineage_printing :
    let args : SearchArgs := ⟨3, 2, 10, 1, by decide, by decide⟩
    let s : Sys Shelf := ⟨Manager.seeded "base" "base", Shelf.start ["w1", "p1", "w2", "p2"]⟩
    let x := (search args "base").run (Query.answer (printing prints).hooks) s
    AllPass Check.IsLive x.1 ∧ ∃ gens, x.2.1 = .ok gens ∧
      (gens.map fun gen => (gen.winnerCheckpoint, gen.winnerValue)) = [(some "w1", some 6), (some "w2", some 8)] ∧
      Lineage (view Shelf.live Shelf.kept x.2.2) "base" gens := by
  intro args s x
  have hends : (x.2.1.toOption.map fun gens => gens.map fun gen => (gen.winnerCheckpoint, gen.winnerValue)) =
      some [(some "w1", some 6), (some "w2", some 8)] := by decide +kernel
  have hclean : AllPass Check.IsCleaning x.1 := by decide +kernel
  have hmain (b : String) : Shelf.live s.world b ≠ none ↔ b = defaultBranchId := by
    rw [show Shelf.live s.world = _ from Shelf.start_live _]
    dsimp only
    split_ifs with hb <;> simp [hb]
  have hnew : (search args "base").EachQuery (Query.answer (printing prints).hooks)
      (fun q s => q.suppliesNew (printing prints) s = true) s := by decide +kernel
  obtain ⟨-, hlive, hgens⟩ := search_keeps_lineage (printing prints) Shelf.live Shelf.kept (isolating_printing prints)
    (Shelf.forksOnRequest true) (namesAsAsked_printing prints) args "base" s
    (.seeded (by decide) (Shelf.start_live _) (by decide)) hmain rfl (hnew.mono Query.suppliesNew_of_eq_true)
  obtain ⟨gens, hoption, hvalues⟩ := Option.map_eq_some_iff.mp hends
  have hok : x.2.1 = .ok gens := by
    cases hresult : x.2.1 with
    | error e =>
      rw [hresult] at hoption
      cases hoption
    | ok gens' =>
      rw [hresult] at hoption
      cases hoption
      rfl
  exact ⟨hlive hclean, gens, hok, hvalues, (hgens gens hok).1⟩

end StateFork.SearchWorkflow
