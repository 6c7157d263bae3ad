import StateFork.Waypoint.Contract

/-!
# A session in memory honours the contract

The commands of `Slate` do to its branches what `Honours` asks for (`Slate.honours`). Its reports are printed as texts and
read back (`Slate.readReport_report`); `Slate.direct` is the backend without this detour.
-/

namespace StateFork

open Conc Conc.Prog Branching EnvironmentManager ForkableEnvironmentManager WaypointAttachManager

variable {W E : Type}

/-- One more branch of a snapshot. -/
theorem Branched.cons {live : W → String → Option (String × E)} {stored : W → String → Option E} {snapshotId : String}
    {o : EnvironmentBranch} {branches : List EnvironmentBranch} {w w₁ w' : W} {e : E} (hstored : stored w snapshotId = some e)
    (hnew : live w o.id = none) (hlive : live w₁ = Function.update (live w) o.id (some (snapshotId, e)))
    (hsame : stored w₁ = stored w) (h : Branched live stored snapshotId branches w₁ w') :
    Branched live stored snapshotId (o :: branches) w w' := by
  obtain ⟨hall, hdistinct, hlive', hstays⟩ := h
  have hother : ∀ o' ∈ branches, o'.id ≠ o.id := by
    intro o' ho' he
    have hnone := (hall o' ho').1
    rw [hlive, he, Function.update_self] at hnone
    cases hnone
  refine ⟨fun o' ho' => ⟨?_, ?_⟩, ?_, ?_, fun id => ?_⟩
  · rcases List.mem_cons.mp ho' with rfl | ho'
    · exact hnew
    · have hnone := (hall o' ho').1
      rwa [hlive, Function.update_of_ne (hother o' ho')] at hnone
  · rw [hstored]
    simp
  · refine List.nodup_cons.mpr ⟨fun hmem => ?_, hdistinct⟩
    obtain ⟨o', ho', he⟩ := List.mem_map.mp hmem
    exact hother o' ho' he
  · funext b
    rw [hlive', hlive, hsame, hstored]
    by_cases hb : b ∈ branches.map EnvironmentBranch.id
    · simp [hb]
    · by_cases he : b = o.id
      · simp [he]
      · simp [hb, he]
  · unfold Stays
    rw [← hsame]
    exact hstays id

theorem Branched.none (live : W → String → Option (String × E)) (stored : W → String → Option E) (snapshotId : String)
    (w : W) : Branched live stored snapshotId [] w w :=
  ⟨fun _ ho => absurd ho List.not_mem_nil, List.nodup_nil, by simp, fun _ _ he => he⟩

namespace Slate

variable {w : Slate} {b id base : String} {e : List String}

theorem live_put (hb : b ≠ "") (w : Slate) (here : String × List String) :
    (w.put b here).live = Function.update w.live b (some here) := by
  unfold put
  rw [dif_neg hb]
  funext b'
  rw [Function.update_apply]
  exact Dict.get?_set w.forks b b' here

theorem stored_put (w : Slate) (b : String) (here : String × List String) : (w.put b here).stored = w.stored := by
  unfold put
  split_ifs <;> rfl

theorem live_drop (w : Slate) (b : String) : (w.drop b).live = Function.update w.live b none := by
  funext b'
  rw [Function.update_apply]
  exact Dict.get?_erase w.forks b b'

theorem ne_empty_of_live (h : w.live b = some (base, e)) : b ≠ "" := by
  rintro rfl
  exact w.named (Dict.mem_keys_of_get? h)

/-! ### The report -/

theorem readReport_report (w : Slate) : readReport w.report = w.shown := by
  have htriples (l : List (String × String × String)) :
      triples ((l.flatMap fun entry => [entry.1, entry.2.1, entry.2.2]).map fun word => .word word.toList) = l := by
    induction l with
    | nil => rfl
    | cons entry l ih =>
      obtain ⟨kind, id, origin⟩ := entry
      show (String.ofList kind.toList, String.ofList id.toList, String.ofList origin.toList) ::
        triples ((l.flatMap fun entry => [entry.1, entry.2.1, entry.2.2]).map fun word => .word word.toList) = _
      rw [ih, String.ofList_toList, String.ofList_toList, String.ofList_toList]
  unfold readReport report
  rw [WaypointCli.tokens_join]
  exact htriples w.shown

/-- The entries of the live branches. -/
def listed (w : Slate) : List ForkEntry :=
  w.forks.entries.map fun entry => { id := some entry.1, baseCheckpointId := some entry.2.1 }

def marks (w : Slate) : List Checkpoint :=
  w.taken.entries.map fun entry => { id := entry.1, parentId := some entry.2.1 }

theorem forksOf_report (w : Slate) : cli.forksOf w.report = .ok (some w.listed) := by
  show Except.ok (some ((readReport w.report).filterMap _)) = _
  rw [readReport_report, shown, List.filterMap_append, List.filterMap_map, List.filterMap_map]
  simp [listed]

theorem checkpointsOf_report (w : Slate) : cli.checkpointsOf w.report = .ok (some w.marks) := by
  show Except.ok (some ((readReport w.report).filterMap _)) = _
  rw [readReport_report, shown, List.filterMap_append, List.filterMap_map, List.filterMap_map]
  simp [marks]

/-- The report names the live branches. -/
theorem enumerates (w : Slate) : Enumerates w.live w.listed where
  distinct := by
    unfold listed
    rw [List.filterMap_map]
    have hids : w.forks.entries.filterMap (ForkEntry.id ∘ fun entry =>
        { id := some entry.1, baseCheckpointId := some entry.2.1 }) = w.forks.keys :=
      congrFun (List.filterMap_eq_map (f := Prod.fst)) w.forks.entries
    rw [hids]
    exact w.forks.nodup_keys
  named entry hentry he := by
    obtain ⟨⟨b, here⟩, hmem, rfl⟩ := List.mem_map.mp hentry
    obtain rfl : b = "" := Option.some.inj he
    exact w.named (List.mem_map_of_mem hmem)
  exact b base := by
    constructor
    · intro h
      obtain ⟨⟨base', e⟩, hlive, rfl⟩ := Option.map_eq_some_iff.mp h
      exact ⟨_, List.mem_map_of_mem (Dict.mem_entries_of_get? hlive), rfl, rfl⟩
    · rintro ⟨_, hentry, hid, rfl⟩
      obtain ⟨⟨b', base', e⟩, hmem, rfl⟩ := List.mem_map.mp hentry
      obtain rfl : b' = b := Option.some.inj hid
      have hlive : w.live b' = some (base', e) := Dict.get?_of_mem_entries hmem
      rw [hlive]
      rfl

/-! ### The commands -/

theorem launch_cases (args : List String) (timeout : Option ℚ) (w : Slate) :
    (∃ stdout, (launch args timeout w).1 = .exited 0 stdout "") ∨ launch args timeout w = w.refuse := by
  have htake (b id : String) (park : Bool) :
      (∃ stdout, (w.take b id park).1 = .exited 0 stdout "") ∨ w.take b id park = w.refuse := by
    unfold take
    split
    · exact .inr rfl
    · exact .inl ⟨"", rfl⟩
  unfold launch
  split
  · exact htake ..
  · exact htake ..
  · split_ifs
    · exact .inl ⟨"", rfl⟩
    · exact .inr rfl
  · exact .inl ⟨w.report, rfl⟩
  · split
    · exact .inr rfl
    · exact .inl ⟨"", rfl⟩
  · exact .inr rfl

theorem not_succeeded_refuse (w : Slate) : ¬ w.refuse.1.Succeeded := by
  rintro ⟨_, _, h⟩
  cases h

theorem sealed_take {park : Bool} (h : (w.take b id park).1.Succeeded) :
    Sealed live stored b id (fun e => if park then none else some (id, e)) w (w.take b id park).2 := by
  cases hlive : w.live b with
  | none =>
    rw [show w.take b id park = w.refuse by unfold take; rw [hlive]] at h
    exact absurd h w.not_succeeded_refuse
  | some here =>
    obtain ⟨base, e⟩ := here
    set w₁ : Slate := { w with taken := w.taken.set id (base, e) } with hw₁
    have htake : w.take b id park = (.exited 0 "" "", if park then w₁.drop b else w₁.put b (id, e)) := by
      unfold take
      rw [hlive]
    have hstored : (w.take b id park).2.stored = w₁.stored := by
      rw [htake]
      cases park with
      | true => rfl
      | false => exact stored_put w₁ b (id, e)
    have hget (id' : String) : w₁.stored id' = if id' = id then some e else w.stored id' := by
      unfold stored
      rw [hw₁]
      dsimp only
      rw [Dict.get?_set]
      split_ifs <;> rfl
    refine ⟨base, e, hlive, ?_, ?_, fun id' hne e' he' => ?_⟩
    · rw [htake]
      cases park with
      | true => exact live_drop w₁ b
      | false => exact live_put (ne_empty_of_live hlive) w₁ (id, e)
    · rw [hstored, hget, if_pos rfl]
    · rw [hstored, hget, if_neg hne]
      exact he'

/-- A command runs on its branch, or it is refused. -/
theorem altersOnly_exec (b command : String) (timeout : Option ℚ) (w : Slate) :
    AltersOnly live stored b w (launch ["exec", "s-01", b, "--", command] timeout w).2 := by
  cases hlive : w.live b with
  | none =>
    have hrefused : launch ["exec", "s-01", b, "--", command] timeout w = w.refuse := by
      simp only [launch, hlive]
    rw [hrefused]
    exact (Unmoved.refl live stored w).within b
  | some here =>
    have hrun : launch ["exec", "s-01", b, "--", command] timeout w =
        (.exited 0 "" "", w.put b (here.1, here.2 ++ [command])) := by
      simp only [launch, hlive]
    have hupdate := live_put (ne_empty_of_live hlive) w (here.1, here.2 ++ [command])
    rw [hrun]
    refine ⟨fun b' hb' => ?_, ?_, fun id e he => ?_⟩
    · rw [hupdate, Function.update_of_ne hb']
    · rw [hupdate, Function.update_self, hlive]
      rfl
    · rw [stored_put]
      exact he

/-! ### The forks -/

/-- A fork is a new branch of the snapshot, or it failed. -/
theorem forkOne_cases (snapshotId : String) (requested : Option String) (w : Slate) :
    ∃ attempt w₁, forkOne snapshotId requested w = (attempt, w₁) ∧ attempt.Ran ∧
      ((attempt.branch snapshotId = none ∧ w₁.live = w.live ∧ w₁.stored = w.stored) ∨
        ∃ o e, attempt.branch snapshotId = some o ∧ w.stored snapshotId = some e ∧ w.live o.id = none ∧
          w₁.live = Function.update w.live o.id (some (snapshotId, e)) ∧ w₁.stored = w.stored) := by
  unfold forkOne
  dsimp only
  set id := requested.getD (w.ids.headD "")
  set w₁ := if requested.isSome then w else { w with ids := w.ids.tail } with hw₁
  have hsame : w₁.live = w.live ∧ w₁.stored = w.stored := by
    rw [hw₁]
    split_ifs <;> exact ⟨rfl, rfl⟩
  have hfailed : (⟨.exited 1 "" "", 0, none⟩ : ForkAttempt).Ran := ⟨1, "", "", rfl⟩
  cases hstored : w₁.stored snapshotId with
  | none => exact ⟨_, w₁, rfl, hfailed, .inl ⟨rfl, hsame⟩⟩
  | some e =>
    dsimp only
    split_ifs with hnew
    · obtain ⟨hword, hfresh⟩ := hnew
      have hparsed := WaypointFork.parseForkLine_printed id 1 "/run/waypoint" "1ms" [] hword (by decide) (by decide)
        (fun _ h => absurd h List.not_mem_nil) WaypointFork.lastLine_self snapshotId
      refine ⟨_, _, rfl, ⟨0, _, _, rfl⟩, .inr ⟨⟨id, snapshotId, "running"⟩, e, ?_, ?_, ?_, ?_, ?_⟩⟩
      · unfold ForkAttempt.branch
        dsimp only
        rw [hparsed]
        rfl
      · rw [← hsame.2]
        exact hstored
      · rw [← hsame.1]
        exact Dict.get?_eq_none_iff.mpr hfresh
      · rw [live_put hword.1, hsame.1]
      · rw [stored_put, hsame.2]
    · exact ⟨_, w₁, rfl, hfailed, .inl ⟨rfl, hsame⟩⟩

theorem branched_runForks (snapshotId : String) (requestedIds : List (Option String)) (w : Slate) :
    (∀ attempt ∈ (runForks snapshotId requestedIds w).1, attempt.Ran) ∧
      Branched live stored snapshotId ((runForks snapshotId requestedIds w).1.filterMap (ForkAttempt.branch snapshotId)) w
        (runForks snapshotId requestedIds w).2 := by
  induction requestedIds generalizing w with
  | nil => exact ⟨fun _ h => absurd h List.not_mem_nil, .none live stored snapshotId w⟩
  | cons requested requestedIds ih =>
    obtain ⟨attempt, w₁, hone, hran, hcases⟩ := forkOne_cases snapshotId requested w
    obtain ⟨hrest, hbranched⟩ := ih w₁
    rw [show runForks snapshotId (requested :: requestedIds) w = (attempt :: (runForks snapshotId requestedIds w₁).1,
      (runForks snapshotId requestedIds w₁).2) by rw [runForks, hone]]
    refine ⟨List.forall_mem_cons.mpr ⟨hran, hrest⟩, ?_⟩
    dsimp only
    rw [List.filterMap_cons]
    rcases hcases with ⟨hnone, hlive, hstored⟩ | ⟨o, e, hsome, hkept, hnew, hlive, hstored⟩
    · rw [hnone]
      obtain ⟨hall, hdistinct, hlive', hstays⟩ := hbranched
      refine ⟨fun o ho => ?_, hdistinct, ?_, fun id => ?_⟩
      · rw [← hlive, ← hstored]
        exact hall o ho
      · rw [hlive', hlive, hstored]
      · unfold Stays
        rw [← hstored]
        exact hstays id
    · rw [hsome]
      exact .cons hkept hnew hlive hstored hbranched

/-! ### What it honours -/

theorem honours : cli.Honours pool "s-01" live stored := by
  constructor
  case executable => exact fun _ => ⟨rfl, rfl, rfl⟩
  case exits =>
    intro args w
    rcases launch_cases args none w with ⟨stdout, h⟩ | h
    · exact ⟨0, stdout, "", h⟩
    · exact ⟨1, "", "", congrArg Prod.fst h⟩
  case fails =>
    intro args w hfailed
    rcases launch_cases args none w with ⟨stdout, h⟩ | h
    · exact absurd ⟨stdout, "", h⟩ hfailed
    · show Unmoved live stored w (launch args none w).2
      rw [h]
      exact .refl live stored w
  case snapshot =>
    intro park b id w hid x hx
    cases park with
    | true => exact sealed_take hx
    | false => exact sealed_take hx
  case destroy =>
    intro b w x hx
    by_cases hb : b ∈ w.forks.keys
    · have hdrop : x = (.exited 0 "" "", w.drop b) := if_pos hb
      rw [hdrop]
      exact ⟨live_drop w b, fun id e he => he⟩
    · have hrefused : x = w.refuse := if_neg hb
      rw [hrefused] at hx
      exact absurd hx w.not_succeeded_refuse
  case list => exact fun w => .refl live stored w
  case forksOf =>
    intro w stdout stderr hexit
    obtain ⟨-, rfl, -⟩ := Process.exited.inj hexit
    exact .inr ⟨_, forksOf_report w, enumerates w⟩
  case checkpointsOf =>
    intro w stdout stderr hexit
    obtain ⟨-, rfl, -⟩ := Process.exited.inj hexit
    refine .inr ⟨_, checkpointsOf_report w, fun c hc => ?_⟩
    obtain ⟨⟨id, parent, e⟩, hmem, rfl⟩ := List.mem_map.mp hc
    have hget : w.taken.get? id = some (parent, e) := Dict.get?_of_mem_entries hmem
    unfold stored
    rw [hget]
    simp
  case exec => exact altersOnly_exec
  case copyIn => exact fun b _ _ w => (Unmoved.refl live stored w).within b
  case copyOut => exact fun _ _ _ w => .refl live stored w
  case fork => exact branched_runForks
  case time => exact fun w => .refl live stored w
  case uuid4Hex => exact fun w => ⟨by simp [cli], .refl live stored w⟩

abbrev backend : WaypointBackend Slate := cli.backend "s-01" pool

/-- The backend, but for listings that are not printed and read back. -/
def direct : WaypointBackend Slate :=
  { backend with
    list := fun w => (.ok (some ((refreshed (fun _ => none) w.listed).map (·.toEnvironmentBranch))), w)
    checkpoints := fun w => (.ok (some w.marks), w) }

theorem backend_eq_direct : backend = direct := by
  have hlist : backend.list = direct.list := by
    funext w
    show ((cli.forksOf w.report).map _, w) = _
    rw [forksOf_report]
    rfl
  have hcheckpoints : backend.checkpoints = direct.checkpoints := by
    funext w
    show (cli.checkpointsOf w.report, w) = _
    rw [checkpointsOf_report]
    rfl
  have heta : backend = { backend with list := backend.list, checkpoints := backend.checkpoints } := rfl
  rw [heta, hlist, hcheckpoints]
  rfl

theorem lists (w : Slate) : (backend.list w).1 ≠ .ok none := by
  rw [backend_eq_direct]
  exact fun h => Option.some_ne_none _ (Except.ok.inj h)

/-- The manager that has attached to the session. -/
def attached (ids : List String) : Sys Slate :=
  ((WaypointAttachManager.attach backend).run ⟨Manager.init, create ids⟩).2

theorem attach_eq_of_ok {ids : List String}
    (h : ((WaypointAttachManager.attach backend).run ⟨Manager.init, create ids⟩).1 = .ok ()) :
    (WaypointAttachManager.attach backend).run ⟨Manager.init, create ids⟩ = (.ok (), attached ids) := by
  unfold attached
  generalize (WaypointAttachManager.attach backend).run ⟨Manager.init, create ids⟩ = x at h ⊢
  rw [← h]

end Slate

end StateFork
