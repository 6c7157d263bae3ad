import Mathlib.Data.Nat.Log
import Mathlib.Tactic.Linarith
import StateFork.Scripts.SearchWorlds

/-!
# How far the search gets

If every candidate computes what its move says then the winner of a generation has the value `nextValue`, and it is the
winner that the script expects. The values of the winners climb to the target without overshooting, meet it after about
as many generations as the target has digits to the base of the fanout, and go on by one for each generation after that.
-/

namespace StateFork.SearchWorkflow

/-! ### The plan -/

theorem zipIdx_candidateIds (number fanout : Nat) :
    (candidateIds number fanout).zipIdx = (List.range fanout).map fun i => (candidateId number (i + 1), i) := by
  refine List.ext_getElem (by simp [candidateIds]) fun i _ _ => ?_
  simp [candidateIds]

theorem entries_movesOf (number fanout : Nat) (step : Int) :
    (movesOf (candidateIds number fanout) step).entries =
      (List.range fanout).map fun i => (candidateId number (i + 1), if i = 0 then none else some ((i : Int) * step)) := by
  unfold movesOf
  rw [zipIdx_candidateIds, List.map_map]
  refine Dict.entries_ofList ?_
  rw [List.map_map]
  exact nodup_candidateIds number fanout

/-- The candidates behind the first one, each with the value that it is to have. -/
theorem entries_expectedOf (number fanout : Nat) (value step : Int) :
    (expectedOf value (movesOf (candidateIds number fanout) step)).entries =
      (List.range (fanout - 1)).map fun i => (candidateId number (i + 2), value + (i + 1) * step) := by
  have hentries : ((movesOf (candidateIds number fanout) step).entries.filterMap
      fun e => e.2.map fun move => (e.1, value + move)) =
        (List.range (fanout - 1)).map fun i => (candidateId number (i + 2), value + (i + 1) * step) := by
    rw [entries_movesOf, List.filterMap_map]
    cases fanout with
    | zero => rfl
    | succ n =>
      rw [List.range_succ_eq_map, List.filterMap_cons_none rfl, List.filterMap_map, Nat.add_sub_cancel]
      refine List.filterMap_congr (g := some ∘ fun i : Nat => (candidateId number (i + 2), value + (i + 1) * step))
        (fun i _ => ?_) |>.trans (congrFun List.filterMap_eq_map _)
      simp
  unfold expectedOf
  rw [hentries]
  refine Dict.entries_ofList ?_
  rw [List.map_map]
  refine List.Nodup.map (fun i j h => ?_) List.nodup_range
  have hindex := (candidateId_inj h).2
  omega

theorem idxOf_candidateId {number fanout i : Nat} (hi : i < fanout) :
    (candidateIds number fanout).idxOf (candidateId number (i + 1)) = i := by
  have hlength : i < (candidateIds number fanout).length := by simpa [candidateIds] using hi
  have hget : (candidateIds number fanout)[i] = candidateId number (i + 1) := by simp [candidateIds]
  rw [← hget]
  exact (nodup_candidateIds number fanout).idxOf_getElem i hlength

/-! ### The winner -/

/-- If the values match then the scored candidates are the expected ones, in another order. -/
theorem scored_perm_expected (target : Int) (ids : List String) {values : Dict String (Option Int)}
    {expected : Dict String Int} (h : matchesExpected values expected = true) :
    (scoredOf target ids values).Perm expected.entries := by
  unfold matchesExpected at h
  rw [Bool.and_eq_true, decide_eq_true_eq, List.all_eq_true] at h
  obtain ⟨hlength, hall⟩ := h
  have hentry {e : String × Option Int} (he : e ∈ values.entries) : e.2.isSome = true ∧ expected.get? e.1 = e.2 := by
    have hboth := hall e he
    rw [Bool.and_eq_true, decide_eq_true_eq] at hboth
    exact hboth
  refine (perm_scored target ids values).trans (List.Subperm.perm_of_length_le ?_ ?_)
  · refine (List.Nodup.of_map Prod.fst ((sublist_scored values).nodup values.nodup)).subperm fun e he => ?_
    obtain ⟨e', he', hvalue⟩ := List.mem_filterMap.mp he
    obtain ⟨value, hsome, rfl⟩ := Option.map_eq_some_iff.mp hvalue
    exact Dict.mem_entries_of_get? ((hentry he').2.trans hsome)
  · have hkept : (values.entries.filterMap fun e => e.2.map fun value => (e.1, value)).length = values.entries.length := by
      rw [List.length_filterMap_eq_countP, List.countP_eq_length]
      intro e he
      rw [Option.isSome_map]
      exact (hentry he).1
    unfold Dict.keys at hlength
    rw [List.length_map, List.length_map] at hlength
    rw [hkept, hlength]

theorem scored_head {target : Int} {ids : List String} {values : Dict String (Option Int)} {expected : Dict String Int}
    (h : matchesExpected values expected = true) {best : String × Int} {others : List (String × Int)}
    (hscored : scoredOf target ids values = best :: others) :
    best ∈ expected.entries ∧ ∀ e ∈ expected.entries, rank target ids best ≤ rank target ids e := by
  have hperm := scored_perm_expected target ids h
  rw [hscored] at hperm
  refine ⟨hperm.mem_iff.mp List.mem_cons_self, fun e he => ?_⟩
  let le (e e' : String × Int) : Prop := rank target ids e ≤ rank target ids e'
  have htotal : Std.Total le := ⟨fun _ _ => le_total _ _⟩
  have htrans : IsTrans (String × Int) le := ⟨fun _ _ _ => le_trans⟩
  have hsorted : (scoredOf target ids values).Pairwise le := List.pairwise_insertionSort le _
  rw [hscored, List.pairwise_cons] at hsorted
  rcases List.mem_cons.mp (hperm.mem_iff.mpr he) with rfl | hother
  · exact le_rfl
  · exact hsorted.1 e hother

/-- What the value of a winner is to be. -/
def nextValue (args : SearchArgs) (value : Int) : Int :=
  if args.target ≤ value then value + 1
  else if args.target - value < args.fanout then args.target
  else value + (args.fanout - 1) * ((args.target - value) / args.fanout)

theorem distance_le_of_rank_le {target : Int} {ids : List String} {e e' : String × Int}
    (h : rank target ids e ≤ rank target ids e') : (target - e.2).natAbs ≤ (target - e'.2).natAbs := by
  rcases Prod.Lex.toLex_le_toLex.mp h with hlt | ⟨heq, -⟩
  · exact hlt.le
  · exact heq.le

/-- The first of the best moves. -/
theorem eq_nextValue (args : SearchArgs) (value : Int) {i : Nat} (hi : i < args.fanout - 1)
    (hbest : ∀ j < args.fanout - 1, (args.target - (value + (i + 1) * stepOf args.target value args.fanout)).natAbs ≤
      (args.target - (value + (j + 1) * stepOf args.target value args.fanout)).natAbs) :
    value + (i + 1) * stepOf args.target value args.fanout = nextValue args value := by
  have htwo := args.two_le_fanout
  unfold nextValue
  split_ifs with hreached hclose
  · have hstep : stepOf args.target value args.fanout = 1 := by
      unfold stepOf
      rw [max_eq_left (by omega : args.target - value ≤ 0), Int.zero_ediv]
      rfl
    have hfirst := hbest 0 (by omega)
    rw [hstep] at hfirst ⊢
    push_cast at hfirst
    omega
  · have hstep : stepOf args.target value args.fanout = 1 := by
      unfold stepOf
      rw [max_eq_right (by omega : 0 ≤ args.target - value), Int.ediv_eq_zero_of_lt (by omega) hclose]
      rfl
    have hexact := hbest ((args.target - value).toNat - 1) (by omega)
    rw [hstep] at hexact ⊢
    omega
  · have hfanout : (0 : Int) < args.fanout := by omega
    obtain ⟨q, hq⟩ : ∃ q, (args.target - value) / (args.fanout : Int) = q := ⟨_, rfl⟩
    have hpos : 1 ≤ q := by
      rw [← hq, Int.le_ediv_iff_mul_le hfanout]
      omega
    have hall : args.fanout * q ≤ args.target - value := by
      rw [← hq]
      exact Int.mul_ediv_self_le hfanout.ne'
    have hstep : stepOf args.target value args.fanout = q := by
      unfold stepOf
      rw [max_eq_right (by omega : 0 ≤ args.target - value), hq, max_eq_right hpos]
    have hlast := hbest (args.fanout - 2) (by omega)
    have hcast : ((args.fanout - 2 : Nat) : Int) + 1 = args.fanout - 1 := by omega
    rw [hstep, hcast] at hlast
    rw [hstep, hq]
    have hindex : (i : Int) + 1 ≤ args.fanout - 1 := by omega
    -- no move goes beyond the target, so the longest one is the best
    have hshort : ((i : Int) + 1) * q ≤ (args.fanout - 1) * q := mul_le_mul_of_nonneg_right hindex (by omega)
    have hlong : ((args.fanout : Int) - 1) * q ≤ args.target - value := by linarith
    have hsame : ((args.fanout : Int) - 1) * q ≤ (i + 1) * q := by omega
    rw [le_antisymm hshort hsame]

/-- If the values match, the winner is the one that was expected, and it has the next value. -/
theorem scored_winner (args : SearchArgs) (number : Nat) (value : Int) {values : Dict String (Option Int)}
    (h : matchesExpected values (expectedOf value
      (movesOf (candidateIds number args.fanout) (stepOf args.target value args.fanout))) = true) :
    ∃ winner others, scoredOf args.target (candidateIds number args.fanout) values =
        (winner, nextValue args value) :: others ∧
      expectedWinner? args.target (candidateIds number args.fanout) (expectedOf value
        (movesOf (candidateIds number args.fanout) (stepOf args.target value args.fanout))) = some winner := by
  have htwo := args.two_le_fanout
  let ids := candidateIds number args.fanout
  let step := stepOf args.target value args.fanout
  let expected := expectedOf value (movesOf ids step)
  have hentries : expected.entries = (List.range (args.fanout - 1)).map
      fun i => (candidateId number (i + 2), value + (i + 1) * step) := entries_expectedOf number args.fanout value step
  have hentry {e : String × Int} : e ∈ expected.entries ↔
      ∃ i < args.fanout - 1, (candidateId number (i + 2), value + ((i : Int) + 1) * step) = e := by
    rw [hentries, List.mem_map]
    simp only [List.mem_range]
  cases hscored : scoredOf args.target ids values with
  | nil =>
    have hlength := (scored_perm_expected args.target ids h).length_eq
    rw [hscored, hentries, List.length_map, List.length_range] at hlength
    have hnone : 0 = args.fanout - 1 := hlength
    omega
  | cons best others =>
    obtain ⟨hmem, hleast⟩ := scored_head h hscored
    obtain ⟨i, hi, rfl⟩ := hentry.mp hmem
    have hvalue : value + ((i : Int) + 1) * step = nextValue args value :=
      eq_nextValue args value hi fun j hj => distance_le_of_rank_le (hleast _ (hentry.mpr ⟨j, hj, rfl⟩))
    refine ⟨candidateId number (i + 2), others, by rw [hvalue], ?_⟩
    cases hmin : expected.entries.argmin (rank args.target ids) with
    | none =>
      rw [List.argmin_eq_none] at hmin
      rw [hmin] at hmem
      exact absurd hmem List.not_mem_nil
    | some m =>
      have hm := List.argmin_mem hmin
      obtain ⟨j, hj, rfl⟩ := hentry.mp hm
      have hrank := le_antisymm (hleast _ hm) (List.le_of_mem_argmin hmem hmin)
      -- no two candidates have the same rank
      have hindex := congrArg (fun r => (ofLex r).2) hrank
      change ids.idxOf (candidateId number (i + 1 + 1)) = ids.idxOf (candidateId number (j + 1 + 1)) at hindex
      rw [idxOf_candidateId (by omega), idxOf_candidateId (by omega)] at hindex
      obtain rfl : i = j := Nat.succ_injective hindex
      show (expected.entries.argmin (rank args.target ids)).map Prod.fst = _
      rw [hmin]
      rfl

/-! ### The climb -/

/-- A quantity that each step divides by `f` while it is positive is gone after as many steps as it has digits. -/
theorem exists_iterate_nonpos {α : Type} (next : α → α) (excess : α → Int) {f : Nat} (hf : 2 ≤ f)
    (hshrinks : ∀ a, 0 < excess a → excess (next a) * f ≤ excess a) (a : α) :
    ∃ k ≤ Nat.log f (excess a).toNat + 1, excess (next^[k] a) ≤ 0 := by
  by_contra! hpos
  have hpower (k : Nat) (hk : k ≤ Nat.log f (excess a).toNat + 1) : excess (next^[k] a) * (f ^ k : Nat) ≤ excess a := by
    induction k with
    | zero => simp
    | succ k ih =>
      rw [Function.iterate_succ_apply']
      calc excess (next (next^[k] a)) * (f ^ (k + 1) : Nat)
          = excess (next (next^[k] a)) * f * (f ^ k : Nat) := by push_cast; ring
        _ ≤ excess (next^[k] a) * (f ^ k : Nat) :=
          mul_le_mul_of_nonneg_right (hshrinks _ (hpos k (by omega))) (Int.natCast_nonneg _)
        _ ≤ excess a := ih (by omega)
  have hlast := hpower _ le_rfl
  have hone := hpos _ le_rfl
  have hlog : (excess a).toNat < f ^ (Nat.log f (excess a).toNat + 1) := Nat.lt_pow_succ_log_self (by omega) _
  have hle := le_mul_of_one_le_left (Int.natCast_nonneg (f ^ (Nat.log f (excess a).toNat + 1))) (Int.add_one_le_iff.mpr hone)
  omega

section

variable (args : SearchArgs) {value : Int}

theorem nextValue_of_reached (h : args.target ≤ value) : nextValue args value = value + 1 := if_pos h

theorem nextValue_of_close (h : value < args.target) (hclose : args.target - value < args.fanout) :
    nextValue args value = args.target := by
  unfold nextValue
  rw [if_neg (not_le.mpr h), if_pos hclose]

theorem nextValue_of_far (h : args.fanout ≤ args.target - value) :
    nextValue args value = value + (args.fanout - 1) * ((args.target - value) / args.fanout) := by
  have htwo := args.two_le_fanout
  unfold nextValue
  rw [if_neg (by omega), if_neg (not_lt.mpr h)]

theorem nextValue_le (h : value < args.target) : nextValue args value ≤ args.target := by
  have htwo := args.two_le_fanout
  rcases lt_or_ge (args.target - value) args.fanout with hclose | hfar
  · exact (nextValue_of_close args h hclose).le
  · rw [nextValue_of_far args hfar]
    have hmoves : (args.fanout : Int) * ((args.target - value) / args.fanout) ≤ args.target - value :=
      Int.mul_ediv_self_le (by omega)
    have hstep : 0 ≤ (args.target - value) / (args.fanout : Int) := Int.ediv_nonneg (by omega) (by omega)
    linarith

/-- What is left beyond a single move is divided by the fanout. -/
theorem excess_nextValue (h : 0 < args.target - value - (args.fanout - 1)) :
    (args.target - nextValue args value - (args.fanout - 1)) * args.fanout ≤ args.target - value - (args.fanout - 1) := by
  have htwo := args.two_le_fanout
  rw [nextValue_of_far args (by omega)]
  have hdivision := Int.mul_ediv_add_emod (args.target - value) args.fanout
  have hrest := Int.emod_lt_of_pos (args.target - value) (by omega : (0 : Int) < args.fanout)
  obtain ⟨q, hq⟩ : ∃ q, (args.target - value) / (args.fanout : Int) = q := ⟨_, rfl⟩
  obtain ⟨r, hr⟩ : ∃ r, (args.target - value) % (args.fanout : Int) = r := ⟨_, rfl⟩
  rw [hq, hr] at hdivision
  rw [hr] at hrest
  rw [hq]
  have hdistance : args.target - (value + (args.fanout - 1) * q) - (args.fanout - 1) = q + r - (args.fanout - 1) := by
    linarith
  have hslack : 0 ≤ ((args.fanout : Int) - 1) * (args.fanout - 1 - r) := mul_nonneg (by omega) (by omega)
  rw [hdistance]
  linarith

/-- The winners stay below the target until one of them meets it. -/
theorem exists_iterate_eq_target :
    ∃ k ≤ Nat.log args.fanout args.target.toNat + 2,
      (nextValue args)^[k] 0 = args.target.toNat ∧ ∀ i < k, (nextValue args)^[i] 0 < args.target := by
  have htwo := args.two_le_fanout
  obtain ⟨n, hn, hexcess⟩ := exists_iterate_nonpos (nextValue args)
    (fun v => args.target - v - (args.fanout - 1)) htwo (fun _ h => excess_nextValue args h) 0
  have hbound : n + 1 ≤ Nat.log args.fanout args.target.toNat + 2 := by
    have hlog := Nat.log_mono_right (b := args.fanout)
      (by omega : (args.target - 0 - (args.fanout - 1)).toNat ≤ args.target.toNat)
    omega
  obtain ⟨m, hm, hreached⟩ : ∃ m ≤ n + 1, args.target ≤ (nextValue args)^[m] 0 := by
    rcases le_or_gt args.target ((nextValue args)^[n] 0) with h | h
    · exact ⟨n, n.le_succ, h⟩
    · refine ⟨n + 1, le_rfl, ?_⟩
      rw [Function.iterate_succ_apply', nextValue_of_close args h (by omega)]
  have hfind : ∃ k, args.target ≤ (nextValue args)^[k] 0 := ⟨m, hreached⟩
  have hbelow : ∀ i < Nat.find hfind, (nextValue args)^[i] 0 < args.target := fun i hi => not_le.mp (Nat.find_min hfind hi)
  refine ⟨Nat.find hfind, ((Nat.find_min' hfind hreached).trans hm).trans hbound, ?_, hbelow⟩
  have hmeets := Nat.find_spec hfind
  cases hk : Nat.find hfind with
  | zero =>
    rw [hk] at hmeets
    rw [Int.toNat_of_nonpos hmeets]
    rfl
  | succ k =>
    rw [hk] at hmeets hbelow
    have hlast := hbelow k k.lt_succ_self
    have hfirst : 0 < args.target := hbelow 0 k.succ_pos
    rw [Function.iterate_succ_apply'] at hmeets ⊢
    rw [le_antisymm (nextValue_le args hlast) hmeets, Int.toNat_of_nonneg hfirst.le]

/-- From the target on the search counts. -/
theorem iterate_beyond_target {k : Nat} (hk : (nextValue args)^[k] 0 = args.target.toNat) (m : Nat) :
    (nextValue args)^[k + m] 0 = args.target.toNat + m := by
  induction m with
  | zero => simp [hk]
  | succ m ih =>
    rw [← Nat.add_assoc, Function.iterate_succ_apply', ih, nextValue_of_reached args (by omega)]
    push_cast
    ring

end

/-! ### The run -/

/-- The checks that the candidates computed what their moves say. -/
def Check.IsArithmetic : Check → Prop
  | .arithmetic _ => True
  | _ => False

/-- The checks that the winner is the expected one. -/
def Check.IsSelected : Check → Prop
  | .winnerSelected _ _ => True
  | _ => False

/-- Any answer at all. -/
def Anything (q : Query) (_ : Except PyError q.Answer) (_ _ : Unit) : Prop := True

instance preorderUnit : IsPreorder Unit fun _ _ => True where
  refl _ := trivial
  trans _ _ _ _ _ := trivial

/-- A check of neither kind. -/
def Idle (e : Check × Bool) : Prop := ¬ e.1.IsArithmetic ∧ ¬ e.1.IsSelected

/-- The part reports nothing about the values or the winner. -/
abbrev Idles {α : Type} (p : Script α) : Prop := Client.KeepsTo Anything (fun _ _ => True) Idle p

open Client

theorem idles_call (q : Query) : Idles (call q : Script q.Answer) := keepsTo_call fun _ _ _ _ => trivial

theorem idles_check {c : Check} (hc : Idle (c, true)) (ok : Bool) : Idles (check c ok) := keepsTo_tell hc

theorem probes_anything : Probes Anything (fun _ _ => True) Idle fun _ => True where
  moves _ _ _ _ _ _ _ _ := trivial
  probe c ok h := by cases c <;> first | exact ⟨id, id⟩ | exact h.elim

theorem idles_checkParent {c : Check} (hc : Idle (c, true)) (frontier : String) (checkpoint : Option String) :
    Idles (checkParent c frontier checkpoint) := by
  cases checkpoint with
  | none => exact keepsTo_pure _
  | some id =>
    unfold checkParent
    dsimp only
    split_ifs
    · exact keepsTo_pure _
    · exact keepsTo_bind (idles_call _) fun _ => idles_check hc _

theorem idles_sealWinner (number : Nat) (frontier winner : String) (value move : Option Int) :
    Idles (sealWinner number frontier winner value move) := by
  refine keepsTo_bind (idles_call _) fun checkpoint => ?_
  refine keepsTo_bind (idles_check (c := .winnerSealed number winner) ⟨id, id⟩ _) fun _ => ?_
  refine keepsTo_bind (idles_checkParent (c := .winnerParent number) ⟨id, id⟩ _ _) fun _ => ?_
  refine keepsTo_bind (probes_anything.exec trivial _ _) fun _ => ?_
  exact keepsTo_bind (idles_check (c := .winnerResumed number) ⟨id, id⟩ _) fun _ => keepsTo_pure _

theorem idles_parkRunnerUp (number : Nat) (frontier : String) (runnerUp : Option String) :
    Idles (parkRunnerUp number frontier runnerUp) := by
  cases runnerUp with
  | none => exact keepsTo_pure _
  | some b =>
    refine keepsTo_bind (idles_call _) fun checkpoint => ?_
    refine keepsTo_bind (idles_check (c := .parked number b) ⟨id, id⟩ _) fun _ => ?_
    exact keepsTo_bind (idles_checkParent (c := .parkedParent number) ⟨id, id⟩ _ _) fun _ => keepsTo_pure _

theorem idles_discardRest (candidates : List String) (winner : String) (runnerUp : Option String) :
    Idles (discardRest candidates winner runnerUp) := by
  refine keepsTo_bind (keepsTo_collect fun b _ => ?_) fun _ => keepsTo_pure _
  exact keepsTo_bind (idles_call _) fun _ => idles_check (c := .discarded b) ⟨id, id⟩ _

theorem idles_checkLive (number : Nat) (winner : String) (winners : List String) :
    Idles (checkLive number winner winners) := by
  have hlive : Idles liveIds := keepsTo_bind (idles_call _) fun _ => keepsTo_pure _
  refine keepsTo_bind hlive fun _ => keepsTo_bind hlive fun _ => ?_
  exact idles_check (c := .liveForks number) ⟨id, id⟩ _

/-- If the candidates computed what their moves say then the winners are the expected ones. -/
def Foretold (l : List (Check × Bool)) : Prop := AllPass Check.IsArithmetic l → AllPass Check.IsSelected l

theorem arithmetic_iff_of_idle {l l' : List (Check × Bool)} (h : Since Idle l l') :
    AllPass Check.IsArithmetic l' ↔ AllPass Check.IsArithmetic l := allPass_iff_of_since h fun _ hc hidle => hidle.1 hc

theorem Foretold.idle {l l' : List (Check × Bool)} (h : Foretold l) (hidle : Since Idle l l') : Foretold l' :=
  fun hall => (allPass_iff_of_since hidle fun _ hc hidle => hidle.2 hc).mpr (h ((arithmetic_iff_of_idle hidle).mp hall))

/-- What comes back from a part of a generation. -/
structure Concludes (args : SearchArgs) (value : Int) (l l' : List (Check × Bool)) (r : Except PyError Generation) :
    Prop where
  foretold : Foretold l'
  arithmetic : AllPass Check.IsArithmetic l' → AllPass Check.IsArithmetic l
  next : ∀ gen, r = .ok gen → AllPass Check.IsArithmetic l' → gen.winnerValue = some (nextValue args value)

theorem settle_concludes (args : SearchArgs) {gen : Generation} {value : Int} (frontierFork : Option String)
    (winners rest : List String) {l : List (Check × Bool)} (hl : AllPass Check.IsArithmetic l → AllPass Check.IsSelected l ∧
      ∃ winner others, scoredOf args.target gen.candidates gen.values = (winner, nextValue args value) :: others ∧
        gen.expectedWinner = winner) :
    (settle args gen frontierFork value winners rest).Ensures Anything (fun l' r _ => Concludes args value l l' r) l () := by
  unfold settle
  split
  · next hscored =>
    have hnever (h : AllPass Check.IsArithmetic (l ++ [(.scored gen.number, false)])) : False := by
      obtain ⟨-, winner, others, hwinner, -⟩ := hl h.left
      cases hscored.symm.trans hwinner
    exact ⟨fun h => (hnever h).elim, AllPass.left, fun _ _ h => (hnever h).elim⟩
  · next winner best others hscored =>
    let l₁ := l ++ [(Check.winnerSelected gen.number gen.expectedWinner, decide (winner = gen.expectedWinner))]
    have hbest (h : AllPass Check.IsArithmetic l) : winner = gen.expectedWinner ∧ best = nextValue args value := by
      obtain ⟨-, winner', others', hwinner, hexpected⟩ := hl h
      cases hscored.symm.trans hwinner
      exact ⟨hexpected.symm, rfl⟩
    have hforetold : Foretold l₁ := fun h => by
      refine allPass_append.mpr ⟨(hl h.left).1, allPass_singleton.mpr fun _ => decide_eq_true ?_⟩
      exact (hbest h.left).1
    have hends {l' : List (Check × Bool)} (h : Since Idle l₁ l') {r : Except PyError Generation}
        (hr : ∀ gen', r = .ok gen' → gen'.winnerValue = some best) : Concludes args value l l' r := by
      have hleft (hall : AllPass Check.IsArithmetic l') : AllPass Check.IsArithmetic l :=
        ((arithmetic_iff_of_idle h).mp hall).left
      refine ⟨hforetold.idle h, hleft, fun gen' hgen hall => ?_⟩
      rw [hr gen' hgen, (hbest (hleft hall)).2]
    have hraised {l' : List (Check × Bool)} (h : Since Idle l₁ l') (e : PyError) : Concludes args value l l' (.error e) :=
      hends h fun _ he => (by cases he)
    refine ensures_tell ?_
    refine ensures_keepsTo (probes_anything.checkEdits _ _ fun _ _ => trivial) (fun e l' _ h => hraised h e)
      fun _ l₂ _ h₂ _ => ?_
    refine ensures_keepsTo (probes_anything.checkFrontier _ (fun _ _ => trivial) value)
      (fun e l' _ h => hraised (h₂.trans h) e) fun _ l₃ _ h₃ _ => ?_
    refine ensures_keepsTo (idles_sealWinner _ _ _ _ _) (fun e l' _ h => hraised ((h₂.trans h₃).trans h) e)
      fun winnerCheckpoint l₄ _ h₄ _ => ?_
    refine ensures_keepsTo (idles_parkRunnerUp _ _ _) (fun e l' _ h => hraised (((h₂.trans h₃).trans h₄).trans h) e)
      fun parkedCheckpoint l₅ _ h₅ _ => ?_
    have hsince := ((h₂.trans h₃).trans h₄).trans h₅
    refine ensures_keepsTo (idles_discardRest _ _ _) (fun e l' _ h => hraised (hsince.trans h) e) fun _ l₆ _ h₆ _ => ?_
    refine ensures_keepsTo (idles_checkLive _ _ _) (fun e l' _ h => hraised ((hsince.trans h₆).trans h) e)
      fun _ l₇ _ h₇ _ => ?_
    refine hends ((hsince.trans h₆).trans h₇) fun gen' hgen => ?_
    cases hgen
    rfl

theorem runGeneration_concludes (args : SearchArgs) (number : Nat) (frontier : String) (frontierFork : Option String)
    (value : Int) (winners : List String) {l : List (Check × Bool)} (hl : Foretold l) :
    (runGeneration args number frontier frontierFork value winners).Ensures Anything
      (fun l' r _ => Concludes args value l l' r) l () := by
  have hraised {l' : List (Check × Bool)} (h : Since Idle l l') (e : PyError) : Concludes args value l l' (.error e) :=
    ⟨hl.idle h, (arithmetic_iff_of_idle h).mp, fun _ he => (by cases he)⟩
  unfold runGeneration
  dsimp only
  split
  · exact hraised (.refl Idle l) _
  · exact hraised (.refl Idle l) _
  · next first rest expectedWinner hids hexpected =>
    refine ensures_call (fun e v' _ => hraised (.refl Idle l) e) fun forks _ _ => ?_
    have h₁ : Since Idle l (l ++ [(.materialized number args.fanout,
        decide (forks.map EnvironmentBranch.id = candidateIds number args.fanout))]) := by
      refine ⟨_, rfl, fun e he => ?_⟩
      rw [List.mem_singleton.mp he]
      exact ⟨id, id⟩
    refine ensures_tell ?_
    refine ensures_keepsTo (probes_anything.measure args number _ fun _ _ => trivial)
      (fun e l' _ h => hraised (h₁.trans h) e) fun measured l₂ _ h₂ _ => ?_
    have hl₂ := hl.idle (h₁.trans h₂)
    refine ensures_tell (ensures_mono (settle_concludes args _ _ _ fun hall => ?_) fun l' r _ h => ?_)
    · have hmatches := allPass_singleton.mp (allPass_append.mp hall).2 trivial
      obtain ⟨winner, others, hscored, hwinner⟩ := scored_winner args number value hmatches
      refine ⟨allPass_append.mpr ⟨hl₂ hall.left, allPass_singleton.mpr fun h => h.elim⟩, winner, others, hscored, ?_⟩
      exact Option.some.inj (hexpected.symm.trans hwinner)
    · exact ⟨h.foretold, fun hall => (arithmetic_iff_of_idle (h₁.trans h₂)).mp (h.arithmetic hall).left, h.next⟩

theorem generationsFrom_concludes (args : SearchArgs) (left : Nat) (done : List Generation) (frontier : String)
    (frontierFork : Option String) (value : Int) {l : List (Check × Bool)} (hl : Foretold l) :
    (generationsFrom args left done frontier frontierFork value).Ensures Anything (fun l' r _ => Foretold l' ∧
      (AllPass Check.IsArithmetic l' → AllPass Check.IsArithmetic l) ∧
      ∀ gens, r = .ok gens → ∃ new, gens = done ++ new ∧ (AllPass Check.IsArithmetic l' →
        ∀ i gen, new[i]? = some gen → gen.winnerValue = some ((nextValue args)^[i + 1] value))) l () := by
  induction left generalizing done frontier frontierFork value l with
  | zero =>
    refine ⟨hl, id, fun gens hgens => ⟨[], ?_, fun _ i gen h => (by cases h)⟩⟩
    rw [List.append_nil]
    exact (Except.ok.inj hgens).symm
  | succ left ih =>
    refine ensures_bind (ensures_mono (runGeneration_concludes args _ frontier frontierFork value _ hl) ?_)
    rintro l₁ r ⟨⟩ h₁
    cases r with
    | error e => exact ⟨h₁.foretold, h₁.arithmetic, fun _ h => (by cases h)⟩
    | ok gen =>
      have hnext := h₁.next gen rfl
      unfold Rest
      dsimp only
      cases hc : gen.winnerCheckpoint with
      | none =>
        refine ⟨h₁.foretold, h₁.arithmetic, fun gens hgens => ⟨[gen], (Except.ok.inj hgens).symm, fun hall i gen' hi => ?_⟩⟩
        obtain ⟨rfl, rfl⟩ : i = 0 ∧ gen = gen' := by
          cases i with
          | zero => exact ⟨rfl, Option.some.inj hi⟩
          | succ i => cases hi
        exact hnext hall
      | some c =>
        refine ensures_mono (ih (done ++ [gen]) c gen.winner (gen.winnerValue.getD value) h₁.foretold) ?_
        rintro l₂ r ⟨⟩ ⟨hforetold, hleft, hgens⟩
        refine ⟨hforetold, h₁.arithmetic ∘ hleft, fun gens hok => ?_⟩
        obtain ⟨new, rfl, hvalues⟩ := hgens gens hok
        refine ⟨gen :: new, by rw [List.append_assoc]; rfl, fun hall i gen' hi => ?_⟩
        have hfirst := hnext (hleft hall)
        cases i with
        | zero =>
          obtain rfl : gen = gen' := Option.some.inj hi
          exact hfirst
        | succ i =>
          rw [hvalues hall i gen' hi, hfirst, Function.iterate_succ_apply (nextValue args) (i + 1)]
          rfl

/-! ### A search -/

/-- Whatever answers the calls, if every candidate computed what its move says then the winners are the expected ones,
and their values climb to the target without overshooting, meet it after at most as many generations as it has digits to
the base of the fanout and one more, and count on from there. -/
theorem search_reaches_target {W : Type} (F : ForkHooks W) (args : SearchArgs) (prepared : String) (s : Sys W) :
    let x := (search args prepared).run (Query.answer F) s
    AllPass Check.IsArithmetic x.1 → AllPass Check.IsSelected x.1 ∧ ∀ gens, x.2.1 = .ok gens →
      ∃ k ≤ Nat.log args.fanout args.target.toNat + 2, ∀ i gen, gens[i]? = some gen →
        ∃ value, gen.winnerValue = some value ∧ (i + 1 < k → value < args.target) ∧
          ∀ m, i + 1 = k + m → value = args.target.toNat + m := by
  intro x hall
  have hensures := generationsFrom_concludes args args.generations [] prepared none 0 (l := []) fun _ e he => (by cases he)
  obtain ⟨hforetold, -, hgens⟩ := run_ensures_of_forall (fun _ _ _ _ => trivial) hensures (Query.answer F) s
  refine ⟨hforetold hall, fun gens hok => ?_⟩
  obtain ⟨new, rfl, hvalues⟩ := hgens gens hok
  obtain ⟨k, hk, hmeets, hbelow⟩ := exists_iterate_eq_target args
  refine ⟨k, hk, fun i gen hi => ⟨_, hvalues hall i gen hi, hbelow (i + 1), fun m hm => ?_⟩⟩
  rw [hm, iterate_beyond_target args hmeets]

instance : DecidablePred Check.IsArithmetic := fun c =>
  match c with
  | .arithmetic _ => isTrue trivial
  | .materialized _ _ | .rejectedExit _ | .rejectedUsable _ | .ran _ | .scored _ | .winnerSelected _ _ | .ownEdits _
  | .frontierUntouched _ _ | .winnerSealed _ _ | .winnerParent _ | .winnerResumed _ | .parked _ _ | .parkedParent _
  | .discarded _ | .liveForks _ => isFalse id

instance (l : List (Check × Bool)) : Decidable (AllPass Check.IsArithmetic l) :=
  inferInstanceAs (Decidable (∀ e ∈ l, e.1.IsArithmetic → e.2 = true))

/-- Four generations of three candidates, of which the third meets the target. -/
theorem search_reaches_target_printing :
    let args : SearchArgs := ⟨3, 4, 10, 1, by decide, by decide⟩
    let s : Sys Shelf := ⟨Manager.seeded "base" "base", Shelf.start ["w1", "p1", "w2", "p2", "w3", "p3", "w4", "p4"]⟩
    let x := (search args "base").run (Query.answer (printing prints).hooks) s
    AllPass Check.IsArithmetic x.1 ∧ AllPass Check.IsSelected x.1 ∧ (x.2.1.toOption.map fun gens =>
      gens.map Generation.winnerValue) = some [some 6, some 8, some 10, some 11] := by
  intro args s x
  have hall : AllPass Check.IsArithmetic x.1 := by decide +kernel
  exact ⟨hall, (search_reaches_target (printing prints).hooks args "base" s hall).1, by decide +kernel⟩

end StateFork.SearchWorkflow
