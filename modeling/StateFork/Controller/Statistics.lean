import Mathlib.Algebra.Order.BigOperators.Group.List
import Mathlib.Data.List.GetD
import StateFork.Lib.Grouping
import StateFork.Controller.Calculators

/-!
# What the statistics report

`get_all_statistics` groups the times of the log by their operations. In exact rational arithmetic its figures describe
each group (`Statistics.Describes`): the bounds are attained, the mean and the median lie between them, and half of the
values lie on either side of the median. No entry of the log is left out (`statistics_report`). The code computes the
sums, means and medians of durations with floats; the rounding is not part of the model.
-/

namespace StateFork

/-- The figures of values of which there are some. -/
structure Statistics.Describes (st : Statistics) (values : List ℚ) : Prop where
  count : st.count = values.length
  total : st.total = values.sum
  mean : st.mean * st.count = st.total
  min_mem : st.min ∈ values
  max_mem : st.max ∈ values
  bounds : ∀ v ∈ values, st.min ≤ v ∧ v ≤ st.max
  mean_between : st.min ≤ st.mean ∧ st.mean ≤ st.max
  median_between : st.min ≤ st.median ∧ st.median ≤ st.max
  /-- Half of the values are at most the median, and half are at least that. -/
  halves : values.length ≤ 2 * values.countP (· ≤ st.median) ∧ values.length ≤ 2 * values.countP (st.median ≤ ·)

/-! ### The median -/

section Sorted

variable {l : List ℚ} (h : l.Pairwise (· ≤ ·)) {i : Nat} (hi : i < l.length) {x : ℚ}

include h

theorem succ_le_countP_le (hx : l[i] ≤ x) : i + 1 ≤ l.countP (· ≤ x) := by
  have hall : ∀ y ∈ l.take (i + 1), decide (y ≤ x) = true := by
    intro y hy
    obtain ⟨j, hj, rfl⟩ := List.mem_iff_getElem.mp hy
    rw [List.length_take] at hj
    rw [List.getElem_take, decide_eq_true_eq]
    refine le_trans ?_ hx
    rcases Nat.lt_or_eq_of_le (show j ≤ i by omega) with hlt | heq
    · exact List.pairwise_iff_getElem.mp h j i _ hi hlt
    · simp [heq]
  have hcount := List.countP_eq_length.mpr hall
  rw [List.length_take, Nat.min_eq_left (by omega)] at hcount
  exact hcount ▸ (List.take_sublist _ l).countP_le

theorem sub_le_countP_ge (hx : x ≤ l[i]) : l.length - i ≤ l.countP (x ≤ ·) := by
  have hall : ∀ y ∈ l.drop i, decide (x ≤ y) = true := by
    intro y hy
    obtain ⟨j, hj, rfl⟩ := List.mem_iff_getElem.mp hy
    rw [List.length_drop] at hj
    rw [List.getElem_drop, decide_eq_true_eq]
    refine hx.trans ?_
    rcases Nat.eq_zero_or_pos j with hzero | hpos
    · simp [hzero]
    · exact List.pairwise_iff_getElem.mp h i (i + j) hi (by omega) (by omega)
  have hcount := List.countP_eq_length.mpr hall
  rw [List.length_drop] at hcount
  exact hcount ▸ (List.drop_sublist _ l).countP_le

end Sorted

variable {values : List ℚ}

/-- The median lies between the middle values of the sorted list. -/
theorem median_middle (hne : values ≠ []) :
    ∃ (sorted : List ℚ) (i j : Nat) (hi : i < sorted.length) (hj : j < sorted.length), sorted.Perm values ∧
      sorted.Pairwise (· ≤ ·) ∧ sorted.length ≤ 2 * (i + 1) ∧ sorted.length ≤ 2 * (sorted.length - j) ∧
      sorted[i] ≤ median values ∧ median values ≤ sorted[j] := by
  have hperm : (values.mergeSort (· ≤ ·)).Perm values := List.mergeSort_perm ..
  have hsorted : (values.mergeSort (· ≤ ·)).Pairwise (· ≤ ·) := List.pairwise_mergeSort' (r := (· ≤ ·)) values
  have hpos : 0 < (values.mergeSort (· ≤ ·)).length := by
    rw [hperm.length_eq]
    exact List.length_pos_of_ne_nil hne
  unfold median
  dsimp only
  generalize values.mergeSort (· ≤ ·) = sorted at hperm hsorted hpos
  split_ifs with hodd
  · have hmid : sorted.length / 2 < sorted.length := by omega
    refine ⟨sorted, sorted.length / 2, sorted.length / 2, hmid, hmid, hperm, hsorted, by omega, by omega, ?_, ?_⟩
    · rw [List.getD_eq_getElem _ _ hmid]
    · rw [List.getD_eq_getElem _ _ hmid]
  · have hlow : sorted.length / 2 - 1 < sorted.length := by omega
    have hhigh : sorted.length / 2 < sorted.length := by omega
    have hle : sorted[sorted.length / 2 - 1] ≤ sorted[sorted.length / 2] :=
      List.pairwise_iff_getElem.mp hsorted _ _ hlow hhigh (by omega)
    refine ⟨sorted, sorted.length / 2 - 1, sorted.length / 2, hlow, hhigh, hperm, hsorted, by omega, by omega, ?_, ?_⟩
    · rw [List.getD_eq_getElem _ _ hlow, List.getD_eq_getElem _ _ hhigh]
      linarith
    · rw [List.getD_eq_getElem _ _ hlow, List.getD_eq_getElem _ _ hhigh]
      linarith

/-! ### The figures of some values -/

theorem Statistics.describes_of (hne : values ≠ []) (unit : String) : (Statistics.of values unit).Describes values := by
  obtain ⟨low, hlow⟩ := Option.isSome_iff_exists.mp (List.isSome_min?_of_ne_nil hne)
  obtain ⟨high, hhigh⟩ := Option.isSome_iff_exists.mp (List.isSome_max?_of_ne_nil hne)
  have hmin : (Statistics.of values unit).min = low := by rw [Statistics.of, hlow, Option.getD_some]
  have hmax : (Statistics.of values unit).max = high := by rw [Statistics.of, hhigh, Option.getD_some]
  have hmean : (Statistics.of values unit).mean = values.sum / values.length := if_neg hne
  have hmedian : (Statistics.of values unit).median = StateFork.median values := if_neg hne
  obtain ⟨hlowmem, hlowle⟩ := List.min?_eq_some_iff.mp hlow
  obtain ⟨hhighmem, hlehigh⟩ := List.max?_eq_some_iff.mp hhigh
  have hlength : (0 : ℚ) < values.length := by
    exact_mod_cast List.length_pos_of_ne_nil hne
  obtain ⟨sorted, i, j, hi, hj, hperm, hsorted, hbelow, habove, hfloor, hceil⟩ := median_middle hne
  constructor
  case count => rfl
  case total => rfl
  case mean =>
    rw [hmean]
    exact div_mul_cancel₀ _ hlength.ne'
  case min_mem => exact hmin ▸ hlowmem
  case max_mem => exact hmax ▸ hhighmem
  case bounds =>
    intro v hv
    rw [hmin, hmax]
    exact ⟨hlowle v hv, hlehigh v hv⟩
  case mean_between =>
    have hfloor : values.length • low ≤ values.sum := List.card_nsmul_le_sum _ _ hlowle
    have hceil : values.sum ≤ values.length • high := List.sum_le_card_nsmul _ _ hlehigh
    rw [nsmul_eq_mul] at hfloor hceil
    rw [hmin, hmax, hmean, le_div_iff₀ hlength, div_le_iff₀ hlength]
    exact ⟨by linarith, by linarith⟩
  case median_between =>
    rw [hmin, hmax, hmedian]
    exact ⟨(hlowle _ (hperm.mem_iff.mp (List.getElem_mem hi))).trans hfloor,
      hceil.trans (hlehigh _ (hperm.mem_iff.mp (List.getElem_mem hj)))⟩
  case halves =>
    have hle := succ_le_countP_le hsorted hi hfloor
    have hge := sub_le_countP_ge hsorted hj hceil
    rw [hperm.countP_eq] at hle hge
    rw [hperm.length_eq] at hbelow habove hge
    rw [hmedian]
    exact ⟨by omega, by omega⟩

/-! ### The report -/

theorem sum_map_length {α : Type} (l : List (List α)) : (l.map List.length).sum = l.flatten.length :=
  List.length_flatten.symm

theorem sum_map_sum (l : List (List ℚ)) : (l.map List.sum).sum = l.flatten.sum := List.sum_flatten.symm

/-- The times that `get_all_statistics` reports, in exact rational arithmetic: every operation of the log has an entry,
which describes its times, and the entries account for all of the log. -/
theorem statistics_report (collect : Calculator → List (String × Nat)) (log : List BenchmarkEntry)
    (attached : List Calculator) :
    let time := (getAllStatistics collect log attached).time
    (∀ operation, operation ∈ time.keys ↔ ∃ entry ∈ log, entry.operation = operation) ∧
      (∀ operation st, time.get? operation = some st →
        st.Describes ((log.filter fun entry => entry.operation = operation).map BenchmarkEntry.elapsedTime)) ∧
      (time.values.map Statistics.count).sum = log.length ∧
      (time.values.map Statistics.total).sum = (log.map BenchmarkEntry.elapsedTime).sum := by
  intro time
  let groups : Dict String (List ℚ) := .group BenchmarkEntry.operation BenchmarkEntry.elapsedTime log
  have hentries : time.entries = groups.entries.map fun e => (e.1, Statistics.of e.2 "seconds") := by
    refine Dict.entries_ofList ?_
    rw [List.map_map]
    exact groups.nodup
  have hkeys : time.keys = groups.keys := by
    rw [Dict.keys, hentries, List.map_map]
    rfl
  have hvalues : time.values = groups.values.map fun times => Statistics.of times "seconds" := by
    rw [Dict.values, hentries, List.map_map, Dict.values, List.map_map]
    rfl
  have hperm : groups.values.flatten.Perm (log.map BenchmarkEntry.elapsedTime) :=
    Dict.perm_group BenchmarkEntry.operation BenchmarkEntry.elapsedTime log
  refine ⟨fun operation => ?_, fun operation st hst => ?_, ?_, ?_⟩
  · rw [hkeys]
    exact Dict.mem_keys_group ..
  · have hmem := Dict.mem_entries_of_get? hst
    rw [hentries] at hmem
    obtain ⟨⟨operation', times⟩, hgroup, heq⟩ := List.mem_map.mp hmem
    obtain ⟨rfl, rfl⟩ := Prod.mk.inj heq
    have hget : groups.get? operation' = some times := Dict.get?_of_mem_entries hgroup
    rw [Dict.get?_group] at hget
    split_ifs at hget with hnil
    cases hget
    exact Statistics.describes_of (fun h => hnil (List.map_eq_nil_iff.mp h)) "seconds"
  · rw [hvalues, List.map_map]
    show (groups.values.map List.length).sum = _
    rw [sum_map_length, hperm.length_eq, List.length_map]
  · rw [hvalues, List.map_map]
    show (groups.values.map List.sum).sum = _
    rw [sum_map_sum, hperm.sum_eq]

end StateFork
