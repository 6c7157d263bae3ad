import Mathlib.Data.List.Induction
import Mathlib.Data.List.Perm.Basic
import StateFork.Lib.Store

/-!
# Grouping

A `defaultdict(list)` collects the values of a list under their keys (`Dict.group`). Under each key stand the values of
that key in their order (`get?_group`), and no value is lost: the groups together are the values of the list, in some
order (`perm_group`).
-/

namespace Dict

variable {κ α β : Type} [DecidableEq κ] (key : α → κ) (value : α → β)

/-- `d[key].append(value)` -/
def collect (d : Dict κ (List β)) (a : α) : Dict κ (List β) :=
  d.set (key a) ((d.get? (key a)).getD [] ++ [value a])

def group (l : List α) : Dict κ (List β) := l.foldl (collect key value) empty

theorem group_concat (l : List α) (a : α) :
    group key value (l ++ [a]) = collect key value (group key value l) a := List.foldl_concat ..

theorem get?_group (l : List α) (k : κ) :
    (group key value l).get? k =
      if (l.filter fun a => key a = k) = [] then none else some ((l.filter fun a => key a = k).map value) := by
  induction l using List.reverseRecOn with
  | nil => rfl
  | append_singleton l a ih =>
    rw [group_concat, collect, get?_set, List.filter_append, List.filter_singleton]
    by_cases hk : k = key a
    · subst hk
      rw [if_pos rfl, decide_eq_true rfl, cond_true, if_neg (List.append_ne_nil_of_right_ne_nil _ (List.cons_ne_nil _ _)),
        ih]
      split_ifs with hnil
      · rw [hnil]
        rfl
      · rw [List.map_append]
        rfl
    · rw [if_neg hk, ih, decide_eq_false (Ne.symm hk), cond_false, List.append_nil]

theorem mem_keys_group {l : List α} {k : κ} : k ∈ (group key value l).keys ↔ ∃ a ∈ l, key a = k := by
  rw [mem_keys_iff]
  constructor
  · rintro ⟨v, hv⟩
    rw [get?_group] at hv
    split_ifs at hv with hnil
    obtain ⟨a, ha⟩ := List.exists_mem_of_ne_nil _ hnil
    exact ⟨a, (List.mem_filter.mp ha).1, of_decide_eq_true (List.mem_filter.mp ha).2⟩
  · rintro ⟨a, ha, rfl⟩
    have hmem : a ∈ l.filter fun a' => key a' = key a := List.mem_filter.mpr ⟨ha, decide_eq_true rfl⟩
    exact ⟨_, (get?_group ..).trans (if_neg (List.ne_nil_of_mem hmem))⟩

theorem values_group (l : List α) :
    (group key value l).values = (group key value l).keys.map fun k => (l.filter fun a => key a = k).map value := by
  rw [values, keys, List.map_map]
  refine List.map_congr_left fun e he => ?_
  have hget := get?_of_mem_entries (k := e.1) (v := e.2) he
  rw [get?_group] at hget
  split_ifs at hget
  exact (Option.some.inj hget).symm

/-- Splitting a list by keys that cover it loses nothing. -/
theorem perm_flatMap_filter {keys : List κ} (hnodup : keys.Nodup) {l : List α} (hkeys : ∀ a ∈ l, key a ∈ keys) :
    (keys.flatMap fun k => l.filter fun a => key a = k).Perm l := by
  induction keys generalizing l with
  | nil =>
    have hnil : l = [] := List.eq_nil_iff_forall_not_mem.mpr fun a ha => List.not_mem_nil (hkeys a ha)
    rw [hnil]
    exact .refl _
  | cons k keys ih =>
    obtain ⟨hk, hnodup⟩ := List.nodup_cons.mp hnodup
    have hrest : (keys.flatMap fun k' => l.filter fun a => key a = k') =
        keys.flatMap fun k' => (l.filter fun a => !decide (key a = k)).filter fun a => key a = k' := by
      refine List.flatMap_congr fun k' hk' => ?_
      rw [List.filter_filter]
      refine List.filter_congr fun a _ => ?_
      have hne : k' ≠ k := fun h => hk (h ▸ hk')
      by_cases ha : key a = k' <;> simp [ha, hne]
    rw [List.flatMap_cons, hrest]
    refine (List.Perm.append_left _ (ih hnodup fun a ha => ?_)).trans (List.filter_append_perm _ l)
    obtain ⟨hmem, hne⟩ := List.mem_filter.mp ha
    exact (List.mem_cons.mp (hkeys a hmem)).resolve_left (by simpa using hne)

/-- The groups hold the values of the list. -/
theorem perm_group (l : List α) : ((group key value l).values.flatten).Perm (l.map value) := by
  have hsplit := perm_flatMap_filter key (group key value l).nodup_keys
    (l := l) fun a ha => (mem_keys_group key value).mpr ⟨a, ha, rfl⟩
  rw [values_group, ← List.flatMap_def, ← List.map_flatMap]
  exact hsplit.map value

end Dict
