import Mathlib.Data.List.Nodup
import Mathlib.Logic.Function.Basic
import Mathlib.Tactic.Common

/-!
# Mutable stores: insertion-ordered dictionaries and object heaps

A `Dict` is a list of entries with distinct keys, in the order in which the keys were first
inserted. Setting a key that is present replaces its value in place; a new key goes to the end;
popping a key keeps the order of the others. Everything else reads a dictionary through `get?` and
`keys`.

A `Heap` holds mutable objects under addresses. An address is never reused, so an object that no
dictionary mentions any more keeps its address and its contents for whoever still refers to it.
-/

/-- A finite map that remembers the insertion order of its keys. -/
structure Dict (κ ν : Type) where
  entries : List (κ × ν)
  nodup : (entries.map Prod.fst).Nodup

namespace Dict

variable {κ ν : Type}

/-- The dictionary without entries. -/
def empty : Dict κ ν := ⟨[], List.nodup_nil⟩

/-- The keys in insertion order. -/
def keys (d : Dict κ ν) : List κ := d.entries.map Prod.fst

/-- The values in insertion order. -/
def values (d : Dict κ ν) : List ν := d.entries.map Prod.snd

theorem nodup_keys (d : Dict κ ν) : d.keys.Nodup := d.nodup

@[simp] theorem keys_empty : (empty : Dict κ ν).keys = [] := rfl

variable [DecidableEq κ]

/-- The value stored under a key. -/
def get? (d : Dict κ ν) (k : κ) : Option ν :=
  (d.entries.find? fun e => e.1 = k).map Prod.snd

/-- The entries after `d[k] = v`. -/
def setEntries (l : List (κ × ν)) (k : κ) (v : ν) : List (κ × ν) :=
  if k ∈ l.map Prod.fst then l.map fun e => if e.1 = k then (k, v) else e else l ++ [(k, v)]

theorem map_fst_setEntries (l : List (κ × ν)) (k : κ) (v : ν) :
    (setEntries l k v).map Prod.fst =
      if k ∈ l.map Prod.fst then l.map Prod.fst else l.map Prod.fst ++ [k] := by
  unfold setEntries
  split_ifs with h
  · rw [List.map_map]
    refine List.map_congr_left fun e _ => ?_
    by_cases he : e.1 = k <;> simp [he]
  · simp

/-- `d[k] = v`: replaces in place, or appends. -/
def set (d : Dict κ ν) (k : κ) (v : ν) : Dict κ ν where
  entries := setEntries d.entries k v
  nodup := by
    rw [map_fst_setEntries]
    split_ifs with h
    · exact d.nodup
    · exact List.Nodup.append d.nodup (List.nodup_singleton k) (by simpa using h)

/-- `d.pop(k, None)`. -/
def erase (d : Dict κ ν) (k : κ) : Dict κ ν where
  entries := d.entries.filter fun e => e.1 ≠ k
  nodup := d.nodup.sublist (List.filter_sublist.map Prod.fst)

/-- `dict` of a list of pairs: a later pair replaces the value of an earlier one. -/
def ofList (l : List (κ × ν)) : Dict κ ν := l.foldl (fun d e => d.set e.1 e.2) empty

/-! ### Reading -/

@[simp] theorem get?_empty (k : κ) : (empty : Dict κ ν).get? k = none := rfl

theorem mem_entries_of_get? {d : Dict κ ν} {k : κ} {v : ν} (h : d.get? k = some v) :
    (k, v) ∈ d.entries := by
  unfold get? at h
  obtain ⟨e, he, rfl⟩ := Option.map_eq_some_iff.mp h
  have hk : e.1 = k := by simpa using List.find?_some he
  exact hk ▸ List.mem_of_find?_eq_some he

theorem get?_of_mem_entries {d : Dict κ ν} {k : κ} {v : ν} (h : (k, v) ∈ d.entries) :
    d.get? k = some v := by
  unfold get?
  cases hf : d.entries.find? fun e => e.1 = k with
  | none => exact absurd (List.find?_eq_none.mp hf _ h) (by simp)
  | some e =>
    have hk : e.1 = k := by simpa using List.find?_some hf
    have he := List.inj_on_of_nodup_map d.nodup (List.mem_of_find?_eq_some hf) h hk
    simp [he]

theorem mem_entries_iff {d : Dict κ ν} {k : κ} {v : ν} :
    (k, v) ∈ d.entries ↔ d.get? k = some v :=
  ⟨get?_of_mem_entries, mem_entries_of_get?⟩

theorem mem_keys_iff {d : Dict κ ν} {k : κ} : k ∈ d.keys ↔ ∃ v, d.get? k = some v := by
  simp only [keys, List.mem_map, Prod.exists, exists_and_right, exists_eq_right, mem_entries_iff]

theorem mem_keys_of_get? {d : Dict κ ν} {k : κ} {v : ν} (h : d.get? k = some v) : k ∈ d.keys :=
  mem_keys_iff.mpr ⟨v, h⟩

theorem get?_eq_none_iff {d : Dict κ ν} {k : κ} : d.get? k = none ↔ k ∉ d.keys := by
  rw [mem_keys_iff, Option.eq_none_iff_forall_not_mem]
  simp

/-! ### Writing -/

@[simp] theorem get?_set_self (d : Dict κ ν) (k : κ) (v : ν) : (d.set k v).get? k = some v := by
  refine get?_of_mem_entries ?_
  show (k, v) ∈ setEntries d.entries k v
  unfold setEntries
  split_ifs with h
  · obtain ⟨e, he, hk⟩ := List.mem_map.mp h
    exact List.mem_map.mpr ⟨e, he, by simp [hk]⟩
  · simp

theorem get?_set_of_ne (d : Dict κ ν) {k k' : κ} (v : ν) (h : k' ≠ k) :
    (d.set k v).get? k' = d.get? k' := by
  refine Option.ext fun w => ?_
  rw [← mem_entries_iff, ← mem_entries_iff]
  show (k', w) ∈ setEntries d.entries k v ↔ _
  unfold setEntries
  split_ifs with hk
  · rw [List.mem_map]
    constructor
    · rintro ⟨e, he, heq⟩
      split_ifs at heq with hek
      · exact absurd (congrArg Prod.fst heq).symm h
      · exact heq ▸ he
    · intro hw
      exact ⟨(k', w), hw, by simp [h]⟩
  · simp [h]

theorem get?_set (d : Dict κ ν) (k k' : κ) (v : ν) :
    (d.set k v).get? k' = if k' = k then some v else d.get? k' := by
  split_ifs with h
  · rw [h, get?_set_self]
  · exact get?_set_of_ne d v h

theorem keys_set (d : Dict κ ν) (k : κ) (v : ν) :
    (d.set k v).keys = if k ∈ d.keys then d.keys else d.keys ++ [k] :=
  map_fst_setEntries d.entries k v

theorem keys_set_of_mem {d : Dict κ ν} {k : κ} (h : k ∈ d.keys) (v : ν) :
    (d.set k v).keys = d.keys := by
  rw [keys_set, if_pos h]

theorem keys_set_of_not_mem {d : Dict κ ν} {k : κ} (h : k ∉ d.keys) (v : ν) :
    (d.set k v).keys = d.keys ++ [k] := by
  rw [keys_set, if_neg h]

theorem mem_keys_set {d : Dict κ ν} {k k' : κ} {v : ν} :
    k' ∈ (d.set k v).keys ↔ k' = k ∨ k' ∈ d.keys := by
  rw [keys_set]
  split_ifs with h
  · exact ⟨Or.inr, fun h' => h'.elim (fun e => e ▸ h) id⟩
  · simp [or_comm]

theorem keys_erase (d : Dict κ ν) (k : κ) : (d.erase k).keys = d.keys.filter fun k' => k' ≠ k := by
  simp only [keys, erase, List.filter_map]
  rfl

theorem get?_erase (d : Dict κ ν) (k k' : κ) :
    (d.erase k).get? k' = if k' = k then none else d.get? k' := by
  refine Option.ext fun w => ?_
  rw [← mem_entries_iff]
  by_cases h : k' = k
  · simp [erase, h]
  · simp [erase, h, mem_entries_iff]

@[simp] theorem get?_erase_self (d : Dict κ ν) (k : κ) : (d.erase k).get? k = none := by
  rw [get?_erase, if_pos rfl]

theorem get?_erase_of_ne (d : Dict κ ν) {k k' : κ} (h : k' ≠ k) :
    (d.erase k).get? k' = d.get? k' := by
  rw [get?_erase, if_neg h]

theorem mem_keys_erase {d : Dict κ ν} {k k' : κ} :
    k' ∈ (d.erase k).keys ↔ k' ≠ k ∧ k' ∈ d.keys := by
  rw [keys_erase, List.mem_filter]
  simp [and_comm]

theorem erase_comm (d : Dict κ ν) (k k' : κ) : (d.erase k).erase k' = (d.erase k').erase k := by
  unfold erase
  simp only [List.filter_filter, Bool.and_comm]

/-- Setting a key to the value that it has. -/
theorem set_of_get? {d : Dict κ ν} {k : κ} {v : ν} (h : d.get? k = some v) : d.set k v = d := by
  have hmem : k ∈ d.entries.map Prod.fst := mem_keys_of_get? h
  have hentry : ∀ e ∈ d.entries, (if e.1 = k then (k, v) else e) = id e := by
    intro e he
    split_ifs with hk
    · have hv : d.get? e.1 = some e.2 := get?_of_mem_entries he
      rw [hk, h] at hv
      exact Prod.ext hk.symm (Option.some.inj hv)
    · rfl
  have hentries : (d.set k v).entries = d.entries :=
    (if_pos hmem).trans ((List.map_congr_left hentry).trans (List.map_id _))
  cases d
  cases hset : Dict.set _ k v
  simp only [hset] at hentries
  simp only [hentries]

/-! ### Building from a list -/

theorem get?_foldl_set (l : List (κ × ν)) (d : Dict κ ν) (k : κ) :
    (l.foldl (fun d e => d.set e.1 e.2) d).get? k =
      ((l.reverse.find? fun e => e.1 = k).map Prod.snd).or (d.get? k) := by
  induction l generalizing d with
  | nil => rfl
  | cons e l ih =>
    rw [List.foldl_cons, ih, get?_set, List.reverse_cons, List.find?_append]
    cases (l.reverse.find? fun e => e.1 = k) with
    | some e' => simp
    | none =>
      by_cases h : k = e.1
      · simp [h]
      · simp [h, Ne.symm h]

/-- The last pair of a key decides its value. -/
theorem get?_ofList (l : List (κ × ν)) (k : κ) :
    (ofList l).get? k = (l.reverse.find? fun e => e.1 = k).map Prod.snd := by
  unfold ofList
  rw [get?_foldl_set]
  simp

/-- Pairs with distinct keys stay as they are. -/
theorem entries_ofList {l : List (κ × ν)} (h : (l.map Prod.fst).Nodup) : (ofList l).entries = l := by
  have happend (l : List (κ × ν)) (d : Dict κ ν) (hl : (d.keys ++ l.map Prod.fst).Nodup) :
      (l.foldl (fun d e => d.set e.1 e.2) d).entries = d.entries ++ l := by
    induction l generalizing d with
    | nil => simp
    | cons e l ih =>
      have hnew : e.1 ∉ d.keys := by
        intro he
        exact (List.nodup_append.mp hl).2.2 _ he _ (List.mem_cons_self ..) rfl
      have hset : (d.set e.1 e.2).entries = d.entries ++ [e] := if_neg hnew
      have hkeys : (d.set e.1 e.2).keys = d.keys ++ [e.1] := keys_set_of_not_mem hnew e.2
      rw [List.foldl_cons, ih, hset, List.append_assoc]
      · rfl
      · rw [hkeys, List.append_assoc]
        exact hl
  exact happend l empty (by simpa using h)

theorem mem_of_get?_ofList {l : List (κ × ν)} {k : κ} {v : ν} (h : (ofList l).get? k = some v) :
    (k, v) ∈ l := by
  rw [get?_ofList] at h
  obtain ⟨e, he, rfl⟩ := Option.map_eq_some_iff.mp h
  have hk : e.1 = k := by simpa using List.find?_some he
  exact hk ▸ List.mem_reverse.mp (List.mem_of_find?_eq_some he)

theorem mem_keys_ofList {l : List (κ × ν)} {k : κ} :
    k ∈ (ofList l).keys ↔ k ∈ l.map Prod.fst := by
  constructor
  · intro h
    obtain ⟨v, hv⟩ := mem_keys_iff.mp h
    exact List.mem_map_of_mem (mem_of_get?_ofList hv)
  · intro h
    obtain ⟨e, he, rfl⟩ := List.mem_map.mp h
    rw [mem_keys_iff]
    have hs : (l.reverse.find? fun e' => e'.1 = e.1).isSome := by
      rw [List.find?_isSome]
      exact ⟨e, List.mem_reverse.mpr he, by simp⟩
    obtain ⟨e', he'⟩ := Option.isSome_iff_exists.mp hs
    exact ⟨e'.2, by rw [get?_ofList, he']; rfl⟩

end Dict

/-- Objects under addresses; `next` is the first address that was never used. -/
structure Heap (ω : Type) where
  next : Nat
  cell : Nat → ω

namespace Heap

variable {ω : Type}

/-- A new object at a fresh address. -/
def alloc (h : Heap ω) (o : ω) : Heap ω where
  next := h.next + 1
  cell := Function.update h.cell h.next o

/-- Updates the object at an address. -/
def modify (h : Heap ω) (a : Nat) (f : ω → ω) : Heap ω :=
  { h with cell := Function.update h.cell a (f (h.cell a)) }

@[simp] theorem next_alloc (h : Heap ω) (o : ω) : (h.alloc o).next = h.next + 1 := rfl

@[simp] theorem next_modify (h : Heap ω) (a : Nat) (f : ω → ω) : (h.modify a f).next = h.next := rfl

@[simp] theorem cell_alloc_self (h : Heap ω) (o : ω) : (h.alloc o).cell h.next = o :=
  Function.update_self ..

theorem cell_alloc_of_ne (h : Heap ω) (o : ω) {a : Nat} (ha : a ≠ h.next) :
    (h.alloc o).cell a = h.cell a :=
  Function.update_of_ne ha ..

theorem cell_alloc_of_lt (h : Heap ω) (o : ω) {a : Nat} (ha : a < h.next) :
    (h.alloc o).cell a = h.cell a :=
  cell_alloc_of_ne h o (Nat.ne_of_lt ha)

@[simp] theorem cell_modify_self (h : Heap ω) (a : Nat) (f : ω → ω) :
    (h.modify a f).cell a = f (h.cell a) :=
  Function.update_self ..

theorem cell_modify_of_ne (h : Heap ω) {a a' : Nat} (f : ω → ω) (ha : a' ≠ a) :
    (h.modify a f).cell a' = h.cell a' :=
  Function.update_of_ne ha ..

theorem cell_modify (h : Heap ω) (a a' : Nat) (f : ω → ω) :
    (h.modify a f).cell a' = if a' = a then f (h.cell a) else h.cell a' :=
  Function.update_apply ..

theorem modify_modify (h : Heap ω) (a : Nat) (f g : ω → ω) : (h.modify a f).modify a g = h.modify a (g ∘ f) := by
  unfold modify
  simp only [Function.update_self, Function.update_idem, Function.comp_apply]

theorem modify_comm (h : Heap ω) {a a' : Nat} (f g : ω → ω) (ha : a ≠ a') :
    (h.modify a f).modify a' g = (h.modify a' g).modify a f := by
  unfold modify
  simp only [Function.update_of_ne ha, Function.update_of_ne ha.symm]
  rw [Function.update_comm ha]

end Heap
