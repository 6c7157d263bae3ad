import Mathlib.Data.List.Flatten
import Mathlib.Data.List.Nodup
import Mathlib.Tactic.Common

/-!
# Preorder listings of a forest

A forest is given by the children of each node. `preorder` lists a subtree in preorder with the depth of each node,
as a recursion with a limited depth does. If the children lists are linked to a parent function (`Linked`), then the
listing of all roots contains each node once whose parents lead to a root within the limit (`Rooted`), and the nearest
line above a line that has a smaller depth is its parent (`Nested`): this is how an indented listing is read.
-/

namespace Forest

variable {α : Type} (nodes : α → Prop) (parent : α → Option α) (children : α → List α)

/-- The lines of a subtree whose root has depth `d`, cut off below the limit. -/
def preorder : Nat → α → Nat → List (α × Nat)
  | 0, _, _ => []
  | limit + 1, a, d => (a, d) :: (children a).flatMap fun c => preorder limit c (d + 1)

/-- The recursion from `a` stays within the limit. -/
def Fits : Nat → α → Prop
  | 0, _ => False
  | limit + 1, a => ∀ c ∈ children a, Fits limit c

/-- The node is `n` levels below a root. -/
inductive Rooted : Nat → α → Prop
  | root {a : α} (node : nodes a) (noParent : parent a = none) : Rooted 0 a
  | child {a p : α} {n : Nat} (node : nodes a) (hparent : parent a = some p) (rooted : Rooted n p) : Rooted (n + 1) a

/-- `x` is `k` levels below `a`. -/
inductive Below (a : α) : Nat → α → Prop
  | self : Below a 0 a
  | child {x p : α} {k : Nat} (hparent : parent x = some p) (below : Below a k p) : Below a (k + 1) x

/-- The children of a node are the nodes whose parent it is. -/
structure Linked : Prop where
  mem_children : ∀ p c, nodes p → (c ∈ children p ↔ nodes c ∧ parent c = some p)
  nodup : ∀ p, nodes p → (children p).Nodup

variable {nodes parent children}

theorem Rooted.node {n : Nat} {a : α} (h : Rooted nodes parent n a) : nodes a := by
  cases h with
  | root node => exact node
  | child node => exact node

/-- A node has one depth at most. -/
theorem Rooted.unique {n n' : Nat} {a : α} (h : Rooted nodes parent n a) (h' : Rooted nodes parent n' a) : n = n' := by
  induction h generalizing n' with
  | root _ noParent =>
    cases h' with
    | root => rfl
    | child _ hparent => rw [noParent] at hparent; cases hparent
  | child _ hparent _ ih =>
    cases h' with
    | root _ noParent => rw [noParent] at hparent; cases hparent
    | child _ hparent' rooted' =>
      rw [hparent] at hparent'
      obtain rfl := Option.some.inj hparent'
      rw [ih rooted']

/-- There is one node at most that a node is `k` levels below of. -/
theorem Below.unique {a a' x : α} {k : Nat} (h : Below parent a k x) (h' : Below parent a' k x) : a = a' := by
  induction h with
  | self => cases h'; rfl
  | child hparent _ ih =>
    cases h' with
    | child hparent' below' =>
      rw [hparent] at hparent'
      obtain rfl := Option.some.inj hparent'
      exact ih below'

theorem Below.step {a c x : α} {k : Nat} (hparent : parent c = some a) (h : Below parent c k x) :
    Below parent a (k + 1) x := by
  induction h with
  | self => exact .child hparent .self
  | child hp _ ih => exact .child hp ih

/-! ### What is listed -/

/-- A listed node is as deep below the root of the subtree as its line says, and within the limit. -/
theorem mem_preorder (hl : Linked nodes parent children) {limit d dx : Nat} {a x : α} (ha : Rooted nodes parent d a)
    (hx : (x, dx) ∈ preorder children limit a d) :
    Rooted nodes parent dx x ∧ dx < d + limit ∧ ∃ k, dx = d + k ∧ Below parent a k x := by
  induction limit generalizing a d with
  | zero => exact absurd hx List.not_mem_nil
  | succ limit ih =>
    rcases List.mem_cons.mp hx with heq | hbelow
    · obtain ⟨rfl, rfl⟩ := Prod.mk.inj heq
      exact ⟨ha, by omega, 0, rfl, .self⟩
    · obtain ⟨c, hc, hx⟩ := List.mem_flatMap.mp hbelow
      obtain ⟨hnode, hparent⟩ := (hl.mem_children a c ha.node).mp hc
      obtain ⟨hrooted, hlimit, k, hk, hk'⟩ := ih (.child hnode hparent ha) hx
      exact ⟨hrooted, by omega, k + 1, by omega, hk'.step hparent⟩

theorem mem_preorder_self {limit : Nat} {a : α} (h : Fits children limit a) (d : Nat) :
    (a, d) ∈ preorder children limit a d := by
  cases limit with
  | zero => exact absurd h id
  | succ limit => exact List.mem_cons_self ..

/-- If the recursion fits, then the children of a listed node are listed. -/
theorem mem_preorder_child {limit d n : Nat} {a p c : α} (h : Fits children limit a)
    (hp : (p, n) ∈ preorder children limit a d) (hc : c ∈ children p) :
    (c, n + 1) ∈ preorder children limit a d := by
  induction limit generalizing a d with
  | zero => exact absurd h id
  | succ limit ih =>
    refine List.mem_cons_of_mem _ (List.mem_flatMap.mpr ?_)
    rcases List.mem_cons.mp hp with heq | hbelow
    · obtain ⟨rfl, rfl⟩ := Prod.mk.inj heq
      exact ⟨c, hc, mem_preorder_self (h c hc) _⟩
    · obtain ⟨c', hc', hp'⟩ := List.mem_flatMap.mp hbelow
      exact ⟨c', hc', ih (h c' hc') hp'⟩

/-- The recursion fits if no node is deeper than the limit. -/
theorem fits_of_rooted (hl : Linked nodes parent children) {limit d : Nat} {a : α} (ha : Rooted nodes parent d a)
    (hdepth : ∀ x n, Rooted nodes parent n x → n < d + limit) : Fits children limit a := by
  induction limit generalizing a d with
  | zero => exact absurd (hdepth a d ha) (by omega)
  | succ limit ih =>
    intro c hc
    obtain ⟨hnode, hparent⟩ := (hl.mem_children a c ha.node).mp hc
    refine ih (.child hnode hparent ha) fun x n hx => ?_
    have hn := hdepth x n hx
    omega

/-- Subtrees of different nodes of one depth have no node in common. -/
theorem disjoint_preorder (hl : Linked nodes parent children) {limit d : Nat} {a a' : α} (ha : Rooted nodes parent d a)
    (ha' : Rooted nodes parent d a') (hne : a ≠ a') :
    List.Disjoint ((preorder children limit a d).map Prod.fst) ((preorder children limit a' d).map Prod.fst) := by
  intro x hx hx'
  obtain ⟨⟨_, n⟩, hline, rfl⟩ := List.mem_map.mp hx
  obtain ⟨⟨_, n'⟩, hline', heq⟩ := List.mem_map.mp hx'
  dsimp only at heq
  subst heq
  obtain ⟨hrooted, -, k, hk, hbelow⟩ := mem_preorder hl ha hline
  obtain ⟨hrooted', -, k', hk', hbelow'⟩ := mem_preorder hl ha' hline'
  have hn := hrooted.unique hrooted'
  obtain rfl : k = k' := by omega
  exact hne (hbelow.unique hbelow')

theorem nodup_flatMap_preorder (hl : Linked nodes parent children) {limit d : Nat} {l : List α} (hnodup : l.Nodup)
    (hl' : ∀ a ∈ l, Rooted nodes parent d a)
    (hsub : ∀ a ∈ l, ((preorder children limit a d).map Prod.fst).Nodup) :
    ((l.flatMap fun a => preorder children limit a d).map Prod.fst).Nodup := by
  rw [List.map_flatMap, List.nodup_flatMap]
  refine ⟨hsub, ?_⟩
  refine List.Pairwise.imp_of_mem ?_ hnodup
  intro a a' ha ha' hne
  exact disjoint_preorder hl (hl' a ha) (hl' a' ha') hne

/-- No node of a subtree is listed twice. -/
theorem nodup_preorder (hl : Linked nodes parent children) {limit d : Nat} {a : α} (ha : Rooted nodes parent d a) :
    ((preorder children limit a d).map Prod.fst).Nodup := by
  induction limit generalizing a d with
  | zero => exact List.nodup_nil
  | succ limit ih =>
    have hrooted (c : α) (hc : c ∈ children a) : Rooted nodes parent (d + 1) c := by
      obtain ⟨hnode, hparent⟩ := (hl.mem_children a c ha.node).mp hc
      exact .child hnode hparent ha
    refine List.nodup_cons.mpr ⟨fun hmem => ?_, ?_⟩
    · obtain ⟨⟨_, n⟩, hline, rfl⟩ := List.mem_map.mp hmem
      obtain ⟨c, hc, hline⟩ := List.mem_flatMap.mp hline
      obtain ⟨hx, -, k, hk, -⟩ := mem_preorder hl (hrooted c hc) hline
      have hn := hx.unique ha
      omega
    · exact nodup_flatMap_preorder hl (hl.nodup a ha.node) hrooted fun c hc => ih (hrooted c hc)

/-! ### The whole forest -/

variable (children) in
/-- The lines of the forest. -/
def preorderAll (limit : Nat) (roots : List α) : List (α × Nat) := roots.flatMap fun r => preorder children limit r 0

section

variable {roots : List α} (hl : Linked nodes parent children)
  (hroots : ∀ r, r ∈ roots ↔ nodes r ∧ parent r = none)

include hroots in
theorem rooted_of_mem_roots {r : α} (hr : r ∈ roots) : Rooted nodes parent 0 r := by
  obtain ⟨hnode, hparent⟩ := (hroots r).mp hr
  exact .root hnode hparent

include hl hroots in
theorem nodup_preorderAll (hnodup : roots.Nodup) (limit : Nat) :
    ((preorderAll children limit roots).map Prod.fst).Nodup :=
  nodup_flatMap_preorder hl hnodup (fun _ hr => rooted_of_mem_roots hroots hr)
    fun _ hr => nodup_preorder hl (rooted_of_mem_roots hroots hr)

include hl hroots in
/-- What is listed is a node whose parents lead to a root within the limit. -/
theorem rooted_of_mem_preorderAll {limit n : Nat} {x : α} (hx : (x, n) ∈ preorderAll children limit roots) :
    Rooted nodes parent n x ∧ n < limit := by
  obtain ⟨r, hr, hx⟩ := List.mem_flatMap.mp hx
  obtain ⟨hrooted, hlimit, -⟩ := mem_preorder hl (rooted_of_mem_roots hroots hr) hx
  exact ⟨hrooted, by omega⟩

include hl hroots in
/-- Every node is listed whose parents lead to a root, if the recursion fits. -/
theorem mem_preorderAll {limit n : Nat} {x : α} (hfits : ∀ r ∈ roots, Fits children limit r)
    (hx : Rooted nodes parent n x) : (x, n) ∈ preorderAll children limit roots := by
  induction hx with
  | root node noParent =>
    have hr := (hroots _).mpr ⟨node, noParent⟩
    exact List.mem_flatMap.mpr ⟨_, hr, mem_preorder_self (hfits _ hr) 0⟩
  | child node hparent rooted ih =>
    obtain ⟨r, hr, hline⟩ := List.mem_flatMap.mp ih
    have hc := (hl.mem_children _ _ rooted.node).mpr ⟨node, hparent⟩
    exact List.mem_flatMap.mpr ⟨r, hr, mem_preorder_child (hfits r hr) hline hc⟩

end

/-! ### Nesting -/

/-- The line that a line of depth `d` is nested under: the nearest one above it that has a smaller depth. -/
def enclosing (d : Nat) (above : List (α × Nat)) : Option α := (above.reverse.find? fun l => l.2 < d).map Prod.fst

variable (parent) in
/-- Every line is nested under the line of its parent. -/
def Nested (lines : List (α × Nat)) : Prop :=
  ∀ above x d below, lines = above ++ (x, d) :: below → enclosing d above = parent x

theorem enclosing_append (d : Nat) (l above : List (α × Nat)) :
    enclosing d (l ++ above) = (enclosing d above).or (enclosing d l) := by
  unfold enclosing
  rw [List.reverse_append, List.find?_append]
  cases above.reverse.find? fun l => l.2 < d with
  | some e => rfl
  | none => rfl

theorem enclosing_eq_none {d : Nat} {above : List (α × Nat)} (h : ∀ l ∈ above, d ≤ l.2) : enclosing d above = none := by
  unfold enclosing
  rw [Option.map_eq_none_iff, List.find?_eq_none]
  intro l hl
  have hd := h l (List.mem_reverse.mp hl)
  simpa using hd

variable (parent) in
/-- Lines of depth `d` and more, of which those of depth `d` have the parent `p`. -/
structure Segment (p : Option α) (d : Nat) (lines : List (α × Nat)) : Prop where
  depths : ∀ l ∈ lines, d ≤ l.2
  top : ∀ x, (x, d) ∈ lines → parent x = p
  inner : ∀ above x n below, lines = above ++ (x, n) :: below → d < n →
    enclosing n above = parent x ∧ (parent x).isSome

theorem Segment.nil (p : Option α) (d : Nat) : Segment parent p d [] where
  depths _ h := absurd h List.not_mem_nil
  top _ h := absurd h List.not_mem_nil
  inner above x n below h := by simp at h

theorem Segment.append {p : Option α} {d : Nat} {l l' : List (α × Nat)} (h : Segment parent p d l)
    (h' : Segment parent p d l') : Segment parent p d (l ++ l') where
  depths e he := (List.mem_append.mp he).elim (h.depths e) (h'.depths e)
  top x hx := (List.mem_append.mp hx).elim (h.top x) (h'.top x)
  inner above x n below heq hn := by
    rcases List.append_eq_append_iff.mp heq with ⟨above', rfl, hsplit⟩ | ⟨rest, hsplit, hrest⟩
    · obtain ⟨henclosing, hsome⟩ := h'.inner above' x n below hsplit hn
      refine ⟨?_, hsome⟩
      rw [enclosing_append, henclosing]
      obtain ⟨p, hp⟩ := Option.isSome_iff_exists.mp hsome
      rw [hp]
      rfl
    · cases rest with
      | nil =>
        obtain ⟨henclosing, hsome⟩ := h'.inner [] x n below (by simpa using hrest.symm) hn
        rw [← henclosing] at hsome
        simp [enclosing] at hsome
      | cons e rest =>
        rw [List.cons_append, List.cons.injEq] at hrest
        obtain ⟨rfl, -⟩ := hrest
        exact h.inner above x n rest hsplit hn

theorem Segment.cons {p : Option α} {d : Nat} {a : α} {l : List (α × Nat)} (ha : parent a = p)
    (h : Segment parent (some a) (d + 1) l) : Segment parent p d ((a, d) :: l) where
  depths e he := by
    rcases List.mem_cons.mp he with rfl | he
    · exact Nat.le_refl d
    · exact Nat.le_of_succ_le (h.depths e he)
  top x hx := by
    rcases List.mem_cons.mp hx with heq | hx
    · obtain ⟨rfl, -⟩ := Prod.mk.inj heq
      exact ha
    · exact absurd (h.depths _ hx) (Nat.not_succ_le_self d)
  inner above x n below heq hn := by
    cases above with
    | nil =>
      obtain ⟨he, -⟩ := List.cons.inj heq
      obtain ⟨-, rfl⟩ := Prod.mk.inj he
      exact absurd hn (Nat.lt_irrefl d)
    | cons e above =>
      obtain ⟨rfl, hl⟩ := List.cons.inj heq
      have hhead : enclosing n ((a, d) :: above) = (enclosing n above).or (some a) := by
        have hone : enclosing n [(a, d)] = some a := by simp [enclosing, hn]
        rw [← hone, ← enclosing_append]
        rfl
      rw [hhead]
      rcases Nat.lt_or_eq_of_le (Nat.succ_le_of_lt hn) with hdeep | rfl
      · obtain ⟨henclosing, hsome⟩ := h.inner above x n below hl hdeep
        refine ⟨?_, hsome⟩
        obtain ⟨p, hp⟩ := Option.isSome_iff_exists.mp hsome
        rw [henclosing, hp]
        rfl
      · have hparent : parent x = some a := h.top x (hl ▸ by simp)
        have hnone : enclosing (d + 1) above = none :=
          enclosing_eq_none fun e he => h.depths e (hl ▸ List.mem_append_left _ he)
        rw [hnone, hparent]
        exact ⟨rfl, rfl⟩

theorem segment_flatMap {p : Option α} {d : Nat} {l : List α} {f : α → List (α × Nat)}
    (h : ∀ a ∈ l, Segment parent p d (f a)) : Segment parent p d (l.flatMap f) := by
  induction l with
  | nil => exact .nil p d
  | cons a l ih =>
    rw [List.flatMap_cons]
    exact (h a (List.mem_cons_self ..)).append (ih fun a' ha' => h a' (List.mem_cons_of_mem _ ha'))

theorem segment_preorder (hl : Linked nodes parent children) {limit d : Nat} {a : α} (ha : Rooted nodes parent d a) :
    Segment parent (parent a) d (preorder children limit a d) := by
  induction limit generalizing a d with
  | zero => exact .nil _ d
  | succ limit ih =>
    refine .cons rfl (segment_flatMap fun c hc => ?_)
    obtain ⟨hnode, hparent⟩ := (hl.mem_children a c ha.node).mp hc
    have hsub := ih (.child hnode hparent ha)
    rwa [hparent] at hsub

/-- The listing of a forest is nested. -/
theorem nested_preorderAll (hl : Linked nodes parent children) {roots : List α}
    (hroots : ∀ r, r ∈ roots ↔ nodes r ∧ parent r = none) (limit : Nat) :
    Nested parent (preorderAll children limit roots) := by
  have hsegment : Segment parent none 0 (preorderAll children limit roots) := by
    refine segment_flatMap fun r hr => ?_
    have hsub : Segment parent (parent r) 0 (preorder children limit r 0) :=
      segment_preorder hl (rooted_of_mem_roots hroots hr)
    rwa [((hroots r).mp hr).2] at hsub
  intro above x d below heq
  rcases Nat.eq_zero_or_pos d with rfl | hd
  · rw [enclosing_eq_none fun _ _ => Nat.zero_le _]
    exact (hsegment.top x (heq ▸ by simp)).symm
  · exact (hsegment.inner above x d below heq hd).1

end Forest
