import StateFork.Controller.State
import StateFork.Lib.Forest

/-!
# What `print_snapshot_tree` prints

The recursion of `print_snapshot_tree` starts at the nodes without a parent id and follows the lists of children.
`printedEntries` is that recursion with a snapshot and a depth for each line (`printSnapshotTree_eq`). If the lists of
children agree with the parent ids (`GraphLinked`), then the tree is complete if and only if the parent ids of every
node lead to a node without one, inside the graph and within the limit of the recursion
(`printsCompletely_iff`).
-/

namespace StateFork

namespace Manager

variable (m : Manager)

/-- The indentation of a line. -/
def indentAt : Nat → String
  | 0 => " "
  | depth + 1 => indentAt depth ++ "  "

/-- The line of a snapshot. -/
def line (entry : String × Nat) : String := indentAt entry.2 ++ "- " ++ entry.1 ++ m.markers entry.1

/-- The snapshots and depths of the lines of a subtree. -/
def treeEntries : Nat → String → Nat → Except PyError (List (String × Nat))
  | 0, _, _ => .error ⟨.runtimeError, "maximum recursion depth exceeded"⟩
  | limit + 1, snapshot, depth =>
    match m.snapshotGraph.get? snapshot with
    | none => .error ⟨.keyError, snapshot⟩
    | some node => do
      let below ← node.children.mapM fun child => treeEntries limit child (depth + 1)
      return (snapshot, depth) :: below.flatten

/-- The snapshots without a parent id, in the order of the graph. -/
def roots : List String := (m.snapshotGraph.entries.filter fun e => e.2.parentId = none).map Prod.fst

/-- The snapshots and depths of the lines of the tree. -/
def printedEntries (recursionLimit : Nat) : Except PyError (List (String × Nat)) := do
  let below ← m.roots.mapM fun root => m.treeEntries recursionLimit root 0
  return below.flatten

end Manager

/-- A loop whose body only differs in its results. -/
theorem mapM_map_ok {ε α β γ : Type} {f : α → Except ε γ} {g : α → Except ε β} {h : β → γ}
    (hf : ∀ a, f a = (g a).map h) (l : List α) : l.mapM f = (l.mapM g).map (List.map h) := by
  induction l with
  | nil => rfl
  | cons a l ih =>
    rw [List.mapM_cons, List.mapM_cons, hf, ih]
    cases g a with
    | error e => rfl
    | ok b =>
      cases l.mapM g with
      | error e => rfl
      | ok bs => rfl

theorem mapM_eq_ok {ε α β : Type} {f : α → Except ε β} {g : α → β} {l : List α} (hf : ∀ a ∈ l, f a = .ok (g a)) :
    l.mapM f = .ok (l.map g) := by
  induction l with
  | nil => rfl
  | cons a l ih =>
    rw [List.mapM_cons, hf a (List.mem_cons_self ..), ih fun a' ha' => hf a' (List.mem_cons_of_mem _ ha')]
    rfl

theorem ok_of_mapM {ε α β : Type} {f : α → Except ε β} {l : List α} {bs : List β} (h : l.mapM f = .ok bs) :
    ∀ a ∈ l, ∃ b, f a = .ok b := by
  induction l generalizing bs with
  | nil => exact fun a ha => absurd ha List.not_mem_nil
  | cons a l ih =>
    rw [List.mapM_cons] at h
    intro a' ha'
    cases ha : f a with
    | error e =>
      rw [ha] at h
      cases h
    | ok b =>
      cases hl : l.mapM f with
      | error e =>
        rw [ha, hl] at h
        cases h
      | ok bs' =>
        rcases List.mem_cons.mp ha' with rfl | ha'
        · exact ⟨b, ha⟩
        · exact ih hl a' ha'

namespace Manager

variable (m : Manager)

theorem treeLines_eq (limit : Nat) (snapshot : String) (depth : Nat) :
    m.treeLines limit snapshot (indentAt depth) = (m.treeEntries limit snapshot depth).map (List.map m.line) := by
  induction limit generalizing snapshot depth with
  | zero => rfl
  | succ limit ih =>
    unfold treeLines treeEntries
    cases m.snapshotGraph.get? snapshot with
    | none => rfl
    | some node =>
      have hloop : (node.children.mapM fun child => m.treeLines limit child (indentAt depth ++ "  ")) =
          (node.children.mapM fun child => m.treeEntries limit child (depth + 1)).map (List.map (List.map m.line)) :=
        mapM_map_ok (fun child => ih child (depth + 1)) node.children
      dsimp only
      rw [hloop]
      cases node.children.mapM fun child => m.treeEntries limit child (depth + 1) with
      | error e => rfl
      | ok below =>
        show Except.ok (_ :: (below.map (List.map m.line)).flatten) = Except.ok (List.map m.line (_ :: below.flatten))
        rw [List.map_cons, List.map_flatten]
        rfl

/-- The text is made of the printed entries, a line each. -/
theorem printSnapshotTree_eq (limit : Nat) :
    m.printSnapshotTree limit =
      if m.roots = [] then .ok "No snapshot tree available.\n"
      else (m.printedEntries limit).map fun entries =>
        "\n".intercalate ("Snapshot Tree:" :: entries.map m.line) ++ "\n" := by
  unfold printSnapshotTree
  show (if m.roots = [] then _ else _) = _
  split_ifs
  · rfl
  · have hloop : (m.roots.mapM fun root => m.treeLines limit root " ") =
        (m.roots.mapM fun root => m.treeEntries limit root 0).map (List.map (List.map m.line)) :=
      mapM_map_ok (fun root => m.treeLines_eq limit root 0) m.roots
    unfold printedEntries
    show (m.roots.mapM (fun root => m.treeLines limit root " ") >>= _) = _
    rw [hloop]
    cases m.roots.mapM fun root => m.treeEntries limit root 0 with
    | error e => rfl
    | ok below =>
      show Except.ok _ = Except.ok _
      dsimp only
      rw [List.map_flatten]

/-! ### The forest of a graph -/

/-- The parent id of a snapshot of the graph. -/
def parentOf (id : String) : Option String := (m.snapshotGraph.get? id).bind SnapshotNode.parentId

/-- The children of a snapshot of the graph. -/
def childrenOf (id : String) : List String := ((m.snapshotGraph.get? id).map SnapshotNode.children).getD []

/-- The lists of children agree with the parent ids. -/
abbrev GraphLinked : Prop := Forest.Linked (· ∈ m.snapshotGraph.keys) m.parentOf m.childrenOf

/-- The parent ids of a snapshot lead to one without a parent id, `n` steps up. -/
abbrev RootedAt (n : Nat) (id : String) : Prop := Forest.Rooted (· ∈ m.snapshotGraph.keys) m.parentOf n id

variable {m} {limit : Nat}

theorem mem_roots {id : String} : id ∈ m.roots ↔ id ∈ m.snapshotGraph.keys ∧ m.parentOf id = none := by
  unfold roots parentOf
  constructor
  · intro h
    obtain ⟨⟨_, node⟩, he, rfl⟩ := List.mem_map.mp h
    obtain ⟨he, hnone⟩ := List.mem_filter.mp he
    have hget := Dict.get?_of_mem_entries he
    refine ⟨Dict.mem_keys_of_get? hget, ?_⟩
    dsimp only at hget ⊢
    rw [hget]
    simpa using hnone
  · rintro ⟨hid, hnone⟩
    obtain ⟨node, hnode⟩ := Dict.mem_keys_iff.mp hid
    rw [hnode] at hnone
    refine List.mem_map.mpr ⟨(id, node), List.mem_filter.mpr ⟨Dict.mem_entries_of_get? hnode, ?_⟩, rfl⟩
    simpa using hnone

theorem nodup_roots (m : Manager) : m.roots.Nodup :=
  (List.filter_sublist.map Prod.fst).nodup m.snapshotGraph.nodup_keys

theorem treeEntries_of_fits (hl : m.GraphLinked) {id : String} (hid : id ∈ m.snapshotGraph.keys)
    (hfits : Forest.Fits m.childrenOf limit id) (depth : Nat) :
    m.treeEntries limit id depth = .ok (Forest.preorder m.childrenOf limit id depth) := by
  induction limit generalizing id depth with
  | zero => exact absurd hfits not_false
  | succ limit ih =>
    obtain ⟨node, hnode⟩ := Dict.mem_keys_iff.mp hid
    have hchildren : m.childrenOf id = node.children := by
      unfold childrenOf
      rw [hnode]
      rfl
    have hloop : (node.children.mapM fun child => m.treeEntries limit child (depth + 1)) =
        .ok (node.children.map fun child => Forest.preorder m.childrenOf limit child (depth + 1)) := by
      refine mapM_eq_ok fun child hchild => ?_
      rw [← hchildren] at hchild
      exact ih ((hl.mem_children id child hid).mp hchild).1 (hfits child hchild) (depth + 1)
    unfold treeEntries Forest.preorder
    rw [hnode, hchildren]
    dsimp only
    rw [hloop]
    rfl

theorem fits_of_treeEntries {id : String} {depth : Nat} {entries : List (String × Nat)}
    (h : m.treeEntries limit id depth = .ok entries) : Forest.Fits m.childrenOf limit id := by
  induction limit generalizing id depth entries with
  | zero => cases h
  | succ limit ih =>
    unfold treeEntries at h
    intro child hchild
    unfold childrenOf at hchild
    cases hnode : m.snapshotGraph.get? id with
    | none =>
      rw [hnode] at h
      cases h
    | some node =>
      rw [hnode] at h hchild
      dsimp only at h
      cases hloop : node.children.mapM fun child => m.treeEntries limit child (depth + 1) with
      | error e =>
        rw [hloop] at h
        cases h
      | ok below =>
        obtain ⟨entries', hentries'⟩ := ok_of_mapM hloop child hchild
        exact ih hentries'

theorem printedEntries_eq_ok (hl : m.GraphLinked) {entries : List (String × Nat)} :
    m.printedEntries limit = .ok entries ↔
      (∀ root ∈ m.roots, Forest.Fits m.childrenOf limit root) ∧
        entries = Forest.preorderAll m.childrenOf limit m.roots := by
  have hfit (hfits : ∀ root ∈ m.roots, Forest.Fits m.childrenOf limit root) :
      m.printedEntries limit = .ok (Forest.preorderAll m.childrenOf limit m.roots) := by
    have hloop : (m.roots.mapM fun root => m.treeEntries limit root 0) =
        .ok (m.roots.map fun root => Forest.preorder m.childrenOf limit root 0) :=
      mapM_eq_ok fun root hroot => treeEntries_of_fits hl (mem_roots.mp hroot).1 (hfits root hroot) 0
    unfold printedEntries
    rw [hloop]
    rfl
  constructor
  · intro h
    have hfits (root : String) (hroot : root ∈ m.roots) : Forest.Fits m.childrenOf limit root := by
      unfold printedEntries at h
      cases hloop : m.roots.mapM fun root => m.treeEntries limit root 0 with
      | error e =>
        rw [hloop] at h
        cases h
      | ok below =>
        obtain ⟨entries', hentries'⟩ := ok_of_mapM hloop root hroot
        exact fits_of_treeEntries hentries'
    refine ⟨hfits, ?_⟩
    rw [hfit hfits] at h
    exact (Except.ok.inj h).symm
  · rintro ⟨hfits, rfl⟩
    exact hfit hfits

/-! ### Completeness -/

/-- What a complete tree shows. -/
structure Complete (m : Manager) (entries : List (String × Nat)) : Prop where
  /-- Every snapshot has one line. -/
  once : (entries.map Prod.fst).Perm m.snapshotGraph.keys
  /-- Every line stands under the line of its parent. -/
  nested : Forest.Nested m.parentOf entries
  /-- The line of a snapshot names the branches that stand on it. -/
  marked : ∀ b r id, m.branches.get? b = some r → (m.record r).currentSnapshotId = some id →
    id ∈ m.snapshotGraph.keys →
    ∃ names rest, m.markers id = " (current: " ++ ", ".intercalate names ++ rest ∧ b ∈ names

/-- `print_snapshot_tree` returns a complete tree. -/
def PrintsCompletely (m : Manager) (limit : Nat) : Prop :=
  ∃ entries, m.printSnapshotTree limit = .ok ("\n".intercalate ("Snapshot Tree:" :: entries.map m.line) ++ "\n") ∧
    m.printedEntries limit = .ok entries ∧ m.Complete entries

theorem markers_of_current {b : String} {r : Ref} {id : String} (hr : m.branches.get? b = some r)
    (hcurrent : (m.record r).currentSnapshotId = some id) (hid : id ≠ "") :
    ∃ names rest, m.markers id = " (current: " ++ ", ".intercalate names ++ rest ∧ b ∈ names := by
  have hmem : b ∈ m.branchesWhere fun r => r.currentSnapshotId = some id := by
    unfold branchesWhere
    rw [List.mem_mergeSort]
    exact List.mem_map.mpr ⟨(b, r), List.mem_filter.mpr ⟨Dict.mem_entries_of_get? hr, by simpa using hcurrent⟩, rfl⟩
  have hne : (m.branchesWhere fun r => r.currentSnapshotId = some id) ≠ [] := List.ne_nil_of_mem hmem
  have hopens (rest : String) : " (" ++ ("current: " ++ rest) = " (current: " ++ rest := by
    rw [← String.append_assoc]
    rfl
  unfold markers
  dsimp only
  rw [if_neg hne]
  set names := m.branchesWhere fun r => r.currentSnapshotId = some id
  split_ifs with hempty h h
  · exact absurd h (by simp [hid])
  · refine ⟨names, ")", ?_, hmem⟩
    rw [← hopens]
    rfl
  · exact absurd h (by simp [hid])
  · refine ⟨names, "; " ++ ("last: " ++ ", ".intercalate (m.branchesWhere fun r =>
      r.lastSnapshotId = some id ∧ r.lastSnapshotId ≠ r.currentSnapshotId)) ++ ")", ?_, hmem⟩
    set lasts := ", ".intercalate (m.branchesWhere fun r =>
      r.lastSnapshotId = some id ∧ r.lastSnapshotId ≠ r.currentSnapshotId)
    rw [← hopens]
    show " (" ++ ("current: " ++ ", ".intercalate names ++ "; " ++ ("last: " ++ lasts)) ++ ")" = _
    simp only [String.append_assoc]

/-- The tree is complete if and only if every snapshot is rooted within the limit. -/
theorem printsCompletely_iff (hl : m.GraphLinked) (hne : m.snapshotGraph.keys ≠ []) (hnamed : "" ∉ m.snapshotGraph.keys) :
    m.PrintsCompletely limit ↔ ∀ id ∈ m.snapshotGraph.keys, ∃ n < limit, m.RootedAt n id := by
  have hroots : ∀ r, r ∈ m.roots ↔ r ∈ m.snapshotGraph.keys ∧ m.parentOf r = none := fun r => mem_roots
  constructor
  · rintro ⟨entries, -, hentries, hcomplete⟩ id hid
    obtain ⟨-, rfl⟩ := (printedEntries_eq_ok hl).mp hentries
    obtain ⟨⟨_, n⟩, hline, rfl⟩ := List.mem_map.mp (hcomplete.once.mem_iff.mpr hid)
    obtain ⟨hrooted, hn⟩ := Forest.rooted_of_mem_preorderAll hl hroots hline
    exact ⟨n, hn, hrooted⟩
  · intro hrooted
    have hfits (root : String) (hroot : root ∈ m.roots) : Forest.Fits m.childrenOf limit root := by
      refine Forest.fits_of_rooted hl (Forest.rooted_of_mem_roots hroots hroot) fun x n hx => ?_
      obtain ⟨n', hn', hx'⟩ := hrooted x hx.node
      rw [Nat.zero_add, hx.unique hx']
      exact hn'
    have hentries : m.printedEntries limit = .ok (Forest.preorderAll m.childrenOf limit m.roots) :=
      (printedEntries_eq_ok hl).mpr ⟨hfits, rfl⟩
    have hsome : m.roots ≠ [] := by
      obtain ⟨id, hid⟩ := List.exists_mem_of_ne_nil _ hne
      obtain ⟨n, -, hx⟩ := hrooted id hid
      clear hid
      induction hx with
      | root node noParent => exact List.ne_nil_of_mem (mem_roots.mpr ⟨node, noParent⟩)
      | child _ _ _ ih => exact ih
    refine ⟨_, ?_, hentries, ?_⟩
    · rw [printSnapshotTree_eq, if_neg hsome, hentries]
      rfl
    · constructor
      case once =>
        refine (List.perm_ext_iff_of_nodup (Forest.nodup_preorderAll hl hroots (nodup_roots m) limit)
          m.snapshotGraph.nodup_keys).mpr fun id => ⟨fun hmem => ?_, fun hid => ?_⟩
        · obtain ⟨⟨_, n⟩, hline, rfl⟩ := List.mem_map.mp hmem
          exact (Forest.rooted_of_mem_preorderAll hl hroots hline).1.node
        · obtain ⟨n, -, hx⟩ := hrooted id hid
          exact List.mem_map.mpr ⟨(id, n), Forest.mem_preorderAll hl hroots hfits hx, rfl⟩
      case nested => exact Forest.nested_preorderAll hl hroots limit
      case marked =>
        intro b r id hr hcurrent hid
        exact markers_of_current hr hcurrent fun he => hnamed (he ▸ hid)

end Manager

end StateFork
