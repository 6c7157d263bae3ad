import Mathlib.Data.List.TakeWhile
import Mathlib.Data.List.DropRight

/-!
# Lines and words

`strip`, `splitlines`, `split` and `partition` of Python strings, on lists of characters. A line or a word is what lies
between two separators, so that a text has one exactly if it has a character that is not white space.
-/

namespace Text

/-- `str.isspace` -/
def isSpace (c : Char) : Bool :=
  let n := c.toNat
  (9 ≤ n && n ≤ 13) || (28 ≤ n && n ≤ 32) || n = 0x85 || n = 0xa0 || n = 0x1680 || (0x2000 ≤ n && n ≤ 0x200a) ||
    n = 0x2028 || n = 0x2029 || n = 0x202f || n = 0x205f || n = 0x3000

/-- The characters that end a line. -/
def isLineBreak (c : Char) : Bool :=
  let n := c.toNat
  (10 ≤ n && n ≤ 13) || (28 ≤ n && n ≤ 30) || n = 0x85 || n = 0x2028 || n = 0x2029

/-- `str.lstrip` -/
def lstrip (l : List Char) : List Char := l.dropWhile isSpace

/-- `str.rstrip` -/
def rstrip (l : List Char) : List Char := l.rdropWhile isSpace

/-- `str.strip` -/
def strip (l : List Char) : List Char := ((l.dropWhile isSpace).reverse.dropWhile isSpace).reverse

/-- `str.split` -/
def words (l : List Char) : List (List Char) := (l.splitOnP isSpace).filter (· ≠ [])

/-- The lines with a character that is not white space; a carriage return before a line feed leaves an empty line,
which is not one. -/
def lines (l : List Char) : List (List Char) := (l.splitOnP isLineBreak).filter fun line => !line.all isSpace

/-- `str.partition`: what stands before and behind the first separator, if there is one. -/
def partition (sep : Char) : List Char → Option (List Char × List Char)
  | [] => none
  | c :: l => if c = sep then some ([], l) else (partition sep l).map fun p => (c :: p.1, p.2)

/-- `str.rpartition`: what stands before and behind the last separator, if there is one. -/
def rpartition (sep : Char) (l : List Char) : Option (List Char × List Char) :=
  (partition sep l.reverse).map fun p => (p.2.reverse, p.1.reverse)

/-- A character that ends a line of a text file. -/
def isNewline (c : Char) : Bool := c = '\n' || c = '\r'

/-- The lines of a text file. The two characters of a Windows line end count as one more line, an empty one. -/
def fileLines (l : List Char) : List (List Char) := l.splitOnP isNewline

/-- A text without a line end. -/
def OneLine (l : List Char) : Prop := ∀ c ∈ l, isNewline c = false

instance (l : List Char) : Decidable (OneLine l) := List.decidableBAll (fun c => isNewline c = false) l

/-- A text of white space. -/
def Blank (l : List Char) : Prop := ∀ c ∈ l, isSpace c = true

instance (l : List Char) : Decidable (Blank l) := List.decidableBAll (fun c => isSpace c = true) l

theorem nonspace_of_all {l : List Char} (h : l.all (fun c => !isSpace c) = true) : ∀ c ∈ l, isSpace c = false :=
  fun c hc => Bool.not_eq_true' _ ▸ List.all_eq_true.mp h c hc

theorem isSpace_of_isLineBreak {c : Char} (h : isLineBreak c = true) : isSpace c = true := by
  simp only [isLineBreak, isSpace, Bool.or_eq_true, Bool.and_eq_true, decide_eq_true_eq] at h ⊢
  omega

/-- Splitting a list loses the separators only. -/
theorem mem_splitOnP {α : Type} {p : α → Bool} {x : α} (hx : p x = false) (l : List α) :
    (∃ piece ∈ l.splitOnP p, x ∈ piece) ↔ x ∈ l := by
  induction l with
  | nil => simp
  | cons y l ih =>
    rw [List.splitOnP_cons_eq_if_modifyHead]
    by_cases hy : p y = true
    · have hne : x ≠ y := fun he => by rw [he, hy] at hx; cases hx
      rw [if_pos hy]
      simp only [List.mem_cons, exists_eq_or_imp, List.not_mem_nil, false_or, ih, hne]
    · rw [if_neg hy]
      obtain ⟨head, rest, hsplit⟩ := List.exists_cons_of_ne_nil (List.splitOnP_ne_nil p l)
      rw [hsplit] at ih ⊢
      rw [List.modifyHead_cons]
      simp only [List.mem_cons, exists_eq_or_imp] at ih ⊢
      rw [← ih, or_assoc]

/-- No piece contains a separator. -/
theorem not_of_mem_splitOnP {α : Type} {p : α → Bool} {l piece : List α} (h : piece ∈ l.splitOnP p) {x : α}
    (hx : x ∈ piece) : p x = false := by
  induction l generalizing piece with
  | nil =>
    rw [List.splitOnP_nil, List.mem_singleton] at h
    rw [h] at hx
    exact absurd hx List.not_mem_nil
  | cons y l ih =>
    rw [List.splitOnP_cons_eq_if_modifyHead] at h
    split_ifs at h with hy
    · rcases List.mem_cons.mp h with rfl | h
      · exact absurd hx List.not_mem_nil
      · exact ih h hx
    · obtain ⟨head, rest, hsplit⟩ := List.exists_cons_of_ne_nil (List.splitOnP_ne_nil p l)
      rw [hsplit] at ih
      rw [hsplit, List.modifyHead_cons] at h
      rcases List.mem_cons.mp h with rfl | h
      · rcases List.mem_cons.mp hx with rfl | hx
        · simpa using hy
        · exact ih (List.mem_cons_self ..) hx
      · exact ih (List.mem_cons_of_mem _ h) hx

theorem words_eq_nil_iff {l : List Char} : words l = [] ↔ Blank l := by
  have hwords : words l = [] ↔ ∀ piece ∈ l.splitOnP isSpace, piece = [] := by
    simp [words, List.filter_eq_nil_iff]
  rw [hwords]
  constructor
  · intro h c hc
    by_contra hspace
    obtain ⟨piece, hpiece, hmem⟩ := (mem_splitOnP (by simpa using hspace) l).mpr hc
    rw [h piece hpiece] at hmem
    exact absurd hmem List.not_mem_nil
  · intro h piece hpiece
    refine List.eq_nil_iff_forall_not_mem.mpr fun c hc => ?_
    have hspace := not_of_mem_splitOnP hpiece hc
    rw [h c ((mem_splitOnP hspace l).mp ⟨piece, hpiece, hc⟩)] at hspace
    cases hspace

/-! ### Stripping -/

theorem strip_eq (l : List Char) : strip l = rstrip (lstrip l) := rfl

theorem lstrip_append_cons {c : Char} (hc : isSpace c = false) (a b : List Char) :
    lstrip (a ++ c :: b) = lstrip a ++ c :: b := by
  induction a with
  | nil => simp [lstrip, hc]
  | cons d a ih =>
    unfold lstrip at ih ⊢
    rw [List.cons_append, List.dropWhile_cons, List.dropWhile_cons]
    split_ifs
    · exact ih
    · rfl

theorem rstrip_append_cons {c : Char} (hc : isSpace c = false) (a b : List Char) :
    rstrip (a ++ c :: b) = a ++ c :: rstrip b := by
  have h := lstrip_append_cons hc b.reverse a.reverse
  unfold lstrip at h
  simp [rstrip, List.rdropWhile, h]

theorem strip_append_cons {c : Char} (hc : isSpace c = false) (a b : List Char) :
    strip (a ++ c :: b) = lstrip a ++ c :: rstrip b := by
  rw [strip_eq, lstrip_append_cons hc, rstrip_append_cons hc]

theorem lstrip_of_blank {l : List Char} (h : Blank l) : lstrip l = [] := List.dropWhile_eq_nil_iff.mpr h

theorem rstrip_of_blank {l : List Char} (h : Blank l) : rstrip l = [] := List.rdropWhile_eq_nil_iff.mpr h

/-- A text that is not blank, around one of its characters. -/
theorem blank_or_exists (l : List Char) : Blank l ∨ ∃ a c b, l = a ++ c :: b ∧ isSpace c = false := by
  by_cases h : Blank l
  · exact .inl h
  · unfold Blank at h
    push Not at h
    obtain ⟨c, hc, hspace⟩ := h
    obtain ⟨a, b, rfl⟩ := List.append_of_mem hc
    exact .inr ⟨a, c, b, rfl, by simpa using hspace⟩

@[simp] theorem lstrip_lstrip (l : List Char) : lstrip (lstrip l) = lstrip l := List.dropWhile_idempotent ..

@[simp] theorem rstrip_rstrip (l : List Char) : rstrip (rstrip l) = rstrip l := List.rdropWhile_idempotent ..

@[simp] theorem strip_lstrip (l : List Char) : strip (lstrip l) = strip l := by
  rw [strip_eq, strip_eq, lstrip_lstrip]

@[simp] theorem strip_rstrip (l : List Char) : strip (rstrip l) = strip l := by
  rcases blank_or_exists l with h | ⟨a, c, b, rfl, hc⟩
  · rw [rstrip_of_blank h, strip_eq l, lstrip_of_blank h]
    rfl
  · rw [rstrip_append_cons hc, strip_append_cons hc, strip_append_cons hc, rstrip_rstrip]

@[simp] theorem strip_strip (l : List Char) : strip (strip l) = strip l := by
  rw [strip_eq l, strip_rstrip, strip_lstrip]
  exact strip_eq l

theorem mem_of_mem_strip {c : Char} {l : List Char} (h : c ∈ strip l) : c ∈ l := by
  have hdrop := List.mem_reverse.mp h
  have hreverse := (List.dropWhile_suffix isSpace).subset hdrop
  exact (List.dropWhile_suffix isSpace).subset (List.mem_reverse.mp hreverse)

theorem rstrip_append_of_blank (a : List Char) {b : List Char} (h : Blank b) : rstrip (a ++ b) = rstrip a := by
  induction b using List.reverseRecOn with
  | nil => rw [List.append_nil]
  | append_singleton b c ih =>
    rw [← List.append_assoc, rstrip, List.rdropWhile_concat_pos _ _ _ (h c (List.mem_append_right _ List.mem_cons_self))]
    exact ih fun d hd => h d (List.mem_append_left _ hd)

theorem exists_rstrip_append (l : List Char) : ∃ b, Blank b ∧ l = rstrip l ++ b :=
  ⟨l.rtakeWhile isSpace, fun _ hc => List.mem_rtakeWhile_imp hc, (List.rdropWhile_append_rtakeWhile ..).symm⟩

theorem mem_of_mem_rstrip {c : Char} {l : List Char} (h : c ∈ rstrip l) : c ∈ l :=
  (List.rdropWhile_prefix ..).subset h

/-- A last character that is reached goes with everything before it. -/
theorem lstrip_append_singleton (l : List Char) (c : Char) :
    lstrip (l ++ [c]) = [] ∨ lstrip (l ++ [c]) = lstrip l ++ [c] := by
  rcases blank_or_exists l with h | ⟨a, d, b, rfl, hd⟩
  · rw [lstrip_of_blank h, lstrip, List.dropWhile_append_of_pos h]
    by_cases hc : isSpace c = true
    · exact .inl (by simp [hc])
    · exact .inr (by simp [hc])
  · right
    rw [List.append_assoc, List.cons_append, lstrip_append_cons hd, lstrip_append_cons hd, List.append_assoc,
      List.cons_append]

theorem rstrip_eq_self {l : List Char} (h : ∀ c, l.getLast? = some c → isSpace c = false) : rstrip l = l := by
  refine List.rdropWhile_eq_self_iff.mpr fun hne hspace => ?_
  rw [h _ (List.getLast?_eq_getLast_of_ne_nil hne)] at hspace
  cases hspace

theorem lstrip_cons_of_space {c : Char} (hc : isSpace c = true) (l : List Char) : lstrip (c :: l) = lstrip l :=
  List.dropWhile_cons_of_pos hc

theorem strip_cons_of_space {c : Char} (hc : isSpace c = true) (l : List Char) : strip (c :: l) = strip l := by
  rw [strip_eq, strip_eq, lstrip_cons_of_space hc]

theorem strip_cons {c : Char} (hc : isSpace c = false) (l : List Char) : strip (c :: l) = c :: rstrip l :=
  strip_append_cons hc [] l

theorem strip_of_nonspace {l : List Char} (h : ∀ c ∈ l, isSpace c = false) : strip l = l := by
  cases l with
  | nil => rfl
  | cons c l =>
    rw [strip_cons (h c List.mem_cons_self), rstrip_eq_self]
    intro d hd
    exact h d (List.mem_cons_of_mem _ (List.mem_of_getLast? hd))

/-- The first character behind the white space. -/
theorem head?_strip (l : List Char) : (strip l).head? = (lstrip l).head? := by
  cases hl : lstrip l with
  | nil => rw [strip_eq, hl]; rfl
  | cons c r =>
    have hc : isSpace c = false := by
      have h := List.head?_dropWhile_not isSpace l
      rw [show l.dropWhile isSpace = c :: r from hl] at h
      simpa using h
    rw [strip_eq, hl, ← List.nil_append (c :: r), rstrip_append_cons hc]
    rfl

/-! ### Words and lines of a text that is put together -/

theorem words_append_cons {c : Char} (hc : isSpace c = true) (a b : List Char) :
    words (a ++ c :: b) = words a ++ words b := by
  rw [words, List.splitOnP_append_cons a b hc, List.filter_append]
  rfl

theorem words_cons {c : Char} (hc : isSpace c = true) (l : List Char) : words (c :: l) = words l :=
  words_append_cons hc [] l

theorem words_of_nonspace {l : List Char} (hne : l ≠ []) (h : ∀ c ∈ l, isSpace c = false) : words l = [l] := by
  rw [words, List.splitOnP_eq_singleton h, List.filter_cons_of_pos (by simpa using hne), List.filter_nil]

theorem words_append_of_blank (a : List Char) {b : List Char} (h : Blank b) : words (a ++ b) = words a := by
  cases b with
  | nil => rw [List.append_nil]
  | cons c b =>
    have hblank : words b = [] := words_eq_nil_iff.mpr fun d hd => h d (List.mem_cons_of_mem _ hd)
    rw [words_append_cons (h c List.mem_cons_self), hblank, List.append_nil]

theorem words_rstrip (l : List Char) : words (rstrip l) = words l := by
  obtain ⟨b, hb, hl⟩ := exists_rstrip_append l
  have h := words_append_of_blank (rstrip l) hb
  rw [← hl] at h
  exact h.symm

theorem words_strip (l : List Char) : words (strip l) = words l := by
  rw [strip_eq, words_rstrip]
  induction l with
  | nil => rfl
  | cons c l ih =>
    cases hc : isSpace c with
    | true => rw [lstrip_cons_of_space hc, ih, words_cons hc]
    | false => rw [lstrip, List.dropWhile_cons_of_neg (by simp [hc])]

theorem mem_intercalate {sep : List Char} {l : List (List Char)} {c : Char} (h : c ∈ sep.intercalate l) :
    c ∈ sep ∨ ∃ word ∈ l, c ∈ word := by
  induction l with
  | nil => cases h
  | cons word l ih =>
    cases l with
    | nil =>
      rw [List.intercalate_singleton] at h
      exact .inr ⟨word, List.mem_cons_self, h⟩
    | cons next l =>
      rw [List.intercalate_cons_cons, List.mem_append, List.mem_append] at h
      rcases h with (h | h) | h
      · exact .inr ⟨word, List.mem_cons_self, h⟩
      · exact .inl h
      · exact (ih h).imp_right fun ⟨w, hw, hc⟩ => ⟨w, List.mem_cons_of_mem _ hw, hc⟩

/-- Words that are printed with a space between two of them. -/
theorem words_intercalate {l : List (List Char)} (h : ∀ word ∈ l, ∀ c ∈ word, isSpace c = false) :
    words ([' '].intercalate l) = l.filter (· ≠ []) := by
  have hword {word : List Char} (hword : ∀ c ∈ word, isSpace c = false) : words word = [word].filter (· ≠ []) := by
    rw [words, List.splitOnP_eq_singleton hword]
  induction l with
  | nil => rfl
  | cons word l ih =>
    have hfirst := hword (h word List.mem_cons_self)
    have hrest := ih fun w hw => h w (List.mem_cons_of_mem _ hw)
    cases l with
    | nil => rw [List.intercalate_singleton, hfirst]
    | cons next l =>
      rw [List.intercalate_cons_cons, List.append_assoc, List.singleton_append, words_append_cons rfl, hfirst, hrest,
        ← List.filter_append, List.singleton_append]

theorem lines_append_cons {c : Char} (hc : isLineBreak c = true) (a b : List Char) :
    lines (a ++ c :: b) = lines a ++ lines b := by
  rw [lines, List.splitOnP_append_cons a b hc, List.filter_append]
  rfl

theorem lines_of_no_break {l : List Char} (hblank : ¬ Blank l) (h : ∀ c ∈ l, isLineBreak c = false) :
    lines l = [l] := by
  have hall : (!l.all isSpace) = true := by simpa [Blank] using hblank
  rw [lines, List.splitOnP_eq_singleton h]
  exact List.filter_cons_of_pos hall

/-! ### Cutting at a separator -/

theorem partition_append_cons {sep : Char} {a : List Char} (h : sep ∉ a) (b : List Char) :
    partition sep (a ++ sep :: b) = some (a, b) := by
  induction a with
  | nil => exact if_pos rfl
  | cons c a ih =>
    rw [List.cons_append, partition, if_neg fun hc : c = sep => h (hc ▸ List.mem_cons_self),
      ih fun hmem => h (List.mem_cons_of_mem _ hmem)]
    rfl

theorem eq_of_partition {sep : Char} {l a b : List Char} (h : partition sep l = some (a, b)) :
    l = a ++ sep :: b := by
  induction l generalizing a with
  | nil => cases h
  | cons c l ih =>
    rw [partition] at h
    by_cases hc : c = sep
    · rw [if_pos hc] at h
      cases h
      exact hc ▸ rfl
    · rw [if_neg hc] at h
      obtain ⟨⟨a', b'⟩, hrest, heq⟩ := Option.map_eq_some_iff.mp h
      cases heq
      exact congrArg (c :: ·) (ih hrest)

theorem partition_eq_none_iff {sep : Char} {l : List Char} : partition sep l = none ↔ sep ∉ l := by
  constructor
  · intro h hmem
    obtain ⟨a, b, rfl, ha⟩ := List.eq_append_cons_of_mem hmem
    rw [partition_append_cons ha] at h
    cases h
  · intro h
    cases hcut : partition sep l with
    | none => rfl
    | some p =>
      exact absurd (eq_of_partition hcut ▸ List.mem_append_right _ List.mem_cons_self) h

theorem rpartition_append_cons {sep : Char} {b : List Char} (h : sep ∉ b) (a : List Char) :
    rpartition sep (a ++ sep :: b) = some (a, b) := by
  have hreverse : sep ∉ b.reverse := fun hmem => h (List.mem_reverse.mp hmem)
  have hcut := partition_append_cons hreverse a.reverse
  simp [rpartition, hcut]

/-! ### Lines of a file -/

@[simp] theorem oneLine_nil : OneLine [] := fun _ h => by cases h

@[simp] theorem oneLine_cons {c : Char} {l : List Char} : OneLine (c :: l) ↔ isNewline c = false ∧ OneLine l :=
  List.forall_mem_cons

@[simp] theorem oneLine_append {a b : List Char} : OneLine (a ++ b) ↔ OneLine a ∧ OneLine b := List.forall_mem_append

theorem isNewline_of_isSpace {c : Char} (h : isSpace c = false) : isNewline c = false := by
  by_contra hnewline
  simp only [isNewline, Bool.not_eq_false, Bool.or_eq_true, decide_eq_true_eq] at hnewline
  rcases hnewline with rfl | rfl
  · cases h
  · cases h

theorem fileLines_append {line : List Char} (h : OneLine line) (rest : List Char) :
    fileLines (line ++ '\n' :: rest) = line :: fileLines rest :=
  List.splitOnP_append_cons_of_forall_mem h '\n' rfl rest

/-- Lines that each end with a newline are the lines of the file. -/
theorem fileLines_flatMap {l : List (List Char)} (h : ∀ line ∈ l, OneLine line) :
    fileLines (l.flatMap (· ++ ['\n'])) = l ++ [[]] := by
  induction l with
  | nil => rfl
  | cons line l ih =>
    rw [List.flatMap_cons, List.append_assoc, List.singleton_append, fileLines_append (h line List.mem_cons_self),
      ih fun line' hline' => h line' (List.mem_cons_of_mem _ hline'), List.cons_append]

theorem oneLine_of_mem_fileLines {l line : List Char} (h : line ∈ fileLines l) : OneLine line :=
  fun _ hc => not_of_mem_splitOnP h hc

end Text
