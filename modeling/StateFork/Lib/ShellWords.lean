import Mathlib.Data.List.Basic

/-!
# Tokens of a shell

The token recognition of a POSIX shell, with its quoting rules: a backslash quotes one character, single quotes all
characters up to the next single quote, and double quotes all but a few. A text with a quotation that is not closed has
no tokens, and neither has one with an expansion outside of single quotes, whose result the quoting rules do not tell.
Operators of several characters are left in pieces.

Quoting never makes a word longer than its text (`size_feed`), and a quote that is removed makes it shorter. Texts that
each spell one word, and that stand apart, are read as these words (`tokens_intercalate`).
-/

namespace Shell

inductive Token where
  | word (text : List Char)
  | operator (c : Char)
  deriving DecidableEq

/-- What has been read: the word so far, if one has begun, and how the next character is quoted. -/
inductive Lexer where
  | plain (word : Option (List Char))
  | escape (word : Option (List Char))
  | single (word : List Char)
  | double (word : List Char)
  | doubleEscape (word : List Char)
  | comment
  deriving DecidableEq

def isBlank (c : Char) : Bool := c = ' ' || c = '\t'

def isOperator (c : Char) : Bool := ['&', ';', '|', '<', '>', '(', ')', '\n'].contains c

def expands (c : Char) : Bool := c = '$' || c = '`'

def endWord : Option (List Char) → List Token
  | none => []
  | some text => [.word text]

/-- The word so far with one more character. -/
def push (word : Option (List Char)) (c : Char) : Option (List Char) := some (word.getD [] ++ [c])

/-- The tokens that a character completes, and what has been read then. -/
def step : Lexer → Char → Option (List Token × Lexer)
  | .plain word, c =>
    if isBlank c then some (endWord word, .plain none)
    else if isOperator c then some (endWord word ++ [.operator c], .plain none)
    else if expands c then none
    else if c = '\\' then some ([], .escape word)
    else if c = '\'' then some ([], .single (word.getD []))
    else if c = '"' then some ([], .double (word.getD []))
    else if c = '#' ∧ word = none then some ([], .comment)
    else some ([], .plain (push word c))
  | .escape word, c => some ([], .plain (if c = '\n' then word else push word c))
  | .single word, c => some ([], if c = '\'' then .plain (some word) else .single (word ++ [c]))
  | .double word, c =>
    if expands c then none
    else some ([], if c = '"' then .plain (some word) else if c = '\\' then .doubleEscape word else .double (word ++ [c]))
  | .doubleEscape word, c =>
    some ([], .double (if c = '\n' then word else if ['$', '`', '"', '\\'].contains c then word ++ [c] else word ++ ['\\', c]))
  | .comment, c => if c = '\n' then some ([.operator c], .plain none) else some ([], .comment)

/-- The tokens that the end of the text completes. -/
def finish : Lexer → Option (List Token)
  | .plain word => some (endWord word)
  | .escape word => some (endWord (push word '\\'))
  | .comment => some []
  | _ => none

def feed : Lexer → List Char → Option (List Token × Lexer)
  | st, [] => some ([], st)
  | st, c :: l => (step st c).bind fun p => (feed p.2 l).map fun q => (p.1 ++ q.1, q.2)

/-- The tokens from a state on. -/
def tokensFrom (st : Lexer) (l : List Char) : Option (List Token) :=
  (feed st l).bind fun p => (finish p.2).map (p.1 ++ ·)

def tokens (l : List Char) : Option (List Token) := tokensFrom (.plain none) l

/-! ### Reading on -/

theorem feed_cons_of_step {st st' : Lexer} {c : Char} {done : List Token} (h : step st c = some (done, st'))
    (l : List Char) : feed st (c :: l) = (feed st' l).map fun p => (done ++ p.1, p.2) := by
  rw [feed, h]
  rfl

theorem feed_singleton (st : Lexer) (c : Char) : feed st [c] = step st c := by
  rw [feed]
  rcases step st c with _ | ⟨done, st'⟩
  · rfl
  · simp [feed]

theorem tokensFrom_nil (st : Lexer) : tokensFrom st [] = finish st := by
  cases h : finish st <;> simp [tokensFrom, feed, h]

theorem feed_append (st : Lexer) (l l' : List Char) :
    feed st (l ++ l') = (feed st l).bind fun p => (feed p.2 l').map fun q => (p.1 ++ q.1, q.2) := by
  induction l generalizing st with
  | nil =>
    simp [feed]
  | cons c l ih =>
    rw [List.cons_append]
    rcases hstep : step st c with _ | ⟨done, st'⟩
    · simp [feed, hstep]
    · rw [feed_cons_of_step hstep, feed_cons_of_step hstep, ih]
      cases feed st' l <;> simp [Function.comp_def, List.append_assoc]

theorem tokensFrom_of_feed {st st' : Lexer} {l : List Char} {done : List Token} (h : feed st l = some (done, st'))
    (l' : List Char) : tokensFrom st (l ++ l') = (tokensFrom st' l').map (done ++ ·) := by
  unfold tokensFrom
  rw [feed_append, h, Option.bind_some]
  rcases feed st' l' with _ | ⟨later, st''⟩
  · rfl
  · cases hlast : finish st'' <;> simp [hlast, List.append_assoc]

theorem exists_of_tokensFrom {st : Lexer} {l l' : List Char} {all : List Token}
    (h : tokensFrom st (l ++ l') = some all) :
    ∃ done st' later, feed st l = some (done, st') ∧ tokensFrom st' l' = some later ∧ all = done ++ later := by
  rcases hfeed : feed st l with _ | ⟨done, st'⟩
  · rw [tokensFrom, feed_append, hfeed] at h
    cases h
  · rw [tokensFrom_of_feed hfeed] at h
    obtain ⟨later, hlater, heq⟩ := Option.map_eq_some_iff.mp h
    exact ⟨done, st', later, rfl, hlater, heq.symm⟩

/-- Single quotes suspend all interpretation until the next single quote. -/
theorem feed_single {l : List Char} (h : '\'' ∉ l) (word : List Char) :
    feed (.single word) (l ++ ['\'']) = some ([], .plain (some (word ++ l))) := by
  induction l generalizing word with
  | nil => simp [feed, step]
  | cons c l ih =>
    have hc : '\'' ≠ c := List.ne_of_not_mem_cons h
    have hl : '\'' ∉ l := List.not_mem_of_not_mem_cons h
    have hstep : step (.single word) c = some ([], .single (word ++ [c])) := by simp [step, Ne.symm hc]
    rw [List.cons_append, feed_cons_of_step hstep, ih hl]
    simp

/-! ### Texts that spell one word -/

/-- In front of anything but a word, the text is read as one word with these characters. -/
def Spells (shown word : List Char) : Prop := feed (.plain none) shown = some ([], .plain (some word))

/-- The characters that do not stand for themselves everywhere. -/
def specials : List Char :=
  [' ', '\t', '&', ';', '|', '<', '>', '(', ')', '\n', '$', '`', '\\', '\'', '"', '#']

theorem step_of_not_mem_specials {c : Char} (h : c ∉ specials) (word : Option (List Char)) :
    step (.plain word) c = some ([], .plain (push word c)) := by
  simp only [specials, List.mem_cons, List.not_mem_nil, or_false, not_or] at h
  simp [step, isBlank, isOperator, expands, h]

theorem feed_of_bare {l : List Char} (h : ∀ c ∈ l, c ∉ specials) (word : List Char) :
    feed (.plain (some word)) l = some ([], .plain (some (word ++ l))) := by
  induction l generalizing word with
  | nil => simp [feed]
  | cons c l ih =>
    have hstep := step_of_not_mem_specials (h c List.mem_cons_self) (some word)
    rw [feed_cons_of_step hstep]
    show (feed (.plain (some (word ++ [c]))) l).map _ = _
    rw [ih fun c hc => h c (List.mem_cons_of_mem _ hc)]
    simp

theorem spells_of_bare {l : List Char} (hne : l ≠ []) (h : ∀ c ∈ l, c ∉ specials) : Spells l l := by
  obtain ⟨c, l, rfl⟩ := List.exists_cons_of_ne_nil hne
  have hstep := step_of_not_mem_specials (h c List.mem_cons_self) none
  unfold Spells
  rw [feed_cons_of_step hstep]
  show (feed (.plain (some [c])) l).map _ = _
  rw [feed_of_bare fun c hc => h c (List.mem_cons_of_mem _ hc)]
  rfl

/-- A character between single quotes. A single quote closes them, stands between double quotes and opens them again. -/
def quoteChar (c : Char) : List Char := if c = '\'' then ['\'', '"', '\'', '"', '\''] else [c]

def quote (l : List Char) : List Char := '\'' :: l.flatMap quoteChar ++ ['\'']

theorem feed_quoteChar (c : Char) (word : List Char) :
    feed (.single word) (quoteChar c) = some ([], .single (word ++ [c])) := by
  unfold quoteChar
  split_ifs with hc
  · subst hc
    simp [feed, step, isBlank, isOperator, expands]
  · simp [feed, step, hc]

theorem feed_flatMap_quoteChar (l word : List Char) :
    feed (.single word) (l.flatMap quoteChar) = some ([], .single (word ++ l)) := by
  induction l generalizing word with
  | nil => simp [feed]
  | cons c l ih =>
    rw [List.flatMap_cons, feed_append, feed_quoteChar, Option.bind_some]
    show (feed (.single (word ++ [c])) (l.flatMap quoteChar)).map _ = _
    rw [ih]
    simp

theorem spells_quote (l : List Char) : Spells (quote l) l := by
  have hopen : step (.plain none) '\'' = some ([], .single []) := by simp [step, isBlank, isOperator, expands]
  have hclose : step (.single l) '\'' = some ([], .plain (some l)) := rfl
  unfold Spells quote
  rw [List.cons_append, feed_cons_of_step hopen, feed_append, feed_flatMap_quoteChar, Option.bind_some,
    List.nil_append, feed_singleton, hclose]
  rfl

/-- Words that are spelled one by one, with blanks between them, are read back. -/
theorem tokens_intercalate {shown words : List (List Char)} (h : List.Forall₂ Spells shown words) :
    tokens ([' '].intercalate shown) = some (words.map .word) := by
  have hlast {text word : List Char} (hspells : Spells text word) : tokens text = some [.word word] := by
    have hread := tokensFrom_of_feed hspells []
    rw [List.append_nil, tokensFrom_nil] at hread
    exact hread
  induction h with
  | nil => rfl
  | @cons text word shown words hspells h ih =>
    cases h with
    | nil =>
      rw [List.intercalate_singleton]
      exact hlast hspells
    | @cons text' word' shown words hspells' h =>
      have hblank : feed (.plain (some word)) [' '] = some ([.word word], .plain none) := rfl
      rw [List.intercalate_cons_cons, List.append_assoc, tokens, tokensFrom_of_feed hspells, tokensFrom_of_feed hblank]
      show ((tokens ([' '].intercalate (text' :: shown))).map _).map _ = _
      rw [ih]
      rfl

/-! ### Sizes -/

def Token.size : Token → Nat
  | word text => text.length
  | operator _ => 1

def size : List Token → Nat
  | [] => 0
  | token :: l => token.size + size l

def Lexer.size : Lexer → Nat
  | plain word => (word.getD []).length
  | escape word => (word.getD []).length + 1
  | single word => word.length
  | double word => word.length
  | doubleEscape word => word.length + 1
  | comment => 0

@[simp] theorem size_nil : size [] = 0 := rfl

@[simp] theorem size_operator (c : Char) : size [.operator c] = 1 := rfl

@[simp] theorem size_append (l l' : List Token) : size (l ++ l') = size l + size l' := by
  induction l with
  | nil => simp
  | cons token l ih => rw [List.cons_append, size, size, ih, Nat.add_assoc]

@[simp] theorem size_endWord (word : Option (List Char)) : size (endWord word) = (word.getD []).length := by
  cases word <;> rfl

@[simp] theorem length_push (word : Option (List Char)) (c : Char) :
    ((push word c).getD []).length = (word.getD []).length + 1 := by simp [push]

theorem size_step {st st' : Lexer} {c : Char} {done : List Token} (h : step st c = some (done, st')) :
    size done + st'.size ≤ st.size + 1 := by
  cases st with
  | plain word =>
    dsimp only [step] at h
    split_ifs at h <;> cases h <;> simp [Lexer.size]
  | escape word =>
    dsimp only [step] at h
    cases h
    dsimp only [Lexer.size]
    split_ifs
    · rw [size_nil]
      omega
    · simp
  | single word =>
    dsimp only [step] at h
    split_ifs at h <;> cases h <;> simp [Lexer.size]
  | double word =>
    dsimp only [step] at h
    split_ifs at h <;> cases h <;> simp [Lexer.size]
  | doubleEscape word =>
    dsimp only [step] at h
    cases h
    dsimp only [Lexer.size]
    split_ifs
    · rw [size_nil]
      omega
    · simp
    · simp
  | comment =>
    dsimp only [step] at h
    split_ifs at h <;> cases h <;> simp [Lexer.size]

theorem size_feed {st st' : Lexer} {l : List Char} {done : List Token} (h : feed st l = some (done, st')) :
    size done + st'.size ≤ st.size + l.length := by
  induction l generalizing st done with
  | nil =>
    cases h
    simp
  | cons c l ih =>
    obtain ⟨⟨first, st₁⟩, hstep, hrest⟩ := Option.bind_eq_some_iff.mp h
    obtain ⟨⟨later, st₂⟩, hfeed, heq⟩ := Option.map_eq_some_iff.mp hrest
    cases heq
    have hfirst := size_step hstep
    have hlater := ih hfeed
    dsimp only at hlater ⊢
    rw [size_append, List.length_cons]
    omega

/-! ### Quotes that are removed -/

theorem step_ne_escape {st st' : Lexer} {c : Char} {done : List Token} (hc : c ≠ '\\')
    (h : step st c = some (done, st')) (word : Option (List Char)) : st' ≠ .escape word := by
  rintro rfl
  cases st with
  | plain w =>
    dsimp only [step] at h
    split_ifs at h <;> simp_all
  | _ =>
    dsimp only [step] at h
    split_ifs at h <;> cases h

/-- A single quote at the end of a text that is not escaped is removed. -/
theorem size_closing {st st' : Lexer} {done last : List Token} (hst : ∀ word, st ≠ .escape word)
    (h : step st '\'' = some (done, st')) (hlast : finish st' = some last) : size done + size last ≤ st.size := by
  cases st with
  | plain word =>
    cases h
    cases hlast
  | escape word => exact absurd rfl (hst word)
  | single word =>
    cases h
    cases hlast
    simp [Lexer.size]
  | double word =>
    cases h
    cases hlast
  | doubleEscape word =>
    cases h
    cases hlast
  | comment =>
    cases h
    cases hlast
    simp [Lexer.size]

/-- If a single quote stands inside a text between single quotes, then the tokens are shorter than the text: it is
removed, and so is the last one. -/
theorem size_lt_of_quote {word l : List Char} {a : Char} {all : List Token} (hmem : '\'' ∈ l) (ha : a ≠ '\\')
    (h : tokensFrom (.single word) (l ++ [a] ++ ['\'']) = some all) : size all < word.length + (l ++ [a]).length := by
  obtain ⟨p, q, rfl, hp⟩ := List.eq_append_cons_of_mem hmem
  have htext : p ++ '\'' :: q ++ [a] ++ ['\''] = (p ++ ['\'']) ++ (q ++ ([a] ++ ['\''])) := by simp
  rw [htext, tokensFrom_of_feed (feed_single hp word)] at h
  obtain ⟨rest, hrest, rfl⟩ := Option.map_eq_some_iff.mp h
  obtain ⟨done, st, later, hfeed, hlater, rfl⟩ := exists_of_tokensFrom hrest
  obtain ⟨done', st', later', hfeed', hlater', rfl⟩ := exists_of_tokensFrom hlater
  rw [← List.append_nil ['\'']] at hlater'
  obtain ⟨last, st'', final, hlast, hfinal, rfl⟩ := exists_of_tokensFrom hlater'
  rw [feed_singleton] at hfeed' hlast
  rw [tokensFrom_nil] at hfinal
  have hq := size_feed hfeed
  have ha' := size_step hfeed'
  have hclosing := size_closing (step_ne_escape ha hfeed') hlast hfinal
  simp only [List.nil_append, size_append, List.length_append, List.length_cons, List.length_nil, Lexer.size,
    Option.getD_some] at hq ha' hclosing ⊢
  omega

end Shell
