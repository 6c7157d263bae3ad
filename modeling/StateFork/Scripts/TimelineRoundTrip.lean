import StateFork.Scripts.Timeline

/-!
# Reading a timeline back

The parser keys the steps by section, and a section that is logged again starts with no steps. So it recovers what was
logged exactly if no section comes back after it got steps, in its own run or in a later one, and if the color labels
are such that the line format keeps them (`recovers_iff`).
-/

namespace StateFork.Timeline

open TimelineManager

/-! ### What was logged -/

/-- What the calls of all runs have logged: the colors, the sections, the section at hand, and the steps under the key of
each section. -/
structure Logged where
  colors : List (List Char × List Char) := []
  sections : List (List Char) := []
  currentSection : Option (List Char) := none
  steps : List Char → List Step := fun _ => []

/-- A step as it should be read back. -/
def stepOf (stepName : List Char) (sec : ℚ) (optype : OpType) : Step :=
  ⟨Text.strip stepName, Text.roundTo 3 (sec * 1000), optype.value⟩

def Logged.call (l : Logged) : Call → Logged
  | .logColor colorId colorName => { l with colors := l.colors ++ [(colorId, colorName)] }
  | .logSection sectionName compressed =>
    { l with
      sections := l.sections ++ [sectionKey sectionName compressed]
      currentSection := some (sectionKey sectionName compressed) }
  | .logStep stepName sec optype =>
    match l.currentSection with
    | none => l
    | some key => { l with steps := Function.update l.steps key (l.steps key ++ [stepOf stepName sec optype]) }
  | .flush => l

def logged (calls : List Call) : Logged := calls.foldl Logged.call {}

def calls (sessions : List Session) : List Call := sessions.flatMap (·.calls)

/-- The calls that benchmarks make: no color key has a colon, the names have no line break, no step is taken for a
comment or a color, and every step comes after some section of its run. -/
structure Session.Valid (s : Session) : Prop where
  colors : ∀ colorId colorName, .logColor colorId colorName ∈ s.calls → ':' ∉ colorId
  sections : ∀ sectionName compressed, .logSection sectionName compressed ∈ s.calls →
    Text.OneLine sectionName
  steps : ∀ stepName sec optype, .logStep stepName sec optype ∈ s.calls →
    Text.OneLine stepName ∧ (Text.strip stepName).head? ≠ some '#' ∧ (Text.strip stepName).head? ≠ some '>'
  placed : ∀ before stepName sec optype after, s.calls = before ++ .logStep stepName sec optype :: after →
    ∃ sectionName compressed, .logSection sectionName compressed ∈ before

/-- The parser returns every color label and, for every section that was logged, all its steps in order. -/
def Recovers (sessions : List Session) : Prop :=
  ∃ sections colorLabels, parseTimelineFile (written sessions) = .ok (sections, colorLabels) ∧
    (∀ colorId colorName, (colorId, colorName) ∈ (logged (calls sessions)).colors →
      colorLabels.get? colorId = some colorName) ∧
    (∀ key ∈ (logged (calls sessions)).sections, sections.get? key = some ((logged (calls sessions)).steps key)) ∧
    ∀ key ∈ sections.keys, key ∈ (logged (calls sessions)).sections

/-- A text on one line that has no white space around it. -/
def Plain (l : List Char) : Prop := Text.strip l = l ∧ Text.OneLine l

instance (l : List Char) : Decidable (Plain l) := inferInstanceAs (Decidable (_ ∧ _))

/-- A section call finds no steps under its key. -/
def Fresh : Call → Logged → Prop
  | .logSection sectionName compressed, l => l.steps (sectionKey sectionName compressed) = []
  | _, _ => True

/-- What the line format keeps. -/
structure Faithful (calls : List Call) : Prop where
  plain : ∀ colorId colorName, .logColor colorId colorName ∈ calls → Plain colorId ∧ Plain colorName
  agree : ∀ colorId colorName colorName', .logColor colorId colorName ∈ calls → .logColor colorId colorName' ∈ calls →
    colorName = colorName'
  fresh : ∀ before sectionName compressed after, calls = before ++ .logSection sectionName compressed :: after →
    (logged before).steps (sectionKey sectionName compressed) = []

/-! ### The file -/

/-- The comments with which a manager starts. -/
def Session.header (s : Session) : List (List Char) :=
  ["# Timeline Data for RunID ".toList ++ Text.decimal (Text.truncate s.time),
    "# Created at UTC ".toList ++ s.gmtime.strftime, "# Duration unit is milliseconds(ms)".toList]

/-- The line of a call. -/
def Call.lines : Call → List (List Char)
  | .logColor colorId colorName => ['>' :: colorId ++ ": ".toList ++ colorName]
  | .logSection sectionName compressed => ['[' :: sectionKey sectionName compressed ++ [']']]
  | .logStep stepName sec optype =>
    [stepName ++ ", ".toList ++ Text.fixed 3 (sec * 1000) ++ ", ".toList ++ optype.value]
  | .flush => []

def Session.lines (s : Session) : List (List Char) := s.header ++ s.calls.flatMap Call.lines

/-- Lines, each ended by a newline. -/
def ended (lines : List (List Char)) : List Char := lines.flatMap (· ++ ['\n'])

theorem ended_append (l l' : List (List Char)) : ended (l ++ l') = ended l ++ ended l' := List.flatMap_append

theorem intercalate_eq_ended {l : List (List Char)} (hne : l ≠ []) : ['\n'].intercalate l ++ ['\n'] = ended l := by
  induction l with
  | nil => exact absurd rfl hne
  | cons line l ih =>
    cases l with
    | nil => simp [ended]
    | cons next l =>
      rw [List.intercalate_cons_cons, List.append_assoc, ih (List.cons_ne_nil _ _)]
      rfl

/-- What the file will hold once the cache is flushed. -/
def contents (tm : TimelineManager) : List Char := tm.file ++ ended tm.writeCache

theorem contents_flush (tm : TimelineManager) : contents tm.flush = contents tm := by
  unfold contents flush
  split_ifs with h
  · rfl
  · rw [intercalate_eq_ended h]
    exact List.append_nil _

theorem file_flush (tm : TimelineManager) : tm.flush.file = contents tm := by
  unfold contents flush
  split_ifs with h
  · rw [h]
    exact (List.append_nil _).symm
  · rw [intercalate_eq_ended h]

theorem contents_call (tm : TimelineManager) (c : Call) : contents (tm.call c) = contents tm ++ ended c.lines := by
  have hcache (content : List Char) : contents (tm.cache content) = contents tm ++ ended [content] := by
    rw [contents, contents, List.append_assoc, ← ended_append]
    rfl
  cases c with
  | logColor colorId colorName => exact hcache _
  | logSection sectionName compressed => exact hcache _
  | logStep stepName sec optype => exact hcache _
  | flush => rw [TimelineManager.call, contents_flush]; exact (List.append_nil _).symm

theorem contents_calls (tm : TimelineManager) (calls : List Call) :
    contents (calls.foldl TimelineManager.call tm) = contents tm ++ ended (calls.flatMap Call.lines) := by
  induction calls generalizing tm with
  | nil => exact (List.append_nil _).symm
  | cons c calls ih => rw [List.foldl_cons, ih, contents_call, List.flatMap_cons, ended_append, List.append_assoc]

theorem run_eq (file : List Char) (s : Session) : s.run file = file ++ ended s.lines := by
  have hinit : contents (TimelineManager.init file s.time s.gmtime) = file ++ ended s.header := by
    simp [contents, TimelineManager.init, write, ended, Session.header]
  rw [Session.run, file_flush, contents_calls, hinit, Session.lines, ended_append, List.append_assoc]

/-- Several managers in a row leave the lines of the first one, then those of the second one, and so on. -/
theorem written_eq (sessions : List Session) : written sessions = ended (sessions.flatMap Session.lines) := by
  suffices h : ∀ file, sessions.foldl Session.run file = file ++ ended (sessions.flatMap Session.lines) from h []
  induction sessions with
  | nil => exact fun file => (List.append_nil file).symm
  | cons s sessions ih =>
    intro file
    rw [List.foldl_cons, ih, run_eq, List.flatMap_cons, ended_append, List.append_assoc]

/-! ### One line -/

theorem parseLine_comment (p : Parsed) (l : List Char) : parseLine p ('#' :: l) = .ok p := by
  have hstrip := Text.strip_cons (c := '#') rfl l
  unfold parseLine
  rw [hstrip]
  exact if_pos (.inr rfl)

theorem parseLine_section (p : Parsed) (key : List Char) :
    parseLine p ('[' :: key ++ [']']) =
      .ok { p with currentSection := some key, sections := p.sections.set key [] } := by
  have hstrip : Text.strip ('[' :: key ++ [']']) = '[' :: key ++ [']'] := by
    rw [List.cons_append, Text.strip_cons rfl, Text.rstrip_append_cons rfl]
    rfl
  have hlast : ('[' :: key ++ [']']).getLast? = some ']' := List.getLast?_concat
  have hname : (('[' :: key ++ [']']).drop 1).dropLast = key := List.dropLast_concat
  unfold parseLine
  rw [hstrip]
  dsimp only
  rw [if_neg (by simp), if_pos ⟨rfl, hlast⟩, hname]

/-- A color key without a colon and its label; white space around them is lost. -/
theorem parseLine_color (p : Parsed) {colorId : List Char} (hcolon : ':' ∉ colorId) (colorName : List Char) :
    parseLine p ('>' :: colorId ++ ": ".toList ++ colorName) =
      .ok { p with colorLabels := p.colorLabels.set (Text.strip colorId) (Text.strip colorName) } := by
  have hstrip : Text.strip ('>' :: colorId ++ ": ".toList ++ colorName) =
      '>' :: (colorId ++ ':' :: Text.rstrip (' ' :: colorName)) := by
    rw [List.cons_append, List.cons_append, Text.strip_cons rfl, List.append_assoc]
    exact congrArg _ (Text.rstrip_append_cons rfl colorId (' ' :: colorName))
  have hlabel : Text.strip (Text.rstrip (' ' :: colorName)) = Text.strip colorName := by
    rw [Text.strip_rstrip, Text.strip_cons_of_space rfl]
  unfold parseLine
  rw [hstrip]
  dsimp only
  rw [if_neg (by simp), if_neg (by simp), if_pos List.head?_cons, List.drop_one, List.tail_cons,
    Text.partition_append_cons hcolon]
  dsimp only
  rw [hlabel]

/-- The text of a duration or of a color key has neither white space nor a comma in it. -/
theorem plain_of_mem_fixed {places : Nat} {q : ℚ} {c : Char} (hc : c ∈ Text.fixed places q) :
    Text.isSpace c = false ∧ c ≠ ',' := by
  rcases Text.mem_fixed hc with rfl | rfl | h
  · decide
  · decide
  · refine ⟨Text.isSpace_of_isDigit h, ?_⟩
    rintro rfl
    cases h

theorem plain_of_mem_value {optype : OpType} {c : Char} (hc : c ∈ optype.value) : Text.isSpace c = false ∧ c ≠ ',' := by
  have hall : optype.value.all (fun c => !Text.isSpace c && c ≠ ',') = true := by cases optype <;> decide
  simpa using List.all_eq_true.mp hall c hc

theorem strip_stepLine (stepName dur : List Char) (optype : OpType) :
    Text.strip (stepName ++ ", ".toList ++ dur ++ ", ".toList ++ optype.value) =
      (Text.lstrip stepName ++ ',' :: ' ' :: dur) ++ ',' :: ' ' :: optype.value := by
  have hlast : ∀ c, (' ' :: dur ++ ',' :: ' ' :: optype.value).getLast? = some c → Text.isSpace c = false := by
    intro c hc
    have hmem : c ∈ optype.value := by
      rw [List.getLast?_append_of_ne_nil _ (List.cons_ne_nil _ _)] at hc
      cases optype <;> exact List.mem_of_getLast? hc
    exact (plain_of_mem_value hmem).1
  have hline : stepName ++ ", ".toList ++ dur ++ ", ".toList ++ optype.value =
      stepName ++ ',' :: (' ' :: dur ++ ',' :: ' ' :: optype.value) := by simp
  rw [hline, Text.strip_append_cons rfl, Text.rstrip_eq_self hlast, List.append_assoc]
  rfl

/-- A step of the section at hand, unless its name makes the line a comment or a color. -/
theorem parseLine_step {p : Parsed} {key stepName : List Char} {steps : List Step}
    (hcurrent : p.currentSection = some key) (hsteps : p.sections.get? key = some steps)
    (hcomment : (Text.strip stepName).head? ≠ some '#') (hcolor : (Text.strip stepName).head? ≠ some '>')
    (sec : ℚ) (optype : OpType) :
    parseLine p (stepName ++ ", ".toList ++ Text.fixed 3 (sec * 1000) ++ ", ".toList ++ optype.value) =
      .ok { p with sections := p.sections.set key (steps ++ [stepOf stepName sec optype]) } := by
  have hdur : ',' ∉ ' ' :: Text.fixed 3 (sec * 1000) := by
    intro h
    rcases List.mem_cons.mp h with h | h
    · cases h
    · exact (plain_of_mem_fixed h).2 rfl
  have hvalue : ',' ∉ ' ' :: optype.value := by
    intro h
    rcases List.mem_cons.mp h with h | h
    · cases h
    · exact (plain_of_mem_value h).2 rfl
  have hsplit : rsplit ((Text.lstrip stepName ++ ',' :: ' ' :: Text.fixed 3 (sec * 1000)) ++ ',' :: ' ' :: optype.value) =
      some (Text.lstrip stepName, ' ' :: Text.fixed 3 (sec * 1000), ' ' :: optype.value) := by
    rw [rsplit, Text.rpartition_append_cons hvalue]
    dsimp only [Option.bind_eq_bind, Option.bind_some]
    rw [Text.rpartition_append_cons hdur]
    rfl
  have hread : Text.float (Text.strip (' ' :: Text.fixed 3 (sec * 1000))) = some (Text.roundTo 3 (sec * 1000)) := by
    rw [Text.strip_cons_of_space rfl, Text.strip_of_nonspace fun c hc => (plain_of_mem_fixed hc).1,
      Text.float_fixed (by decide)]
  have hkey : Text.strip (' ' :: optype.value) = optype.value := by
    rw [Text.strip_cons_of_space rfl, Text.strip_of_nonspace fun c hc => (plain_of_mem_value hc).1]
  generalize Text.fixed 3 (sec * 1000) = dur at *
  have hline := strip_stepLine stepName dur optype
  generalize hl : (Text.lstrip stepName ++ ',' :: ' ' :: dur) ++ ',' :: ' ' :: optype.value = line at *
  -- The line starts with the name, or with the comma behind a blank one, and ends with the color key.
  have hhead {c : Char} (hc : c ≠ ',') (hname : (Text.strip stepName).head? ≠ some c) : line.head? ≠ some c := by
    rw [Text.head?_strip] at hname
    rw [← hl]
    cases hstrip : Text.lstrip stepName with
    | nil => exact fun h => hc (Option.some.inj h).symm
    | cons d rest =>
      rw [hstrip] at hname
      exact hname
  have hlast : line.getLast? ≠ some ']' := by
    rw [← hl, List.getLast?_append_of_ne_nil _ (List.cons_ne_nil _ _)]
    cases optype <;> decide
  have hne : line ≠ [] := by
    rw [← hl]
    exact List.append_ne_nil_of_right_ne_nil _ (List.cons_ne_nil _ _)
  unfold parseLine
  rw [hline]
  dsimp only
  rw [if_neg fun h => h.elim hne (hhead (by decide) hcomment), if_neg fun h => hlast h.2,
    if_neg (hhead (by decide) hcolor), hsplit]
  dsimp only
  rw [hcurrent]
  dsimp only
  rw [hsteps]
  dsimp only
  rw [hread, hkey, Text.strip_lstrip]
  rfl

/-! ### The parser against what was logged -/

/-- The parser has seen what was logged. Of the steps it knows the last ones of each section. -/
structure Sim (l : Logged) (p : Parsed) : Prop where
  current : p.currentSection = l.currentSection
  keys : ∀ key, key ∈ p.sections.keys ↔ key ∈ l.sections
  placed : ∀ key, l.currentSection = some key → key ∈ l.sections
  suffix : ∀ key steps, p.sections.get? key = some steps → steps <:+ l.steps key
  labels : ∀ colorId colorName, (colorId, colorName) ∈ l.colors →
    ∃ colorName', (colorId, colorName') ∈ l.colors ∧ p.colorLabels.get? colorId = some colorName'

/-- The parser knows all steps. -/
def Exact (l : Logged) (p : Parsed) : Prop := ∀ key steps, p.sections.get? key = some steps → steps = l.steps key

/-- A call whose line says what was meant. -/
def Legible : Call → Logged → Prop
  | .logColor colorId colorName, _ => ':' ∉ colorId ∧ Plain colorId ∧ Plain colorName
  | .logStep stepName _ _, l =>
    (Text.strip stepName).head? ≠ some '#' ∧ (Text.strip stepName).head? ≠ some '>' ∧ l.currentSection ≠ none
  | _, _ => True

theorem sim_init : Sim {} {} where
  current := rfl
  keys _ := Iff.rfl
  placed _ h := by cases h
  suffix _ _ h := by cases h
  labels _ _ h := by cases h

variable {l : Logged} {p : Parsed}

theorem Sim.color (h : Sim l p) (colorId colorName : List Char) :
    Sim (l.call (.logColor colorId colorName)) { p with colorLabels := p.colorLabels.set colorId colorName } where
  current := h.current
  keys := h.keys
  placed := h.placed
  suffix := h.suffix
  labels id name hmem := by
    by_cases hid : id = colorId
    · subst hid
      exact ⟨colorName, List.mem_append_right _ List.mem_cons_self, Dict.get?_set_self ..⟩
    · rcases List.mem_append.mp hmem with hmem | hmem
      · obtain ⟨name', hmem', hget⟩ := h.labels id name hmem
        exact ⟨name', List.mem_append_left _ hmem', (Dict.get?_set_of_ne _ _ hid).trans hget⟩
      · exact absurd (congrArg Prod.fst (List.mem_singleton.mp hmem)) hid

/-- A section that is logged again starts without steps. -/
theorem Sim.section (h : Sim l p) (sectionName : List Char) (compressed : Bool) :
    let key := sectionKey sectionName compressed
    let p' : Parsed := { p with currentSection := some key, sections := p.sections.set key [] }
    Sim (l.call (.logSection sectionName compressed)) p' ∧
      (Exact (l.call (.logSection sectionName compressed)) p' ↔ Exact l p ∧ l.steps key = []) := by
  intro key p'
  have hget (key' : List Char) : p'.sections.get? key' = if key' = key then some [] else p.sections.get? key' :=
    Dict.get?_set ..
  refine ⟨⟨rfl, fun key' => ?_, fun key' hkey' => ?_, fun key' steps hsteps => ?_, h.labels⟩, ?_⟩
  · rw [Dict.mem_keys_set]
    show _ ↔ key' ∈ l.sections ++ [key]
    rw [List.mem_append, List.mem_singleton, ← h.keys key', or_comm]
  · cases hkey'
    exact List.mem_append_right _ List.mem_cons_self
  · rw [hget] at hsteps
    split_ifs at hsteps with hkey
    · cases hsteps
      exact List.nil_suffix
    · exact h.suffix key' steps hsteps
  · constructor
    · intro hexact
      have hempty : l.steps key = [] := (hexact key [] (by rw [hget, if_pos rfl])).symm
      refine ⟨fun key' steps hsteps => ?_, hempty⟩
      by_cases hkey : key' = key
      · have hsuffix := h.suffix key' steps hsteps
        rw [hkey, hempty] at hsuffix ⊢
        exact List.suffix_nil.mp hsuffix
      · exact hexact key' steps (by rw [hget, if_neg hkey]; exact hsteps)
    · rintro ⟨hexact, hempty⟩ key' steps hsteps
      rw [hget] at hsteps
      split_ifs at hsteps with hkey
      · cases hsteps
        exact hkey ▸ hempty.symm
      · exact hexact key' steps hsteps

theorem call_logStep {key : List Char} (hcurrent : l.currentSection = some key) (stepName : List Char) (sec : ℚ)
    (optype : OpType) : l.call (.logStep stepName sec optype) =
      { l with steps := Function.update l.steps key (l.steps key ++ [stepOf stepName sec optype]) } := by
  simp only [Logged.call, hcurrent]

theorem Sim.step {key : List Char} {steps : List Step} (h : Sim l p) (hcurrent : l.currentSection = some key)
    (hsteps : p.sections.get? key = some steps) (stepName : List Char) (sec : ℚ) (optype : OpType) :
    let p' : Parsed := { p with sections := p.sections.set key (steps ++ [stepOf stepName sec optype]) }
    Sim (l.call (.logStep stepName sec optype)) p' ∧
      (Exact (l.call (.logStep stepName sec optype)) p' ↔ Exact l p) := by
  intro p'
  have hcall := call_logStep hcurrent stepName sec optype
  have hget (key' : List Char) : p'.sections.get? key' =
      if key' = key then some (steps ++ [stepOf stepName sec optype]) else p.sections.get? key' := Dict.get?_set ..
  have hlogged (key' : List Char) : (l.call (.logStep stepName sec optype)).steps key' =
      if key' = key then l.steps key ++ [stepOf stepName sec optype] else l.steps key' := by
    rw [hcall]
    exact Function.update_apply ..
  refine ⟨⟨?_, fun key' => ?_, ?_, fun key' steps' hsteps' => ?_, ?_⟩, ?_⟩
  · rw [hcall]
    exact h.current
  · rw [hcall, Dict.mem_keys_set, ← h.keys key']
    refine or_iff_right_of_imp ?_
    rintro rfl
    exact Dict.mem_keys_of_get? hsteps
  · rw [hcall]
    exact h.placed
  · rw [hget] at hsteps'
    rw [hlogged]
    split_ifs at hsteps' ⊢ with hkey
    · cases hsteps'
      obtain ⟨lost, hlost⟩ := h.suffix key steps hsteps
      rw [← hlost, List.append_assoc]
      exact List.suffix_append ..
    · exact h.suffix key' steps' hsteps'
  · rw [hcall]
    exact h.labels
  · constructor
    · intro hexact key' steps' hsteps'
      have hother := hexact key'
      rw [hget, hlogged] at hother
      split_ifs at hother with hkey
      · rw [hkey] at hsteps' ⊢
        cases hsteps.symm.trans hsteps'
        exact List.append_cancel_right (hother _ rfl)
      · exact hother steps' hsteps'
    · intro hexact key' steps' hsteps'
      rw [hget] at hsteps'
      rw [hlogged]
      split_ifs at hsteps' ⊢ with hkey
      · cases hsteps'
        rw [hexact key steps hsteps]
      · exact hexact key' steps' hsteps'

/-- The line of a call does to the parser what the call did to the log, except that a section that is not fresh loses
its steps. -/
theorem sim_call (h : Sim l p) {c : Call} (hc : Legible c l) :
    ∃ p', c.lines.foldlM parseLine p = .ok p' ∧ Sim (l.call c) p' ∧
      (Exact (l.call c) p' ↔ Exact l p ∧ Fresh c l) := by
  cases c with
  | logColor colorId colorName =>
    obtain ⟨hcolon, ⟨hid, -⟩, hname, -⟩ := hc
    have hline := parseLine_color p hcolon colorName
    rw [hid, hname] at hline
    refine ⟨_, ?_, h.color colorId colorName, (and_iff_left trivial).symm⟩
    rw [Call.lines, List.foldlM_cons, hline]
    rfl
  | logSection sectionName compressed =>
    obtain ⟨hsim, hexact⟩ := h.section sectionName compressed
    refine ⟨_, ?_, hsim, hexact⟩
    rw [Call.lines, List.foldlM_cons, parseLine_section]
    rfl
  | logStep stepName sec optype =>
    obtain ⟨hcomment, hcolor, hplaced⟩ := hc
    obtain ⟨key, hcurrent⟩ := Option.ne_none_iff_exists'.mp hplaced
    obtain ⟨steps, hsteps⟩ := Dict.mem_keys_iff.mp ((h.keys key).mpr (h.placed key hcurrent))
    obtain ⟨hsim, hexact⟩ := h.step hcurrent hsteps stepName sec optype
    refine ⟨_, ?_, hsim, hexact.trans (and_iff_left trivial).symm⟩
    rw [Call.lines, List.foldlM_cons, parseLine_step (h.current.trans hcurrent) hsteps hcomment hcolor]
    rfl
  | flush => exact ⟨p, rfl, h, (and_iff_left trivial).symm⟩

theorem sim_calls {calls : List Call} (h : Sim l p) (hcalls : Run.EachStep Logged.call Legible calls l) :
    ∃ p', (calls.flatMap Call.lines).foldlM parseLine p = .ok p' ∧ Sim (calls.foldl Logged.call l) p' ∧
      (Exact (calls.foldl Logged.call l) p' ↔ Exact l p ∧ Run.EachStep Logged.call Fresh calls l) := by
  induction calls generalizing l p with
  | nil => exact ⟨p, rfl, h, (and_iff_left trivial).symm⟩
  | cons c calls ih =>
    obtain ⟨p', hline, hsim, hexact⟩ := sim_call h hcalls.1
    obtain ⟨p'', hlines, hsim', hexact'⟩ := ih hsim hcalls.2
    refine ⟨p'', ?_, hsim', ?_⟩
    · rw [List.flatMap_cons, List.foldlM_append, hline]
      exact hlines
    · rw [List.foldl_cons, hexact', hexact, and_assoc]
      rfl

/-- The header of a manager is comments. -/
theorem foldlM_header (s : Session) (p : Parsed) : s.header.foldlM parseLine p = .ok p := by
  have hcomment {l : List Char} (hl : l.head? = some '#') : parseLine p l = .ok p := by
    obtain ⟨rest, rfl⟩ := List.head?_eq_some_iff.mp hl
    exact parseLine_comment p rest
  rw [Session.header, List.foldlM_cons, hcomment rfl]
  show List.foldlM parseLine p _ = _
  rw [List.foldlM_cons, hcomment rfl]
  show List.foldlM parseLine p _ = _
  rw [List.foldlM_cons, hcomment rfl]
  rfl

/-- From the first section on there is a section at hand. -/
theorem currentSection_ne_none {calls : List Call} {sectionName : List Char} {compressed : Bool}
    (h : .logSection sectionName compressed ∈ calls) (l : Logged) :
    (calls.foldl Logged.call l).currentSection ≠ none := by
  have hkeep (c : Call) (l : Logged) (hl : l.currentSection ≠ none) : (l.call c).currentSection ≠ none := by
    cases c with
    | logColor colorId colorName => exact hl
    | logSection sectionName compressed => exact Option.some_ne_none _
    | logStep stepName sec optype =>
      obtain ⟨key, hkey⟩ := Option.ne_none_iff_exists'.mp hl
      rw [call_logStep hkey]
      exact hl
    | flush => exact hl
  obtain ⟨before, after, rfl⟩ := List.append_of_mem h
  rw [List.foldl_append, List.foldl_cons]
  suffices hrest : ∀ l : Logged, l.currentSection ≠ none → (after.foldl Logged.call l).currentSection ≠ none from
    hrest _ (Option.some_ne_none _)
  clear h
  induction after with
  | nil => exact fun _ hl => hl
  | cons c after ih => exact fun l hl => ih _ (hkeep c l hl)

/-- In a valid session whose color names are plain, every line says what was meant. -/
theorem Session.Valid.legible {s : Session} (h : s.Valid)
    (hplain : ∀ colorId colorName, .logColor colorId colorName ∈ s.calls → Plain colorId ∧ Plain colorName)
    (l : Logged) : Run.EachStep Logged.call Legible s.calls l := by
  refine Run.eachStep_of_forall fun before c after hcalls => ?_
  have hmem : c ∈ s.calls := hcalls ▸ List.mem_append_right _ List.mem_cons_self
  cases c with
  | logColor colorId colorName => exact ⟨h.colors _ _ hmem, hplain _ _ hmem⟩
  | logSection sectionName compressed => exact trivial
  | logStep stepName sec optype =>
    refine ⟨(h.steps _ _ _ hmem).2.1, (h.steps _ _ _ hmem).2.2, ?_⟩
    obtain ⟨sectionName, compressed, hsection⟩ := h.placed _ _ _ _ _ hcalls
    exact currentSection_ne_none hsection l
  | flush => exact trivial

theorem sim_sessions {sessions : List Session} (hvalid : ∀ s ∈ sessions, s.Valid)
    (hplain : ∀ colorId colorName, .logColor colorId colorName ∈ calls sessions → Plain colorId ∧ Plain colorName)
    (h : Sim l p) :
    ∃ p', (sessions.flatMap Session.lines).foldlM parseLine p = .ok p' ∧
      Sim ((calls sessions).foldl Logged.call l) p' ∧
      (Exact ((calls sessions).foldl Logged.call l) p' ↔
        Exact l p ∧ Run.EachStep Logged.call Fresh (calls sessions) l) := by
  induction sessions generalizing l p with
  | nil => exact ⟨p, rfl, h, (and_iff_left trivial).symm⟩
  | cons s sessions ih =>
    have hcalls : calls (s :: sessions) = s.calls ++ calls sessions := List.flatMap_cons
    rw [hcalls] at hplain ⊢
    have hlegible := (hvalid s List.mem_cons_self).legible
      (fun colorId colorName hmem => hplain colorId colorName (List.mem_append_left _ hmem)) l
    obtain ⟨p', hlines, hsim, hexact⟩ := sim_calls h hlegible
    obtain ⟨p'', hlines', hsim', hexact'⟩ := ih (fun s hs => hvalid s (List.mem_cons_of_mem _ hs))
      (fun colorId colorName hmem => hplain colorId colorName (List.mem_append_right _ hmem)) hsim
    rw [List.foldl_append]
    refine ⟨p'', ?_, hsim', ?_⟩
    · rw [List.flatMap_cons, List.foldlM_append, Session.lines, List.foldlM_append, foldlM_header]
      show ((s.calls.flatMap Call.lines).foldlM parseLine p >>= _) = _
      rw [hlines]
      exact hlines'
    · rw [hexact', hexact, and_assoc, Run.eachStep_append]

/-! ### The lines of the file -/

theorem oneLine_value (optype : OpType) : Text.OneLine optype.value :=
  fun _ hc => Text.isNewline_of_isSpace (plain_of_mem_value hc).1

theorem oneLine_header {s : Session} {line : List Char} (h : line ∈ s.header) : Text.OneLine line := by
  rcases List.mem_cons.mp h with rfl | h
  · simp [Text.isNewline]
  rcases List.mem_cons.mp h with rfl | h
  · simp [Gmtime.strftime, Text.isNewline]
  · rw [List.mem_singleton.mp h]
    simp [Text.isNewline]

theorem Session.Valid.oneLine {s : Session} (h : s.Valid)
    (hplain : ∀ colorId colorName, .logColor colorId colorName ∈ s.calls → Plain colorId ∧ Plain colorName)
    {line : List Char} (hline : line ∈ s.lines) : Text.OneLine line := by
  rcases List.mem_append.mp hline with hline | hline
  · exact oneLine_header hline
  obtain ⟨c, hc, hline⟩ := List.mem_flatMap.mp hline
  cases c with
  | logColor colorId colorName =>
    obtain ⟨⟨-, hid⟩, -, hname⟩ := hplain _ _ hc
    rw [List.mem_singleton.mp hline]
    simp [Text.isNewline, hid, hname]
  | logSection sectionName compressed =>
    have hname := h.sections _ _ hc
    rw [List.mem_singleton.mp hline]
    cases compressed <;> simp [Text.isNewline, sectionKey, hname]
  | logStep stepName sec optype =>
    have hname := (h.steps _ _ _ hc).1
    rw [List.mem_singleton.mp hline]
    simp [Text.isNewline, hname, oneLine_value]
  | flush => cases hline

/-- What the parser makes of a file of valid sessions whose colors are plain. -/
theorem parse_written {sessions : List Session} (hvalid : ∀ s ∈ sessions, s.Valid)
    (hplain : ∀ colorId colorName, .logColor colorId colorName ∈ calls sessions → Plain colorId ∧ Plain colorName) :
    ∃ p, parseTimelineFile (written sessions) = .ok (p.sections, p.colorLabels) ∧ Sim (logged (calls sessions)) p ∧
      (Exact (logged (calls sessions)) p ↔ Run.EachStep Logged.call Fresh (calls sessions) {}) := by
  obtain ⟨p, hlines, hsim, hexact⟩ := sim_sessions hvalid hplain sim_init
  refine ⟨p, ?_, hsim, hexact.trans (and_iff_right fun _ _ h => by cases h)⟩
  have hone : ∀ line ∈ sessions.flatMap Session.lines, Text.OneLine line := by
    intro line hline
    obtain ⟨s, hs, hline⟩ := List.mem_flatMap.mp hline
    exact (hvalid s hs).oneLine (fun _ _ hc => hplain _ _ (List.mem_flatMap.mpr ⟨s, hs, hc⟩)) hline
  rw [parseTimelineFile, written_eq, ended, Text.fileLines_flatMap hone, List.foldlM_append, hlines]
  rfl

/-! ### The labels of any file -/

/-- Whatever the file, the labels and their keys are plain. -/
def PlainLabels (p : Parsed) : Prop := ∀ colorId colorName, p.colorLabels.get? colorId = some colorName →
  Plain colorId ∧ Plain colorName

theorem plain_strip {l : List Char} (h : Text.OneLine l) : Plain (Text.strip l) :=
  ⟨Text.strip_strip l, fun c hc => h c (Text.mem_of_mem_strip hc)⟩

/-- Only a color line touches the labels. -/
theorem colorLabels_parseLine {p p' : Parsed} {line : List Char} (h : parseLine p line = .ok p') :
    p'.colorLabels = p.colorLabels ∨ ∃ colorKey label,
      Text.partition ':' ((Text.strip line).drop 1) = some (colorKey, label) ∧
        p'.colorLabels = p.colorLabels.set (Text.strip colorKey) (Text.strip label) := by
  unfold parseLine at h
  dsimp only at h
  split_ifs at h
  · cases h
    exact .inl rfl
  · cases h
    exact .inl rfl
  · rcases hcut : Text.partition ':' ((Text.strip line).drop 1) with _ | ⟨colorKey, label⟩
    · rw [hcut] at h
      cases h
    · rw [hcut] at h
      cases h
      exact .inr ⟨colorKey, label, rfl, rfl⟩
  · left
    rcases hsplit : rsplit (Text.strip line) with _ | ⟨name, dur, colorKey⟩
    · rw [hsplit] at h
      cases h
      rfl
    rcases hcurrent : p.currentSection with _ | key
    · rw [hsplit, hcurrent] at h
      cases h
    rcases hsteps : p.sections.get? key with _ | steps
    · rw [hsplit, hcurrent] at h
      dsimp only at h
      rw [hsteps] at h
      cases h
    rw [hsplit, hcurrent] at h
    dsimp only at h
    rw [hsteps] at h
    rcases hfloat : Text.float (Text.strip dur) with _ | duration
    · rw [hfloat] at h
      cases h
      rfl
    · rw [hfloat] at h
      cases h
      rfl

theorem plainLabels_parseLine {p p' : Parsed} {line : List Char} (hp : PlainLabels p) (hline : Text.OneLine line)
    (h : parseLine p line = .ok p') : PlainLabels p' := by
  rcases colorLabels_parseLine h with hlabels | ⟨colorKey, label, hcut, hlabels⟩
  · unfold PlainLabels
    rw [hlabels]
    exact hp
  · have hmem {c : Char} (hc : c ∈ (Text.strip line).drop 1) : Text.isNewline c = false :=
      hline c (Text.mem_of_mem_strip (List.mem_of_mem_drop hc))
    rw [Text.eq_of_partition hcut] at hmem
    intro colorId colorName hget
    rw [hlabels, Dict.get?_set] at hget
    split_ifs at hget with hid
    · cases hget
      rw [hid]
      exact ⟨plain_strip fun c hc => hmem (List.mem_append_left _ hc),
        plain_strip fun c hc => hmem (List.mem_append_right _ (List.mem_cons_of_mem _ hc))⟩
    · exact hp colorId colorName hget

theorem plainLabels_parseTimelineFile {file : List Char} {sections : Dict (List Char) (List Step)}
    {colorLabels : Dict (List Char) (List Char)} (h : parseTimelineFile file = .ok (sections, colorLabels))
    {colorId colorName : List Char} (hget : colorLabels.get? colorId = some colorName) :
    Plain colorId ∧ Plain colorName := by
  suffices hlines : ∀ (lines : List (List Char)) (p p' : Parsed), (∀ line ∈ lines, Text.OneLine line) →
      PlainLabels p → lines.foldlM parseLine p = .ok p' → PlainLabels p' by
    rcases hfold : (Text.fileLines file).foldlM parseLine {} with e | p
    · rw [parseTimelineFile, hfold] at h
      cases h
    · rw [parseTimelineFile, hfold] at h
      cases h
      exact hlines _ {} p (fun _ => Text.oneLine_of_mem_fileLines) (fun _ _ h => by cases h) hfold colorId colorName hget
  intro lines
  induction lines with
  | nil =>
    intro p p' _ hp hfold
    cases hfold
    exact hp
  | cons line lines ih =>
    intro p p' hone hp hfold
    rw [List.foldlM_cons] at hfold
    rcases hline : parseLine p line with e | next
    · rw [hline] at hfold
      cases hfold
    · rw [hline] at hfold
      exact ih next p' (fun l hl => hone l (List.mem_cons_of_mem _ hl))
        (plainLabels_parseLine hp (hone line List.mem_cons_self) hline) hfold

/-! ### The round trip -/

theorem mem_colors_iff {calls : List Call} {colorId colorName : List Char} :
    (colorId, colorName) ∈ (logged calls).colors ↔ .logColor colorId colorName ∈ calls := by
  suffices h : ∀ l : Logged, (colorId, colorName) ∈ (calls.foldl Logged.call l).colors ↔
      (colorId, colorName) ∈ l.colors ∨ .logColor colorId colorName ∈ calls from (h {}).trans (by simp)
  induction calls with
  | nil => simp
  | cons c calls ih =>
    intro l
    rw [List.foldl_cons, ih, List.mem_cons, ← or_assoc]
    refine or_congr_left ?_
    cases c with
    | logColor id name => simp [Logged.call]
    | logSection sectionName compressed => simp [Logged.call]
    | logStep stepName sec optype =>
      have hcolors : (l.call (.logStep stepName sec optype)).colors = l.colors := by
        unfold Logged.call
        cases l.currentSection <;> rfl
      simp [hcolors]
    | flush => simp [Logged.call]

/-- The parser recovers what was logged exactly if the line format keeps the colors and no section comes back after it
got steps. -/
theorem recovers_iff {sessions : List Session} (hvalid : ∀ s ∈ sessions, s.Valid) :
    Recovers sessions ↔ Faithful (calls sessions) := by
  constructor
  · rintro ⟨sections, colorLabels, hparse, hlabels, hsections, -⟩
    have hplain (colorId colorName : List Char) (hmem : .logColor colorId colorName ∈ calls sessions) :
        Plain colorId ∧ Plain colorName :=
      plainLabels_parseTimelineFile hparse (hlabels colorId colorName (mem_colors_iff.mpr hmem))
    refine ⟨hplain, fun colorId colorName colorName' hmem hmem' => ?_, ?_⟩
    · have hget := hlabels colorId colorName (mem_colors_iff.mpr hmem)
      rw [hlabels colorId colorName' (mem_colors_iff.mpr hmem')] at hget
      exact (Option.some.inj hget).symm
    · obtain ⟨p, hparse', hsim, hexact⟩ := parse_written hvalid hplain
      cases hparse.symm.trans hparse'
      have hfresh := hexact.mp fun key steps hget => by
        have hkey := (hsim.keys key).mp (Dict.mem_keys_of_get? hget)
        exact Option.some.inj (hget.symm.trans (hsections key hkey))
      intro before sectionName compressed after hcalls
      rw [hcalls] at hfresh
      exact (Run.eachStep_append.mp hfresh).2.1
  · rintro ⟨hplain, hagree, hfresh⟩
    obtain ⟨p, hparse, hsim, hexact⟩ := parse_written hvalid hplain
    have hall : Exact (logged (calls sessions)) p := hexact.mpr <| Run.eachStep_of_forall fun before c after hcalls => by
      cases c with
      | logSection sectionName compressed => exact hfresh before sectionName compressed after hcalls
      | logColor colorId colorName => exact trivial
      | logStep stepName sec optype => exact trivial
      | flush => exact trivial
    refine ⟨p.sections, p.colorLabels, hparse, fun colorId colorName hmem => ?_, fun key hkey => ?_,
      fun key hkey => (hsim.keys key).mp hkey⟩
    · obtain ⟨colorName', hmem', hget⟩ := hsim.labels colorId colorName hmem
      rw [hget, hagree colorId colorName' colorName (mem_colors_iff.mp hmem') (mem_colors_iff.mp hmem)]
    · obtain ⟨steps, hget⟩ := Dict.mem_keys_iff.mp ((hsim.keys key).mpr hkey)
      rw [hget, hall key steps hget]

/-- A run of a benchmark that makes one request. -/
def requestSession : Session where
  time := 1752108707
  gmtime := ⟨2025, 7, 10, 0, 51, 47⟩
  calls := [.logColor "pink".toList "NETWORK".toList, .logSection "Init Requests 1".toList false,
    .logStep "Req".toList (1 / 80) .network]

theorem requestSession_valid : requestSession.Valid where
  colors colorId colorName h := by
    rcases List.mem_cons.mp h with h | h
    · cases h
      decide
    · simp at h
  sections sectionName compressed h := by
    rcases List.mem_cons.mp (List.mem_of_ne_of_mem (fun h => by cases h) h) with h | h
    · cases h
      decide
    · simp at h
  steps stepName sec optype h := by
    have hstep := List.mem_of_ne_of_mem (fun h => by cases h) (List.mem_of_ne_of_mem (fun h => by cases h) h)
    cases List.mem_singleton.mp hstep
    decide
  placed before stepName sec optype after h := by
    rcases before with _ | ⟨first, _ | ⟨second, before⟩⟩
    · cases h
    · cases h
    · obtain ⟨-, hrest⟩ := List.cons.inj h
      obtain ⟨rfl, -⟩ := List.cons.inj hrest
      exact ⟨_, _, List.mem_cons_of_mem _ List.mem_cons_self⟩

theorem recovers_requestSession : Recovers [requestSession] ↔ Faithful requestSession.calls :=
  recovers_iff fun _ hs => List.mem_singleton.mp hs ▸ requestSession_valid

/-- The steps of the first run are lost when the benchmark runs again. -/
theorem not_recovers_twice :
    (∀ s ∈ [requestSession, requestSession], s.Valid) ∧ ¬ Recovers [requestSession, requestSession] := by
  refine ⟨fun s hs => ?_, ?_⟩
  · rcases List.mem_cons.mp hs with rfl | hs
    · exact requestSession_valid
    · exact List.mem_singleton.mp hs ▸ requestSession_valid
  · rintro ⟨sections, colorLabels, hparse, -, hsections, -⟩
    have hread : ((parseTimelineFile (written [requestSession, requestSession])).toOption.bind fun p =>
        p.1.get? "Init Requests 1".toList) = some [stepOf "Req".toList (1 / 80) .network] := by decide +kernel
    have hlogged : (logged (calls [requestSession, requestSession])).steps "Init Requests 1".toList =
        [stepOf "Req".toList (1 / 80) .network, stepOf "Req".toList (1 / 80) .network] := rfl
    have hget := hsections "Init Requests 1".toList (by decide)
    rw [hlogged] at hget
    rw [hparse] at hread
    have hboth := hread.symm.trans hget
    cases hboth

end StateFork.Timeline
