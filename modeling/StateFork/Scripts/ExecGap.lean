import Mathlib.Data.List.SplitBy
import StateFork.Lib.Loop
import StateFork.Lib.Numeral
import StateFork.Controller.State

/-!
# The gap between a restore and the first exec

`benchmark_exec_gap` asks a restored environment again and again whether it is ready, classifies every answer, and
groups the answers into phases. The grouping is a run-length encoding (`groupPhases_spec`), and the class of success is
exactly the condition on which the polling stops.
-/

namespace StateFork.ExecGap

open Loop

inductive Outcome where
  | success
  | socketMissing
  | connectionRefused
  | permissionDenied
  | timeout
  | connectionReset
  | otherSocketError
  | execError
  deriving DecidableEq

/-- The name of an outcome in the reports. -/
def Outcome.text : Outcome → String
  | success => "success"
  | socketMissing => "socket_missing"
  | connectionRefused => "connection_refused"
  | permissionDenied => "permission_denied"
  | timeout => "timeout"
  | connectionReset => "connection_reset"
  | otherSocketError => "other_socket_error"
  | execError => "exec_error"

theorem Outcome.text_injective : Function.Injective Outcome.text := by
  intro a b h
  cases a <;> cases b <;> first | rfl | exact absurd h (by decide)

structure Attempt where
  number : Nat
  startMs : ℚ
  elapsedMs : ℚ
  returnCode : Int
  stdout : String
  stderr : String
  outcome : Outcome
  deriving DecidableEq

def Attempt.endMs (a : Attempt) : ℚ := a.startMs + a.elapsedMs

def Attempt.succeeded (a : Attempt) : Bool := a.returnCode = 0

structure Phase where
  number : Nat
  outcome : Outcome
  attempts : List Attempt

/-- `str.lower`, for a search of ASCII texts: no other character than the ones below has an ASCII letter in its lower
case. -/
def lower (c : Char) : List Char :=
  if c.toNat = 0x130 then ['i', Char.ofNat 0x307] else if c.toNat = 0x212a then ['k'] else [c.toLower]

/-- `classify_attempt` -/
def classifyAttempt (returnCode : Int) (stderr : String) : Outcome :=
  if returnCode = 0 then .success else
  let message := stderr.toList.flatMap lower
  let mentions (text : String) : Bool := text.toList <:+: message
  if mentions "no such file or directory" then .socketMissing
  else if mentions "connection refused" || mentions "connect: refused" then .connectionRefused
  else if mentions "permission denied" then .permissionDenied
  else if mentions "timed out" || mentions "timeout" then .timeout
  else if mentions "connection reset" then .connectionReset
  else if mentions "dial unix" || mentions ".sock" || mentions "socket" then .otherSocketError
  else .execError

/-- The loop of `group_phases`, with the attempts of the current phase as the first one and the later ones. -/
def groupLoop : List Attempt → List Phase → Attempt → List Attempt → List Phase
  | [], phases, first, later => phases ++ [⟨phases.length + 1, first.outcome, first :: later⟩]
  | attempt :: rest, phases, first, later =>
    if attempt.outcome.text = ((first :: later).getLast (List.cons_ne_nil _ _)).outcome.text then
      groupLoop rest phases first (later ++ [attempt])
    else groupLoop rest (phases ++ [⟨phases.length + 1, first.outcome, first :: later⟩]) attempt []

/-- `group_phases` -/
def groupPhases : List Attempt → List Phase
  | [] => []
  | first :: rest => groupLoop rest [] first []

/-- The clock and the manager of a round. -/
structure ProbeHost where
  perfCounterNs (reading : Nat) : Int
  execCommand (call : Nat) (command : String) (timeout : ℚ) : Except PyError (Int × Option String × Option String)

section probe

variable (H : ProbeHost) (command : String) (readinessTimeout execTimeout retryInterval : ℚ) (restoreReturnNs : Int)

/-- One iteration of `probe_until_ready`, the call after the ones in `attempts`. -/
def probeOnce (attempts : List Attempt) : Iteration (List Attempt) (Except PyError (List Attempt)) :=
  let deadlineNs := restoreReturnNs + Text.truncate (readinessTimeout * 1000000000)
  let startNs := H.perfCounterNs (2 * attempts.length)
  match H.execCommand attempts.length command execTimeout with
  | .error e => .ends (.error e)
  | .ok (returnCode, stdout, stderr) =>
    let endNs := H.perfCounterNs (2 * attempts.length + 1)
    let attempts := attempts ++ [
      { number := attempts.length + 1
        startMs := (startNs - restoreReturnNs : Int) / 1000000
        elapsedMs := (endNs - startNs : Int) / 1000000
        returnCode := returnCode
        stdout := stdout.getD ""
        stderr := stderr.getD ""
        outcome := classifyAttempt returnCode (stderr.getD "") }]
    if returnCode = 0 ∨ deadlineNs ≤ endNs then .ends (.ok attempts)
    else if retryInterval < 0 then .ends (.error ⟨.valueError, "sleep length must be non-negative"⟩)
    else .again attempts

/-- `probe_until_ready` returns these attempts. -/
def ProbeReturns (attempts : List Attempt) : Prop :=
  Ends (probeOnce H command readinessTimeout execTimeout retryInterval restoreReturnNs) [] (.ok attempts)

end probe

/-! ### Grouping -/

/-- The class of success is the condition on which the polling stops, whatever the error text says. -/
theorem classifyAttempt_eq_success_iff {returnCode : Int} {stderr : String} :
    classifyAttempt returnCode stderr = .success ↔ returnCode = 0 := by
  unfold classifyAttempt
  by_cases h : returnCode = 0
  · rw [if_pos h]
    exact iff_of_true rfl h
  · rw [if_neg h]
    refine iff_of_false ?_ h
    dsimp only
    split_ifs <;> exact not_false

def sameOutcome (a b : Attempt) : Bool := a.outcome = b.outcome

/-- Phases with their numbers, each labelled with the outcome of its first attempt. -/
structure Labelled (phases : List Phase) : Prop where
  numbers : phases.map (·.number) = List.range' 1 phases.length
  outcomes : ∀ p ∈ phases, p.attempts.head?.map (·.outcome) = some p.outcome

theorem Labelled.append {phases : List Phase} (h : Labelled phases) (first : Attempt) (later : List Attempt) :
    Labelled (phases ++ [⟨phases.length + 1, first.outcome, first :: later⟩]) := by
  constructor
  · rw [List.map_append, h.numbers, List.length_append, List.length_singleton, List.range'_concat]
    simp [Nat.add_comm]
  · intro p hp
    rcases List.mem_append.mp hp with hp | hp
    · exact h.outcomes p hp
    · rw [List.mem_singleton.mp hp]
      rfl

/-- The loop splits what it has not grouped yet into runs of one outcome. -/
theorem groupLoop_spec (rest : List Attempt) (phases : List Phase) (first : Attempt) (later : List Attempt)
    (hphases : Labelled phases) (hcurrent : (first :: later).IsChain fun a b => sameOutcome a b) :
    Labelled (groupLoop rest phases first later) ∧
      (groupLoop rest phases first later).map (·.attempts) =
        phases.map (·.attempts) ++ (first :: later ++ rest).splitBy sameOutcome := by
  induction rest generalizing phases first later with
  | nil =>
    refine ⟨hphases.append first later, ?_⟩
    rw [List.append_nil, List.splitBy_of_isChain (List.cons_ne_nil _ _) hcurrent, groupLoop, List.map_append]
    rfl
  | cons attempt rest ih =>
    by_cases hsame : attempt.outcome = ((first :: later).getLast (List.cons_ne_nil _ _)).outcome
    · rw [groupLoop, if_pos (congrArg _ hsame),
        show first :: later ++ attempt :: rest = first :: (later ++ [attempt]) ++ rest by simp]
      refine ih phases first (later ++ [attempt]) hphases ?_
      rw [← List.cons_append]
      refine List.isChain_append.mpr ⟨hcurrent, List.isChain_singleton _, fun a ha b hb => ?_⟩
      rw [List.getLast?_eq_getLast_of_ne_nil (List.cons_ne_nil _ _)] at ha
      cases ha
      cases hb
      exact decide_eq_true hsame.symm
    · obtain ⟨hlabelled, hattempts⟩ :=
        ih (phases ++ [⟨phases.length + 1, first.outcome, first :: later⟩]) attempt [] (hphases.append first later)
          (List.isChain_singleton _)
      have hsplit : (first :: later ++ attempt :: rest).splitBy sameOutcome =
          [first :: later] ++ (attempt :: rest).splitBy sameOutcome := by
        rw [List.splitBy_append_cons, List.splitBy_of_isChain (List.cons_ne_nil _ _) hcurrent]
        intro a ha
        rw [List.getLast?_eq_getLast_of_ne_nil (List.cons_ne_nil _ _)] at ha
        cases ha
        exact decide_eq_false fun h => hsame h.symm
      rw [groupLoop, if_neg fun h => hsame (Outcome.text_injective h), hsplit]
      exact ⟨hlabelled, hattempts.trans (by rw [List.map_append, List.append_assoc]; rfl)⟩

/-- `group_phases` labels the runs of one outcome. -/
theorem groupPhases_spec (attempts : List Attempt) :
    Labelled (groupPhases attempts) ∧ (groupPhases attempts).map (·.attempts) = attempts.splitBy sameOutcome := by
  cases attempts with
  | nil =>
    refine ⟨⟨rfl, fun p hp => ?_⟩, rfl⟩
    cases hp
  | cons first rest => exact groupLoop_spec rest [] first [] ⟨rfl, fun _ h => by cases h⟩ (List.isChain_singleton _)

/-- A phase as the reports describe it. -/
structure Phase.Uniform (p : Phase) : Prop where
  nonempty : p.attempts ≠ []
  outcome : ∀ a ∈ p.attempts, a.outcome = p.outcome

theorem outcome_eq_of_isChain {first : Attempt} {later : List Attempt}
    (h : (first :: later).IsChain fun a b => sameOutcome a b) {a : Attempt} (ha : a ∈ first :: later) :
    a.outcome = first.outcome := by
  induction later generalizing first with
  | nil => rw [List.mem_singleton.mp ha]
  | cons second later ih =>
    obtain ⟨hsame, hrest⟩ := List.isChain_cons_cons.mp h
    rcases List.mem_cons.mp ha with rfl | ha
    · rfl
    · exact (ih hrest ha).trans (of_decide_eq_true hsame).symm

theorem uniform_of_mem_groupPhases {attempts : List Attempt} {p : Phase} (hp : p ∈ groupPhases attempts) :
    p.Uniform := by
  obtain ⟨hlabelled, hsplit⟩ := groupPhases_spec attempts
  have hmem : p.attempts ∈ attempts.splitBy sameOutcome := hsplit ▸ List.mem_map_of_mem hp
  obtain ⟨first, later, hcons⟩ := List.exists_cons_of_ne_nil (List.ne_nil_of_mem_splitBy hmem)
  have hlabel := hlabelled.outcomes p hp
  have hchain := List.isChain_of_mem_splitBy hmem
  rw [hcons] at hlabel hchain
  refine ⟨List.ne_nil_of_mem_splitBy hmem, fun a ha => ?_⟩
  rw [hcons] at ha
  exact (outcome_eq_of_isChain hchain ha).trans (Option.some.inj hlabel)

theorem flatten_groupPhases (attempts : List Attempt) :
    ((groupPhases attempts).map (·.attempts)).flatten = attempts := by
  rw [(groupPhases_spec attempts).2, List.flatten_splitBy]

/-- Adjacent phases have different outcomes. -/
theorem isChain_groupPhases (attempts : List Attempt) :
    (groupPhases attempts).IsChain fun p q => p.outcome ≠ q.outcome := by
  have hchain := List.isChain_getLast_head_splitBy sameOutcome attempts
  rw [← (groupPhases_spec attempts).2, List.isChain_map] at hchain
  refine List.IsChain.imp_of_mem_imp (fun p q hp hq hne heq => ?_) hchain
  obtain ⟨hpne, hqne, hdiff⟩ := hne
  refine of_decide_eq_false hdiff ?_
  rw [(uniform_of_mem_groupPhases hp).outcome _ (List.getLast_mem hpne),
    (uniform_of_mem_groupPhases hq).outcome _ (List.head_mem hqne), heq]

/-! ### Polling -/

/-- The attempts of a polling in order, each with the class of its answer. -/
structure Polled (attempts : List Attempt) : Prop where
  numbers : attempts.map (·.number) = List.range' 1 attempts.length
  classified : ∀ a ∈ attempts, a.outcome = classifyAttempt a.returnCode a.stderr

theorem Polled.append {attempts : List Attempt} (h : Polled attempts) {a : Attempt}
    (hnumber : a.number = attempts.length + 1) (ha : a.outcome = classifyAttempt a.returnCode a.stderr) :
    Polled (attempts ++ [a]) := by
  constructor
  · rw [List.map_append, h.numbers, List.length_append, List.length_singleton, List.range'_concat]
    simp [hnumber, Nat.add_comm]
  · intro b hb
    rcases List.mem_append.mp hb with hb | hb
    · exact h.classified b hb
    · rwa [List.mem_singleton.mp hb]

theorem Polled.outcome_eq_success_iff {attempts : List Attempt} (h : Polled attempts) {a : Attempt}
    (ha : a ∈ attempts) : a.outcome = .success ↔ a.succeeded = true := by
  rw [h.classified a ha, classifyAttempt_eq_success_iff, Attempt.succeeded, decide_eq_true_eq]

section run

variable {H : ProbeHost} {command : String} {readinessTimeout execTimeout retryInterval : ℚ} {restoreReturnNs : Int}
  {attempts : List Attempt}

/-- The attempt that a call after some others gives, in milliseconds since the restore. -/
structure Taken (H : ProbeHost) (restoreReturnNs : Int) (attempts : List Attempt) (a : Attempt) : Prop where
  number : a.number = attempts.length + 1
  classified : a.outcome = classifyAttempt a.returnCode a.stderr
  start : a.startMs = (H.perfCounterNs (2 * attempts.length) - restoreReturnNs : Int) / 1000000
  stop : a.endMs = (H.perfCounterNs (2 * attempts.length + 1) - restoreReturnNs : Int) / 1000000

/-- An iteration raises, or it adds an attempt, and only after a failed one is there another. -/
theorem probeOnce_cases (H : ProbeHost) (command : String) (readinessTimeout execTimeout retryInterval : ℚ)
    (restoreReturnNs : Int) (attempts : List Attempt) :
    let body := probeOnce H command readinessTimeout execTimeout retryInterval restoreReturnNs attempts
    (∃ e, body = .ends (.error e)) ∨
      ∃ a, Taken H restoreReturnNs attempts a ∧
        (body = .ends (.ok (attempts ++ [a])) ∨ body = .again (attempts ++ [a]) ∧ a.succeeded = false) := by
  unfold probeOnce
  cases hexec : H.execCommand attempts.length command execTimeout with
  | error e => exact .inl ⟨e, rfl⟩
  | ok answer =>
    obtain ⟨returnCode, stdout, stderr⟩ := answer
    dsimp only
    split_ifs with hstop hinterval
    · refine .inr ⟨_, ⟨rfl, rfl, rfl, ?_⟩, .inl rfl⟩
      rw [Attempt.endMs, ← add_div]
      push_cast
      ring
    · exact .inl ⟨_, rfl⟩
    · refine .inr ⟨_, ⟨rfl, rfl, rfl, ?_⟩, .inr ⟨rfl, decide_eq_false fun h => hstop (.inl h)⟩⟩
      rw [Attempt.endMs, ← add_div]
      push_cast
      ring

/-- What every attempt keeps as it is added, the attempts of a polling have. -/
theorem ProbeReturns.rule {I : List Attempt → Prop} (hstart : I [])
    (htaken : ∀ attempts a, I attempts → Taken H restoreReturnNs attempts a → I (attempts ++ [a]))
    (h : ProbeReturns H command readinessTimeout execTimeout retryInterval restoreReturnNs attempts) :
    I attempts ∧ ∃ before last, attempts = before ++ [last] ∧ ∀ a ∈ before, a.succeeded = false := by
  let J (attempts : List Attempt) : Prop := I attempts ∧ ∀ a ∈ attempts, a.succeeded = false
  let Q (r : Except PyError (List Attempt)) : Prop := ∀ attempts, r = .ok attempts →
    I attempts ∧ ∃ before last, attempts = before ++ [last] ∧ ∀ a ∈ before, a.succeeded = false
  have hstep (s : List Attempt) (hJ : J s) :
      (∀ s', probeOnce H command readinessTimeout execTimeout retryInterval restoreReturnNs s = .again s' → J s') ∧
        ∀ r, probeOnce H command readinessTimeout execTimeout retryInterval restoreReturnNs s = .ends r → Q r := by
    obtain ⟨hI, hfailed⟩ := hJ
    obtain ⟨e, hbody⟩ | ⟨a, ha, hbody | ⟨hbody, hfail⟩⟩ :=
      probeOnce_cases H command readinessTimeout execTimeout retryInterval restoreReturnNs s
    · rw [hbody]
      refine ⟨fun s' h => (by cases h), fun r h => ?_⟩
      cases h
      intro attempts h
      cases h
    · rw [hbody]
      refine ⟨fun s' h => (by cases h), fun r h => ?_⟩
      cases h
      intro attempts h
      cases h
      exact ⟨htaken s a hI ha, s, a, rfl, hfailed⟩
    · rw [hbody]
      refine ⟨fun s' h => ?_, fun r h => (by cases h)⟩
      cases h
      refine ⟨htaken s a hI ha, fun b hb => ?_⟩
      rcases List.mem_append.mp hb with hb | hb
      · exact hfailed b hb
      · rwa [List.mem_singleton.mp hb]
  exact Ends.rule (Q := Q) (fun s s' hJ => (hstep s hJ).1 s') (fun s r hJ => (hstep s hJ).2 r)
    ⟨hstart, fun _ h => by cases h⟩ h attempts rfl

/-- A polling that is over: one more attempt after those that failed. -/
def Over (attempts : List Attempt) : Prop :=
  ∃ before last, attempts = before ++ [last] ∧ Polled attempts ∧ ∀ a ∈ before, a.succeeded = false

/-- The polling goes on only after a failure, so that no attempt but the last one can have succeeded. -/
theorem over_of_probeReturns
    (h : ProbeReturns H command readinessTimeout execTimeout retryInterval restoreReturnNs attempts) :
    Over attempts := by
  obtain ⟨hpolled, before, last, heq, hfailed⟩ := h.rule (I := Polled) ⟨rfl, fun _ h => by cases h⟩
    fun s a hs ha => hs.append ha.number ha.classified
  exact ⟨before, last, heq, hpolled, hfailed⟩

end run

/-- The last phase ends with the last attempt; what stands before it is in the other phases and in front of it. -/
theorem exists_last_phase (before : List Attempt) (last : Attempt) :
    ∃ front final early, groupPhases (before ++ [last]) = front ++ [final] ∧ final.attempts = early ++ [last] ∧
      (front.map (·.attempts)).flatten ++ early = before := by
  have hflat := flatten_groupPhases (before ++ [last])
  have hne : groupPhases (before ++ [last]) ≠ [] := by
    intro h
    rw [h] at hflat
    exact absurd hflat.symm (List.append_ne_nil_of_right_ne_nil _ (List.cons_ne_nil _ _))
  obtain ⟨front, final, hphases⟩ := (List.eq_nil_or_concat' _).resolve_left hne
  have hfinal : final ∈ groupPhases (before ++ [last]) := hphases ▸ List.mem_append_right _ List.mem_cons_self
  obtain ⟨early, x, hx⟩ := (List.eq_nil_or_concat' _).resolve_left (uniform_of_mem_groupPhases hfinal).nonempty
  rw [hphases, List.map_append, List.flatten_append, List.map_singleton, List.flatten_singleton, hx,
    ← List.append_assoc] at hflat
  obtain ⟨hbefore, hlast⟩ := List.append_inj' hflat rfl
  exact ⟨front, final, early, hphases, (List.cons.inj hlast).1 ▸ hx, hbefore⟩

/-- In the phases of a polling, the label of success tells of every attempt whether it succeeded. -/
theorem outcome_eq_success_iff {attempts : List Attempt} (h : Polled attempts) {p : Phase}
    (hp : p ∈ groupPhases attempts) {a : Attempt} (ha : a ∈ p.attempts) :
    p.outcome = .success ↔ a.succeeded = true := by
  have hmem : a ∈ attempts := by
    rw [← flatten_groupPhases attempts]
    exact List.mem_flatten.mpr ⟨_, List.mem_map_of_mem hp, ha⟩
  rw [← (uniform_of_mem_groupPhases hp).outcome a ha, h.outcome_eq_success_iff hmem]

/-- The phases of a polling that is over: only the last one can be a success, and it is one exactly if the last attempt
succeeded. -/
theorem success_groupPhases {before : List Attempt} {last : Attempt} (hpolled : Polled (before ++ [last]))
    (hfailed : ∀ a ∈ before, a.succeeded = false) :
    ((∃ p ∈ groupPhases (before ++ [last]), p.outcome = .success) ↔ last.succeeded = true) ∧
      ∀ p ∈ groupPhases (before ++ [last]), p.outcome = .success →
        (groupPhases (before ++ [last])).getLast? = some p ∧ p.attempts = [last] := by
  obtain ⟨front, final, early, hphases, hfinal, hbefore⟩ := exists_last_phase before last
  have hlabel {p : Phase} (hp : p ∈ front ++ [final]) {a : Attempt} (ha : a ∈ p.attempts) :
      p.outcome = .success ↔ a.succeeded = true := outcome_eq_success_iff hpolled (hphases ▸ hp) ha
  have hmem : final ∈ front ++ [final] := List.mem_append_right _ List.mem_cons_self
  -- An attempt before the last one has failed, and so its phase is no success.
  have hnot {p : Phase} (hp : p ∈ front ++ [final]) {a : Attempt} (ha : a ∈ p.attempts) (hbefore : a ∈ before) :
      p.outcome ≠ .success := by
    intro h
    have hsucceeded := (hlabel hp ha).mp h
    rw [hfailed a hbefore] at hsucceeded
    cases hsucceeded
  have hfront : ∀ p ∈ front, p.outcome ≠ .success := by
    intro p hp
    have hp' : p ∈ front ++ [final] := List.mem_append_left _ hp
    obtain ⟨a, later, hcons⟩ :=
      List.exists_cons_of_ne_nil (uniform_of_mem_groupPhases (hphases ▸ hp')).nonempty
    have ha : a ∈ p.attempts := hcons ▸ List.mem_cons_self
    refine hnot hp' ha (hbefore ▸ List.mem_append_left _ ?_)
    exact List.mem_flatten.mpr ⟨_, List.mem_map_of_mem hp, ha⟩
  have hlast : final.outcome = .success ↔ last.succeeded = true :=
    hlabel hmem (hfinal ▸ List.mem_append_right _ List.mem_cons_self)
  rw [hphases]
  constructor
  · constructor
    · rintro ⟨p, hp, h⟩
      rcases List.mem_append.mp hp with hp | hp
      · exact absurd h (hfront p hp)
      · rw [List.mem_singleton.mp hp] at h
        exact hlast.mp h
    · intro h
      exact ⟨final, hmem, hlast.mpr h⟩
  · intro p hp h
    rcases List.mem_append.mp hp with hp | hp
    · exact absurd h (hfront p hp)
    · rw [List.mem_singleton.mp hp] at h ⊢
      refine ⟨List.getLast?_concat, ?_⟩
      cases early with
      | nil => exact hfinal
      | cons a early =>
        have ha : a ∈ final.attempts := hfinal ▸ List.mem_append_left _ List.mem_cons_self
        refine absurd h (hnot hmem ha ?_)
        exact hbefore ▸ List.mem_append_right _ List.mem_cons_self

/-- A polling that returns and its phases: nothing is lost, and success can only come last. -/
theorem probe_phases {H : ProbeHost} {command : String} {readinessTimeout execTimeout retryInterval : ℚ}
    {restoreReturnNs : Int} {attempts : List Attempt}
    (h : ProbeReturns H command readinessTimeout execTimeout retryInterval restoreReturnNs attempts) :
    attempts ≠ [] ∧ attempts.map (·.number) = List.range' 1 attempts.length ∧
      (∀ a ∈ attempts.dropLast, a.returnCode ≠ 0) ∧
      (groupPhases attempts).map (·.number) = List.range' 1 (groupPhases attempts).length ∧
      ((groupPhases attempts).map (·.attempts)).flatten = attempts ∧
      (∀ p ∈ groupPhases attempts, p.attempts ≠ [] ∧ ∀ a ∈ p.attempts, a.outcome = p.outcome) ∧
      ((groupPhases attempts).IsChain fun p q => p.outcome ≠ q.outcome) ∧
      ∃ last, attempts.getLast? = some last ∧
        ((∃ p ∈ groupPhases attempts, p.outcome = .success) ↔ last.succeeded = true) ∧
        ∀ p ∈ groupPhases attempts, p.outcome = .success →
          (groupPhases attempts).getLast? = some p ∧ p.attempts = [last] := by
  obtain ⟨before, last, rfl, hpolled, hfailed⟩ := over_of_probeReturns h
  refine ⟨List.append_ne_nil_of_right_ne_nil _ (List.cons_ne_nil _ _), hpolled.numbers, ?_,
    (groupPhases_spec _).1.numbers, flatten_groupPhases _, ?_, isChain_groupPhases _, last,
    List.getLast?_concat, success_groupPhases hpolled hfailed⟩
  · intro a ha
    rw [List.dropLast_concat] at ha
    exact of_decide_eq_false (hfailed a ha)
  · intro p hp
    exact ⟨(uniform_of_mem_groupPhases hp).nonempty, (uniform_of_mem_groupPhases hp).outcome⟩

/-- A server that refuses the first connection. -/
def refusedOnce : ProbeHost where
  perfCounterNs reading := 1000000 * reading
  execCommand call _ _ := if call = 0 then .ok (1, none, some "Connection refused") else .ok (0, some "ready", none)

theorem probe_phases_refusedOnce :
    let attempts : List Attempt := [⟨1, 0, 1, 1, "", "Connection refused", .connectionRefused⟩,
      ⟨2, 2, 1, 0, "ready", "", .success⟩]
    ProbeReturns refusedOnce "true" 5 1 0 0 attempts ∧
      (groupPhases attempts).map (·.outcome) = [.connectionRefused, .success] ∧
      ((groupPhases attempts).map (·.attempts)).flatten = attempts := by
  intro attempts
  have h : ProbeReturns refusedOnce "true" 5 1 0 0 attempts := ⟨2, by decide +kernel⟩
  exact ⟨h, rfl, (probe_phases h).2.2.2.2.1⟩

end StateFork.ExecGap
