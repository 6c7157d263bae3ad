import StateFork.Lib.Loop
import StateFork.Scripts.Timeline

/-!
# Waiting for a server

`wait_for_ready` of `benchmark_all`. It times its steps with the variable from which it measures, so that it compares no
more than two readings of the clock in a row: on a server that never becomes ready it waits without end
(`not_prompt_of_never`).
-/

namespace StateFork.Readiness

open Loop Timeline

/-- The clock and the server: the readings and the answers to the requests, in order. -/
structure ReadyHost where
  time (reading : Nat) : ℚ
  requestUrl (attempt : Nat) : Bool

/-- How the waiting ends. -/
inductive Waited where
  /-- With the seconds that are returned. -/
  | ready (seconds : ℚ)
  /-- With `TimeoutError`; its message names the timeout. -/
  | timedOut (timeout : ℚ)
  | raised (e : PyError)
  deriving DecidableEq

/-- `time.sleep` of a negative number raises. -/
def sleepError : PyError := ⟨.valueError, "sleep length must be non-negative"⟩

section

variable (H : ReadyHost) (interval timeout : ℚ)

/-- The variables of the loop, with the timeline to which it logs. -/
structure Waiting where
  counter : Nat
  start : ℚ
  tm : TimelineManager

/-- One iteration of `wait_for_ready`. It reads the clock three times, and the clock was read once before the loop. -/
def waitOnce (s : Waiting) : Iteration Waiting (Waited × Waiting) :=
  if H.time (3 * s.counter + 1) - s.start < timeout then
    if H.requestUrl s.counter then
      .ends (.ready (H.time (3 * s.counter + 2) - s.start), { s with counter := s.counter + 1 })
    else
      let stepTime := H.time (3 * s.counter + 2) - s.start
      let tm := s.tm.logStep ("Try ".toList ++ Text.decimal (s.counter + 1)) stepTime .network
      if interval < 0 then .ends (.raised sleepError, { s with counter := s.counter + 1, tm := tm })
      else
        .again
          { counter := s.counter + 1
            start := H.time (3 * s.counter + 3)
            tm := tm.logStep "Wait".toList interval .wait }
  else .ends (.timedOut timeout, s)

/-- The variables before the loop. -/
def waitStart (tm : TimelineManager) : Waiting := ⟨0, H.time 0, tm⟩

/-- The waiting ends, right after the first request that succeeds or by a timeout after few attempts. -/
def Prompt (tm : TimelineManager) : Prop :=
  ∃ result s, Ends (waitOnce H interval timeout) (waitStart H tm) (result, s) ∧
    ((∃ seconds, result = .ready seconds) ∧
        (∃ k, s.counter = k + 1 ∧ H.requestUrl k = true ∧ ∀ j < k, H.requestUrl j = false) ∨
      result = .timedOut timeout ∧ (s.counter : Int) ≤ ⌈timeout / interval⌉ + 1)

/-- The time between the reading that sets `start` and the next one, at which the loop compares the two. -/
def gap (k : Nat) : ℚ := H.time (3 * k + 1) - H.time (3 * k)

/-- A request succeeds before the clock jumps by the timeout between two readings, or the clock jumps so soon. -/
def InTime : Prop :=
  ∃ k, (H.requestUrl k = true ∧ ∀ j ≤ k, gap H j < timeout) ∨
    (timeout ≤ gap H k ∧ (k : Int) ≤ ⌈timeout / interval⌉ + 1)

end

section

variable {H : ReadyHost} {interval timeout : ℚ}

/-! ### The iterations -/

variable (H interval) in
/-- The variables after a number of failed attempts. -/
def waitingAt (tm : TimelineManager) : Nat → Waiting
  | 0 => waitStart H tm
  | k + 1 =>
    { counter := k + 1
      start := H.time (3 * k + 3)
      tm := ((waitingAt tm k).tm.logStep ("Try ".toList ++ Text.decimal (k + 1))
        (H.time (3 * k + 2) - (waitingAt tm k).start) .network).logStep "Wait".toList interval .wait }

@[simp] theorem waitingAt_counter (tm : TimelineManager) (k : Nat) : (waitingAt H interval tm k).counter = k := by
  cases k <;> rfl

@[simp] theorem waitingAt_start (tm : TimelineManager) (k : Nat) :
    (waitingAt H interval tm k).start = H.time (3 * k) := by
  cases k <;> rfl

theorem waitOnce_again (hinterval : 0 < interval) (tm : TimelineManager) {k : Nat} (hgap : gap H k < timeout)
    (hrequest : H.requestUrl k = false) :
    waitOnce H interval timeout (waitingAt H interval tm k) = .again (waitingAt H interval tm (k + 1)) := by
  unfold gap at hgap
  unfold waitOnce
  rw [waitingAt_counter, waitingAt_start, if_pos hgap, hrequest, if_neg Bool.false_ne_true]
  dsimp only
  rw [if_neg (not_lt.mpr hinterval.le), waitingAt, waitingAt_start]

theorem waitOnce_ready (tm : TimelineManager) {k : Nat} (hgap : gap H k < timeout) (hrequest : H.requestUrl k = true) :
    waitOnce H interval timeout (waitingAt H interval tm k) =
      .ends (.ready (H.time (3 * k + 2) - H.time (3 * k)), ⟨k + 1, H.time (3 * k), (waitingAt H interval tm k).tm⟩) := by
  unfold gap at hgap
  unfold waitOnce
  rw [waitingAt_counter, waitingAt_start, if_pos hgap, hrequest, if_pos rfl]

theorem waitOnce_timedOut (tm : TimelineManager) {k : Nat} (hgap : timeout ≤ gap H k) :
    waitOnce H interval timeout (waitingAt H interval tm k) = .ends (.timedOut timeout, waitingAt H interval tm k) := by
  unfold gap at hgap
  unfold waitOnce
  rw [waitingAt_counter, waitingAt_start, if_neg (not_lt.mpr hgap)]

variable (H timeout) in
/-- The loop does not go on from its `k`-th iteration. -/
def Stops (k : Nat) : Prop := timeout ≤ gap H k ∨ H.requestUrl k = true

instance : DecidablePred (Stops H timeout) := fun _ => inferInstanceAs (Decidable (_ ∨ _))

theorem not_stops_iff {k : Nat} : ¬ Stops H timeout k ↔ gap H k < timeout ∧ H.requestUrl k = false := by
  rw [Stops, not_or, not_le, Bool.not_eq_true]

theorem again_of_not_stops (hinterval : 0 < interval) (tm : TimelineManager) {k : Nat} (h : ¬ Stops H timeout k) :
    waitOnce H interval timeout (waitingAt H interval tm k) = .again (waitingAt H interval tm (k + 1)) :=
  waitOnce_again hinterval tm (not_stops_iff.mp h).1 (not_stops_iff.mp h).2

/-- The first iteration that stops decides how the waiting ends. -/
theorem ends_first (hinterval : 0 < interval) (tm : TimelineManager) {k : Nat} (hk : Stops H timeout k)
    (hbefore : ∀ j < k, ¬ Stops H timeout j) :
    ∃ result s, Ends (waitOnce H interval timeout) (waitStart H tm) (result, s) ∧
      (gap H k < timeout ∧ (∃ seconds, result = .ready seconds) ∧ s.counter = k + 1 ∨
        timeout ≤ gap H k ∧ result = .timedOut timeout ∧ s.counter = k) := by
  have hagain : ∀ j < k, waitOnce H interval timeout (waitingAt H interval tm j) =
      .again (waitingAt H interval tm (j + 1)) := fun j hj => again_of_not_stops hinterval tm (hbefore j hj)
  rcases lt_or_ge (gap H k) timeout with hgap | hgap
  · have hrequest := hk.resolve_left (not_le.mpr hgap)
    exact ⟨_, _, ends_of_again hagain (waitOnce_ready tm hgap hrequest), .inl ⟨hgap, ⟨_, rfl⟩, rfl⟩⟩
  · exact ⟨_, _, ends_of_again hagain (waitOnce_timedOut tm hgap), .inr ⟨hgap, rfl, waitingAt_counter tm k⟩⟩

/-- A loop that stops nowhere waits for ever. -/
theorem exists_stops_of_ends (hinterval : 0 < interval) {tm : TimelineManager} {r : Waited × Waiting}
    (h : Ends (waitOnce H interval timeout) (waitStart H tm) r) : ∃ k, Stops H timeout k := by
  by_contra hnever
  rw [not_exists] at hnever
  have hagain : ∀ k, waitOnce H interval timeout (waitingAt H interval tm k) = .again (waitingAt H interval tm (k + 1)) :=
    fun k => again_of_not_stops hinterval tm (hnever k)
  exact not_ends_of_again hagain h

/-- The waiting is prompt exactly if a request succeeds, or the clock jumps, in time. -/
theorem prompt_iff (hinterval : 0 < interval) (tm : TimelineManager) :
    Prompt H interval timeout tm ↔ InTime H interval timeout := by
  constructor
  · rintro ⟨result, s, hends, hprompt⟩
    have hstops := exists_stops_of_ends hinterval hends
    have hbefore {j : Nat} (hj : j < Nat.find hstops) := not_stops_iff.mp (Nat.find_min hstops hj)
    obtain ⟨result', s', hends', hfirst⟩ := ends_first hinterval tm (Nat.find_spec hstops) fun j => Nat.find_min hstops
    cases hends.unique hends'
    refine ⟨Nat.find hstops, ?_⟩
    rcases hfirst with ⟨hgap, -, -⟩ | ⟨hgap, rfl, hcounter⟩
    · refine .inl ⟨(Nat.find_spec hstops).resolve_left (not_le.mpr hgap), fun j hj => ?_⟩
      rcases hj.lt_or_eq with hj | rfl
      · exact (hbefore hj).1
      · exact hgap
    · rcases hprompt with ⟨⟨seconds, hready⟩, -⟩ | ⟨-, hbound⟩
      · cases hready
      · exact .inr ⟨hgap, hcounter ▸ hbound⟩
  · rintro ⟨k, hk⟩
    have hstops : ∃ k, Stops H timeout k := ⟨k, hk.elim (fun h => .inr h.1) fun h => .inl h.1⟩
    have hle : Nat.find hstops ≤ k := Nat.find_min' hstops (hk.elim (fun h => .inr h.1) fun h => .inl h.1)
    have hbefore {j : Nat} (hj : j < Nat.find hstops) := not_stops_iff.mp (Nat.find_min hstops hj)
    obtain ⟨result, s, hends, hfirst⟩ := ends_first hinterval tm (Nat.find_spec hstops) fun j => Nat.find_min hstops
    refine ⟨result, s, hends, ?_⟩
    rcases hfirst with ⟨hgap, hready, hcounter⟩ | ⟨hgap, htimedOut, hcounter⟩
    · exact .inl ⟨hready, _, hcounter, (Nat.find_spec hstops).resolve_left (not_le.mpr hgap), fun j hj => (hbefore hj).2⟩
    · refine .inr ⟨htimedOut, ?_⟩
      rcases hk with ⟨-, hgaps⟩ | ⟨-, hbound⟩
      · exact absurd hgap (not_le.mpr (hgaps _ hle))
      · rw [hcounter]
        exact le_trans (by exact_mod_cast hle) hbound

/-- A server that is ready at once. -/
def readyHost : ReadyHost where
  time reading := reading / 1000
  requestUrl _ := true

theorem prompt_readyHost : Prompt readyHost (1 / 500) 5 { file := [] } := by
  refine (prompt_iff (by norm_num) _).mpr ⟨0, .inl ⟨rfl, fun j hj => ?_⟩⟩
  rw [Nat.le_zero.mp hj]
  norm_num [gap, readyHost]

variable (H interval) in
/-- The clock never goes back, and by the interval at least it goes on between two readings that `start` is set to. -/
def Advances : Prop := Monotone H.time ∧ ∀ k, H.time (3 * k) + interval ≤ H.time (3 * (k + 1))

/-- A server that never becomes ready, behind a clock that goes on by a millisecond between two readings. -/
def neverReady : ReadyHost where
  time reading := reading / 1000
  requestUrl _ := false

theorem not_prompt_of_never : Advances neverReady (1 / 500) ∧ ¬ Prompt neverReady (1 / 500) 5 { file := [] } := by
  refine ⟨⟨fun a b hab => ?_, fun k => ?_⟩, ?_⟩
  · have : (a : ℚ) ≤ b := by exact_mod_cast hab
    show (a : ℚ) / 1000 ≤ b / 1000
    linarith
  · show ((3 * k : ℕ) : ℚ) / 1000 + 1 / 500 ≤ ((3 * (k + 1) : ℕ) : ℚ) / 1000
    push_cast
    linarith
  · rintro ⟨result, s, hends, -⟩
    obtain ⟨k, hgap | hrequest⟩ := exists_stops_of_ends (by norm_num) hends
    · have hgap : (5 : ℚ) ≤ ((3 * k + 1 : ℕ) : ℚ) / 1000 - ((3 * k : ℕ) : ℚ) / 1000 := hgap
      push_cast at hgap
      linarith
    · cases hrequest

end

end StateFork.Readiness
