import StateFork.Sequential.Backend

/-!
# A backend that executes

A `Tape` is a world whose environment is the list of the commands that were executed on it. The ids
and the decider's answers are read off lists, and the clock ticks once at every reading. On the
`backend` a command has its effect also when it returns non-zero, as `false` does. On the `flaky`
backend the return codes of the commands to come are read off a list, and a command that fails has no
effect.
-/

namespace StateFork

structure Tape where
  env : List Command := []
  saved : Dict String (List Command) := .empty
  clock : ℚ := 0
  ids : List String := []
  verdicts : List Bool := []
  codes : List Int := []

namespace Tape

def exec (c : Command) (w : Tape) : Except PyError (Int × String × String) × Tape :=
  (.ok (if c = .line "false" then 1 else 0, "", ""), { w with env := w.env ++ [c] })

/-- The next code decides whether the command has its effect. -/
def flakyExec (c : Command) (w : Tape) : Except PyError (Int × String × String) × Tape :=
  let code := w.codes.headD 0
  (.ok (code, "", ""),
    { w with env := if code = 0 then w.env ++ [c] else w.env, codes := w.codes.tail })

def snapshot (w : Tape) : Except PyError (Option (String × String) × ℚ) × Tape :=
  match w.ids with
  | [] => (.ok (none, 0), w)
  | id :: ids => (.ok (some (id, id), 1), { w with saved := w.saved.set id w.env, ids })

def restore (snapshotId : String) (w : Tape) : Except PyError (Bool × ℚ) × Tape :=
  match w.saved.get? snapshotId with
  | none => (.ok (false, 0), w)
  | some env => (.ok (true, 1), { w with env })

def backend : SequentialBackend Tape where
  snapshot _ := snapshot
  restore snapshotId _ _ := restore snapshotId
  exec c _ _ := exec c
  copy _ _ _ _ w := (.ok (true, ""), w)
  cleanup w := (.ok none, w)
  decide _ w := (w.verdicts.headD true, { w with verdicts := w.verdicts.tail })
  time w := (w.clock, { w with clock := w.clock + 1 })
  uuid4Hex w := (w.ids.headD "", { w with ids := w.ids.tail })

/-- A tape right after its snapshot `base` was taken. -/
def start (ids : List String) (verdicts : List Bool) (codes : List Int) : Tape :=
  { saved := Dict.empty.set "base" [], ids, verdicts, codes }

def flaky : SequentialBackend Tape := { backend with exec := fun c _ _ => flakyExec c }

end Tape

end StateFork
