import StateFork.Forkable.Usable
import StateFork.Waypoint.ForkLine

/-!
# Timeouts of `waypoint exec`

`_exec_raw` appends its marker to the output that a `TimeoutExpired` carries. That output is bytes, so that the marker
can only be appended where nothing was captured; else the handler raises itself, and the template takes it for a
backend failure. The templates hand the outputs through as they are, which `execBranchAs` says for any type of output.
-/

namespace StateFork

open Conc Conc.Prog

namespace EnvironmentManager

variable {W ω : Type} (text : String → ω) (time : M W ℚ)

/-- `_exec_branch`, for a hook with outputs of any type. -/
def execBranchAs (coreExec : M W (Int × ω × ω)) (branchId : String) (command : Command) : M W (Int × ω × ω) := do
  let state ← getBranchState (some branchId)
  announce (.lookedUp state)
  withLock (.operation state) do
    let active ← readState fun m => (m.record state).active
    if active then
      let start ← time
      announce (.call .exec state)
      let result ← coreExec.attempt
      let stop ← time
      match result with
      | .error e =>
        logCommand branchId state command (stop - start) 0
        return (-1, text "", text e.text)
      | .ok (returncode, stdout, stderr) =>
        logCommand branchId state command (stop - start) (stop - start)
        return (returncode, stdout, stderr)
    else return (-1, text "", text ("Branch " ++ branchId ++ " is no longer active."))

/-- The template of the base class is the one for outputs that are text. -/
theorem execBranch_eq (H : Hooks W) (branchId : String) (command : Command) (timeout : Option ℚ) :
    execBranch H branchId command timeout =
      execBranchAs id H.time (H.coreExec command timeout branchId) branchId command := by
  refine bind_congr fun state => bind_congr fun _ => congrArg (withLock _) (bind_congr fun active => ?_)
  split
  · refine bind_congr fun start => bind_congr fun _ => bind_congr fun result => bind_congr fun stop => ?_
    rcases result with e | ⟨returncode, stdout, stderr⟩
    · rfl
    · rfl
  · rfl

/-- `exec_command` -/
def execCommandAs (coreExec : String → M W (Int × ω × ω)) (command : Command) : M W (Int × ω × ω) :=
  withLock .currentBranch do
    let branchId ← getCurrentBranchId
    execBranchAs text time (coreExec branchId) branchId command

/-- `exec_on_branch` -/
def execOnBranchAs (coreExec : M W (Int × ω × ω)) (branchId : String) (command : Command) : M W (Int × ω × ω) := do
  if ← ForkableEnvironmentManager.isLive branchId then
    ForkableEnvironmentManager.onKeyError (execBranchAs text time coreExec branchId command)
      (-1, text "", text ("Branch " ++ branchId ++ " is no longer registered."))
  else return (-1, text "", text ("Branch " ++ branchId ++ " not found."))

variable {text} {s : Sys W} {b : String} {c : Command}

end EnvironmentManager

/-! ### `_exec_raw` -/

/-- A Python value in the place of an output. -/
inductive Output where
  | text (s : String)
  | bytes (b : List UInt8)
  deriving DecidableEq

/-- `captured or ""` -/
def Output.orEmpty : Option (List UInt8) → Output
  | none => .text ""
  | some [] => .text ""
  | some (byte :: rest) => .bytes (byte :: rest)

/-- `shlex.quote` -/
def shlexQuote (word : String) : String :=
  let safe (c : Char) : Bool := c.isAlphanum || c ∈ "_@%+=:,./-".toList
  if word = "" then "''"
  else if word.toList.all safe then word
  else "'" ++ String.join (word.toList.map fun c => if c = Char.ofNat 39 then "'\"'\"'" else c.toString) ++ "'"

/-- `command if isinstance(command, str) else shlex.join(command)` -/
def Command.toShell : Command → String
  | .line text => text
  | .argv words => " ".intercalate (words.map shlexQuote)

/-- What `_exec_raw` needs of a session. -/
structure WaypointShell (W : Type) where
  sessionId : String
  exec (branchId command : String) (timeout : Option ℚ) : W → Process × W
  time : W → ℚ × W
  /-- `str(timeout)`, which tells integers from floats. -/
  showTimeout : Option ℚ → String

namespace WaypointShell

variable {W : Type} (sh : WaypointShell W)

def marker (timeout : Option ℚ) : String := "\n[timeout after " ++ sh.showTimeout timeout ++ "s]"

/-- The process of a command, unless there is no session for it. -/
def process (branchId : String) (command : Command) (timeout : Option ℚ) (w : W) : Option Process × W :=
  if sh.sessionId = "" then (none, w)
  else
    let (p, w) := sh.exec branchId command.toShell timeout w
    (some p, w)

/-- What `_exec_raw` makes of it. -/
def answer (timeout : Option ℚ) : Option Process → Except PyError (Int × Output × Output)
  | none => .ok (-1, .text "", .text "No session_id available")
  | some (.exited returncode stdout stderr) => .ok (returncode, .text stdout, .text stderr)
  | some (.timedOut stdout stderr) =>
    match Output.orEmpty stderr with
    | .text stderr => .ok (-2, .orEmpty stdout, .text (stderr ++ sh.marker timeout))
    -- the sum of bytes and text raises out of the handler
    | .bytes _ => .error ⟨.other, "can't concat str to bytes"⟩
  | some (.raised e) => .ok (-1, .text "", .text e.text)

/-- `_exec_raw` -/
def execRaw (branchId : String) (command : Command) (timeout : Option ℚ) (w : W) :
    Except PyError (Int × Output × Output) × W :=
  let (p, w) := sh.process branchId command timeout w
  (sh.answer timeout p, w)

open EnvironmentManager

def execCommand (command : Command) (timeout : Option ℚ) : M W (Int × Output × Output) :=
  execCommandAs .text (world sh.time) (fun branchId => tryWorld (sh.execRaw branchId command timeout) fun _ => []) command

def execOnBranch (branchId : String) (command : Command) (timeout : Option ℚ) : M W (Int × Output × Output) :=
  execOnBranchAs .text (world sh.time) (tryWorld (sh.execRaw branchId command timeout) fun _ => []) branchId command

/-- The result says how the process ended: a timeout comes with the captured part of stderr and the marker behind it. -/
def Tells (timeout : Option ℚ) : Option Process → Except PyError (Int × Output × Output) → Prop
  | none, _ => True
  | some (.exited returncode stdout stderr), x => x = .ok (returncode, .text stdout, .text stderr)
  | some (.timedOut _ captured), x => ∃ stdout stderr,
      x = .ok (-2, .text stdout, .text (stderr ++ sh.marker timeout)) ∧ stderr.toUTF8.data.toList = captured.getD []
  | some (.raised _), x => ∃ stdout stderr, x = .ok (-1, .text stdout, .text stderr)

variable {sh}

end WaypointShell

/-- A session whose processes end as listed. -/
def WaypointShell.scripted : WaypointShell (List Process) where
  sessionId := "s-01"
  exec _ _ _ w := (w.headD (.exited 0 "" ""), w.tail)
  time w := (0, w)
  showTimeout _ := "1.0"

end StateFork
