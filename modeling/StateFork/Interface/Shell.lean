import StateFork.Lib.Numeral
import StateFork.Controller.Forkable
import StateFork.Sequential.Tape

/-!
# The interactive shell

`interactive_shell` matches a line against its commands one after the other, and some of them are tested as prefixes of
the line. The shell runs as a program over the system of its manager; it keeps the calls that it makes of the manager
and what it prints. `ExecutesVerbatim` says that a line goes to `exec_command` as it is.
-/

namespace StateFork

open Conc Conc.Prog

/-- A call of the manager, or of its statistics. -/
inductive ShellCall where
  | op (op : PublicOp)
  | printStats
  | printHistory
  | printSizeDetails
  deriving DecidableEq

/-- The manager of a shell. -/
structure ShellManager (W : Type) where
  backend : String
  /-- The hooks, of a manager of either class. -/
  hooks : Hooks W ⊕ ForkHooks W
  recursionLimit : Nat
  /-- The texts of the statistics, which the shell only prints. -/
  printStats : Sys W → String
  printHistory : Sys W → String
  printSizeDetails : Sys W → String

structure ShellState (W : Type) where
  needCmdHeading : Bool := true
  calls : List ShellCall := []
  printed : List String := []
  sys : Sys W

/-- Code of the shell. -/
abbrev ShellM (W α : Type) := Prog (ShellState W) Lock Event PyError α

namespace ShellManager

variable {W α : Type} (m : ShellManager W)

def print (text : String) : ShellM W Unit := access fun s => ((), { s with printed := s.printed ++ [text] })

def setHeading (need : Bool) : ShellM W Unit := access fun s => ((), { s with needCmdHeading := need })

/-- A call of the manager, which may raise. -/
def call (c : ShellCall) (p : M W α) : ShellM W α :=
  attemptAccess fun s => ((p.run s.sys).1, { s with calls := s.calls ++ [c], sys := (p.run s.sys).2 })

/-- The manager as an `EnvironmentManager`. -/
def base : Hooks W := m.hooks.elim id ForkHooks.toHooks

def currentBranchId : ShellM W String := call (.op .currentBranchId) EnvironmentManager.getCurrentBranchId

/-! ### The commands -/

def availableCommands : List String :=
  ["snapshot [fork] [--park]", "restore <id>", "cmd <command>", "fork <id> [n]", "forks", "fexec <fork> <cmd>",
    "destroy <fork>", "tree", "stats", "history", "storage", "exit", "set"]

def printAvailable : ShellM W Unit := print ("Available commands: " ++ ", ".intercalate availableCommands)

/-- `has_fork_api`, with the hooks that the branch operations need. -/
def hasForkApi : ShellM W (Option (ForkHooks W)) :=
  m.hooks.elim
    (fun _ => do
      print ("This command requires a forkable backend (current: " ++ m.backend ++ ").")
      return none)
    fun F => return some F

/-- One of the streams of a command. -/
def printStream (name text : String) : ShellM W Unit :=
  if Text.strip text.toList = [] then return ()
  else do
    print ("--- " ++ name ++ " ---")
    print (String.ofList (Text.strip text.toList))

def executeCommand (commandText : List Char) : ShellM W Unit := do
  let command := Command.line (String.ofList commandText)
  let (_, out, err) ← call (.op (.execCommand command none)) (EnvironmentManager.execCommand m.base command none)
  printStream "stdout" out
  printStream "stderr" err

/-- What stands behind the first blank of a line. -/
def argument (cmd : List Char) : List Char := ((Text.partition ' ' cmd).map Prod.snd).getD []

def snapshotCommand (cmd : List Char) : ShellM W Unit := do
  let tokens := (Text.words cmd).tail
  let park := decide ("--park".toList ∈ tokens)
  let rest := tokens.filter (· ≠ "--park".toList)
  if rest.length > 1 then print "Usage: snapshot [fork_id] [--park]"
  else
    let fid := rest.head?.map String.ofList
    if fid.isSome ∨ park then
      match ← m.hasForkApi with
      | none => return ()
      | some F =>
        let target ← fid.elim currentBranchId pure
        let sid ← call (.op (.snapshotBranch target park)) (ForkableEnvironmentManager.snapshotBranch F target park)
        let sid := sid.getD ""
        if sid = "" then print (if park then "Park failed." else "Snapshot failed.")
        else if park then
          print ("Fork " ++ target ++ " parked as snapshot " ++ sid)
          if fid.isNone then
            let current ← currentBranchId
            print ("Current branch: " ++ current)
        else print ("Snapshot created: " ++ sid)
    else
      let sid ← call (.op .snapshot) (EnvironmentManager.snapshot m.base)
      let sid := sid.getD ""
      if sid = "" then print "Snapshot failed." else print ("Snapshot created: " ++ sid)

def restoreCommand (cmd : List Char) : ShellM W Unit := do
  let sid := String.ofList (argument cmd)
  if sid = "" then print "Usage: restore <snapshot_id>"
  else
    let ok ← call (.op (.restore sid)) (EnvironmentManager.restore m.base sid)
    print (if ok then "Restored to snapshot " ++ sid else "Restore failed for " ++ sid ++ ".")
    if ok ∧ m.hooks.isRight then
      let current ← currentBranchId
      print ("Current branch: " ++ current)

def cmdCommand (cmd : List Char) : ShellM W Unit :=
  if argument cmd = [] then print "Usage: cmd <command>" else m.executeCommand (argument cmd)

def forksCommand : ShellM W Unit := do
  match ← m.hasForkApi with
  | none => return ()
  | some F =>
    let forks ← call (.op .listBranches) (ForkableEnvironmentManager.listBranches F)
    if forks = [] then print "No live forks."
    each forks fun f => do
      let current ← currentBranchId
      let marker := if f.id = current then " (current)" else ""
      print ("- " ++ f.id ++ marker ++ ": base=" ++ f.baseSnapshotId ++ " status=" ++ f.status)

def forkUsage : String := "Usage: fork <snapshot_id> [n]"

def forkCommand (cmd : List Char) : ShellM W Unit := do
  match ← m.hasForkApi with
  | none => return ()
  | some F =>
    match Text.words cmd with
    | _ :: snapshotId :: rest =>
      match rest.head?.elim (some 1) Text.int with
      | none => print forkUsage
      | some n =>
        let snapshotId := String.ofList snapshotId
        let forks ← call (.op (.fork snapshotId n none)) (ForkableEnvironmentManager.fork F snapshotId n none)
        each forks fun f => print ("Forked " ++ f.id ++ " from " ++ f.baseSnapshotId)
        if forks = [] then print "Fork failed."
    | _ => print forkUsage

def fexecCommand (cmd : List Char) : ShellM W Unit := do
  match ← m.hasForkApi with
  | none => return ()
  | some F =>
    let rest := Text.strip (argument cmd)
    let forkId := String.ofList (((Text.partition ' ' rest).map Prod.fst).getD rest)
    let commandText := String.ofList (argument rest)
    if forkId = "" ∨ commandText = "" then print "Usage: fexec <fork_id> <command>"
    else
      let command := Command.line commandText
      let (rc, out, err) ← call (.op (.execOnBranch forkId command none))
        (ForkableEnvironmentManager.execOnBranch F forkId command none)
      printStream "stdout" out
      printStream "stderr" err
      if rc ≠ 0 then print ("(exit code " ++ toString rc ++ ")")

def destroyCommand (cmd : List Char) : ShellM W Unit := do
  match ← m.hasForkApi with
  | none => return ()
  | some F =>
    let forkId := String.ofList (Text.strip (argument cmd))
    if forkId = "" then print "Usage: destroy <fork_id>"
    else
      let ok ← call (.op (.discardBranch forkId)) (ForkableEnvironmentManager.discardBranch F forkId)
      print (if ok then "Fork " ++ forkId ++ " destroyed." else "Failed to destroy fork " ++ forkId ++ ".")

def treeCommand : ShellM W Unit := do
  let tree ← call (.op (.printSnapshotTree m.recursionLimit)) (EnvironmentManager.printSnapshotTree m.recursionLimit)
  print tree

/-- One of the texts of the statistics. -/
def statisticsCommand (c : ShellCall) (text : Sys W → String) : ShellM W Unit := do
  let text ← call c (Prog.read text)
  print text

def exitCommand : ShellM W Unit := do
  statisticsCommand .printStats m.printStats
  print "Cleaning up resources..."
  let _ ← call (.op .cleanup) (EnvironmentManager.cleanup m.base)

def setCommand (cmd : List Char) : ShellM W Unit := do
  let config := String.ofList (argument cmd)
  if config = "" then print "Usage: set <config>"
  else if config = "cmd off" then
    setHeading false
    print "Command input heading turned OFF."
  else if config = "cmd on" then
    setHeading true
    print "Command input heading turned ON."
  else print ("Unknown config: " ++ config)

/-- The last arm: a line that is no command. -/
def otherCommand (cmd : List Char) : ShellM W Unit := do
  let need ← Prog.read fun s => s.needCmdHeading
  if need then
    print ("Unknown command: " ++ String.ofList cmd)
    printAvailable
  else m.executeCommand cmd

/-! ### The loop -/

/-- `cmd.startswith(name)` -/
abbrev StartsWith (cmd : List Char) (name : String) : Prop := name.toList <+: cmd

/-- One iteration of the loop, for a line that has been stripped; whether the loop is left. -/
def dispatch (cmd : List Char) : ShellM W Bool :=
  let goOn (p : ShellM W Unit) : ShellM W Bool := p >>= fun _ => return false
  if cmd = "snapshot".toList ∨ StartsWith cmd "snapshot " then goOn (m.snapshotCommand cmd)
  else if StartsWith cmd "restore" then goOn (m.restoreCommand cmd)
  else if StartsWith cmd "cmd" then goOn (m.cmdCommand cmd)
  else if cmd = "forks".toList then goOn m.forksCommand
  else if StartsWith cmd "fork" then goOn (m.forkCommand cmd)
  else if StartsWith cmd "fexec" then goOn (m.fexecCommand cmd)
  else if StartsWith cmd "destroy" then goOn (m.destroyCommand cmd)
  else if cmd = "tree".toList then goOn m.treeCommand
  else if cmd = "stats".toList then goOn (statisticsCommand .printStats m.printStats)
  else if cmd = "history".toList then goOn (statisticsCommand .printHistory m.printHistory)
  else if cmd = "storage".toList then goOn (statisticsCommand .printSizeDetails m.printSizeDetails)
  else if cmd = "exit".toList then m.exitCommand >>= fun _ => return true
  else if StartsWith cmd "set" then goOn (setCommand cmd)
  else goOn (m.otherCommand cmd)

/-! ### What a command calls -/

section Logs

variable {P : ShellCall → Prop} {β : Type}

/-- All calls that a piece of code makes have a property. -/
def Logs (P : ShellCall → Prop) (p : ShellM W α) : Prop :=
  ∀ s, ∃ new, (p.run s).2.calls = s.calls ++ new ∧ ∀ c ∈ new, P c

theorem logs_of_calls_eq {p : ShellM W α} (h : ∀ s, (p.run s).2.calls = s.calls) : Logs P p :=
  fun s => ⟨[], by rw [h, List.append_nil], fun _ hc => absurd hc List.not_mem_nil⟩

theorem logs_pure (a : α) : Logs P (pure a : ShellM W α) := logs_of_calls_eq fun _ => rfl

theorem logs_print (text : String) : Logs P (print text : ShellM W Unit) := logs_of_calls_eq fun _ => rfl

theorem logs_setHeading (need : Bool) : Logs P (setHeading need : ShellM W Unit) := logs_of_calls_eq fun _ => rfl

theorem logs_call {c : ShellCall} (hc : P c) (p : M W α) : Logs P (call c p) := by
  intro s
  refine ⟨[c], ?_, fun c' hc' => List.mem_singleton.mp hc' ▸ hc⟩
  rw [call, run_attemptAccess]

theorem logs_bind {p : ShellM W α} {f : α → ShellM W β} (hp : Logs P p) (hf : ∀ a, Logs P (f a)) :
    Logs P (p >>= f) := by
  intro s
  obtain ⟨new, hnew, hP⟩ := hp s
  rw [run_bind]
  rcases hr : p.run s with ⟨e | a, s'⟩
  · rw [hr] at hnew
    exact ⟨new, hnew, hP⟩
  · rw [hr] at hnew
    obtain ⟨later, hlater, hP'⟩ := hf a s'
    refine ⟨new ++ later, ?_, fun c hc => (List.mem_append.mp hc).elim (hP c) (hP' c)⟩
    rw [run_afterValue_ok, hlater, hnew, List.append_assoc]

theorem logs_ite {c : Prop} [Decidable c] {p q : ShellM W α} (hp : Logs P p) (hq : Logs P q) :
    Logs P (if c then p else q) := by
  split_ifs
  · exact hp
  · exact hq

theorem logs_each {f : α → ShellM W Unit} (hf : ∀ a, Logs P (f a)) (l : List α) : Logs P (each l f) := by
  induction l with
  | nil => exact logs_pure ()
  | cons a l ih => exact logs_bind (hf a) fun _ => ih

theorem logs_hasForkApi : Logs P m.hasForkApi := by
  unfold hasForkApi
  rcases m.hooks with H | F
  · exact logs_bind (logs_print _) fun _ => logs_pure _
  · exact logs_pure _

/-- A command that needs a forkable backend. -/
theorem logs_forkable {f : Option (ForkHooks W) → ShellM W α} (hnone : Logs P (f none)) (hsome : ∀ F, Logs P (f (some F))) :
    Logs P (m.hasForkApi >>= f) := by
  refine logs_bind (logs_hasForkApi m) fun api => ?_
  rcases api with _ | F
  · exact hnone
  · exact hsome F

theorem logs_printStream (name text : String) : Logs P (printStream name text : ShellM W Unit) :=
  logs_ite (logs_pure _) (logs_bind (logs_print _) fun _ => logs_print _)

theorem logs_currentBranchId (h : P (.op .currentBranchId)) : Logs P (currentBranchId : ShellM W String) := logs_call h _

/-- A call other than `exec_command`. -/
def NotExec (c : ShellCall) : Prop := ∀ command timeout, c ≠ .op (.execCommand command timeout)

theorem logs_restoreCommand (cmd : List Char) : Logs NotExec (m.restoreCommand cmd) := by
  refine logs_ite (logs_print _) ?_
  refine logs_bind (logs_call (fun _ _ => by simp) _) fun ok => logs_bind (logs_print _) fun _ => ?_
  refine logs_ite ?_ (logs_pure _)
  exact logs_bind (logs_currentBranchId fun _ _ => by simp) fun _ => logs_print _

theorem logs_forkCommand (cmd : List Char) : Logs NotExec (m.forkCommand cmd) := by
  refine m.logs_forkable (logs_pure _) fun F => ?_
  dsimp only
  rcases Text.words cmd with _ | ⟨_, _ | ⟨snapshotId, rest⟩⟩
  · exact logs_print _
  · exact logs_print _
  · dsimp only
    rcases rest.head?.elim (some 1) Text.int with _ | n
    · exact logs_print _
    · refine logs_bind (logs_call (fun _ _ => by simp) _) fun forks => ?_
      refine logs_bind (logs_each (fun f => logs_print _) forks) fun _ => ?_
      exact logs_ite (logs_print _) (logs_pure _)

theorem logs_fexecCommand (cmd : List Char) : Logs NotExec (m.fexecCommand cmd) := by
  refine m.logs_forkable (logs_pure _) fun F => logs_ite (logs_print _) ?_
  refine logs_bind (logs_call (fun _ _ => by simp) _) fun result => ?_
  refine logs_bind (logs_printStream _ _) fun _ => logs_bind (logs_printStream _ _) fun _ => ?_
  exact logs_ite (logs_print _) (logs_pure _)

theorem logs_destroyCommand (cmd : List Char) : Logs NotExec (m.destroyCommand cmd) := by
  refine m.logs_forkable (logs_pure _) fun F => logs_ite (logs_print _) ?_
  exact logs_bind (logs_call (fun _ _ => by simp) _) fun ok => logs_print _

theorem logs_setCommand (cmd : List Char) : Logs NotExec (setCommand cmd : ShellM W Unit) := by
  refine logs_ite (logs_print _) (logs_ite ?_ (logs_ite ?_ (logs_print _)))
  · exact logs_bind (logs_setHeading _) fun _ => logs_print _
  · exact logs_bind (logs_setHeading _) fun _ => logs_print _

theorem run_printStream (name text : String) (s : ShellState W) :
    ∃ printed, (printStream name text).run s = (.ok (), { s with printed }) := by
  unfold printStream
  split_ifs
  · exact ⟨s.printed, rfl⟩
  · exact ⟨_, rfl⟩

/-- The call of `exec_command` with a text. -/
def execCall (commandText : List Char) : ShellCall := .op (.execCommand (.line (String.ofList commandText)) none)

/-- A command is executed as it is written, and what it leaves behind is only printed. -/
theorem run_executeCommand (commandText : List Char) (s : ShellState W) :
    let r := (EnvironmentManager.execCommand m.base (.line (String.ofList commandText)) none).run s.sys
    ∃ printed, (m.executeCommand commandText).run s =
      (r.1.map fun _ => (), { s with calls := s.calls ++ [execCall commandText], sys := r.2, printed }) := by
  intro r
  unfold executeCommand
  rw [run_bind, call, run_attemptAccess]
  rcases hr : (EnvironmentManager.execCommand m.base (.line (String.ofList commandText)) none).run s.sys with
    ⟨e | ⟨rc, out, err⟩, sys⟩
  · refine ⟨s.printed, ?_⟩
    simp only [r, hr]
    rfl
  · obtain ⟨printed, hout⟩ := run_printStream "stdout" out { s with calls := s.calls ++ [execCall commandText], sys }
    obtain ⟨printed', herr⟩ := run_printStream "stderr" err
      { s with calls := s.calls ++ [execCall commandText], sys, printed }
    refine ⟨printed', ?_⟩
    simp only [r, hr, run_afterValue_ok]
    exact (run_bind_ok hout _).trans herr

/-- A prefix test hands on a part of the line only. -/
theorem logs_cmdCommand (cmd : List Char) : Logs (· ≠ execCall cmd) (m.cmdCommand cmd) := by
  unfold cmdCommand
  split_ifs with hnone
  · exact logs_print _
  · intro s
    obtain ⟨printed, hrun⟩ := m.run_executeCommand (argument cmd) s
    refine ⟨[execCall (argument cmd)], by rw [hrun], fun c hc => ?_⟩
    obtain rfl := List.mem_singleton.mp hc
    intro heq
    have hargument : argument cmd = cmd := by
      unfold execCall at heq
      injection heq with heq
      injection heq with heq
      injection heq with heq
      exact String.ofList_injective heq
    unfold argument at hargument hnone
    rcases hcut : Text.partition ' ' cmd with _ | ⟨a, b⟩
    · rw [hcut] at hnone
      exact hnone rfl
    · rw [hcut] at hargument
      have hlength := congrArg List.length (Text.eq_of_partition hcut)
      have hb : b = cmd := hargument
      rw [List.length_append, List.length_cons, hb] at hlength
      omega

end Logs

/-! ### Lines that are no commands -/

/-- The first words of the commands. -/
def commandWords : List String :=
  ["snapshot", "restore", "cmd", "fork", "forks", "fexec", "destroy", "tree", "stats", "history", "storage", "exit", "set"]

/-- The commands that are tested as prefixes of a line. -/
def prefixTests : List String := ["restore", "cmd", "fork", "fexec", "destroy", "set"]

/-- A line with a first word, which is not one of a command. -/
def Unrecognized (line : List Char) : Prop :=
  ∃ word ∈ (Text.words line).head?, word ∉ commandWords.map String.toList

/-- The line goes to `exec_command` as it is, without blanks at its ends, and nothing else is called or configured. -/
def ExecutesVerbatim (line : List Char) (s : ShellState W) : Prop :=
  let r := ((m.dispatch (Text.strip line)).run s).2
  r.calls = s.calls ++ [execCall (Text.strip line)] ∧ r.needCmdHeading = s.needCmdHeading

variable {m} {line : List Char} {s : ShellState W}

theorem Unrecognized.ne (h : Unrecognized line) {name : String} (hname : name ∈ commandWords) :
    Text.strip line ≠ name.toList := by
  intro heq
  obtain ⟨word, hword, hnot⟩ := h
  have hplain : ∀ name ∈ commandWords, name.toList ≠ [] ∧ name.toList.all (fun c => !Text.isSpace c) = true := by decide
  obtain ⟨hne, hspace⟩ := hplain name hname
  rw [← Text.words_strip, heq, Text.words_of_nonspace hne (Text.nonspace_of_all hspace)] at hword
  cases hword
  exact hnot (List.mem_map_of_mem hname)

theorem Unrecognized.not_startsWith_snapshot (h : Unrecognized line) : ¬ StartsWith (Text.strip line) "snapshot " := by
  rintro ⟨rest, hrest⟩
  obtain ⟨word, hword, hnot⟩ := h
  have hcut : "snapshot ".toList ++ rest = "snapshot".toList ++ ' ' :: rest := rfl
  have hfirst : Text.words "snapshot".toList = ["snapshot".toList] :=
    Text.words_of_nonspace (by decide) (Text.nonspace_of_all (by decide))
  rw [← Text.words_strip, ← hrest, hcut, Text.words_append_cons (by decide), hfirst] at hword
  cases hword
  exact hnot (by decide)

/-- Such a line meets the prefix tests only. -/
theorem dispatch_of_unrecognized (h : Unrecognized line) :
    let cmd := Text.strip line
    let goOn (p : ShellM W Unit) : ShellM W Bool := p >>= fun _ => return false
    m.dispatch cmd =
      if StartsWith cmd "restore" then goOn (m.restoreCommand cmd)
      else if StartsWith cmd "cmd" then goOn (m.cmdCommand cmd)
      else if StartsWith cmd "fork" then goOn (m.forkCommand cmd)
      else if StartsWith cmd "fexec" then goOn (m.fexecCommand cmd)
      else if StartsWith cmd "destroy" then goOn (m.destroyCommand cmd)
      else if StartsWith cmd "set" then goOn (setCommand cmd)
      else goOn (m.otherCommand cmd) := by
  intro cmd goOn
  have hne (name : String) (hname : name ∈ commandWords) : cmd ≠ name.toList := h.ne hname
  have hsnapshot : ¬ (cmd = "snapshot".toList ∨ StartsWith cmd "snapshot ") :=
    not_or_intro (hne "snapshot" (by decide)) h.not_startsWith_snapshot
  unfold dispatch
  rw [if_neg hsnapshot, if_neg (hne "forks" (by decide)), if_neg (hne "tree" (by decide)),
    if_neg (hne "stats" (by decide)), if_neg (hne "history" (by decide)), if_neg (hne "storage" (by decide)),
    if_neg (hne "exit" (by decide))]

/-- A command without the call of `exec_command` that the line asks for. -/
theorem not_executesVerbatim {p : ShellM W Unit} (hrun : m.dispatch (Text.strip line) = p >>= fun _ => return false)
    (hp : Logs (· ≠ execCall (Text.strip line)) p) : ¬ m.ExecutesVerbatim line s := by
  rintro ⟨hcalls, -⟩
  obtain ⟨new, hnew, hother⟩ := logs_bind hp (fun _ => logs_pure false) s
  rw [hrun, hnew] at hcalls
  exact hother _ (List.append_cancel_left hcalls ▸ List.mem_singleton_self _) rfl

theorem not_executesVerbatim_of_notExec {p : ShellM W Unit}
    (hrun : m.dispatch (Text.strip line) = p >>= fun _ => return false) (hp : Logs NotExec p) :
    ¬ m.ExecutesVerbatim line s := by
  refine not_executesVerbatim hrun fun s => ?_
  obtain ⟨new, hnew, hother⟩ := hp s
  exact ⟨new, hnew, fun c hc => hother c hc _ _⟩

theorem run_otherCommand (hoff : s.needCmdHeading = false) (cmd : List Char) :
    (m.otherCommand cmd).run s = (m.executeCommand cmd).run s := by
  unfold otherCommand
  rw [run_bind, run_read, run_afterValue_ok, hoff]
  rfl

/-- With the heading off, a line that passes the prefix tests is executed. -/
theorem run_dispatch_of_unrecognized (h : Unrecognized line)
    (hpass : ∀ name ∈ prefixTests, ¬ StartsWith (Text.strip line) name) (hoff : s.needCmdHeading = false) :
    let r := (EnvironmentManager.execCommand m.base (.line (String.ofList (Text.strip line))) none).run s.sys
    ∃ printed, (m.dispatch (Text.strip line)).run s =
      (r.1.map fun _ => false, { s with calls := s.calls ++ [execCall (Text.strip line)], sys := r.2, printed }) := by
  intro r
  obtain ⟨printed, hrun⟩ := m.run_executeCommand (Text.strip line) s
  refine ⟨printed, ?_⟩
  rw [dispatch_of_unrecognized h]
  dsimp only
  rw [if_neg (hpass "restore" (by decide)), if_neg (hpass "cmd" (by decide)), if_neg (hpass "fork" (by decide)),
    if_neg (hpass "fexec" (by decide)), if_neg (hpass "destroy" (by decide)), if_neg (hpass "set" (by decide)), run_bind,
    run_otherCommand hoff, hrun]
  show (afterValue _ (r.1.map fun _ => ())).run _ = _
  cases r.1 <;> rfl

/-- With the heading off, the shell executes an unrecognized line verbatim exactly if none of the commands that are
tested as prefixes is one of the line. -/
theorem executesVerbatim_iff (h : Unrecognized line) (hoff : s.needCmdHeading = false) :
    m.ExecutesVerbatim line s ↔ ∀ name ∈ prefixTests, ¬ StartsWith (Text.strip line) name := by
  constructor
  · intro hverbatim
    have hdispatch := dispatch_of_unrecognized (m := m) h
    dsimp only at hdispatch
    by_cases hrestore : StartsWith (Text.strip line) "restore"
    · rw [if_pos hrestore] at hdispatch
      exact absurd hverbatim (not_executesVerbatim_of_notExec hdispatch (m.logs_restoreCommand _))
    rw [if_neg hrestore] at hdispatch
    by_cases hcmd : StartsWith (Text.strip line) "cmd"
    · rw [if_pos hcmd] at hdispatch
      exact absurd hverbatim (not_executesVerbatim hdispatch (m.logs_cmdCommand _))
    rw [if_neg hcmd] at hdispatch
    by_cases hfork : StartsWith (Text.strip line) "fork"
    · rw [if_pos hfork] at hdispatch
      exact absurd hverbatim (not_executesVerbatim_of_notExec hdispatch (m.logs_forkCommand _))
    rw [if_neg hfork] at hdispatch
    by_cases hfexec : StartsWith (Text.strip line) "fexec"
    · rw [if_pos hfexec] at hdispatch
      exact absurd hverbatim (not_executesVerbatim_of_notExec hdispatch (m.logs_fexecCommand _))
    rw [if_neg hfexec] at hdispatch
    by_cases hdestroy : StartsWith (Text.strip line) "destroy"
    · rw [if_pos hdestroy] at hdispatch
      exact absurd hverbatim (not_executesVerbatim_of_notExec hdispatch (m.logs_destroyCommand _))
    rw [if_neg hdestroy] at hdispatch
    by_cases hset : StartsWith (Text.strip line) "set"
    · rw [if_pos hset] at hdispatch
      exact absurd hverbatim (not_executesVerbatim_of_notExec hdispatch (logs_setCommand _))
    simp [prefixTests, hrestore, hcmd, hfork, hfexec, hdestroy, hset]
  · intro hpass
    obtain ⟨printed, hrun⟩ := run_dispatch_of_unrecognized (m := m) h hpass hoff
    unfold ExecutesVerbatim
    rw [hrun]
    exact ⟨rfl, rfl⟩

/-! ### Whole runs -/

/-! ### A manager that executes -/

def ofTape : ShellManager Tape where
  backend := "Tape"
  hooks := .inl Tape.backend.hooks
  recursionLimit := 1000
  printStats _ := "No operations recorded."
  printHistory _ := "No operations recorded."
  printSizeDetails _ := "No size details available."

theorem executesVerbatim_ls :
    ofTape.ExecutesVerbatim "  ls -la ".toList
        { needCmdHeading := false, sys := .startedAt "base" "base" (.start [] [] []) } ↔
      ∀ name ∈ prefixTests, ¬ StartsWith (Text.strip "  ls -la ".toList) name :=
  executesVerbatim_iff ⟨"ls".toList, by decide, by decide⟩ rfl

/-- `restorecon` is taken for `restore`, and the path for a snapshot. -/
theorem not_executesVerbatim_restorecon :
    Unrecognized "restorecon /etc".toList ∧
      ¬ ofTape.ExecutesVerbatim "restorecon /etc".toList
        { needCmdHeading := false, sys := .startedAt "base" "base" (.start [] [] []) } := by
  have hdispatch : ofTape.dispatch (Text.strip "restorecon /etc".toList) =
      ofTape.restoreCommand "restorecon /etc".toList >>= fun _ => return false := rfl
  exact ⟨⟨"restorecon".toList, by decide, by decide⟩,
    not_executesVerbatim_of_notExec hdispatch (ofTape.logs_restoreCommand _)⟩

end ShellManager

end StateFork
