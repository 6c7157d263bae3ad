import StateFork.Sequential.Faults

/-!
# The calls of `_core_exec`

`SequentialBackend.listening` is a backend with a list of the commands and timeouts that reach its `_core_exec`. A
replayed command reaches it without a timeout, whatever timeout it had originally: the calls of a restore are the
original ones exactly if these had no timeouts either (`replayedCalls_iff`).
-/

namespace StateFork

/-- A command and its timeout. -/
abbrev ExecCall := Command × Option ℚ

variable {W : Type}

/-- The command and the timeout of an execution. -/
def callNote : ExecNote ExecCall := fun c t _ => (c, t)

/-- The backend, with a list of its executions. -/
def SequentialBackend.listening (B : SequentialBackend W) : SequentialBackend (W × List ExecCall) := B.journaling callNote

/-- What `exec_command` passes to the hook. -/
def originalCall (command : Command) (timeout : Option ℚ) (_ : Sys (W × List ExecCall)) : ExecCall :=
  (command, timeout)

/-- The executions of an operation. -/
def callsOf (B : SequentialBackend W) (op : SeqOp) (s : Sys (W × List ExecCall)) : List ExecCall :=
  journalOf B callNote op s

variable {B : SequentialBackend W} {s : Sys (W × List ExecCall)}

theorem notesOf_callNote (commands : List Command) (w : W) :
    notesOf B callNote commands w = commands.map fun c => (c, none) := by
  induction commands generalizing w with
  | nil => rfl
  | cons c commands ih => rw [notesOf, ih, List.map_cons, callNote]

/-- A restore executes the commands of its walk, none of them with a timeout. -/
theorem callsOf_restore (hs : Solo s.mgr) {id : String}
    (hok : (B.listening.restoreEffect id s).1 = .ok true) :
    ∃ ancestor commands, s.mgr.physicalAncestor id = .ok (ancestor, commands) ∧
      callsOf B (.restore id) s = commands.map fun c => (c, none) := by
  obtain ⟨ancestor, commands, _, _, w, hwalk, -, -, hjournal⟩ := journalOf_restore hs hok
  exact ⟨ancestor, commands, hwalk, hjournal.trans (notesOf_callNote commands w)⟩

theorem map_withoutTimeout_iff {calls : List ExecCall} :
    (calls.map Prod.fst).map (fun c => (c, none)) = calls ↔ ∀ call ∈ calls, call.2 = none := by
  rw [List.map_map]
  constructor
  · intro h call hcall
    rw [← h] at hcall
    obtain ⟨original, -, rfl⟩ := List.mem_map.mp hcall
    rfl
  · intro h
    refine (List.map_congr_left fun call hcall => ?_).trans (List.map_id calls)
    exact Prod.ext rfl (h call hcall).symm

/-- In every reachable state, a restore that succeeds executes the commands on the way to its snapshot, and it does so
under the timeouts they had originally exactly if none of them had one. -/
theorem replayedCalls_iff (B : SequentialBackend W) (root resource : String) (w : W) (ops : List SeqOp)
    (id : String) :
    let start : Sys (W × List ExecCall) := Sys.startedAt root resource (w, [])
    let s := runOps B.listening ops start
    let original := (Ledger.run B.listening originalCall ops start {}).behind s.mgr id
    (((SeqOp.restore id).prog B.listening).run s).1 = .ok (.flag true) →
      (callsOf B (.restore id) s = original ↔ ∀ call ∈ original, call.2 = none) := by
  intro start s original hok
  have hs : Solo s.mgr := runOps_solo B.listening ops (Sys.startedAt_solo root resource (w, []))
  rw [restore_returns_iff B.listening hs] at hok
  obtain ⟨ancestor, commands, hwalk, hcalls⟩ := callsOf_restore hs hok
  have hnoted : Ledger.Noted Prod.fst (Ledger.run B.listening originalCall ops start {}) s.mgr :=
    Ledger.Noted.run (fun _ _ _ => rfl) (Sys.startedAt_solo root resource (w, []))
      (Ledger.noted_startedAt root resource (w, [])) ops
  rw [hcalls, ← hnoted.behind hwalk]
  exact map_withoutTimeout_iff

/-- A command with a timeout and a virtual snapshot. -/
def limitedRun : List SeqOp := [.exec (.line "make") (some 1), .snapshot]

def limitedStart : Sys (Tape × List ExecCall) :=
  Sys.startedAt "base" "base" (Tape.start ["3f2a"] [false] [], [])

theorem replayedCalls_iff_limitedRun :
    let s := runOps Tape.backend.listening limitedRun limitedStart
    let original := (Ledger.run Tape.backend.listening originalCall limitedRun limitedStart {}).behind s.mgr "v3f2a"
    (((SeqOp.restore "v3f2a").prog Tape.backend.listening).run s).1 = .ok (.flag true) ∧
      (callsOf Tape.backend (.restore "v3f2a") s = original ↔ ∀ call ∈ original, call.2 = none) :=
  ⟨rfl, replayedCalls_iff Tape.backend "base" "base" (Tape.start ["3f2a"] [false] []) limitedRun "v3f2a" rfl⟩

/-- `make` was executed with a timeout of one second, and is replayed without one. -/
theorem not_replayedCalls_limitedRun :
    let s := runOps Tape.backend.listening limitedRun limitedStart
    let original := (Ledger.run Tape.backend.listening originalCall limitedRun limitedStart {}).behind s.mgr "v3f2a"
    (((SeqOp.restore "v3f2a").prog Tape.backend.listening).run s).1 = .ok (.flag true) ∧
      original = [(.line "make", some 1)] ∧ callsOf Tape.backend (.restore "v3f2a") s = [(.line "make", none)] ∧
      callsOf Tape.backend (.restore "v3f2a") s ≠ original := by
  have hok : (((SeqOp.restore "v3f2a").prog Tape.backend.listening).run
      (runOps Tape.backend.listening limitedRun limitedStart)).1 = .ok (.flag true) := rfl
  have horiginal : (Ledger.run Tape.backend.listening originalCall limitedRun limitedStart {}).behind
      (runOps Tape.backend.listening limitedRun limitedStart).mgr "v3f2a" = [(.line "make", some 1)] := by
    decide +kernel
  have hcalls : callsOf Tape.backend (.restore "v3f2a") (runOps Tape.backend.listening limitedRun limitedStart) =
      [(.line "make", none)] := by
    decide +kernel
  refine ⟨hok, horiginal, hcalls, ?_⟩
  rw [horiginal, hcalls]
  decide

end StateFork
