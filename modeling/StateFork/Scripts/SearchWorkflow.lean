import Mathlib.Data.Finset.Basic
import Mathlib.Data.List.MinMax
import Mathlib.Data.List.Sort
import Mathlib.Data.Prod.Lex
import StateFork.Forkable.Backend
import StateFork.Lib.Client
import StateFork.Lib.Numeral

/-!
# The search of `scripts/search_workflow_demo.py`

The search forks candidates from a checkpoint, runs their work, seals the best one, parks the runner-up, discards the
rest and goes on from the winner. It is a client of a forkable manager: it knows the manager through the queries of
`Query` only, and what it reports are its checks. The candidates of a generation run in the order in which the pool
gets them.
-/

namespace StateFork.SearchWorkflow

open Conc Conc.Prog

/-- What the search asks of the manager. -/
inductive Query where
  | fork (snapshotId : String) (ids : List String)
  | execOnBranch (branchId command : String) (timeout : Option ℚ)
  | snapshotBranch (branchId : String)
  | parkBranch (branchId : String)
  | discardBranch (branchId : String)
  | listBranches
  /-- `snapshot_graph[snapshot_id].parent_id` -/
  | parentId (snapshotId : String)

def Query.Answer : Query → Type
  | .fork _ _ | .listBranches => List EnvironmentBranch
  | .execOnBranch _ _ _ => Int × String × String
  | .snapshotBranch _ | .parkBranch _ | .parentId _ => Option String
  | .discardBranch _ => Bool

/-- What a manager answers. -/
def Query.answer {W : Type} (F : ForkHooks W) : (q : Query) → Sys W → Except PyError q.Answer × Sys W
  | .fork snapshotId ids, s => (ForkableEnvironmentManager.fork F snapshotId 1 (some ids)).run s
  | .execOnBranch b command timeout, s => (ForkableEnvironmentManager.execOnBranch F b (.line command) timeout).run s
  | .snapshotBranch b, s => (ForkableEnvironmentManager.snapshotBranch F b false).run s
  | .parkBranch b, s => (ForkableEnvironmentManager.parkBranch F b).run s
  | .discardBranch b, s => (ForkableEnvironmentManager.discardBranch F b).run s
  | .listBranches, s => (ForkableEnvironmentManager.listBranches F).run s
  | .parentId snapshotId, s =>
    match s.mgr.snapshotGraph.get? snapshotId with
    | some node => (.ok node.parentId, s)
    | none => (.error ⟨.keyError, snapshotId⟩, s)

/-! ### What is reported -/

/-- The checks of a generation. -/
inductive Check where
  | materialized (number fanout : Nat)
  | rejectedExit (number : Nat)
  | rejectedUsable (number : Nat)
  | ran (candidate : String)
  | arithmetic (number : Nat)
  | scored (number : Nat)
  | winnerSelected (number : Nat) (expectedWinner : String)
  | ownEdits (candidate : String)
  | frontierUntouched (number : Nat) (frontierFork : String)
  | winnerSealed (number : Nat) (winner : String)
  | winnerParent (number : Nat)
  | winnerResumed (number : Nat)
  | parked (number : Nat) (runnerUp : String)
  | parkedParent (number : Nat)
  | discarded (candidate : String)
  | liveForks (number : Nat)
  deriving DecidableEq

/-- A part of the script, which reports its checks with their results. -/
abbrev Script (α : Type) := Client Query Query.Answer (Check × Bool) PyError α

def check (c : Check) (ok : Bool) : Script Unit := Client.tell (c, ok)

/-! ### The plan of a generation -/

/-- The arguments that `parse_args` lets through. -/
structure SearchArgs where
  fanout : Nat
  generations : Nat
  target : Int
  execTimeout : ℚ
  two_le_fanout : 2 ≤ fanout
  one_le_generations : 1 ≤ generations

def workspace : String := "/statefork-search"

def token : String := "warm-token"

def candidateId (number index : Nat) : String := "g" ++ toString number ++ "-c" ++ toString index

/-- `ids` -/
def candidateIds (number fanout : Nat) : List String := (List.range fanout).map fun i => candidateId number (i + 1)

/-- `step` -/
def stepOf (target currentValue : Int) (fanout : Nat) : Int := max 1 (max 0 (target - currentValue) / fanout)

/-- `moves`: candidate 1 deliberately fails. -/
def movesOf (ids : List String) (step : Int) : Dict String (Option Int) :=
  .ofList (ids.zipIdx.map fun e => (e.1, if e.2 = 0 then none else some (e.2 * step)))

/-- `expected` -/
def expectedOf (currentValue : Int) (moves : Dict String (Option Int)) : Dict String Int :=
  .ofList (moves.entries.filterMap fun e => e.2.map fun move => (e.1, currentValue + move))

/-- The key by which candidates are compared. -/
def rank (target : Int) (ids : List String) (e : String × Int) : Nat ×ₗ Nat :=
  toLex ((target - e.2).natAbs, ids.idxOf e.1)

/-- `min` of the expected values by rank. -/
def expectedWinner? (target : Int) (ids : List String) (expected : Dict String Int) : Option String :=
  (expected.entries.argmin (rank target ids)).map Prod.fst

/-- `scored` -/
def scoredOf (target : Int) (ids : List String) (values : Dict String (Option Int)) : List (String × Int) :=
  (values.entries.filterMap fun e => e.2.map fun value => (e.1, value)).insertionSort
    fun e e' => rank target ids e ≤ rank target ids e'

/-- Python's `==` of the measured and the expected values. -/
def matchesExpected (values : Dict String (Option Int)) (expected : Dict String Int) : Bool :=
  values.keys.length = expected.keys.length &&
    values.entries.all fun e => e.2.isSome && expected.get? e.1 = e.2

/-- `candidate_command` -/
def candidateCommand (candidate : String) (move : Int) : String :=
  let move := String.ofList (Text.decimal move)
  "export LAST_MOVE=" ++ move ++ "; (test \"$SEARCH_TOKEN\" = " ++ token ++ " || exit 90; test \"$PWD\" = " ++
    workspace ++ " || exit 91; kill -0 \"$SEARCH_JOB\" 2>/dev/null || exit 92; search_helper >/dev/null || exit 93; " ++
    "value=$(( $(cat state.txt) + " ++ move ++ " )); echo \"$value\" > state.txt; echo " ++ candidate ++
    " > candidate.txt; echo \"$value\")"

def failingCommand (candidate : String) : String :=
  "export LAST_MOVE=none; echo \"" ++ candidate ++ ": deliberately failing candidate\"; false"

/-- `Generation`, without the times. -/
structure Generation where
  number : Nat
  frontier : String
  candidates : List String
  moves : Dict String (Option Int)
  expectedWinner : String
  values : Dict String (Option Int) := .empty
  winner : Option String := none
  winnerValue : Option Int := none
  winnerCheckpoint : Option String := none
  runnerUp : Option String := none
  runnerUpValue : Option Int := none
  parkedCheckpoint : Option String := none

/-- `str` of a move or a value. -/
def strOf : Option Int → List Char
  | none => "None".toList
  | some n => Text.decimal n

/-- The command of `work`; every candidate has a move. -/
def commandOf (moves : Dict String (Option Int)) (candidate : String) : String :=
  match (moves.get? candidate).join with
  | none => failingCommand candidate
  | some move => candidateCommand candidate move

/-! ### The calls of the script -/

def fork (snapshotId : String) (ids : List String) : Script (List EnvironmentBranch) :=
  Client.call (Query.fork snapshotId ids)

def snapshotBranch (branchId : String) : Script (Option String) := Client.call (Query.snapshotBranch branchId)

def parkBranch (branchId : String) : Script (Option String) := Client.call (Query.parkBranch branchId)

def discardBranch (branchId : String) : Script Bool := Client.call (Query.discardBranch branchId)

def listBranches : Script (List EnvironmentBranch) := Client.call Query.listBranches

def parentId (snapshotId : String) : Script (Option String) := Client.call (Query.parentId snapshotId)

def exec (branchId command : String) (timeout : Option ℚ) : Script (Int × String × String) :=
  Client.call (Query.execOnBranch branchId command timeout)

def tryExec (branchId command : String) (timeout : Option ℚ) : Script (Except PyError (Int × String × String)) :=
  Client.attempt (Query.execOnBranch branchId command timeout)

/-! ### One generation -/

/-- The calls of the pool: all are made, and then the first exception is raised. -/
def runCandidates (moves : Dict String (Option Int)) (execTimeout : ℚ) (ids : List String) :
    Script (Dict String (Int × String × String)) := do
  let outcomes ← Client.collect ids fun candidate => tryExec candidate (commandOf moves candidate) (some execTimeout)
  let results ← Client.ofExcept (outcomes.mapM id)
  return .ofList (ids.zip results)

/-- `results[candidate]` -/
def resultOf (results : Dict String (Int × String × String)) (candidate : String) : Script (Int × String × String) :=
  match results.get? candidate with
  | some result => return result
  | none => Client.fail ⟨.keyError, candidate⟩

/-- The value that a candidate printed. -/
def readValue (results : Dict String (Int × String × String)) (candidate : String) : Script (Option Int) := do
  let result ← resultOf results candidate
  let out := Text.strip result.2.1.toList
  let ok := result.1 = 0 && Text.isDigits out
  check (.ran candidate) ok
  if ok then
    match Text.int out with
    | some value => return some value
    | none =>
      Client.fail ⟨.valueError, "invalid literal for int() with base 10: '" ++ String.ofList out ++ "'"⟩
  else return none

/-- The rejected candidate failed, and its shell is still there. -/
def checkRejected (number : Nat) (rejected : String) (results : Dict String (Int × String × String)) : Script Unit := do
  let result ← resultOf results rejected
  check (.rejectedExit number) (result.1 ≠ 0)
  let (rc, out, _) ← exec rejected "echo still-usable" none
  check (.rejectedUsable number) (rc = 0 && Text.strip out.toList = "still-usable".toList)

/-- Each candidate sees what it wrote. -/
def checkEdits (moves values : Dict String (Option Int)) (candidates : List String) : Script Unit := do
  let _ ← Client.collect candidates fun candidate => do
    let (_, out, _) ← exec candidate ("cd " ++ workspace ++ " && cat candidate.txt state.txt && echo $LAST_MOVE") none
    check (.ownEdits candidate)
      (Text.words out.toList =
        [candidate.toList, strOf (values.get? candidate).join, strOf (moves.get? candidate).join])

/-- The fork on which the generation stands is as the last generation left it. -/
def checkFrontier (number : Nat) (frontierFork : Option String) (currentValue : Int) : Script Unit := do
  match frontierFork with
  | none => return ()
  | some frontierFork =>
    let (_, out, _) ← exec frontierFork ("cat " ++ workspace ++ "/state.txt") none
    check (.frontierUntouched number frontierFork) (Text.strip out.toList = Text.decimal currentValue)

/-- A checkpoint parents onto the frontier. -/
def checkParent (c : Check) (frontier : String) (checkpoint : Option String) : Script Unit := do
  match checkpoint with
  | none => return ()
  | some checkpoint =>
    -- an empty id is none
    if checkpoint = "" then return ()
    else
      let parent ← parentId checkpoint
      check c (parent = some frontier)

/-- The winner is sealed and goes on. -/
def sealWinner (number : Nat) (frontier winner : String) (value move : Option Int) : Script (Option String) := do
  let checkpoint ← snapshotBranch winner
  check (.winnerSealed number winner) checkpoint.isSome
  checkParent (.winnerParent number) frontier checkpoint
  let (_, out, _) ← exec winner ("cat " ++ workspace ++ "/state.txt; echo $LAST_MOVE") none
  check (.winnerResumed number) (Text.words out.toList = [strOf value, strOf move])
  return checkpoint

def parkRunnerUp (number : Nat) (frontier : String) (runnerUp : Option String) : Script (Option String) := do
  match runnerUp with
  | none => return none
  | some runnerUp =>
    let checkpoint ← parkBranch runnerUp
    check (.parked number runnerUp) checkpoint.isSome
    checkParent (.parkedParent number) frontier checkpoint
    return checkpoint

def discardRest (candidates : List String) (winner : String) (runnerUp : Option String) : Script Unit := do
  let _ ← Client.collect (candidates.filter fun c => c ≠ winner && some c ≠ runnerUp) fun candidate => do
    let ok ← discardBranch candidate
    check (.discarded candidate) ok

/-- `live_ids` -/
def liveIds : Script (Finset String) := do
  let branches ← listBranches
  return (branches.map EnvironmentBranch.id).toFinset

/-- The live forks are listed once more for the text of the check. -/
def checkLive (number : Nat) (winner : String) (winnersSoFar : List String) : Script Unit := do
  let live ← liveIds
  let _ ← liveIds
  check (.liveForks number) (live = (defaultBranchId :: winner :: winnersSoFar).toFinset)

/-- The values that the candidates measured, apart from the rejected one. -/
def measure (args : SearchArgs) (number : Nat) (moves : Dict String (Option Int)) (rejected : String)
    (rest : List String) : Script (List (Option Int)) := do
  let results ← runCandidates moves args.execTimeout (rejected :: rest)
  checkRejected number rejected results
  Client.collect rest (readValue results)

/-- The end of `run_generation`: the best candidate is kept. -/
def settle (args : SearchArgs) (gen : Generation) (frontierFork : Option String) (currentValue : Int)
    (winnersSoFar : List String) (rest : List String) : Script Generation :=
  match scoredOf args.target gen.candidates gen.values with
  | [] => do
    check (.scored gen.number) false
    return gen
  | (winner, value) :: others => do
    check (.winnerSelected gen.number gen.expectedWinner) (winner = gen.expectedWinner)
    let runnerUp := others.head?.map Prod.fst
    checkEdits gen.moves gen.values rest
    checkFrontier gen.number frontierFork currentValue
    let winnerCheckpoint ← sealWinner gen.number gen.frontier winner (some value) (gen.moves.get? winner).join
    let parkedCheckpoint ← parkRunnerUp gen.number gen.frontier runnerUp
    discardRest gen.candidates winner runnerUp
    checkLive gen.number winner winnersSoFar
    return { gen with
      winner := some winner
      winnerValue := some value
      winnerCheckpoint
      runnerUp
      runnerUpValue := others.head?.map Prod.snd
      parkedCheckpoint }

/-- `run_generation` -/
def runGeneration (args : SearchArgs) (number : Nat) (frontier : String) (frontierFork : Option String)
    (currentValue : Int) (winnersSoFar : List String) : Script Generation :=
  let ids := candidateIds number args.fanout
  let moves := movesOf ids (stepOf args.target currentValue args.fanout)
  let expected := expectedOf currentValue moves
  match ids, expectedWinner? args.target ids expected with
  | [], _ => Client.fail ⟨.other, "list index out of range"⟩
  | _, none => Client.fail ⟨.valueError, "min() arg is an empty sequence"⟩
  | first :: rest, some expectedWinner => do
    let forks ← fork frontier ids
    check (.materialized number args.fanout) (forks.map EnvironmentBranch.id = ids)
    let measured ← measure args number moves first rest
    let values := Dict.ofList (rest.zip measured)
    check (.arithmetic number) (matchesExpected values expected)
    settle args { number, frontier, candidates := ids, moves, expectedWinner, values } frontierFork currentValue
      winnersSoFar rest

/-- The generations to come, after the ones that are done. One that has sealed its winner has the value of it. -/
def generationsFrom (args : SearchArgs) : Nat → List Generation → String → Option String → Int → Script (List Generation)
  | 0, done, _, _, _ => return done
  | left + 1, done, frontier, frontierFork, value => do
    let gen ← runGeneration args (done.length + 1) frontier frontierFork value (done.filterMap Generation.winner)
    match gen.winnerCheckpoint with
    | none => return done ++ [gen]
    | some checkpoint =>
      generationsFrom args left (done ++ [gen]) checkpoint gen.winner (gen.winnerValue.getD value)

/-- The generations of `main`, from the prepared checkpoint on. -/
def search (args : SearchArgs) (prepared : String) : Script (List Generation) :=
  generationsFrom args args.generations [] prepared none 0

/-! ### The names of the candidates -/

theorem toList_candidateId (number index : Nat) :
    (candidateId number index).toList = ('g' :: Nat.toDigits 10 number) ++ '-' :: 'c' :: Nat.toDigits 10 index := by
  simp [candidateId, String.toList_append]

theorem candidateId_inj {number number' index index' : Nat}
    (h : candidateId number index = candidateId number' index') : number = number' ∧ index = index' := by
  have hplain (n : Nat) : '-' ∉ 'g' :: Nat.toDigits 10 n := by
    rw [List.mem_cons, not_or]
    exact ⟨by decide, fun hmem => absurd (Text.isDigit_toDigits hmem) (by decide)⟩
  have hlist := congrArg (Text.partition '-') (congrArg String.toList h)
  rw [toList_candidateId, toList_candidateId, Text.partition_append_cons (hplain _),
    Text.partition_append_cons (hplain _)] at hlist
  simp only [Option.some.injEq, Prod.mk.injEq, List.cons.injEq, true_and] at hlist
  exact ⟨Text.toDigits_inj hlist.1, Text.toDigits_inj hlist.2⟩

theorem candidateId_ne_main (number index : Nat) : candidateId number index ≠ defaultBranchId := by
  intro h
  have hlist := congrArg String.toList h
  rw [toList_candidateId] at hlist
  cases hlist

theorem mem_candidateIds {number fanout : Nat} {b : String} :
    b ∈ candidateIds number fanout ↔ ∃ i < fanout, candidateId number (i + 1) = b := by
  unfold candidateIds
  rw [List.mem_map]
  simp only [List.mem_range]

theorem nodup_candidateIds (number fanout : Nat) : (candidateIds number fanout).Nodup := by
  refine List.Nodup.map (fun i j h => ?_) List.nodup_range
  exact Nat.succ_injective (candidateId_inj h).2

/-! ### Reports -/

/-- All checks of a kind passed. -/
def AllPass (kind : Check → Prop) (l : List (Check × Bool)) : Prop := ∀ e ∈ l, kind e.1 → e.2 = true

theorem AllPass.left {kind : Check → Prop} {l l' : List (Check × Bool)} (h : AllPass kind (l ++ l')) : AllPass kind l :=
  fun e he => h e (List.mem_append_left _ he)

theorem allPass_append {kind : Check → Prop} {l l' : List (Check × Bool)} :
    AllPass kind (l ++ l') ↔ AllPass kind l ∧ AllPass kind l' := by
  unfold AllPass
  simp only [List.mem_append, or_imp, forall_and]

theorem allPass_singleton {kind : Check → Prop} {c : Check} {ok : Bool} :
    AllPass kind [(c, ok)] ↔ (kind c → ok = true) := by
  simp [AllPass]

theorem allPass_iff_of_since {l l' : List (Check × Bool)} {new : Check × Bool → Prop} (h : Client.Since new l l')
    {kind : Check → Prop} (hkind : ∀ e : Check × Bool, kind e.1 → ¬ new e) : AllPass kind l' ↔ AllPass kind l := by
  obtain ⟨l₁, rfl, hnew⟩ := h
  rw [allPass_append]
  exact and_iff_left fun e he hc => absurd (hnew e he) (hkind e hc)

/-! ### The candidates that are scored -/

/-- The scored candidates are the ones with a value, each once. -/
theorem sublist_scored (values : Dict String (Option Int)) :
    ((values.entries.filterMap fun e => e.2.map fun value => (e.1, value)).map Prod.fst).Sublist values.keys := by
  unfold Dict.keys
  induction values.entries with
  | nil => exact .slnil
  | cons e entries ih =>
    obtain ⟨b, _ | value⟩ := e
    · exact ih.cons b
    · exact ih.cons_cons b

theorem perm_scored (target : Int) (ids : List String) (values : Dict String (Option Int)) :
    (scoredOf target ids values).Perm (values.entries.filterMap fun e => e.2.map fun value => (e.1, value)) :=
  List.perm_insertionSort ..

theorem nodup_scored (target : Int) (ids : List String) (values : Dict String (Option Int)) :
    ((scoredOf target ids values).map Prod.fst).Nodup :=
  ((perm_scored target ids values).map Prod.fst).nodup_iff.mpr ((sublist_scored values).nodup values.nodup)

theorem mem_of_scored {target : Int} {ids : List String} {values : Dict String (Option Int)} {b : String}
    (h : b ∈ (scoredOf target ids values).map Prod.fst) : b ∈ values.keys :=
  (sublist_scored values).subset (((perm_scored target ids values).map Prod.fst).mem_iff.mp h)

/-! ### The parts that only run commands -/

/-- The checks of what a command printed. -/
def Check.IsProbe : Check → Prop
  | .rejectedExit _ | .rejectedUsable _ | .ran _ | .ownEdits _ | .frontierUntouched _ _ => True
  | _ => False

/-- Commands on the branches `mine` move the state by `R`, and probes are of the kind that may be reported. -/
structure Probes {V : Type} (means : (q : Query) → Except PyError q.Answer → V → V → Prop) (R : V → V → Prop)
    (kind : Check × Bool → Prop) (mine : String → Prop) : Prop where
  moves : ∀ b, mine b → ∀ command timeout r v v', means (.execOnBranch b command timeout) r v v' → R v v'
  probe : ∀ c ok, c.IsProbe → kind (c, ok)

namespace Probes

open Client

variable {V : Type} {means : (q : Query) → Except PyError q.Answer → V → V → Prop} {R : V → V → Prop}
  {kind : Check × Bool → Prop} {mine : String → Prop} (h : Probes means R kind mine)

include h

theorem exec {b : String} (hb : mine b) (command : String) (timeout : Option ℚ) :
    KeepsTo means R kind (SearchWorkflow.exec b command timeout) := keepsTo_call (h.moves b hb command timeout)

theorem tryExec {b : String} (hb : mine b) (command : String) (timeout : Option ℚ) :
    KeepsTo means R kind (SearchWorkflow.tryExec b command timeout) := keepsTo_attempt (h.moves b hb command timeout)

variable [IsPreorder V R]

theorem check {c : Check} (hc : c.IsProbe) (ok : Bool) : KeepsTo means R kind (SearchWorkflow.check c ok) :=
  keepsTo_tell (h.probe c ok hc)

theorem runCandidates (moves : Dict String (Option Int)) (timeout : ℚ) {ids : List String} (hids : ∀ b ∈ ids, mine b) :
    KeepsTo means R kind (SearchWorkflow.runCandidates moves timeout ids) := by
  refine keepsTo_bind (keepsTo_collect fun b hb => h.tryExec (hids b hb) _ _) fun outcomes => ?_
  exact keepsTo_bind (keepsTo_ofExcept _) fun results => keepsTo_pure _

omit h in
theorem resultOf (results : Dict String (Int × String × String)) (b : String) :
    KeepsTo means R kind (SearchWorkflow.resultOf results b) := by
  unfold SearchWorkflow.resultOf
  split
  · exact keepsTo_pure _
  · exact keepsTo_fail _

theorem readValue (results : Dict String (Int × String × String)) (b : String) :
    KeepsTo means R kind (SearchWorkflow.readValue results b) := by
  refine keepsTo_bind (resultOf results b) fun result => keepsTo_bind (h.check (c := .ran b) trivial _) fun _ => ?_
  split_ifs
  · split
    · exact keepsTo_pure _
    · exact keepsTo_fail _
  · exact keepsTo_pure _

theorem checkRejected (number : Nat) {b : String} (hb : mine b) (results : Dict String (Int × String × String)) :
    KeepsTo means R kind (SearchWorkflow.checkRejected number b results) := by
  refine keepsTo_bind (resultOf results b) fun result => ?_
  refine keepsTo_bind (h.check (c := .rejectedExit number) trivial _) fun _ => ?_
  exact keepsTo_bind (h.exec hb _ _) fun _ => h.check (c := .rejectedUsable number) trivial _

theorem measure (args : SearchArgs) (number : Nat) (moves : Dict String (Option Int)) {rejected : String}
    {rest : List String} (hids : ∀ b ∈ rejected :: rest, mine b) :
    KeepsTo means R kind (SearchWorkflow.measure args number moves rejected rest) := by
  refine keepsTo_bind (h.runCandidates moves _ hids) fun results => ?_
  refine keepsTo_bind (h.checkRejected number (hids rejected List.mem_cons_self) results) fun _ => ?_
  exact keepsTo_collect fun b _ => h.readValue results b

theorem checkEdits (moves values : Dict String (Option Int)) {candidates : List String}
    (hids : ∀ b ∈ candidates, mine b) : KeepsTo means R kind (SearchWorkflow.checkEdits moves values candidates) := by
  refine keepsTo_bind (keepsTo_collect fun b hb => ?_) fun _ => keepsTo_pure _
  exact keepsTo_bind (h.exec (hids b hb) _ _) fun _ => h.check (c := .ownEdits b) trivial _

theorem checkFrontier (number : Nat) {frontierFork : Option String} (hfork : ∀ b, frontierFork = some b → mine b)
    (value : Int) : KeepsTo means R kind (SearchWorkflow.checkFrontier number frontierFork value) := by
  cases frontierFork with
  | none => exact keepsTo_pure _
  | some b => exact keepsTo_bind (h.exec (hfork b rfl) _ _) fun _ => h.check (c := .frontierUntouched number b) trivial _

end Probes

end StateFork.SearchWorkflow
