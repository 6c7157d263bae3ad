import StateFork.Lib.ShellWords
import StateFork.Forkable.WorldRuns
import StateFork.Waypoint.Backend
import StateFork.Waypoint.ForkLine
import StateFork.Waypoint.ParallelFork
import StateFork.Waypoint.Timeouts

/-!
# The `waypoint` binary

The hooks of `WaypointAttachManager`, as calls of the `waypoint` binary (`WaypointCli.backend`). A command that is given
as a list of words becomes one argument of a call; the shell of the branch reads the same words in it
(`exec_words_round_trip`). `Slate` is a session that is kept in memory.
-/

namespace StateFork

open Conc Conc.Prog

/-- An entry of the forks that `waypoint list --json` reports. -/
structure ForkEntry where
  id : Option String
  baseCheckpointId : Option String := none
  status : Option String := none
  pid : Option Int := none
  socketPath : Option String := none
  restoreDuration : Option String := none
  deriving DecidableEq, Repr

/-- `entry.get(key) or default` -/
def orElse (value default : Option String) : Option String := if value = none ∨ value = some "" then default else value

/-- The `waypoint` binary, behind `WAYPOINT_CMD_PREFIX`, on the host of the manager. -/
structure WaypointCli (W : Type) where
  waypointBin : String
  stateforkRoot : String
  /-- `os.path.isfile` and `os.access` of the binary. -/
  executable : W → Bool × W
  /-- `subprocess.run` of the binary. -/
  launch (args : List String) (timeout : Option ℚ) : W → Process × W
  /-- `str` of a `CalledProcessError`. -/
  describe (args : List String) (returncode : Int) : String
  /-- The forks in the output of `waypoint list --json`, unless it is not JSON. -/
  forksOf (stdout : String) : Except PyError (Option (List ForkEntry))
  checkpointsOf (stdout : String) : Except PyError (Option (List Checkpoint))
  /-- `os.path.abspath` -/
  abspath (path : String) : W → String
  showTimeout : Option ℚ → String
  time : W → ℚ × W
  uuid4Hex : W → String × W

namespace WaypointAttachManager

/-- The record of an entry of the listing; `known` is the record that the live registry has of it. -/
def forkOf (known : Option WaypointFork) (forkId : String) (entry : ForkEntry) : WaypointFork where
  id := forkId
  baseSnapshotId := (orElse entry.baseCheckpointId (known.map fun k => k.baseSnapshotId)).getD ""
  status := entry.status.getD "running"
  pid := entry.pid.getD 0
  socket := entry.socketPath.getD ""
  restoreDuration := orElse entry.restoreDuration (known.bind WaypointFork.restoreDuration)

/-- The loop of `_core_list_branches`. -/
def refreshed (known : String → Option WaypointFork) (entries : List ForkEntry) : List WaypointFork :=
  entries.filterMap fun entry => match entry.id with
    | none => none
    | some forkId => if forkId = "" then none else some (forkOf (known forkId) forkId entry)

end WaypointAttachManager

/-- What the templates pass on of an output. -/
def Output.asText : Output → String
  | .text s => s
  | .bytes b => (String.fromUTF8? ⟨b.toArray⟩).getD ""

namespace WaypointCli

open WaypointAttachManager

variable {W : Type} (C : WaypointCli W)

def binaryNotFound : PyError :=
  ⟨.osError, "Waypoint binary not found or not executable: " ++ C.waypointBin ++
    ". Install Waypoint (https://github.com/Alex-XJK/waypoint) and either put it on PATH, set the WAYPOINT_BIN " ++
    "environment variable, or symlink it into " ++ C.stateforkRoot ++ "."⟩

/-- `_run_waypoint` -/
def runWaypoint (args : List String) (timeout : Option ℚ) (w : W) : Process × W :=
  let (found, w) := C.executable w
  if found then C.launch args timeout w else (.raised C.binaryNotFound, w)

/-- `_cpe_detail` -/
def cpeDetail (args : List String) (returncode : Int) (stdout stderr : String) : String :=
  let detail := String.ofList (Text.strip (stderr ++ stdout).toList)
  C.describe args returncode ++ if detail = "" then "" else " :: " ++ detail

/-- `_run_waypoint` with `check=True`: the output, or the detail of a `CalledProcessError`, which all callers handle. -/
def checkWaypoint (args : List String) (w : W) : Except PyError (Except String String) × W :=
  match C.runWaypoint args none w with
  | (.exited returncode stdout stderr, w) =>
    (.ok (if returncode = 0 then .ok stdout else .error (C.cpeDetail args returncode stdout stderr)), w)
  | (.timedOut _ _, w) => (.error ⟨.other, "timed out"⟩, w)
  | (.raised e, w) => (.error e, w)

variable (sessionId : String)

/-- `_snapshot_waypoint` -/
def snapshotWaypoint (park : Bool) (branchId : String) (w : W) : Except PyError (Option (String × String) × ℚ) × W :=
  let (hex, w) := C.uuid4Hex w
  let snapshotId := (hex.take 8).toString
  let (start, w) := C.time w
  match C.checkWaypoint (["snapshot", sessionId, branchId, snapshotId] ++ if park then ["--park"] else []) w with
  | (.error e, w) => (.error e, w)
  | (.ok (.error _), w) => (.ok (none, 0), w)
  | (.ok (.ok _), w) =>
    let (stop, w) := C.time w
    (.ok (some (snapshotId, snapshotId), stop - start), w)

/-- The part of `waypoint list --json` that a method reads. -/
def listing {α : Type} (read : String → Except PyError (Option α)) (w : W) : Except PyError (Option α) × W :=
  match C.checkWaypoint ["list", sessionId, "--json"] w with
  | (.error e, w) => (.error e, w)
  | (.ok (.error _), w) => (.ok none, w)
  | (.ok (.ok stdout), w) => (read stdout, w)

/-- `_core_cleanup` -/
def coreCleanup (w : W) : Except PyError (Option Bool) × W :=
  match C.checkWaypoint ["cleanup", sessionId] w with
  | (.error e, w) => (.error e, w)
  | (.ok (.ok _), w) => (.ok (some true), w)
  | (.ok (.error _), w) =>
    match C.checkWaypoint ["cleanup", sessionId, "--force"] w with
    | (.error e, w) => (.error e, w)
    | (.ok (.error _), w) => (.ok (some false), w)
    | (.ok (.ok _), w) => (.ok (some true), w)

/-- The processes of `_exec_raw`. -/
def shell : WaypointShell W where
  sessionId
  exec branchId command timeout := C.runWaypoint ["exec", sessionId, branchId, "--", command] timeout
  time := C.time
  showTimeout := C.showTimeout

/-- `_core_exec` -/
def coreExec (command : Command) (timeout : Option ℚ) (branchId : String) (w : W) :
    Except PyError (Int × String × String) × W :=
  let (answer, w) := (C.shell sessionId).execRaw branchId command timeout w
  (answer.map fun (returncode, stdout, stderr) => (returncode, stdout.asText, stderr.asText), w)

/-- The arguments of a `waypoint cp`. -/
def copyArgs (branchId hostPath envPath : String) (into : Bool) : List String :=
  let forkRef := branchId ++ ":" ++ envPath
  if into then ["cp", sessionId, hostPath, forkRef] else ["cp", sessionId, forkRef, hostPath]

/-- `_core_copy` -/
def coreCopy (branchId hostPath envPath : String) (into : Bool) (w : W) : Except PyError (Bool × String) × W :=
  if sessionId = "" then (.ok (false, "No session_id available"), w)
  else
    match C.checkWaypoint (copyArgs sessionId branchId (C.abspath hostPath w) envPath into) w with
    | (.error e, w) => (.ok (false, e.text), w)
    | (.ok (.error detail), w) => (.ok (false, detail), w)
    | (.ok (.ok _), w) => (.ok (true, ""), w)

/-- `_core_discard_branch` -/
def coreDiscardBranch (branchId : String) (w : W) : Except PyError Bool × W :=
  match C.checkWaypoint ["destroy", sessionId, branchId] w with
  | (.error e, w) => (.error e, w)
  | (.ok (.error _), w) => (.ok false, w)
  | (.ok (.ok _), w) => (.ok true, w)

/-- The hooks; the pool runs the forks of a batch. A listing is read without the live registry, whose records stand in
for an entry that does not name its base. -/
def backend (pool : ForkPool W) : WaypointBackend W where
  snapshot := C.snapshotWaypoint sessionId false
  refreshes := true
  exec := C.coreExec sessionId
  copy := C.coreCopy sessionId
  fork := coreFork pool
  discard := C.coreDiscardBranch sessionId
  park := C.snapshotWaypoint sessionId true
  list := C.listing sessionId fun stdout => (C.forksOf stdout).map fun entries =>
    entries.map fun entries => (refreshed (fun _ => none) entries).map (·.toEnvironmentBranch)
  cleanup := C.coreCleanup sessionId
  time := C.time
  uuid4Hex := C.uuid4Hex
  checkpoints := C.listing sessionId C.checkpointsOf

end WaypointCli

/-! ### A session in memory -/

/-- A session in which an environment is the list of the commands that ran in it. -/
structure Slate where
  /-- The branches, with the checkpoints on which they stand. -/
  forks : Dict String (String × List String)
  /-- The checkpoints, with the ones on which their branches stood. -/
  taken : Dict String (String × List String)
  /-- The names of the forks to come. -/
  ids : List String
  named : "" ∉ forks.keys

namespace Slate

def create (ids : List String) : Slate where
  forks := Dict.empty.set defaultBranchId ("", [])
  taken := Dict.empty
  ids
  named := by decide

def live (w : Slate) (b : String) : Option (String × List String) := w.forks.get? b

def stored (w : Slate) (id : String) : Option (List String) := (w.taken.get? id).map Prod.snd

def put (w : Slate) (b : String) (here : String × List String) : Slate :=
  if hb : b = "" then w
  else
    { w with
      forks := w.forks.set b here
      named := fun hmem => (Dict.mem_keys_set.mp hmem).elim (fun he => hb he.symm) w.named }

def drop (w : Slate) (b : String) : Slate :=
  { w with forks := w.forks.erase b, named := fun hmem => w.named (Dict.mem_keys_erase.mp hmem).2 }

def refuse (w : Slate) : Process × Slate := (.exited 1 "" "", w)

def take (w : Slate) (b id : String) (park : Bool) : Process × Slate :=
  match w.live b with
  | none => w.refuse
  | some (base, e) =>
    let w := { w with taken := w.taken.set id (base, e) }
    (.exited 0 "" "", if park then w.drop b else w.put b (id, e))

/-- Kind, id and origin of what a listing shows. -/
def shown (w : Slate) : List (String × String × String) :=
  (w.forks.entries.map fun entry => ("fork", entry.1, entry.2.1)) ++
    w.taken.entries.map fun entry => ("checkpoint", entry.1, entry.2.1)

def report (w : Slate) : String :=
  " ".intercalate ((w.shown.flatMap fun entry => [entry.1, entry.2.1, entry.2.2]).map shlexQuote)

def triples : List Shell.Token → List (String × String × String)
  | .word kind :: .word id :: .word origin :: l =>
    (String.ofList kind, String.ofList id, String.ofList origin) :: triples l
  | _ => []

/-- What a report says. -/
def readReport (stdout : String) : List (String × String × String) := triples ((Shell.tokens stdout.toList).getD [])

def launch (args : List String) (_timeout : Option ℚ) (w : Slate) : Process × Slate :=
  match args with
  | ["snapshot", _, b, id] => w.take b id false
  | ["snapshot", _, b, id, "--park"] => w.take b id true
  | ["destroy", _, b] => if b ∈ w.forks.keys then (.exited 0 "" "", w.drop b) else w.refuse
  | ["list", _, "--json"] => (.exited 0 w.report "", w)
  | ["exec", _, b, "--", command] =>
    match w.live b with
    | none => w.refuse
    | some (base, e) => (.exited 0 "" "", w.put b (base, e ++ [command]))
  | _ => w.refuse

def cli : WaypointCli Slate where
  waypointBin := "/usr/local/bin/waypoint"
  stateforkRoot := "/opt/statefork"
  executable w := (true, w)
  launch := launch
  describe _ _ := ""
  forksOf stdout := .ok (some ((readReport stdout).filterMap fun (kind, id, origin) =>
    if kind = "fork" then some { id := some id, baseCheckpointId := some origin } else none))
  checkpointsOf stdout := .ok (some ((readReport stdout).filterMap fun (kind, id, origin) =>
    if kind = "checkpoint" then some { id, parentId := some origin } else none))
  abspath path _ := path
  showTimeout _ := ""
  time w := (0, w)
  uuid4Hex w := (String.ofList (List.replicate 32 (Char.ofNat (97 + w.taken.keys.length))), w)

def forkOne (snapshotId : String) (requested : Option String) (w : Slate) : ForkAttempt × Slate :=
  let id := requested.getD (w.ids.headD "")
  let w := if requested.isSome then w else { w with ids := w.ids.tail }
  match w.stored snapshotId with
  | none => (⟨.exited 1 "" "", 0, none⟩, w)
  | some e =>
    if WaypointFork.Word id ∧ id ∉ w.forks.keys then
      (⟨.exited 0 (String.ofList (WaypointFork.forkLine id 1 "/run/waypoint" "1ms" [])) "", 1, some id⟩,
        w.put id (snapshotId, e))
    else (⟨.exited 1 "" "", 0, none⟩, w)

def runForks (snapshotId : String) : List (Option String) → Slate → List ForkAttempt × Slate
  | [], w => ([], w)
  | requested :: requestedIds, w =>
    let (attempt, w) := forkOne snapshotId requested w
    let (attempts, w) := runForks snapshotId requestedIds w
    (attempt :: attempts, w)

theorem length_runForks (snapshotId : String) (requestedIds : List (Option String)) (w : Slate) :
    (runForks snapshotId requestedIds w).1.length = requestedIds.length := by
  induction requestedIds generalizing w with
  | nil => rfl
  | cons requested requestedIds ih => exact congrArg (· + 1) (ih _)

def pool : ForkPool Slate where
  run := runForks
  length_run := length_runForks

end Slate

namespace WaypointCli

variable {W : Type}

/-! ### The words of a command -/

/-- The characters with which `shlex.quote` leaves a word alone. -/
theorem not_mem_specials_of_safe {c : Char} (h : (c.isAlphanum || decide (c ∈ "_@%+=:,./-".toList)) = true) :
    c ∉ Shell.specials := by
  have hunsafe : (Shell.specials.all fun c => !(c.isAlphanum || decide (c ∈ "_@%+=:,./-".toList))) = true := by
    decide +kernel
  intro hc
  have hbad := List.all_eq_true.mp hunsafe c hc
  rw [h] at hbad
  cases hbad

theorem spells_shlexQuote (word : String) : Shell.Spells (shlexQuote word).toList word.toList := by
  unfold shlexQuote
  dsimp only
  split_ifs with hempty hsafe
  · subst hempty
    exact Shell.spells_quote []
  · refine Shell.spells_of_bare (fun h => hempty (String.toList_eq_nil_iff.mp h)) fun c hc => not_mem_specials_of_safe ?_
    exact List.all_eq_true.mp hsafe c hc
  · have hquote : ("'" ++ String.join (word.toList.map fun c => if c = Char.ofNat 39 then "'\"'\"'" else c.toString) ++
        "'").toList = Shell.quote word.toList := by
      rw [String.toList_append, String.toList_append, String.toList_join, List.flatMap_map]
      refine congrArg (fun l => '\'' :: l ++ ['\'']) (List.flatMap_congr fun c _ => ?_)
      unfold Shell.quoteChar
      show (if c = '\'' then "'\"'\"'" else c.toString).toList = _
      split_ifs with hc
      · rfl
      · exact String.toList_singleton c
    rw [hquote]
    exact Shell.spells_quote word.toList

/-- Words that are quoted one by one and joined by blanks are read back. -/
theorem tokens_join (words : List String) :
    Shell.tokens (" ".intercalate (words.map shlexQuote)).toList = some (words.map fun word => .word word.toList) := by
  have hspells : List.Forall₂ Shell.Spells (words.map fun word => (shlexQuote word).toList)
      (words.map String.toList) := by
    rw [List.forall₂_map_left_iff, List.forall₂_map_right_iff]
    exact List.forall₂_same.mpr fun word _ => spells_shlexQuote word
  have hread := Shell.tokens_intercalate hspells
  rw [String.toList_intercalate, List.map_map]
  exact hread.trans (by rw [List.map_map]; rfl)

/-- Quoting adds only quotes. -/
theorem mem_of_mem_shlexQuote {word : String} {c : Char} (h : c ∈ (shlexQuote word).toList) :
    c ∈ word.toList ∨ c = '\'' ∨ c = '"' := by
  unfold shlexQuote at h
  dsimp only at h
  split_ifs at h with hempty hsafe
  · exact .inr (.inl (by simpa using h))
  · exact .inl h
  · rw [String.toList_append, String.toList_append, String.toList_join, List.flatMap_map] at h
    simp only [List.mem_append, List.mem_flatMap] at h
    rcases h with (h | ⟨d, hd, h⟩) | h
    · exact .inr (.inl (by simpa using h))
    · split_ifs at h with hquote
      · have hquotes : c = '\'' ∨ c = '"' ∨ c = '\'' ∨ c = '"' ∨ c = '\'' := by simpa using h
        exact .inr (by tauto)
      · obtain rfl : c = d := by simpa using h
        exact .inl hd
    · exact .inr (.inl (by simpa using h))

/-- Where every word has none of a character that is neither a quote nor a blank, the line has none of it. -/
theorem not_mem_join {words : List String} {c : Char} (hwords : ∀ word ∈ words, c ∉ word.toList)
    (hc : c ≠ '\'' ∧ c ≠ '"' ∧ c ≠ ' ') : c ∉ (" ".intercalate (words.map shlexQuote)).toList := by
  rw [String.toList_intercalate]
  intro hmem
  rcases Text.mem_intercalate hmem with hblank | ⟨field, hfield, hmem⟩
  · exact hc.2.2 (List.mem_singleton.mp hblank)
  · obtain ⟨_, hquoted, rfl⟩ := List.mem_map.mp hfield
    obtain ⟨word, hword, rfl⟩ := List.mem_map.mp hquoted
    rcases mem_of_mem_shlexQuote hmem with hmem | hmem | hmem
    · exact hwords word hword hmem
    · exact hc.1 hmem
    · exact hc.2.1 hmem

/-- A command that is a list of words is launched as one argument, in which a shell reads the words as words. A NUL, which
no argument can have, comes only from a word. -/
theorem exec_words_round_trip (C : WaypointCli W) (sessionId branchId : String) (words : List String)
    (timeout : Option ℚ) (w : W) (hsession : sessionId ≠ "") (hfound : (C.executable w).1 = true) :
    ∃ line : String,
      C.coreExec sessionId (.argv words) timeout branchId w =
        (let x := C.launch ["exec", sessionId, branchId, "--", line] timeout (C.executable w).2
        (((C.shell sessionId).answer timeout (some x.1)).map fun (returncode, stdout, stderr) =>
          (returncode, stdout.asText, stderr.asText), x.2)) ∧
      Shell.tokens line.toList = some (words.map fun word => .word word.toList) ∧
      ((∀ word ∈ words, Char.ofNat 0 ∉ word.toList) → Char.ofNat 0 ∉ line.toList) := by
  refine ⟨" ".intercalate (words.map shlexQuote), ?_, tokens_join words, fun hwords => not_mem_join hwords (by decide)⟩
  unfold coreExec WaypointShell.execRaw WaypointShell.process
  rw [if_neg (show ¬ (C.shell sessionId).sessionId = "" from hsession)]
  show (((C.shell sessionId).answer timeout (some (C.runWaypoint _ timeout w).1)).map _,
    (C.runWaypoint _ timeout w).2) = _
  unfold runWaypoint
  dsimp only
  rw [hfound]
  rfl

/-- Three words for the default branch, one of them empty and one with quotes of both kinds and a line break. -/
theorem exec_words_round_trip_slate :
    let words := ["echo", "", "it's \"here\"\n"]
    ∃ line : String,
      Slate.cli.coreExec "s-01" (.argv words) none "main" (Slate.create []) =
        (.ok (0, "", ""), (Slate.create []).put "main" ("", [line])) ∧
      Shell.tokens line.toList = some (words.map fun word => .word word.toList) ∧ Char.ofNat 0 ∉ line.toList := by
  intro words
  obtain ⟨line, hlaunch, htokens, hnul⟩ := exec_words_round_trip Slate.cli "s-01" "main" words none (Slate.create [])
    (by decide) rfl
  exact ⟨line, hlaunch, htokens, hnul (by decide +kernel)⟩

end WaypointCli

end StateFork
