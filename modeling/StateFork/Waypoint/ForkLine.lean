import StateFork.Lib.Numeral
import StateFork.Lib.Store
import StateFork.Controller.State

/-!
# Calls of the `waypoint` binary

`Process` is what a call of `_run_waypoint` can end with. What `waypoint fork` prints is the id of the new branch and
fields that describe its process. The fields that the line starts with count: whatever follows them in the breakdown, be
it of the same name, changes nothing (`parseForkLine_forkLine`).
-/

namespace StateFork

/-- How a call of `_run_waypoint` ends. -/
inductive Process where
  | exited (returncode : Int) (stdout stderr : String)
  /-- `TimeoutExpired`, with the output captured so far: bytes, also with `text=True`, or `None`. -/
  | timedOut (stdout stderr : Option (List UInt8))
  /-- The binary was not found or could not be launched. -/
  | raised (e : PyError)
  deriving DecidableEq

/-- A live fork of a checkpoint. -/
structure WaypointFork extends EnvironmentBranch where
  pid : Int := 0
  socket : String := ""
  restoreDuration : Option String := none
  deriving DecidableEq, Repr

namespace WaypointFork

/-- Takes a field `key=value`, unless there is one of that name. -/
def addField (kv : Dict (List Char) (List Char)) (field : List Char) : Dict (List Char) (List Char) :=
  match Text.partition '=' field with
  | none => kv
  | some (key, value) => if (kv.get? key).isSome then kv else kv.set key value

/-- `_parse_fork_line` -/
def parseForkLine (output baseCheckpoint : String) : Option WaypointFork :=
  match (Text.lines (Text.strip output.toList)).getLast? with
  | none => none
  | some line =>
    match Text.words line with
    | [] => none
    | id :: fields =>
      let kv := fields.foldl addField Dict.empty
      let pid := (Text.int ((kv.get? "pid".toList).getD ['0'])).getD 0
      some
        { id := String.ofList id
          baseSnapshotId := baseCheckpoint
          pid := pid
          socket := String.ofList ((kv.get? "socket".toList).getD [])
          restoreDuration := (kv.get? "duration".toList).map String.ofList }

theorem baseSnapshotId_of_parseForkLine {output baseCheckpoint : String} {fork : WaypointFork}
    (h : parseForkLine output baseCheckpoint = some fork) : fork.baseSnapshotId = baseCheckpoint := by
  unfold parseForkLine at h
  split at h
  · cases h
  · split at h
    · cases h
    · obtain rfl := Option.some.inj h
      rfl

/-! ### The fields -/

/-- A later field leaves the keys that are there alone. -/
theorem get?_foldl_addField {kv : Dict (List Char) (List Char)} {key value : List Char}
    (h : kv.get? key = some value) (fields : List (List Char)) :
    (fields.foldl addField kv).get? key = some value := by
  induction fields generalizing kv with
  | nil => exact h
  | cons field fields ih =>
    refine ih ?_
    unfold addField
    cases hcut : Text.partition '=' field with
    | none => exact h
    | some p =>
      dsimp only
      split_ifs with hkey
      · exact h
      · have hne : key ≠ p.1 := by
          rintro rfl
          exact hkey (by rw [h]; rfl)
        rw [Dict.get?_set_of_ne _ _ hne]
        exact h

theorem addField_append {kv : Dict (List Char) (List Char)} (key : List Char) (hkey : '=' ∉ key)
    (hnew : kv.get? key = none) (value : List Char) : addField kv (key ++ '=' :: value) = kv.set key value := by
  rw [addField, Text.partition_append_cons hkey]
  exact if_neg (by simp [hnew])

/-! ### The line -/

/-- A text of one word. -/
def Word (s : String) : Prop := s ≠ "" ∧ ∀ c ∈ s.toList, Text.isSpace c = false

instance decidableWord (s : String) : Decidable (Word s) :=
  letI : Decidable (∀ c ∈ s.toList, Text.isSpace c = false) := List.decidableBAll _ _
  inferInstanceAs (Decidable (s ≠ "" ∧ ∀ c ∈ s.toList, Text.isSpace c = false))

/-- `<id> pid=<pid> socket=<socket> duration=<duration> <breakdown...>`, as fields. -/
def forkFields (id : String) (pid : Nat) (socket duration : String) (breakdown : List String) : List (List Char) :=
  id.toList :: ("pid=".toList ++ Nat.toDigits 10 pid) :: ("socket=".toList ++ socket.toList) ::
    ("duration=".toList ++ duration.toList) :: breakdown.map String.toList

def forkLine (id : String) (pid : Nat) (socket duration : String) (breakdown : List String) : List Char :=
  [' '].intercalate (forkFields id pid socket duration breakdown)

/-- The last line of an output that is not blank. -/
def LastLine (output : String) (line : List Char) : Prop :=
  ∃ before after, output.toList = before ++ line ++ after ∧
    (before = [] ∨ ∃ text c, before = text ++ [c] ∧ Text.isLineBreak c = true) ∧
    (after = [] ∨ ∃ c text, after = c :: text ∧ Text.isLineBreak c = true) ∧ Text.Blank after

/-- Only the white space at its end can be lost of the last line. -/
theorem getLast?_lines_strip {output : String} {line rest : List Char} {c : Char} (hlast : LastLine output line)
    (hline : line = c :: rest) (hc : Text.isSpace c = false) (hbreak : ∀ d ∈ line, Text.isLineBreak d = false) :
    (Text.lines (Text.strip output.toList)).getLast? = some (Text.rstrip line) := by
  obtain ⟨before, after, houtput, hbefore, -, hblank⟩ := hlast
  have hrstrip : Text.rstrip line = c :: Text.rstrip rest := hline ▸ Text.rstrip_append_cons hc [] rest
  have hstrip : Text.strip output.toList = Text.lstrip before ++ Text.rstrip line := by
    rw [houtput, hrstrip, hline, List.append_assoc, List.cons_append, Text.strip_append_cons hc,
      Text.rstrip_append_of_blank rest hblank]
  have hlines : Text.lines (Text.rstrip line) = [Text.rstrip line] := by
    refine Text.lines_of_no_break (fun h => ?_) fun d hd => hbreak d (Text.mem_of_mem_rstrip hd)
    rw [h c (hrstrip ▸ List.mem_cons_self)] at hc
    cases hc
  rw [hstrip]
  rcases hbefore with rfl | ⟨text, b, rfl, hb⟩
  · rw [show Text.lstrip [] = [] from rfl, List.nil_append, hlines]
    rfl
  · -- What is left of the preceding lines is nothing, or it still ends with the line break.
    rcases Text.lstrip_append_singleton text b with h | h
    · rw [h, List.nil_append, hlines]
      rfl
    · rw [h, List.append_assoc, List.singleton_append, Text.lines_append_cons hb, hlines, List.getLast?_concat]

theorem isSpace_of_mem_forkFields {id socket duration : String} {breakdown : List String} (hid : Word id)
    (hsocket : Word socket) (hduration : Word duration)
    (hbreakdown : ∀ field ∈ breakdown, ∀ c ∈ field.toList, Text.isSpace c = false) (pid : Nat) :
    ∀ field ∈ forkFields id pid socket duration breakdown, ∀ c ∈ field, Text.isSpace c = false := by
  have hlabel {label value : List Char} (hlabel : ∀ c ∈ label, Text.isSpace c = false)
      (hvalue : ∀ c ∈ value, Text.isSpace c = false) : ∀ c ∈ label ++ value, Text.isSpace c = false :=
    fun c hc => (List.mem_append.mp hc).elim (hlabel c) (hvalue c)
  have hdigits : ∀ c ∈ Nat.toDigits 10 pid, Text.isSpace c = false :=
    fun c hc => Text.isSpace_of_isDigit (Text.isDigit_toDigits hc)
  intro field hfield
  rcases List.mem_cons.mp hfield with rfl | hfield
  · exact hid.2
  rcases List.mem_cons.mp hfield with rfl | hfield
  · exact hlabel (Text.nonspace_of_all (by decide)) hdigits
  rcases List.mem_cons.mp hfield with rfl | hfield
  · exact hlabel (Text.nonspace_of_all (by decide)) hsocket.2
  rcases List.mem_cons.mp hfield with rfl | hfield
  · exact hlabel (Text.nonspace_of_all (by decide)) hduration.2
  obtain ⟨text, htext, rfl⟩ := List.mem_map.mp hfield
  exact hbreakdown text htext

/-- The line is not broken anywhere: between two fields there is a space. -/
theorem isLineBreak_of_mem_intercalate {fields : List (List Char)}
    (h : ∀ field ∈ fields, ∀ c ∈ field, Text.isSpace c = false) :
    ∀ c ∈ [' '].intercalate fields, Text.isLineBreak c = false := by
  intro c hc
  by_contra hbreak
  have hspace := Text.isSpace_of_isLineBreak (by simpa using hbreak)
  have hmem := Text.mem_intercalate hc
  rcases hmem with hmem | ⟨field, hfield, hmem⟩
  · rw [List.mem_singleton.mp hmem] at hbreak
    exact hbreak rfl
  · rw [h field hfield c hmem] at hspace
    cases hspace

/-- The fields that the line starts with are the ones that count. -/
theorem get?_kv (pid : Nat) (socket duration : String) (fields : List (List Char)) :
    let kv := (("pid=".toList ++ Nat.toDigits 10 pid) :: ("socket=".toList ++ socket.toList) ::
      ("duration=".toList ++ duration.toList) :: fields).foldl addField Dict.empty
    kv.get? "pid".toList = some (Nat.toDigits 10 pid) ∧ kv.get? "socket".toList = some socket.toList ∧
      kv.get? "duration".toList = some duration.toList := by
  let first : Dict (List Char) (List Char) := Dict.empty.set "pid".toList (Nat.toDigits 10 pid)
  let second := first.set "socket".toList socket.toList
  let third := second.set "duration".toList duration.toList
  have hpid : addField Dict.empty ("pid=".toList ++ Nat.toDigits 10 pid) = first :=
    addField_append "pid".toList (by decide) rfl _
  have hsocket : addField first ("socket=".toList ++ socket.toList) = second :=
    addField_append "socket".toList (by decide) (Dict.get?_set_of_ne _ _ (by decide)) _
  have hduration : addField second ("duration=".toList ++ duration.toList) = third := by
    refine addField_append "duration".toList (by decide) ?_ _
    exact (Dict.get?_set_of_ne _ _ (by decide)).trans (Dict.get?_set_of_ne _ _ (by decide))
  rw [List.foldl_cons, hpid, List.foldl_cons, hsocket, List.foldl_cons, hduration]
  refine ⟨get?_foldl_addField ?_ fields, get?_foldl_addField ?_ fields, get?_foldl_addField ?_ fields⟩
  · exact ((Dict.get?_set_of_ne _ _ (by decide)).trans (Dict.get?_set_of_ne _ _ (by decide))).trans
      (Dict.get?_set_self ..)
  · exact (Dict.get?_set_of_ne _ _ (by decide)).trans (Dict.get?_set_self ..)
  · exact Dict.get?_set_self ..

/-- What becomes of a fork line that was printed; only the pid is read once more. -/
theorem parseForkLine_printed (id : String) (pid : Nat) (socket duration : String) (breakdown : List String)
    (hid : Word id) (hsocket : Word socket) (hduration : Word duration)
    (hbreakdown : ∀ field ∈ breakdown, ∀ c ∈ field.toList, Text.isSpace c = false) {output : String}
    (hlast : LastLine output (forkLine id pid socket duration breakdown)) (baseCheckpoint : String) :
    parseForkLine output baseCheckpoint = some
      { id, baseSnapshotId := baseCheckpoint, pid := (Text.int (Nat.toDigits 10 pid)).getD 0, socket,
        restoreDuration := some duration } := by
  have hfields := isSpace_of_mem_forkFields hid hsocket hduration hbreakdown pid
  have hbreak := isLineBreak_of_mem_intercalate hfields
  obtain ⟨c, rest, hcons⟩ := List.exists_cons_of_ne_nil (mt String.toList_eq_nil_iff.mp hid.1)
  have hline : forkLine id pid socket duration breakdown =
      c :: (rest ++ [' '] ++ [' '].intercalate (forkFields id pid socket duration breakdown).tail) := by
    rw [forkLine, forkFields, List.intercalate_cons_cons, hcons]
    rfl
  have hc : Text.isSpace c = false := hid.2 c (hcons ▸ List.mem_cons_self)
  have hwords : Text.words (Text.rstrip (forkLine id pid socket duration breakdown)) =
      id.toList :: (forkFields id pid socket duration breakdown).tail.filter (· ≠ []) := by
    rw [Text.words_rstrip, forkLine, Text.words_intercalate hfields, forkFields, List.filter_cons_of_pos]
    · rfl
    · simp [hid.1]
  have hkept : (forkFields id pid socket duration breakdown).tail.filter (· ≠ []) =
      ("pid=".toList ++ Nat.toDigits 10 pid) :: ("socket=".toList ++ socket.toList) ::
        ("duration=".toList ++ duration.toList) :: (breakdown.map String.toList).filter (· ≠ []) := rfl
  obtain ⟨hpid, hsocket', hduration'⟩ :=
    get?_kv pid socket duration ((breakdown.map String.toList).filter (· ≠ []))
  unfold parseForkLine
  rw [getLast?_lines_strip hlast hline hc hbreak]
  dsimp only
  rw [hwords]
  dsimp only
  rw [hkept, hpid, hsocket', hduration']
  simp

/-- Parsing a fork line undoes printing it, where the pid has no more digits than `int` converts. -/
theorem parseForkLine_forkLine (id : String) (pid : Nat) (socket duration : String) (breakdown : List String)
    (hid : Word id) (hsocket : Word socket) (hduration : Word duration)
    (hpid : (Nat.toDigits 10 pid).length ≤ Text.maxStrDigits)
    (hbreakdown : ∀ field ∈ breakdown, ∀ c ∈ field.toList, Text.isSpace c = false) {output : String}
    (hlast : LastLine output (forkLine id pid socket duration breakdown)) (baseCheckpoint : String) :
    parseForkLine output baseCheckpoint = some
      { id, baseSnapshotId := baseCheckpoint, pid, socket, restoreDuration := some duration } := by
  have hread : Text.int (Nat.toDigits 10 pid) = some (pid : Int) := by rw [Text.int_toDigits, if_pos hpid]
  rw [parseForkLine_printed id pid socket duration breakdown hid hsocket hduration hbreakdown hlast, hread]
  rfl

theorem parseForkLine_breakdown :
    parseForkLine "restoring\n3f2a pid=4711 socket=/run/a=b.sock duration=312ms pid=9 criu=1=2\n \n" "base" = some
      { id := "3f2a", baseSnapshotId := "base", pid := 4711, socket := "/run/a=b.sock", restoreDuration := some "312ms" } :=
  have hbreakdown : (["pid=9", "criu=1=2"].all fun field => field.toList.all fun c => !Text.isSpace c) = true := by decide
  parseForkLine_forkLine "3f2a" 4711 "/run/a=b.sock" "312ms" ["pid=9", "criu=1=2"]
    ⟨by decide, Text.nonspace_of_all (by decide)⟩ ⟨by decide, Text.nonspace_of_all (by decide)⟩
    ⟨by decide, Text.nonspace_of_all (by decide)⟩ (by decide)
    (fun field hfield => Text.nonspace_of_all (List.all_eq_true.mp hbreakdown field hfield))
    ⟨"restoring\n".toList, "\n \n".toList, by decide, .inr ⟨"restoring".toList, '\n', rfl, rfl⟩,
      .inr ⟨'\n', " \n".toList, rfl, rfl⟩, by decide⟩ "base"

theorem lastLine_self {line : List Char} : LastLine (String.ofList line) line :=
  ⟨[], [], by simp, .inl rfl, .inl rfl, fun _ h => (List.not_mem_nil h).elim⟩

/-- A pid of one digit more than `int` converts counts as 0. -/
theorem parseForkLine_longPid :
    let pid := 10 ^ Text.maxStrDigits
    let output := String.ofList (forkLine "3f2a" pid "/run/3f2a.sock" "312ms" [])
    parseForkLine output "base" = some
        { id := "3f2a", baseSnapshotId := "base", pid := 0, socket := "/run/3f2a.sock", restoreDuration := some "312ms" } ∧
      parseForkLine output "base" ≠ some
        { id := "3f2a", baseSnapshotId := "base", pid := pid, socket := "/run/3f2a.sock",
          restoreDuration := some "312ms" } := by
  intro pid output
  have hlong : ¬ (Nat.toDigits 10 pid).length ≤ Text.maxStrDigits := by
    rw [Nat.length_toDigits_le_iff (by decide) (by decide)]
    exact lt_irrefl _
  have hread : Text.int (Nat.toDigits 10 pid) = none := by rw [Text.int_toDigits, if_neg hlong]
  have hparse := parseForkLine_printed "3f2a" pid "/run/3f2a.sock" "312ms" []
    ⟨by decide, Text.nonspace_of_all (by decide)⟩ ⟨by decide, Text.nonspace_of_all (by decide)⟩
    ⟨by decide, Text.nonspace_of_all (by decide)⟩ (fun _ h => (List.not_mem_nil h).elim) lastLine_self "base"
  rw [hread] at hparse
  refine ⟨hparse, fun h => ?_⟩
  have hzero : (0 : Int) = pid := congrArg WaypointFork.pid (Option.some.inj (hparse.symm.trans h))
  have hpos : 0 < pid := Nat.pow_pos (by decide)
  omega

end WaypointFork

end StateFork
