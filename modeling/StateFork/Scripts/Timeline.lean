import StateFork.Lib.Numeral
import StateFork.Lib.Run
import StateFork.Lib.Store
import StateFork.Controller.State

/-!
# The timeline of a benchmark

`TimelineManager` writes what a benchmark logs to a file, a line for every call, and `parse_timeline_file` reads the
file back. Every run of a benchmark appends to the file. Names and files are lists of characters here.
-/

namespace StateFork.Timeline

/-! ### Writing -/

inductive OpType where
  | snapshot
  | restore
  | network
  | internal
  | wait
  | failure
  deriving DecidableEq

/-- The color of an operation. -/
def OpType.value : OpType → List Char
  | snapshot => "blue".toList
  | restore => "green".toList
  | network => "pink".toList
  | internal => "purple".toList
  | wait => "orange".toList
  | failure => "gray".toList

/-- A date as `time.gmtime` gives it. -/
structure Gmtime where
  year : Nat
  mon : Nat
  mday : Nat
  hour : Nat
  min : Nat
  sec : Nat

/-- `time.strftime` with the format `%Y-%m-%d %H:%M:%S`. -/
def Gmtime.strftime (t : Gmtime) : List Char :=
  Nat.toDigits 10 t.year ++ '-' :: Text.zeroPadded 2 t.mon ++ '-' :: Text.zeroPadded 2 t.mday ++
    ' ' :: Text.zeroPadded 2 t.hour ++ ':' :: Text.zeroPadded 2 t.min ++ ':' :: Text.zeroPadded 2 t.sec

/-- A manager and what is in the file to which it appends. -/
structure TimelineManager where
  file : List Char
  writeCache : List (List Char) := []

namespace TimelineManager

def write (tm : TimelineManager) (content : List Char) : TimelineManager :=
  { tm with file := tm.file ++ (content ++ ['\n']) }

def cache (tm : TimelineManager) (content : List Char) : TimelineManager :=
  { tm with writeCache := tm.writeCache ++ [content] }

def flush (tm : TimelineManager) : TimelineManager :=
  if tm.writeCache = [] then tm
  else { file := tm.file ++ (['\n'].intercalate tm.writeCache ++ ['\n']), writeCache := [] }

/-- `__init__`, on a file with a content. -/
def init (file : List Char) (time : ℚ) (gmtime : Gmtime) : TimelineManager :=
  (({ file := file } : TimelineManager).write
    ("# Timeline Data for RunID ".toList ++ Text.decimal (Text.truncate time))).write
      ("# Created at UTC ".toList ++ gmtime.strftime) |>.write "# Duration unit is milliseconds(ms)".toList

/-- The key under which the parser finds a section. -/
def sectionKey (sectionName : List Char) (compressed : Bool) : List Char :=
  if compressed then '*' :: sectionName else sectionName

def logSection (tm : TimelineManager) (sectionName : List Char) (compressed : Bool := false) : TimelineManager :=
  tm.cache ('[' :: sectionKey sectionName compressed ++ [']'])

def logStep (tm : TimelineManager) (stepName : List Char) (sec : ℚ) (optype : OpType) : TimelineManager :=
  tm.cache (stepName ++ ", ".toList ++ Text.fixed 3 (sec * 1000) ++ ", ".toList ++ optype.value)

def logColor (tm : TimelineManager) (colorId colorName : List Char) : TimelineManager :=
  tm.cache ('>' :: colorId ++ ": ".toList ++ colorName)

end TimelineManager

/-- The calls of a benchmark. -/
inductive Call where
  | logColor (colorId colorName : List Char)
  | logSection (sectionName : List Char) (compressed : Bool)
  | logStep (stepName : List Char) (sec : ℚ) (optype : OpType)
  | flush

def TimelineManager.call (tm : TimelineManager) : Call → TimelineManager
  | .logColor colorId colorName => tm.logColor colorId colorName
  | .logSection sectionName compressed => tm.logSection sectionName compressed
  | .logStep stepName sec optype => tm.logStep stepName sec optype
  | .flush => tm.flush

/-- The life of one manager: when it was made and what it was asked to log, before it is flushed. -/
structure Session where
  time : ℚ
  gmtime : Gmtime
  calls : List Call

/-- What the file holds afterwards. -/
def Session.run (file : List Char) (s : Session) : List Char :=
  (s.calls.foldl TimelineManager.call (TimelineManager.init file s.time s.gmtime)).flush.file

/-- What the file holds after several managers in a row. -/
def written (sessions : List Session) : List Char := sessions.foldl Session.run []

/-! ### Reading -/

/-- A step of a section: its name, its duration in milliseconds and the key of its color. -/
structure Step where
  name : List Char
  duration : ℚ
  colorKey : List Char
  deriving DecidableEq

/-- The state of the parser between two lines. -/
structure Parsed where
  sections : Dict (List Char) (List Step) := Dict.empty
  colorLabels : Dict (List Char) (List Char) := Dict.empty
  currentSection : Option (List Char) := none

/-- `line.rsplit(",", maxsplit=2)` of a line with two commas. -/
def rsplit (line : List Char) : Option (List Char × List Char × List Char) := do
  let (rest, colorKey) ← Text.rpartition ',' line
  let (name, dur) ← Text.rpartition ',' rest
  return (name, dur, colorKey)

/-- One iteration of `parse_timeline_file`. -/
def parseLine (s : Parsed) (line : List Char) : Except PyError Parsed :=
  let line := Text.strip line
  if line = [] ∨ line.head? = some '#' then .ok s
  else if line.head? = some '[' ∧ line.getLast? = some ']' then
    let currentSection := (line.drop 1).dropLast
    .ok { s with currentSection := some currentSection, sections := s.sections.set currentSection [] }
  else if line.head? = some '>' then
    match Text.partition ':' (line.drop 1) with
    | none => .error ⟨.valueError, "not enough values to unpack (expected 2, got 1)"⟩
    | some (colorKey, label) => .ok { s with colorLabels := s.colorLabels.set (Text.strip colorKey) (Text.strip label) }
  else
    match rsplit line with
    -- Lines without two commas and durations that are no number are skipped.
    | none => .ok s
    | some (name, dur, colorKey) =>
      match s.currentSection with
      | none => .error ⟨.keyError, "None"⟩
      | some key =>
        match s.sections.get? key with
        | none => .error ⟨.keyError, String.ofList key⟩
        | some steps =>
          match Text.float (Text.strip dur) with
          | none => .ok s
          | some duration =>
            .ok { s with sections := s.sections.set key (steps ++ [⟨Text.strip name, duration, Text.strip colorKey⟩]) }

/-- `parse_timeline_file` -/
def parseTimelineFile (file : List Char) :
    Except PyError (Dict (List Char) (List Step) × Dict (List Char) (List Char)) :=
  ((Text.fileLines file).foldlM parseLine {}).map fun s => (s.sections, s.colorLabels)

end StateFork.Timeline
