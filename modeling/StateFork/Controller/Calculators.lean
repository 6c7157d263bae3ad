import Mathlib.Data.List.Sort
import Mathlib.Algebra.BigOperators.Group.List.Basic
import StateFork.Lib.Numeral
import StateFork.Lib.Store
import StateFork.Controller.State

/-!
# Size calculators

A calculator is numbered by the class attribute `_counter` of its class, which a class without one of its own reads from
its base class. `get_all_statistics` keys the sizes by the labels, so that two calculators with one name and one number
share an entry.
-/

namespace StateFork

/-- The classes of calculators. `Calculator` is abstract. -/
inductive CalculatorClass where
  | calculator
  | fileSizeCalculator
  | gvisorCalculator
  | imageCalculator
  | waypointCalculator
  deriving DecidableEq

/-- The method resolution order. -/
def CalculatorClass.mro : CalculatorClass → List CalculatorClass
  | calculator => [calculator]
  | fileSizeCalculator => [fileSizeCalculator, calculator]
  | gvisorCalculator => [gvisorCalculator, fileSizeCalculator, calculator]
  | imageCalculator => [imageCalculator, calculator]
  | waypointCalculator => [waypointCalculator, calculator]

/-- The attributes `_counter` of the classes that have one of their own. -/
abbrev Counters : Type := CalculatorClass → Option Nat

namespace Counters

/-- Before anything is constructed only the base class has a counter. -/
def init : Counters
  | .calculator => some 0
  | _ => none

/-- `cls._counter`, read through the base classes. -/
def read (counters : Counters) (cls : CalculatorClass) : Nat := (cls.mro.findSome? counters).getD 0

/-- `cls._counter += 1`, which writes to the class itself. -/
def increment (counters : Counters) (cls : CalculatorClass) : Counters :=
  Function.update counters cls (some (counters.read cls + 1))

end Counters

/-- The names under which the managers construct the calculators of Waypoint. -/
inductive WaypointName where
  | filesystem
  | memory
  deriving DecidableEq

/-- A construction, with the arguments of the constructor. -/
inductive NewCalculator where
  | fileSizeCalculator (rootDir : String)
  | gvisorCalculator (containerName : String)
  | imageCalculator (cliCommand repository : String)
  | waypointCalculator (rootDir subDir : String) (name : WaypointName)
  deriving DecidableEq

namespace NewCalculator

def cls : NewCalculator → CalculatorClass
  | fileSizeCalculator _ => .fileSizeCalculator
  | gvisorCalculator _ => .gvisorCalculator
  | imageCalculator _ _ => .imageCalculator
  | waypointCalculator _ _ _ => .waypointCalculator

/-- The name that the constructor passes on to the one of `Calculator`. -/
def name : NewCalculator → List Char
  | fileSizeCalculator _ => "FileSizeCalculator".toList
  | gvisorCalculator _ => "FileSizeCalculator".toList
  | imageCalculator _ _ => "ImageCalculator".toList
  | waypointCalculator _ _ .filesystem => "FILESYSTEM".toList
  | waypointCalculator _ _ .memory => "MEMORY".toList

end NewCalculator

structure Calculator where
  new : NewCalculator
  instanceId : Nat
  deriving DecidableEq

def Calculator.label (c : Calculator) : List Char := c.new.name ++ " #".toList ++ Nat.toDigits 10 c.instanceId

/-- `Calculator.__init__`, with the counters that it leaves behind. -/
def NewCalculator.construct (counters : Counters) (new : NewCalculator) : Calculator × Counters :=
  (⟨new, (counters.increment new.cls).read new.cls⟩, counters.increment new.cls)

/-- A sequence of constructions. -/
def constructAll : Counters → List NewCalculator → List Calculator
  | _, [] => []
  | counters, new :: news => (new.construct counters).1 :: constructAll (new.construct counters).2 news

/-! ### Statistics -/

structure Statistics where
  count : Nat
  total : ℚ
  mean : ℚ
  median : ℚ
  min : ℚ
  max : ℚ
  unit : String
  deriving DecidableEq

/-- `statistics.median` of values that are not empty. -/
def median (values : List ℚ) : ℚ :=
  let sorted := values.mergeSort (· ≤ ·)
  let n := sorted.length
  if n % 2 = 1 then sorted.getD (n / 2) 0 else (sorted.getD (n / 2 - 1) 0 + sorted.getD (n / 2) 0) / 2

/-- The statistics of some values; they are zero where there are none. They are exact rationals: for durations the code
computes with floats, whose sum, mean and median are these only up to rounding. -/
def Statistics.of (values : List ℚ) (unit : String) : Statistics where
  count := values.length
  total := values.sum
  mean := if values = [] then 0 else values.sum / values.length
  median := if values = [] then 0 else StateFork.median values
  min := values.min?.getD 0
  max := values.max?.getD 0
  unit := unit

/-- `Calculator.statistics`, over what the calculator collects. -/
def Calculator.statistics (collect : Calculator → List (String × Nat)) (c : Calculator) : Statistics :=
  Statistics.of ((collect c).map fun item => (item.2 : ℚ)) "bytes"

structure BenchmarkResult where
  time : Dict String Statistics
  size : Dict (List Char) Statistics

/-- `get_all_statistics`, over the log and the calculators that are attached. -/
def getAllStatistics (collect : Calculator → List (String × Nat)) (log : List BenchmarkEntry)
    (sizeCalculators : List Calculator) : BenchmarkResult :=
  let opStats : Dict String (List ℚ) :=
    log.foldl (fun d entry => d.set entry.operation ((d.get? entry.operation).getD [] ++ [entry.elapsedTime])) Dict.empty
  { time := Dict.ofList (opStats.entries.map fun e => (e.1, Statistics.of e.2 "seconds"))
    size := Dict.ofList (sizeCalculators.map fun sc => (sc.label, sc.statistics collect)) }

/-! ### The counters -/

/-- The counters after a sequence of constructions. -/
def countersAfter (news : List NewCalculator) : Counters :=
  news.foldl (fun counters new => counters.increment new.cls) Counters.init

/-- How often a class was constructed. -/
def countOf (cls : CalculatorClass) (news : List NewCalculator) : Nat := news.countP fun new => new.cls = cls

theorem countersAfter_concat (news : List NewCalculator) (new : NewCalculator) :
    countersAfter (news ++ [new]) = (countersAfter news).increment new.cls := by
  rw [countersAfter, List.foldl_concat]
  rfl

theorem countOf_concat (cls : CalculatorClass) (news : List NewCalculator) (new : NewCalculator) :
    countOf cls (news ++ [new]) = countOf cls news + if new.cls = cls then 1 else 0 := by
  rw [countOf, List.countP_append, List.countP_singleton]
  simp [countOf]

theorem cls_ne_calculator (new : NewCalculator) : new.cls ≠ .calculator := by
  cases new <;> exact CalculatorClass.noConfusion

theorem read_of_own {counters : Counters} {cls : CalculatorClass} {n : Nat} (h : counters cls = some n) :
    counters.read cls = n := by
  cases cls <;> simp [Counters.read, CalculatorClass.mro, h]

/-- The prefix of the constructions before the first one of a class. -/
def beforeFirst (cls : CalculatorClass) (news : List NewCalculator) : List NewCalculator :=
  news.takeWhile fun new => new.cls ≠ cls

theorem countOf_eq_zero_iff {cls : CalculatorClass} {news : List NewCalculator} :
    countOf cls news = 0 ↔ ∀ new ∈ news, new.cls ≠ cls := by
  simp [countOf, List.countP_eq_zero]

theorem beforeFirst_of_countOf_eq_zero {cls : CalculatorClass} {news : List NewCalculator} (h : countOf cls news = 0)
    (rest : List NewCalculator) : beforeFirst cls (news ++ rest) = news ++ beforeFirst cls rest :=
  List.takeWhile_append_of_pos fun new hnew => decide_eq_true (countOf_eq_zero_iff.mp h new hnew)

theorem countOf_beforeFirst (cls : CalculatorClass) (news : List NewCalculator) :
    countOf cls (beforeFirst cls news) = 0 := by
  refine countOf_eq_zero_iff.mpr fun new hnew => ?_
  have h := List.mem_takeWhile_imp hnew
  exact of_decide_eq_true h

theorem beforeFirst_append {cls : CalculatorClass} {news : List NewCalculator} (h : countOf cls news ≠ 0)
    (rest : List NewCalculator) : beforeFirst cls (news ++ rest) = beforeFirst cls news := by
  induction news with
  | nil => exact absurd rfl h
  | cons new news ih =>
    unfold beforeFirst at ih ⊢
    rw [List.cons_append, List.takeWhile_cons, List.takeWhile_cons]
    by_cases hnew : new.cls = cls
    · rw [if_neg (by simp [hnew]), if_neg (by simp [hnew])]
    · have hrest : countOf cls news ≠ 0 := by
        rwa [countOf, List.countP_cons_of_neg (by simpa using hnew)] at h
      rw [ih hrest]

/-- A class counts from what it read from its base classes when it was first constructed. -/
theorem countersAfter_eq {cls : CalculatorClass} (hcls : cls ≠ .calculator) (news : List NewCalculator) :
    countersAfter news cls = if countOf cls news = 0 then none
      else some ((countersAfter (beforeFirst cls news)).read cls + countOf cls news) := by
  induction news using List.reverseRecOn with
  | nil => cases cls <;> first | rfl | exact absurd rfl hcls
  | append_singleton news new ih =>
    rw [countersAfter_concat, countOf_concat]
    by_cases hnew : new.cls = cls
    · subst hnew
      rw [if_pos rfl, if_neg (Nat.succ_ne_zero _)]
      have hown : (countersAfter news).increment new.cls new.cls = some ((countersAfter news).read new.cls + 1) :=
        Function.update_self ..
      rw [hown]
      by_cases hzero : countOf new.cls news = 0
      · rw [beforeFirst_of_countOf_eq_zero hzero, hzero]
        simp [beforeFirst]
      · rw [beforeFirst_append hzero]
        rw [if_neg hzero] at ih
        rw [read_of_own ih, Nat.add_assoc]
    · have hown : (countersAfter news).increment new.cls cls = countersAfter news cls :=
        Function.update_of_ne (fun h => hnew h.symm) ..
      rw [hown, ih, if_neg hnew, Nat.add_zero]
      split_ifs with hzero
      · rfl
      · rw [beforeFirst_append hzero]

theorem countersAfter_calculator (news : List NewCalculator) : countersAfter news .calculator = some 0 := by
  induction news using List.reverseRecOn with
  | nil => rfl
  | append_singleton news new ih =>
    rw [countersAfter_concat]
    exact (Function.update_of_ne (cls_ne_calculator new).symm ..).trans ih

/-- A class right below `Calculator` counts its own constructions. -/
theorem read_of_mro {cls : CalculatorClass} (hmro : cls.mro = [cls, .calculator]) (news : List NewCalculator) :
    (countersAfter news).read cls = countOf cls news := by
  have hcls : cls ≠ .calculator := by
    rintro rfl
    cases hmro
  have hnone {news : List NewCalculator} (hzero : countOf cls news = 0) : (countersAfter news).read cls = 0 := by
    have hown := countersAfter_eq hcls news
    rw [if_pos hzero] at hown
    simp [Counters.read, hmro, hown, countersAfter_calculator]
  have hown := countersAfter_eq hcls news
  by_cases hzero : countOf cls news = 0
  · rw [hnone hzero, hzero]
  · rw [if_neg hzero, hnone (countOf_beforeFirst cls news), Nat.zero_add] at hown
    exact read_of_own hown

/-- The calculators of gVisor go on from the number of the file size calculators before the first of them. -/
theorem read_gvisorCalculator (news : List NewCalculator) :
    (countersAfter news).read .gvisorCalculator =
      countOf .fileSizeCalculator (beforeFirst .gvisorCalculator news) + countOf .gvisorCalculator news := by
  have hnone {news : List NewCalculator} (hzero : countOf .gvisorCalculator news = 0) :
      (countersAfter news).read .gvisorCalculator = countOf .fileSizeCalculator news := by
    have hcls : CalculatorClass.gvisorCalculator ≠ .calculator := by decide
    have hown := countersAfter_eq hcls news
    have hfiles : CalculatorClass.fileSizeCalculator.mro = [.fileSizeCalculator, .calculator] := rfl
    rw [if_pos hzero] at hown
    rw [← read_of_mro hfiles]
    simp [Counters.read, CalculatorClass.mro, List.findSome?_cons, hown]
  have hcls : CalculatorClass.gvisorCalculator ≠ .calculator := by decide
  have hown := countersAfter_eq hcls news
  by_cases hzero : countOf .gvisorCalculator news = 0
  · have hall := beforeFirst_of_countOf_eq_zero hzero []
    rw [List.append_nil] at hall
    rw [hnone hzero, hzero, hall]
    simp [beforeFirst]
  · rw [if_neg hzero, hnone (countOf_beforeFirst _ news)] at hown
    exact read_of_own hown

/-! ### Numbers and labels -/

theorem getElem?_constructAll (counters : Counters) (news : List NewCalculator) (i : Nat) :
    (constructAll counters news)[i]? = news[i]?.map fun new =>
      ⟨new, ((news.take i).foldl (fun counters new => counters.increment new.cls) counters).read new.cls + 1⟩ := by
  induction news generalizing counters i with
  | nil => rfl
  | cons new news ih =>
    cases i with
    | zero =>
      have hread : (counters.increment new.cls).read new.cls = counters.read new.cls + 1 :=
        read_of_own (Function.update_self ..)
      simp [constructAll, NewCalculator.construct, hread]
    | succ i => exact ih _ i

theorem length_constructAll (counters : Counters) (news : List NewCalculator) :
    (constructAll counters news).length = news.length := by
  induction news generalizing counters with
  | nil => rfl
  | cons new news ih => exact congrArg (· + 1) (ih _)

variable {news : List NewCalculator}

/-- The calculator of a construction. -/
def calculatorAt (news : List NewCalculator) (i : Fin news.length) : Calculator :=
  (constructAll Counters.init news).get (i.cast (length_constructAll Counters.init news).symm)

theorem calculatorAt_eq (i : Fin news.length) :
    calculatorAt news i = ⟨news.get i, (countersAfter (news.take i)).read (news.get i).cls + 1⟩ := by
  have hget := getElem?_constructAll Counters.init news i
  rw [List.getElem?_eq_getElem i.2, Option.map_some] at hget
  exact Option.some.inj ((List.getElem?_eq_getElem _).symm.trans hget)

theorem countOf_take_succ (cls : CalculatorClass) (i : Fin news.length) :
    countOf cls (news.take (i + 1)) = countOf cls (news.take i) + if (news.get i).cls = cls then 1 else 0 := by
  rw [← List.take_append_getElem i.2, countOf_concat]
  rfl

/-- The number from which a class counts. -/
def numberBase (news : List NewCalculator) : CalculatorClass → Nat
  | .gvisorCalculator => countOf .fileSizeCalculator (beforeFirst .gvisorCalculator news)
  | _ => 0

theorem beforeFirst_take {cls : CalculatorClass} {i : Fin news.length} (hi : (news.get i).cls = cls) :
    beforeFirst cls (news.take i) = beforeFirst cls news := by
  have hnews : news = news.take i ++ news.get i :: news.drop (i + 1) := by
    rw [List.get_eq_getElem, ← List.drop_eq_getElem_cons i.2, List.take_append_drop]
  by_cases hzero : countOf cls (news.take i) = 0
  · have hall := beforeFirst_of_countOf_eq_zero hzero []
    rw [List.append_nil] at hall
    conv_rhs => rw [hnews]
    have hstop : beforeFirst cls (news.get i :: news.drop (i + 1)) = [] :=
      List.takeWhile_cons_of_neg (by simpa using hi)
    rw [hall, beforeFirst_of_countOf_eq_zero hzero, hstop]
    rfl
  · conv_rhs => rw [hnews]
    rw [beforeFirst_append hzero]

/-- The number of a calculator is its rank among those of its class, counted from the base of the class. -/
theorem instanceId_eq (i : Fin news.length) :
    (calculatorAt news i).instanceId =
      numberBase news (news.get i).cls + countOf (news.get i).cls (news.take (i + 1)) := by
  have hread : (countersAfter (news.take i)).read (news.get i).cls =
      numberBase news (news.get i).cls + countOf (news.get i).cls (news.take i) := by
    cases hcls : (news.get i).cls with
    | calculator => exact absurd hcls (cls_ne_calculator _)
    | fileSizeCalculator => exact (read_of_mro rfl _).trans (Nat.zero_add _).symm
    | gvisorCalculator => rw [read_gvisorCalculator, beforeFirst_take hcls]; rfl
    | imageCalculator => exact (read_of_mro rfl _).trans (Nat.zero_add _).symm
    | waypointCalculator => exact (read_of_mro rfl _).trans (Nat.zero_add _).symm
  rw [calculatorAt_eq, countOf_take_succ, if_pos rfl]
  dsimp only
  rw [hread, Nat.add_assoc]

/-- Later constructions of a class have higher ranks. -/
theorem countOf_take_lt {i j : Fin news.length} (hij : i < j) :
    countOf (news.get j).cls (news.take (i + 1)) < countOf (news.get j).cls (news.take (j + 1)) := by
  have hle : countOf (news.get j).cls (news.take (i + 1)) ≤ countOf (news.get j).cls (news.take j) :=
    (List.take_sublist_take_left (Nat.succ_le_of_lt hij)).countP_le
  rw [countOf_take_succ _ j, if_pos rfl]
  omega

/-- Two calculators of one class have different numbers. -/
theorem instanceId_ne_of_cls_eq {i j : Fin news.length} (hij : i ≠ j) (hcls : (news.get i).cls = (news.get j).cls) :
    (calculatorAt news i).instanceId ≠ (calculatorAt news j).instanceId := by
  rw [instanceId_eq, instanceId_eq, hcls]
  rcases lt_or_gt_of_ne hij with hlt | hlt
  · have h := countOf_take_lt hlt
    omega
  · have h := countOf_take_lt hlt
    rw [hcls] at h
    omega

theorem space_not_mem_name (new : NewCalculator) : ' ' ∉ new.name := by
  rcases new with _ | _ | _ | ⟨_, _, _ | _⟩
  · show ' ' ∉ "FileSizeCalculator".toList
    decide
  · show ' ' ∉ "FileSizeCalculator".toList
    decide
  · show ' ' ∉ "ImageCalculator".toList
    decide
  · show ' ' ∉ "FILESYSTEM".toList
    decide
  · show ' ' ∉ "MEMORY".toList
    decide

theorem label_eq_iff {c c' : Calculator} :
    c.label = c'.label ↔ c.new.name = c'.new.name ∧ c.instanceId = c'.instanceId := by
  constructor
  · intro h
    have hcut (c : Calculator) :
        Text.partition ' ' c.label = some (c.new.name, '#' :: Nat.toDigits 10 c.instanceId) := by
      rw [Calculator.label, List.append_assoc]
      exact Text.partition_append_cons (space_not_mem_name c.new) _
    have hparts := (hcut c).symm.trans (h ▸ hcut c')
    obtain ⟨hname, hnumber⟩ := Prod.mk.inj (Option.some.inj hparts)
    exact ⟨hname, Text.toDigits_inj (List.cons.inj hnumber).2⟩
  · rintro ⟨hname, hnumber⟩
    rw [Calculator.label, Calculator.label, hname, hnumber]

/-- Only the calculators of files and of gVisor share a name across classes. -/
theorem cls_of_name_eq {new new' : NewCalculator} (h : new.name = new'.name) :
    new.cls = new'.cls ∨ new.cls = .fileSizeCalculator ∧ new'.cls = .gvisorCalculator ∨
      new.cls = .gvisorCalculator ∧ new'.cls = .fileSizeCalculator := by
  rcases new with _ | _ | _ | ⟨_, _, _ | _⟩ <;> rcases new' with _ | _ | _ | ⟨_, _, _ | _⟩ <;>
    dsimp only [NewCalculator.name] at h <;>
    first
    | exact .inl rfl
    | exact .inr (.inl ⟨rfl, rfl⟩)
    | exact .inr (.inr ⟨rfl, rfl⟩)
    | exact absurd h (by decide)

theorem numberBase_of_ne {cls : CalculatorClass} (h : cls ≠ .gvisorCalculator) (news : List NewCalculator) :
    numberBase news cls = 0 := by
  cases cls <;> first | rfl | exact absurd rfl h

/-! ### What is attached -/

/-- The labels of the attached calculators differ, and each has an entry of its own. -/
def KeepsAll (collect : Calculator → List (String × Nat)) (log : List BenchmarkEntry) (attached : List Calculator) :
    Prop :=
  (attached.map Calculator.label).Nodup ∧
    (getAllStatistics collect log attached).size.entries = attached.map fun c => (c.label, c.statistics collect)

theorem keepsAll_iff {collect : Calculator → List (String × Nat)} {log : List BenchmarkEntry}
    {attached : List Calculator} : KeepsAll collect log attached ↔ (attached.map Calculator.label).Nodup := by
  refine and_iff_left_of_imp fun hlabels => Dict.entries_ofList ?_
  rwa [List.map_map]

/-- A file size calculator and a calculator of gVisor with one number. -/
def Clash (news : List NewCalculator) (i j : Fin news.length) : Prop :=
  (news.get i).cls = .fileSizeCalculator ∧ (news.get j).cls = .gvisorCalculator ∧
    countOf .fileSizeCalculator (news.take (i + 1)) =
      countOf .fileSizeCalculator (beforeFirst .gvisorCalculator news) +
        countOf .gvisorCalculator (news.take (j + 1))

instance (news : List NewCalculator) (i j : Fin news.length) : Decidable (Clash news i j) := by
  unfold Clash
  infer_instance

theorem name_eq_of_clash {i j : Fin news.length} (h : Clash news i j) : (news.get i).name = (news.get j).name := by
  have hfiles (new : NewCalculator) (hnew : new.cls = .fileSizeCalculator) :
      new.name = "FileSizeCalculator".toList := by
    cases new <;> first | rfl | exact CalculatorClass.noConfusion hnew
  have hgvisor (new : NewCalculator) (hnew : new.cls = .gvisorCalculator) :
      new.name = "FileSizeCalculator".toList := by
    cases new <;> first | rfl | exact CalculatorClass.noConfusion hnew
  rw [hfiles _ h.1, hgvisor _ h.2.1]

theorem instanceId_eq_iff_clash {i j : Fin news.length} (hi : (news.get i).cls = .fileSizeCalculator)
    (hj : (news.get j).cls = .gvisorCalculator) :
    (calculatorAt news i).instanceId = (calculatorAt news j).instanceId ↔ Clash news i j := by
  rw [instanceId_eq, instanceId_eq, hi, hj, numberBase_of_ne (by decide), Nat.zero_add]
  exact ⟨fun h => ⟨hi, hj, h⟩, fun h => h.2.2⟩

/-- Two constructions get one label only in a clash. -/
theorem label_calculatorAt_eq_iff {i j : Fin news.length} :
    (calculatorAt news i).label = (calculatorAt news j).label ↔ i = j ∨ Clash news i j ∨ Clash news j i := by
  have hnew (i : Fin news.length) : (calculatorAt news i).new = news.get i := by rw [calculatorAt_eq]
  rw [label_eq_iff, hnew, hnew]
  constructor
  · rintro ⟨hname, hnumber⟩
    rcases cls_of_name_eq hname with hcls | ⟨hi, hj⟩ | ⟨hi, hj⟩
    · by_contra h
      exact instanceId_ne_of_cls_eq (fun hij => h (.inl hij)) hcls hnumber
    · exact .inr (.inl ((instanceId_eq_iff_clash hi hj).mp hnumber))
    · exact .inr (.inr ((instanceId_eq_iff_clash hj hi).mp hnumber.symm))
  · rintro (rfl | h | h)
    · exact ⟨rfl, rfl⟩
    · exact ⟨name_eq_of_clash h, (instanceId_eq_iff_clash h.1 h.2.1).mpr h⟩
    · exact ⟨(name_eq_of_clash h).symm, ((instanceId_eq_iff_clash h.1 h.2.1).mpr h).symm⟩

/-- Attached calculators keep their entries exactly where none is attached twice and no two of them clash. -/
theorem keepsAll_iff_no_clash (collect : Calculator → List (String × Nat)) (log : List BenchmarkEntry)
    (news : List NewCalculator) (attached : List (Fin news.length)) :
    KeepsAll collect log (attached.map (calculatorAt news)) ↔
      attached.Nodup ∧ ∀ i ∈ attached, ∀ j ∈ attached, ¬ Clash news i j := by
  rw [keepsAll_iff, List.map_map]
  constructor
  · intro h
    have hnodup := h.of_map
    have hinj := List.inj_on_of_nodup_map h
    refine ⟨hnodup, fun i hi j hj hclash => ?_⟩
    obtain rfl := hinj hi hj (label_calculatorAt_eq_iff.mpr (.inr (.inl hclash)))
    exact absurd (hclash.1.symm.trans hclash.2.1) (by decide)
  · rintro ⟨hnodup, hclash⟩
    refine hnodup.map_on fun i hi j hj hlabel => ?_
    rcases label_calculatorAt_eq_iff.mp hlabel with hij | h | h
    · exact hij
    · exact absurd h (hclash i hi j hj)
    · exact absurd h (hclash j hj i hi)

/-- A calculator of gVisor and then one of a directory, both with the number 1. -/
theorem not_keepsAll_gvisor_then_files :
    ¬ KeepsAll (fun _ => []) []
      (constructAll Counters.init [.gvisorCalculator "sandbox", .fileSizeCalculator "/srv/export"]) := by
  rintro ⟨hlabels, -⟩
  revert hlabels
  decide

end StateFork
