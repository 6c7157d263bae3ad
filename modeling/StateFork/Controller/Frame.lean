import StateFork.Controller.Base
import StateFork.Lib.Hoare

/-!
# What programs leave alone

Many steps of a template only read (`Reads`), and others act on the backend's world only (`LeavesManager`); such a
program keeps every property, or every property of the manager. Commands and copies touch no more than the log of
one record and the benchmark, whatever the property of the whole system is that is to be kept.
-/

namespace StateFork

open Conc Conc.Prog

variable {W α β : Type}

/-- The program leaves everything as it is. -/
def Reads (p : M W α) : Prop := ∀ s, (p.run s).2 = s

/-- The program does not touch the manager. -/
def LeavesManager (p : M W α) : Prop := ∀ s, (p.run s).2.mgr = s.mgr

/-- The program keeps a property of the manager. -/
abbrev KeepsManager (P : Manager → Prop) (p : M W α) : Prop := Keeps (fun s => P s.mgr) p

theorem Reads.keeps {P : Sys W → Prop} {p : M W α} (hp : Reads p) : Keeps P p := by
  intro s hs
  rw [hp s]
  exact hs

theorem LeavesManager.keeps {P : Manager → Prop} {p : M W α} (hp : LeavesManager p) : KeepsManager P p := by
  intro s hs
  show P (p.run s).2.mgr
  rw [hp s]
  exact hs

theorem LeavesManager.attempt {p : M W α} (hp : LeavesManager p) : LeavesManager p.attempt := fun s => by
  rw [run_attempt]
  exact hp s

theorem reads_readState (f : Manager → α) : Reads (readState f : M W α) := fun s => by
  rw [run_readState]

/-- A section that may raise, but updates nothing. -/
theorem reads_tryState (f : Manager → Except PyError α) : Reads (tryState fun m => (f m, m) : M W α) := fun s => by
  rw [run_tryState]

theorem reads_peek (f : Manager → α) : Reads (peek f : M W α) := fun _ => rfl

theorem reads_announce (e : Event) : Reads (announce e : M W Unit) := fun _ => rfl

theorem leaves_world (f : W → α × W) : LeavesManager (world f) := fun _ => rfl

theorem leaves_tryWorld (f : W → Except PyError α × W) (events : Except PyError α → List Event) :
    LeavesManager (tryWorld f events) := fun s => by
  rw [run_tryWorld]

/-- A hook of the world keeps a property that holds whatever it answers. -/
theorem keeps_world {P : Sys W → Prop} {f : W → α × W} (hf : ∀ s, P s → P { s with world := (f s.world).2 }) :
    Keeps P (world f) :=
  fun s hs => hf s hs

theorem keeps_tryWorld {P : Sys W → Prop} {f : W → Except PyError α × W} (events : Except PyError α → List Event)
    (hf : ∀ s, P s → P { s with world := (f s.world).2 }) : Keeps P (tryWorld f events) := by
  intro s hs
  rw [run_tryWorld]
  exact hf s hs

namespace EnvironmentManager

variable {P : Sys W → Prop} {H : Hooks W}

theorem reads_getCurrentBranchId : Reads (getCurrentBranchId : M W String) := reads_readState _

theorem reads_getBranchState (b : Option String) : Reads (getBranchState b : M W Ref) := reads_tryState _

theorem keeps_addEntry {operation target b : String} {elapsed : ℚ}
    (hentry : ∀ s, P s → P { s with mgr := s.mgr.addEntry operation target elapsed b }) :
    Keeps P (addEntry operation target elapsed b : M W Unit) := by
  intro s hs
  rw [run_addEntry]
  exact hentry s hs

/-- A command touches the log and the time of one record, and the benchmark. -/
theorem keeps_execBranch {b : String} {command : Command} {timeout : Option ℚ}
    (hexec : Keeps P (H.coreExec command timeout b)) (htime : Keeps P H.time)
    (hentry : ∀ s operation target elapsed b, P s → P { s with mgr := s.mgr.addEntry operation target elapsed b })
    (hlog : ∀ s r counted, P s → P { s with mgr := s.mgr.modifyRecord r fun x =>
      { x with
        cumulativeExecTime := x.cumulativeExecTime + counted
        commandLog := x.commandLog ++ [command] } }) :
    Keeps P (execBranch H b command timeout) := by
  have hlogs (state : Ref) (elapsed counted : ℚ) :
      Keeps P (logCommand b state command elapsed counted : M W Unit) := by
    refine keeps_bind (fun s hs => ?_) fun _ => keeps_addEntry fun s => hentry s _ _ _ _
    rw [run_withState]
    exact hlog _ _ _ hs
  refine keeps_bind (reads_getBranchState _).keeps fun state => ?_
  refine keeps_bind (reads_announce _).keeps fun _ => hoare_withLock ?_
  refine keeps_bind (reads_readState _).keeps fun active => ?_
  split
  · refine keeps_bind htime fun start => keeps_bind (reads_announce _).keeps fun _ => ?_
    refine keeps_bind (keeps_attempt hexec) fun result => keeps_bind htime fun stop => ?_
    rcases result with e | ⟨returncode, stdout, stderr⟩
    · exact keeps_bind (hlogs _ _ _) fun _ => keeps_ret _
    · exact keeps_bind (hlogs _ _ _) fun _ => keeps_ret _
  · exact keeps_ret _

/-- A copy touches nothing but the benchmark. -/
theorem keeps_copyBranch {b hostPath envPath : String} {into : Bool}
    (hcopy : Keeps P (H.coreCopy b hostPath envPath into)) (htime : Keeps P H.time)
    (hentry : ∀ s target elapsed, P s → P { s with mgr := s.mgr.addEntry "copy" target elapsed b }) :
    Keeps P (copyBranch H b hostPath envPath into) := by
  refine keeps_bind (reads_getBranchState _).keeps fun state => ?_
  refine keeps_bind (reads_announce _).keeps fun _ => hoare_withLock ?_
  refine keeps_bind (reads_readState _).keeps fun target => ?_
  cases target with
  | none => exact keeps_ret _
  | some target =>
    refine keeps_bind htime fun start => keeps_bind (reads_announce _).keeps fun _ => ?_
    refine keeps_bind (keeps_attempt hcopy) fun result => ?_
    rcases result with e | ⟨ok, detail⟩
    · exact keeps_ret _
    · exact keeps_bind htime fun stop => keeps_bind (keeps_addEntry fun s => hentry s _ _) fun _ => keeps_ret _

end EnvironmentManager

end StateFork
