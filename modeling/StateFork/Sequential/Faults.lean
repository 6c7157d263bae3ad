import StateFork.Sequential.Ledger
import StateFork.Sequential.Tape

/-!
# Replays that go differently

`restore` logs a replayed command that fails and goes on. `SequentialBackend.journaling` is a backend with a list of what
reaches its `_core_exec`, so that `journalOf` tells what an operation has executed and how it ended. `HonestRestore` is
what reporting success over a complete replay would mean, and `honestRestore_iff` says when the code does so: exactly when
the backend, back on the physical ancestor of the snapshot, repeats the original outcomes of the commands that lead from
there to the snapshot.
-/

namespace StateFork

variable {W γ : Type}

/-! ### What reaches `_core_exec` -/

/-- A hook that does not execute a command. -/
def unheard {α : Type} (f : W → α × W) (w : W × List γ) : α × W × List γ :=
  ((f w.1).1, (f w.1).2, w.2)

/-- A hook that executes a command. -/
def heard {α : Type} (note : α → γ) (f : W → α × W) (w : W × List γ) : α × W × List γ :=
  ((f w.1).1, (f w.1).2, w.2 ++ [note (f w.1).1])

/-- A note about an execution. -/
abbrev ExecNote (γ : Type) := Command → Option ℚ → Except PyError (Int × String × String) → γ

/-- The backend, with a list of notes about its executions. -/
def SequentialBackend.journaling (B : SequentialBackend W) (note : ExecNote γ) : SequentialBackend (W × List γ) where
  snapshot branchId := unheard (B.snapshot branchId)
  restore snapshotId resource branchId := unheard (B.restore snapshotId resource branchId)
  exec command timeout branchId := heard (note command timeout) (B.exec command timeout branchId)
  copy branchId hostPath envPath into := unheard (B.copy branchId hostPath envPath into)
  cleanup := unheard B.cleanup
  decide context := unheard (B.decide context)
  time := unheard B.time
  uuid4Hex := unheard B.uuid4Hex

/-- The notes about the executions of an operation. -/
def journalOf (B : SequentialBackend W) (note : ExecNote γ) (op : SeqOp) (s : Sys (W × List γ)) : List γ :=
  ((op.prog (B.journaling note)).run s).2.world.2.drop s.world.2.length

/-- The notes about commands that are executed one after the other, none of them with a timeout. -/
def notesOf (B : SequentialBackend W) (note : ExecNote γ) : List Command → W → List γ
  | [], _ => []
  | c :: commands, w => note c none (B.timedExec c none w).1 :: notesOf B note commands (B.timedExec c none w).2.2

section

variable {B : SequentialBackend W} {note : ExecNote γ} {s : Sys (W × List γ)}

theorem journal_afterReplay (commands : List Command) :
    ((B.journaling note).afterReplay commands s).world.2 = s.world.2 ++ notesOf B note commands s.world.1 := by
  induction commands generalizing s with
  | nil => exact (List.append_nil _).symm
  | cons c commands ih =>
    show ((B.journaling note).afterReplay commands ((B.journaling note).afterExec c none s)).world.2 = _
    rw [ih]
    exact List.append_assoc ..

/-- A restore that succeeds executes the commands of its walk where the hook has left the backend. -/
theorem journalOf_restore (hs : Solo s.mgr) {id : String}
    (hok : ((B.journaling note).restoreEffect id s).1 = .ok true) :
    ∃ ancestor commands resource elapsed w, s.mgr.physicalAncestor id = .ok (ancestor, commands) ∧
      s.mgr.snapshots.get? ancestor.snapshotId = some resource ∧
      B.restore ancestor.snapshotId resource defaultBranchId s.world.1 = (.ok (true, elapsed), w) ∧
      journalOf B note (.restore id) s = notesOf B note commands w := by
  unfold journalOf
  rw [SeqOp.run_prog_restore (B.journaling note) hs]
  have hcase := (B.journaling note).restoreEffect_cases id s
  generalize (B.journaling note).restoreEffect id s = r at hcase hok ⊢
  cases hcase with
  | refused => exact absurd hok (by simp)
  | raised => exact absurd hok (by simp)
  | failed => exact absurd hok (by simp)
  | @restored ancestor commands resource elapsed w walk registered hook =>
    have hquiet : w.2 = s.world.2 := (congrArg (fun r => r.2.2) hook).symm
    have hanswer := congrArg Prod.fst hook
    have hworld := congrArg (fun r => r.2.1) hook
    have hrestored : B.restore ancestor.snapshotId resource defaultBranchId s.world.1 = (.ok (true, elapsed), w.1) :=
      Prod.ext hanswer hworld
    have hjournal : ((B.journaling note).afterRestore id ancestor.snapshotId commands elapsed
        { s with world := w }).world.2 = s.world.2 ++ notesOf B note commands w.1 := by
      rw [← hquiet]
      exact journal_afterReplay commands
    exact ⟨ancestor, commands, resource, elapsed, w.1, walk, registered, hrestored, by rw [hjournal, List.drop_left]⟩

/-- A restore that does not succeed executes nothing. -/
theorem journalOf_restore_eq_nil (hs : Solo s.mgr) {id : String}
    (hfailed : ((B.journaling note).restoreEffect id s).1 ≠ .ok true) : journalOf B note (.restore id) s = [] := by
  unfold journalOf
  rw [SeqOp.run_prog_restore (B.journaling note) hs]
  have hcase := (B.journaling note).restoreEffect_cases id s
  generalize (B.journaling note).restoreEffect id s = r at hcase hfailed ⊢
  have hnone {w : W × List γ} (hw : w.2 = s.world.2) : w.2.drop s.world.2.length = [] := by
    rw [hw, List.drop_length]
  cases hcase with
  | refused => exact hnone rfl
  | raised _ _ hook => exact hnone (congrArg (fun r => r.2.2) hook).symm
  | failed _ _ hook => exact hnone (congrArg (fun r => r.2.2) hook).symm
  | restored => exact absurd rfl hfailed

end

/-! ### Outcomes -/

/-- `rc == 0` -/
def succeeded (r : Except PyError (Int × String × String)) : Bool :=
  (execResult r).1 = 0

/-- A command and whether it succeeded. -/
def outcomeNote : ExecNote (Command × Bool) := fun c _ r => (c, succeeded r)

/-- What `exec_command` is going to note. -/
def outcomeOf (B : SequentialBackend W) (c : Command) (timeout : Option ℚ) (s : Sys (W × List (Command × Bool))) :
    Command × Bool :=
  outcomeNote c timeout (B.timedExec c timeout s.world.1).1

/-- `restore` reports success only over a complete replay: `True` means that the commands on the way to the snapshot were
executed and ended as they did originally, and when one fails that succeeded originally the result is `False` and the
branch is not moved. -/
def HonestRestore (B : SequentialBackend W) (original : List (Command × Bool)) (id : String)
    (s : Sys (W × List (Command × Bool))) : Prop :=
  let r := ((SeqOp.restore id).prog (B.journaling outcomeNote)).run s
  let replayed := journalOf B outcomeNote (.restore id) s
  (r.1 = .ok (.flag true) → replayed = original) ∧
    ((∃ (i : Nat) (c c' : Command), original[i]? = some (c, true) ∧ replayed[i]? = some (c', false)) →
      r.1 = .ok (.flag false) ∧
        r.2.mgr.main.currentSnapshotId = s.mgr.main.currentSnapshotId ∧
        r.2.mgr.main.lastSnapshotId = s.mgr.main.lastSnapshotId)

/-- From `w` on, each of the commands ends as it did. -/
def Repeats (B : SequentialBackend W) : List (Command × Bool) → W → Prop
  | [], _ => True
  | (c, ok) :: path, w => succeeded (B.timedExec c none w).1 = ok ∧ Repeats B path (B.timedExec c none w).2.2

/-- Where the backend brings back the nearest physical ancestor of the snapshot, it repeats the commands on the way. -/
def RepeatsFromAncestor (B : SequentialBackend W) (path : List (Command × Bool)) (id : String) (m : Manager) (w : W) : Prop :=
  ∀ a commands resource elapsed w', Chain m.snapshotGraph id a commands → m.snapshots.get? a = some resource →
    B.restore a resource defaultBranchId w = (.ok (true, elapsed), w') → Repeats B path w'

/-- What is noted about the commands of a path is the path, if they end as they did. -/
theorem notesOf_eq_iff (B : SequentialBackend W) (path : List (Command × Bool)) (w : W) :
    notesOf B outcomeNote (path.map Prod.fst) w = path ↔ Repeats B path w := by
  induction path generalizing w with
  | nil => exact iff_of_true rfl trivial
  | cons step path ih =>
    obtain ⟨c, ok⟩ := step
    rw [List.map_cons, notesOf, List.cons.injEq, ih, Repeats]
    exact and_congr_left fun _ => by simp [outcomeNote]

/-- Over every reachable state, for what the commands behind a snapshot did originally: the restore is honest exactly if
the backend repeats it from the physical ancestor on. -/
theorem honestRestore_iff (B : SequentialBackend W) (root resource : String) (w : W) (ops : List SeqOp)
    (id : String) :
    let start : Sys (W × List (Command × Bool)) := Sys.startedAt root resource (w, [])
    let s := runOps (B.journaling outcomeNote) ops start
    let original := (Ledger.run (B.journaling outcomeNote) (outcomeOf B) ops start {}).behind s.mgr id
    HonestRestore B original id s ↔ RepeatsFromAncestor B original id s.mgr s.world.1 := by
  intro start s original
  let J := B.journaling outcomeNote
  have hs : Solo s.mgr := runOps_solo J ops (Sys.startedAt_solo root resource (w, []))
  have hnoted : Ledger.Noted Prod.fst (Ledger.run J (outcomeOf B) ops start {}) s.mgr :=
    Ledger.Noted.run (fun _ _ _ => rfl) (Sys.startedAt_solo root resource (w, []))
      (Ledger.noted_startedAt root resource (w, [])) ops
  have htrue : (((SeqOp.restore id).prog J).run s).1 = .ok (.flag true) ↔ (J.restoreEffect id s).1 = .ok true :=
    restore_returns_iff J hs id true
  constructor
  · rintro ⟨hcomplete, -⟩ a commands r elapsed w' hchain hresource hrestore
    obtain ⟨ancestor, rfl, hwalk⟩ := Manager.physicalAncestor_of_chain hnoted.agree hchain
    have hok : (J.restoreEffect id s).1 = .ok true := by
      have hhook : J.restore ancestor.snapshotId r defaultBranchId s.world = (.ok (true, elapsed), w', s.world.2) := by
        show unheard _ _ = _
        unfold unheard
        rw [hrestore]
      simp only [SequentialBackend.restoreEffect, hwalk, hresource, hhook]
    obtain ⟨_, _, _, _, _, hwalk', hresource', hrestore', hjournal⟩ := journalOf_restore hs hok
    obtain ⟨rfl, rfl⟩ := Prod.mk.inj (Except.ok.inj (hwalk.symm.trans hwalk'))
    obtain rfl := Option.some.inj (hresource.symm.trans hresource')
    obtain rfl := congrArg Prod.snd (hrestore.symm.trans hrestore')
    rw [← notesOf_eq_iff, hnoted.behind hwalk, ← hjournal]
    exact hcomplete (htrue.mpr hok)
  · intro hrepeats
    have hsame (hok : (J.restoreEffect id s).1 = .ok true) : journalOf B outcomeNote (.restore id) s = original := by
      obtain ⟨ancestor, commands, r, elapsed, w', hwalk, hresource, hrestore, hjournal⟩ := journalOf_restore hs hok
      have hchain := (Manager.physicalAncestor_ok hnoted.agree hwalk).2
      have hagain := (notesOf_eq_iff B original w').mpr (hrepeats _ _ _ _ _ hchain hresource hrestore)
      rw [hnoted.behind hwalk] at hagain
      rw [hjournal, hagain]
    refine ⟨fun hr => hsame (htrue.mp hr), ?_⟩
    rintro ⟨i, c, c', hsucceeded, hfails⟩
    by_cases hok : (J.restoreEffect id s).1 = .ok true
    · rw [hsame hok, hsucceeded] at hfails
      cases hfails
    · rw [journalOf_restore_eq_nil hs hok] at hfails
      cases hfails

/-- `make` succeeds, a virtual snapshot is taken, and `make` fails when it is replayed: `restore` returns
`True` and stands on the snapshot, over an environment in which `make` never had its effect. -/
theorem not_honestRestore_flaky :
    let start : Sys (Tape × List (Command × Bool)) := Sys.startedAt "base" "base" (Tape.start ["3f2a"] [false] [0, 1], [])
    let s := runOps (Tape.flaky.journaling outcomeNote) [.exec (.line "make") none, .snapshot] start
    let original := (Ledger.run (Tape.flaky.journaling outcomeNote) (outcomeOf Tape.flaky)
      [.exec (.line "make") none, .snapshot] start {}).behind s.mgr "v3f2a"
    let r := ((SeqOp.restore "v3f2a").prog (Tape.flaky.journaling outcomeNote)).run s
    ¬ HonestRestore Tape.flaky original "v3f2a" s ∧ r.1 = .ok (.flag true) ∧
      r.2.mgr.main.lastSnapshotId = some "v3f2a" ∧ s.world.1.env = [.line "make"] ∧ r.2.world.1.env = [] := by
  refine ⟨fun h => ?_, rfl, rfl, rfl, rfl⟩
  exact absurd (h.1 rfl) (by decide +kernel)

end StateFork
