import Mathlib.Data.List.DropRight
import StateFork.Lib.Text
import StateFork.Sequential.Ledger

/-!
# `FireAttachManager`

A snapshot pauses the microVM, asks Firecracker for the snapshot and resumes the machine. The pause and the resume are
compared with 204, but the snapshot with 400: that answer leaves the machine paused, and any other failure counts as a
success. `FireHost` is what the manager works with, for any answers of the API; the requests are kept in a list, so that
`ResumeRejected` can be read off it.
-/

namespace StateFork

inductive VmState where
  | off
  | running
  | paused
  deriving DecidableEq

/-- The requests to the API socket of the microVM. -/
inductive FireRequest where
  | pause
  | resume
  | create (snapshotId : String)
  | load (snapshotId : String)
  deriving DecidableEq

/-- What Firecracker does for a request that it accepts; a snapshot is loaded with `resume_vm`. -/
def FireRequest.effect : FireRequest → VmState → VmState
  | pause, _ => .paused
  | resume, _ => .running
  | create _, vm => vm
  | load _, _ => .running

/-- `result.stdout.strip() == code` -/
def answers (stdout code : String) : Bool := Text.strip stdout.toList = code.toList

/-- The host of a microVM and its Firecracker process. -/
structure FireHost (W : Type) where
  /-- The checkpoint directory is created anew. -/
  freshDir : W → Except PyError Unit × W
  /-- What curl prints, and the machine afterwards. -/
  request (r : FireRequest) (vm : VmState) : W → String × VmState × W
  performed : ∀ r vm w, answers (request r vm w).1 "204" = true → (request r vm w).2.1 = r.effect vm
  refused : ∀ r vm w, answers (request r vm w).1 "204" = false → (request r vm w).2.1 = vm
  /-- `ssh.connect`, unless the transport is active. -/
  connect : VmState → W → Except PyError Unit × W
  /-- `ssh.exec_command`; a machine cannot pause itself. -/
  ssh (line : String) (timeout : Option ℚ) (vm : VmState) : W → Except PyError (Int × String × String) × VmState × W
  ssh_paused : ∀ line timeout vm w, (ssh line timeout vm w).2.1 = .paused → vm = .paused
  /-- The machine is rebooted, and a new Firecracker process is started on the socket. -/
  relaunch : VmState → W → Except PyError Unit × VmState × W
  relaunch_paused : ∀ vm w, (relaunch vm w).2.1 = .paused → vm = .paused
  /-- What `_core_cleanup` gets done; its exceptions are logged. -/
  teardown : VmState → W → VmState × W
  mkdir (snapshotId : String) : W → Except PyError Unit × W
  decide (context : DecisionContext) : W → Bool × W
  time : W → ℚ × W
  uuid4Hex : W → String × W

/-- The world of a `FireAttachManager`. -/
structure FireWorld (W : Type) where
  vm : VmState
  /-- The requests so far, with what curl printed. -/
  requests : List (FireRequest × String) := []
  host : W

namespace FireAttachManager

variable {W : Type} (H : FireHost W)

def onHost {α : Type} (f : W → α × W) (w : FireWorld W) : α × FireWorld W := ((f w.host).1, { w with host := (f w.host).2 })

def onMachine {α : Type} (f : VmState → W → α × VmState × W) (w : FireWorld W) : α × FireWorld W :=
  let (x, vm, host) := f w.vm w.host
  (x, { w with vm, host })

def send (r : FireRequest) (w : FireWorld W) : String × FireWorld W :=
  let (stdout, vm, host) := H.request r w.vm w.host
  (stdout, ⟨vm, w.requests ++ [(r, stdout)], host⟩)

/-- `__pause_vm` -/
def pauseVm (w : FireWorld W) : Bool × FireWorld W :=
  let (stdout, w) := send H .pause w
  (answers stdout "204", w)

/-- `__resume_vm` -/
def resumeVm (w : FireWorld W) : Bool × FireWorld W :=
  let (stdout, w) := send H .resume w
  (answers stdout "204", w)

/-- The id of a new snapshot, its directory, and the time. -/
def prepare (w : FireWorld W) : Except PyError (String × ℚ) × FireWorld W :=
  let (hex, w) := onHost H.uuid4Hex w
  let snapshotId := (hex.take 8).toString
  match onHost (H.mkdir snapshotId) w with
  | (.error e, w) => (.error e, w)
  | (.ok (), w) =>
    let (start, w) := onHost H.time w
    (.ok (snapshotId, start), w)

/-- `_core_snapshot` -/
def coreSnapshot (w : FireWorld W) : Except PyError (Option (String × String) × ℚ) × FireWorld W :=
  match prepare H w with
  | (.error e, w) => (.error e, w)
  | (.ok (snapshotId, start), w) =>
    let (ok, w) := pauseVm H w
    if !ok then (.ok (none, 0), w)
    else
      let (stdout, w) := send H (.create snapshotId) w
      if answers stdout "400" then (.ok (none, 0), w)
      else
        let (ok, w) := resumeVm H w
        if !ok then (.ok (none, 0), w)
        else
          let (stop, w) := onHost H.time w
          (.ok (some (snapshotId, snapshotId), stop - start), w)

/-- `_core_restore`, for a snapshot whose resource was found. -/
def coreRestore (snapshotId snapshotName : String) (w : FireWorld W) : Except PyError (Bool × ℚ) × FireWorld W :=
  if snapshotName = "" then (.ok (false, 0), w)
  else
    match onHost (H.connect w.vm) w with
    | (.error e, w) => (.error e, w)
    | (.ok (), w) =>
      let (start, w) := onHost H.time w
      match onMachine H.relaunch w with
      | (.error e, w) => (.error e, w)
      | (.ok (), w) =>
        let (stdout, w) := send H (.load snapshotId) w
        if answers stdout "400" then (.ok (false, 0), w)
        else
          let (stop, w) := onHost H.time w
          (.ok (true, stop - start), w)

/-- `_core_exec`; a command that ends in an ampersand is started in the background. -/
def coreExec (command : Command) (timeout : Option ℚ) (w : FireWorld W) :
    Except PyError (Int × String × String) × FireWorld W :=
  match onHost (H.connect w.vm) w with
  | (.error e, w) => (.error e, w)
  | (.ok (), w) =>
    match command with
    | .argv _ => (.error ⟨.other, "'list' object has no attribute 'strip'"⟩, w)
    | .line text =>
      let stripped := (Text.strip text.toList).reverse
      if stripped.head? = some '&' then
        let cmd := String.ofList (Text.strip (stripped.dropWhile (· = '&')).reverse)
        match onMachine (H.ssh ("bash -c 'nohup " ++ cmd ++ " > /dev/null 2>&1 & disown'") none) w with
        | (.error e, w) => (.error e, w)
        | (.ok _, w) => (.ok (0, "", ""), w)
      else onMachine (H.ssh text timeout) w

/-- `_core_cleanup` -/
def coreCleanup (w : FireWorld W) : Except PyError (Option Bool) × FireWorld W :=
  let (vm, host) := H.teardown w.vm w.host
  (.ok none, { w with vm, host })

/-- `FireAttachManager.__init__` -/
def init (w : FireWorld W) : Except PyError Manager × FireWorld W :=
  match onHost H.freshDir w with
  | (.error e, w) => (.error e, w)
  | (.ok (), w) =>
    match coreSnapshot H w with
    | (.error e, w) => (.error e, w)
    | (.ok (none, _), w) => (.error ⟨.runtimeError, "Failed to create initial snapshot."⟩, w)
    | (.ok (some (sid, resource), _), w) =>
      match onHost (H.connect w.vm) w with
      | (.error e, w) => (.error e, w)
      | (.ok (), w) => (.ok (.startedAt sid resource), w)

def backend : SequentialBackend (FireWorld W) where
  snapshot _ := coreSnapshot H
  restore snapshotId resource _ := coreRestore H snapshotId resource
  exec command timeout _ := coreExec H command timeout
  copy _ _ _ _ w := (.ok (false, "Not implemented."), w)
  cleanup := coreCleanup H
  decide context := onHost (H.decide context)
  time := onHost H.time
  uuid4Hex := onHost H.uuid4Hex

end FireAttachManager

variable {W : Type}

/-! ### What a request leaves behind -/

theorem answers_code {stdout code code' : String} (h : answers stdout code = true) (h' : answers stdout code' = true) :
    code = code' := by
  simp only [answers, decide_eq_true_eq] at h h'
  exact String.toList_inj.mp (h.symm.trans h')

/-- The requests since the last one to pause that was accepted. -/
def sincePause (requests : List (FireRequest × String)) : List (FireRequest × String) :=
  requests.rtakeWhile fun r => !(r.1 = .pause && answers r.2 "204")

/-- Resuming was tried and rejected since the machine was paused. -/
def ResumeRejected (requests : List (FireRequest × String)) : Prop :=
  ∃ r ∈ sincePause requests, r.1 = .resume ∧ answers r.2 "204" = false

instance (requests : List (FireRequest × String)) : Decidable (ResumeRejected requests) :=
  inferInstanceAs (Decidable (∃ r ∈ sincePause requests, r.1 = .resume ∧ answers r.2 "204" = false))

theorem ResumeRejected.append {requests : List (FireRequest × String)} (h : ResumeRejected requests) {r : FireRequest}
    {stdout : String} (hr : r = .pause → answers stdout "204" = false) : ResumeRejected (requests ++ [(r, stdout)]) := by
  obtain ⟨rejected, hmem, hrejected⟩ := h
  refine ⟨rejected, ?_, hrejected⟩
  unfold sincePause
  rw [List.rtakeWhile_concat_pos]
  · exact List.mem_append_left _ hmem
  · by_cases hpause : r = .pause
    · simp [hr hpause]
    · simp [hpause]

theorem resumeRejected_last (requests : List (FireRequest × String)) {stdout : String}
    (h : answers stdout "204" = false) : ResumeRejected (requests ++ [(.resume, stdout)]) := by
  refine ⟨(.resume, stdout), ?_, rfl, h⟩
  unfold sincePause
  rw [List.rtakeWhile_concat_pos]
  · exact List.mem_append_right _ (List.mem_singleton_self _)
  · simp

/-- Right after a pause, only the snapshot has been requested. -/
theorem not_resumeRejected_create (requests : List (FireRequest × String)) {paused created snapshotId : String}
    (h : answers paused "204" = true) :
    ¬ ResumeRejected (requests ++ [(.pause, paused)] ++ [(.create snapshotId, created)]) := by
  rintro ⟨r, hmem, hresume, -⟩
  unfold sincePause at hmem
  rw [List.rtakeWhile_concat_pos, List.rtakeWhile_concat_neg] at hmem
  · rw [List.mem_singleton.mp hmem] at hresume
    cases hresume
  · simp [h]
  · simp

namespace FireAttachManager

/-- The machine is paused only where resuming it was tried. -/
def Excused (w : FireWorld W) : Prop := w.vm = .paused → ResumeRejected w.requests

variable {H : FireHost W} {w w' : FireWorld W}

theorem Excused.of_eq (h : Excused w) (hvm : w'.vm = .paused → w.vm = .paused) (hrequests : w'.requests = w.requests) :
    Excused w' := by
  intro hpaused
  rw [hrequests]
  exact h (hvm hpaused)

theorem send_performed {r : FireRequest} (h : answers (send H r w).1 "204" = true) :
    (send H r w).2.vm = r.effect w.vm :=
  H.performed r w.vm w.host h

theorem send_refused {r : FireRequest} (h : answers (send H r w).1 "204" = false) : (send H r w).2.vm = w.vm :=
  H.refused r w.vm w.host h

theorem send_requests (r : FireRequest) (w : FireWorld W) :
    (send H r w).2.requests = w.requests ++ [(r, (send H r w).1)] := rfl

/-- No request but a pause leaves the machine paused. -/
theorem Excused.send (h : Excused w) {r : FireRequest} (hr : r = .pause → answers (send H r w).1 "204" = false) :
    Excused (send H r w).2 := by
  intro hpaused
  rw [send_requests]
  refine (h ?_).append hr
  cases hcode : answers (FireAttachManager.send H r w).1 "204" with
  | false => rwa [send_refused hcode] at hpaused
  | true =>
    rw [send_performed hcode] at hpaused
    cases r with
    | pause => exact absurd (hr rfl) (by simp [hcode])
    | resume => cases hpaused
    | create => exact hpaused
    | load => cases hpaused

theorem excused_resume (w : FireWorld W) : Excused (send H .resume w).2 := by
  intro hpaused
  rw [send_requests]
  cases hcode : answers (send H .resume w).1 "204" with
  | false => exact resumeRejected_last _ hcode
  | true =>
    rw [send_performed hcode] at hpaused
    cases hpaused

/-- A snapshot that is refused leaves the machine paused, and nothing has been tried to resume it. -/
theorem not_excused_create {snapshotId : String} (hpause : answers (send H .pause w).1 "204" = true)
    (hcreate : answers (send H (.create snapshotId) (send H .pause w).2).1 "204" = false) :
    ¬ Excused (send H (.create snapshotId) (send H .pause w).2).2 := by
  intro h
  refine not_resumeRejected_create w.requests hpause (h ?_)
  rw [send_refused hcreate, send_performed hpause]
  rfl

/-! ### The exits of a snapshot -/

/-- `prepare` leaves the machine and the requests alone. -/
theorem prepare_frame (w : FireWorld W) :
    (prepare H w).2.vm = w.vm ∧ (prepare H w).2.requests = w.requests := by
  unfold prepare
  dsimp only
  rcases hmkdir : onHost (H.mkdir _) (onHost H.uuid4Hex w).2 with ⟨_ | _, w'⟩
  · rw [← congrArg Prod.snd hmkdir]
    exact ⟨rfl, rfl⟩
  · rw [show w' = _ from (congrArg Prod.snd hmkdir).symm]
    exact ⟨rfl, rfl⟩

/-- What `_core_snapshot` does once its directory is there. -/
inductive CaptureCase (H : FireHost W) (snapshotId : String) (start : ℚ) (w : FireWorld W) :
    Except PyError (Option (String × String) × ℚ) × FireWorld W → Prop
  | notPaused (pause : answers (send H .pause w).1 "204" = false) :
      CaptureCase H snapshotId start w (.ok (none, 0), (send H .pause w).2)
  | notCreated {w₂ : FireWorld W} (pause : answers (send H .pause w).1 "204" = true) (paused : (send H .pause w).2 = w₂)
      (create : answers (send H (.create snapshotId) w₂).1 "400" = true) :
      CaptureCase H snapshotId start w (.ok (none, 0), (send H (.create snapshotId) w₂).2)
  | notResumed {w₂ w₃ : FireWorld W} (pause : answers (send H .pause w).1 "204" = true)
      (paused : (send H .pause w).2 = w₂) (create : answers (send H (.create snapshotId) w₂).1 "400" = false)
      (created : (send H (.create snapshotId) w₂).2 = w₃) (resume : answers (send H .resume w₃).1 "204" = false) :
      CaptureCase H snapshotId start w (.ok (none, 0), (send H .resume w₃).2)
  | captured {w₂ w₃ : FireWorld W} (pause : answers (send H .pause w).1 "204" = true)
      (paused : (send H .pause w).2 = w₂) (create : answers (send H (.create snapshotId) w₂).1 "400" = false)
      (created : (send H (.create snapshotId) w₂).2 = w₃) (resume : answers (send H .resume w₃).1 "204" = true) :
      CaptureCase H snapshotId start w (.ok (some (snapshotId, snapshotId),
        (onHost H.time (send H .resume w₃).2).1 - start), (onHost H.time (send H .resume w₃).2).2)

theorem coreSnapshot_raises {e : PyError} (prepared : prepare H w = (.error e, w')) : coreSnapshot H w = (.error e, w') := by
  unfold coreSnapshot
  rw [prepared]

theorem coreSnapshot_cases {snapshotId : String} {start : ℚ} (prepared : prepare H w = (.ok (snapshotId, start), w')) :
    CaptureCase H snapshotId start w' (coreSnapshot H w) := by
  unfold coreSnapshot
  rw [prepared]
  dsimp only [pauseVm, resumeVm]
  split_ifs with hpause hcreate hresume
  · exact .notPaused (by simpa only [Bool.not_eq_true'] using hpause)
  · exact .notCreated (by simpa only [Bool.not_eq_true', Bool.not_eq_false] using hpause) rfl hcreate
  · refine .notResumed ?_ rfl (Bool.eq_false_of_not_eq_true hcreate) rfl ?_
    · simpa only [Bool.not_eq_true', Bool.not_eq_false] using hpause
    · simpa only [Bool.not_eq_true'] using hresume
  · refine .captured ?_ rfl (Bool.eq_false_of_not_eq_true hcreate) rfl ?_
    · simpa only [Bool.not_eq_true', Bool.not_eq_false] using hpause
    · simpa only [Bool.not_eq_true', Bool.not_eq_false] using hresume

/-- The answers to the requests of a snapshot go together: the snapshot was taken, or the machine could not be resumed
after a failure that goes unnoticed. -/
def AnswersWell (H : FireHost W) (w : FireWorld W) : Prop :=
  ∀ snapshotId start w₁, prepare H w = (.ok (snapshotId, start), w₁) → answers (send H .pause w₁).1 "204" = true →
    let creating := send H (.create snapshotId) (send H .pause w₁).2
    answers creating.1 "204" = true ∨
      (answers creating.1 "400" = false ∧ answers (send H .resume creating.2).1 "204" = false)

/-- Between the two worlds the snapshot was asked for, and the answer was a success. -/
def Created (w w' : FireWorld W) (snapshotId : String) : Prop :=
  ∃ r ∈ w'.requests.drop w.requests.length, r.1 = .create snapshotId ∧ answers r.2 "204" = true

instance (w w' : FireWorld W) (snapshotId : String) : Decidable (Created w w' snapshotId) :=
  inferInstanceAs (Decidable (∃ r ∈ w'.requests.drop w.requests.length, r.1 = .create snapshotId ∧ answers r.2 "204" = true))

/-- The three requests of a snapshot. -/
theorem created_iff (H : FireHost W) (snapshotId : String) (hrequests : w'.requests = w.requests) :
    Created w (send H .resume (send H (.create snapshotId) (send H .pause w').2).2).2 snapshotId ↔
      answers (send H (.create snapshotId) (send H .pause w').2).1 "204" = true := by
  unfold Created
  rw [send_requests, send_requests, send_requests, hrequests, List.append_assoc, List.append_assoc, List.drop_left]
  simp only [List.singleton_append, List.mem_cons, List.not_mem_nil, or_false, exists_eq_or_imp, exists_eq_left,
    reduceCtorEq, false_and, true_and, or_false, false_or]

/-- `_core_snapshot` leaves the machine running, and returns only snapshots that were taken, exactly if the answers go
together. -/
theorem coreSnapshot_iff (h : Excused w) :
    (Excused (coreSnapshot H w).2 ∧
      ∀ snapshotId resource elapsed, (coreSnapshot H w).1 = .ok (some (snapshotId, resource), elapsed) →
        Created w (coreSnapshot H w).2 snapshotId) ↔ AnswersWell H w := by
  obtain ⟨hvm, hrequests⟩ := prepare_frame (H := H) w
  rcases hprepared : prepare H w with ⟨e | ⟨snapshotId, start⟩, w₁⟩
  · rw [hprepared] at hvm hrequests
    rw [coreSnapshot_raises hprepared]
    refine iff_of_true ⟨h.of_eq (fun hpaused => hvm ▸ hpaused) hrequests, by simp⟩ ?_
    intro _ _ _ he
    rw [hprepared] at he
    cases he
  · rw [hprepared] at hvm hrequests
    have h₁ : Excused w₁ := h.of_eq (fun hpaused => hvm ▸ hpaused) hrequests
    have hwell : AnswersWell H w ↔ (answers (send H .pause w₁).1 "204" = true →
        answers (send H (.create snapshotId) (send H .pause w₁).2).1 "204" = true ∨
          (answers (send H (.create snapshotId) (send H .pause w₁).2).1 "400" = false ∧
            answers (send H .resume (send H (.create snapshotId) (send H .pause w₁).2).2).1 "204" = false)) := by
      constructor
      · exact fun hw => hw snapshotId start w₁ hprepared
      · intro hw _ _ _ he
        rw [hprepared] at he
        cases he
        exact hw
    rw [hwell]
    have hcase := coreSnapshot_cases hprepared
    generalize coreSnapshot H w = r at hcase ⊢
    cases hcase with
    | notPaused pause =>
      refine iff_of_true ⟨h₁.send fun _ => pause, by simp⟩ fun hpause => ?_
      rw [pause] at hpause
      cases hpause
    | notCreated pause paused create =>
      subst paused
      have hrefused : answers (send H (.create snapshotId) (send H .pause w₁).2).1 "204" = false :=
        Bool.eq_false_of_not_eq_true fun hcode => absurd (answers_code hcode create) (by decide)
      refine iff_of_false (fun hsound => not_excused_create pause hrefused hsound.1) fun hwell => ?_
      rcases hwell pause with hcode | ⟨hcode, -⟩
      · rw [hrefused] at hcode
        cases hcode
      · rw [create] at hcode
        cases hcode
    | notResumed pause paused create created resume =>
      subst paused created
      exact iff_of_true ⟨excused_resume _, by simp⟩ fun _ => .inr ⟨create, resume⟩
    | captured pause paused create created resume =>
      subst paused created
      have hrunning : Excused (onHost H.time (send H .resume (send H (.create snapshotId) (send H .pause w₁).2).2).2).2 :=
        (excused_resume _).of_eq id rfl
      have hcreated := created_iff H snapshotId hrequests
      constructor
      · rintro ⟨-, hreturned⟩ -
        exact .inl (hcreated.mp (hreturned snapshotId snapshotId _ rfl))
      · intro hwell
        refine ⟨hrunning, fun id resource elapsed he => ?_⟩
        cases he
        rcases hwell pause with hcode | ⟨-, hcode⟩
        · exact hcreated.mpr hcode
        · rw [resume] at hcode
          cases hcode

/-! ### Commands and restores -/

theorem Excused.onMachine {α : Type} {f : VmState → W → α × VmState × W} (h : Excused w)
    (hf : ∀ vm host, (f vm host).2.1 = .paused → vm = .paused) : Excused (onMachine f w).2 :=
  h.of_eq (hf w.vm w.host) rfl

theorem Excused.coreExec (h : Excused w) (command : Command) (timeout : Option ℚ) :
    Excused (coreExec H command timeout w).2 := by
  unfold FireAttachManager.coreExec
  have hconnected : Excused (onHost (H.connect w.vm) w).2 := h.of_eq id rfl
  generalize onHost (H.connect w.vm) w = connected at hconnected ⊢
  rcases connected with ⟨_ | _, w₁⟩
  · exact hconnected
  · cases command with
    | argv args => exact hconnected
    | line text =>
      have hssh (line : String) (timeout : Option ℚ) : Excused (FireAttachManager.onMachine (H.ssh line timeout) w₁).2 :=
        hconnected.onMachine fun vm host => H.ssh_paused line timeout vm host
      dsimp only
      split_ifs
      · have hstarted := hssh ("bash -c 'nohup " ++ String.ofList
          (Text.strip ((Text.strip text.toList).reverse.dropWhile (· = '&')).reverse) ++ " > /dev/null 2>&1 & disown'") none
        rcases hr : FireAttachManager.onMachine (H.ssh _ none) w₁ with ⟨_ | _, w₂⟩
        · rw [hr] at hstarted
          exact hstarted
        · rw [hr] at hstarted
          exact hstarted
      · exact hssh text timeout

theorem Excused.coreRestore (h : Excused w) (snapshotId snapshotName : String) :
    Excused (coreRestore H snapshotId snapshotName w).2 := by
  unfold FireAttachManager.coreRestore
  split_ifs
  · exact h
  · have hconnected : Excused (onHost (H.connect w.vm) w).2 := h.of_eq id rfl
    generalize onHost (H.connect w.vm) w = connected at hconnected ⊢
    rcases connected with ⟨_ | _, w₁⟩
    · exact hconnected
    · have htimed : Excused (onHost H.time w₁).2 := hconnected.of_eq id rfl
      have hrelaunched := htimed.onMachine H.relaunch_paused
      dsimp only
      generalize FireAttachManager.onMachine H.relaunch (onHost H.time w₁).2 = relaunched at hrelaunched ⊢
      rcases relaunched with ⟨_ | _, w₂⟩
      · exact hrelaunched
      · have hloaded : Excused (FireAttachManager.send H (.load snapshotId) w₂).2 :=
          hrelaunched.send fun he => by cases he
        dsimp only
        split_ifs
        · exact hloaded
        · exact hloaded.of_eq id rfl

theorem Excused.restoreEffect {s : Sys (FireWorld W)} (h : Excused s.world) (snapshotId : String) :
    Excused ((backend H).restoreEffect snapshotId s).2.world :=
  (backend H).restoreEffect_world (fun id resource _ h => h.coreRestore id resource)
    (fun c t _ h => h.coreExec c t) (fun _ h => h.of_eq id rfl) h snapshotId

/-! ### The snapshots of a run -/

/-- The id was registered, and recorded as physical, by a call that started in `s` and ended with `r`. -/
def Registers (s : Sys (FireWorld W)) (r : Except PyError Outcome × Sys (FireWorld W)) (snapshotId : String) : Prop :=
  (r.1 = .ok (.snapshotId (some snapshotId)) ∧ Ledger.isPhysical r.2.mgr snapshotId = true) ∨
    (snapshotId ∈ r.2.mgr.snapshots.keys ∧ snapshotId ∉ s.mgr.snapshots.keys)

/-- A snapshot leaves the machine running, unless it could not be resumed, and registers only what was created. -/
def SnapshotsReal (H : FireHost W) (op : SeqOp) (s : Sys (FireWorld W)) : Prop :=
  op = .snapshot →
    let r := (op.prog (backend H)).run s
    Excused r.2.world ∧ ∀ snapshotId, Registers s r snapshotId → Created s.world r.2.world snapshotId

/-- The answers to a physical snapshot go together. -/
def AnsweredWell (H : FireHost W) (op : SeqOp) (s : Sys (FireWorld W)) : Prop :=
  op = .snapshot →
    let (takePhysical, w) := (backend H).decide ⟨s.mgr.main.cumulativeExecTime⟩ s.world
    takePhysical = true → AnswersWell H w

variable {s : Sys (FireWorld W)}

theorem not_registers {x : Except PyError (Option String)} {w : FireWorld W} (hx : ∀ id, x ≠ .ok (some id)) (id : String) :
    ¬ Registers s (x.map Outcome.snapshotId, { s with world := w }) id := by
  rintro (⟨hreturned, -⟩ | ⟨hmem, hnot⟩)
  · rcases x with e | _ | id'
    · cases hreturned
    · cases hreturned
    · exact hx id' rfl
  · exact hnot hmem

theorem registers_physical {w : FireWorld W} {snapshotId resource : String} {elapsed : ℚ} (id : String) :
    Registers s (.ok (.snapshotId (some snapshotId)),
      ⟨SequentialBackend.afterPhysical s.mgr snapshotId resource elapsed, w⟩) id ↔ id = snapshotId := by
  constructor
  · rintro (⟨hreturned, -⟩ | ⟨hmem, hnot⟩)
    · cases hreturned
      rfl
    · rcases Dict.mem_keys_set.mp hmem with hid | hold
      · exact hid
      · exact absurd hold hnot
  · rintro rfl
    exact .inl ⟨rfl, Ledger.isPhysical_record s.mgr (SequentialBackend.snapshotNode s.mgr id true) rfl⟩

theorem not_registers_virtual {w : FireWorld W} {snapshotId : String} (id : String) :
    ¬ Registers s (.ok (.snapshotId (some snapshotId)), ⟨SequentialBackend.afterVirtual s.mgr snapshotId, w⟩) id := by
  rintro (⟨hreturned, hphysical⟩ | ⟨hmem, hnot⟩)
  · cases hreturned
    have hvirtual : Ledger.isPhysical (SequentialBackend.afterVirtual s.mgr snapshotId) snapshotId = false :=
      Ledger.isPhysical_record s.mgr (SequentialBackend.snapshotNode s.mgr snapshotId false) rfl
    exact absurd (hvirtual.symm.trans hphysical) (by simp)
  · exact hnot hmem

theorem answeredWell_physical (decided : (backend H).decide ⟨s.mgr.main.cumulativeExecTime⟩ s.world = (true, w)) :
    AnsweredWell H .snapshot s ↔ AnswersWell H w := by
  unfold AnsweredWell
  rw [decided]
  exact ⟨fun h => h rfl rfl, fun h _ _ => h⟩

theorem answeredWell_virtual (decided : (backend H).decide ⟨s.mgr.main.cumulativeExecTime⟩ s.world = (false, w)) :
    AnsweredWell H .snapshot s := by
  intro _
  rw [decided]
  intro hphysical
  cases hphysical

/-- One snapshot that starts while the machine runs, or could not be resumed. -/
theorem snapshot_real_iff (h : Excused s.world) {r : Except PyError (Option String) × Sys (FireWorld W)}
    (hr : (backend H).snapshotEffect s = r) :
    (Excused r.2.world ∧ ∀ id, Registers s (r.1.map Outcome.snapshotId, r.2) id → Created s.world r.2.world id) ↔
      AnsweredWell H .snapshot s := by
  have hdecided : Excused ((backend H).decide ⟨s.mgr.main.cumulativeExecTime⟩ s.world).2 := h.of_eq id rfl
  have hcreated (w' : FireWorld W) (id : String) :
      Created ((backend H).decide ⟨s.mgr.main.cumulativeExecTime⟩ s.world).2 w' id ↔ Created s.world w' id := Iff.rfl
  have hcase := (backend H).snapshotEffect_cases s
  rw [hr] at hcase
  cases hcase with
  | @raised w w' e decided hook =>
    rw [decided] at hdecided
    rw [answeredWell_physical decided, ← coreSnapshot_iff hdecided, show coreSnapshot H w = _ from hook]
    refine and_congr_right' (iff_of_true (fun id hid => ?_) (by simp))
    exact absurd hid (not_registers (x := .error e) (by simp) id)
  | @failed w w' elapsed decided hook =>
    rw [decided] at hdecided
    rw [answeredWell_physical decided, ← coreSnapshot_iff hdecided, show coreSnapshot H w = _ from hook]
    refine and_congr_right' (iff_of_true (fun id hid => ?_) (by simp))
    exact absurd hid (not_registers (x := .ok none) (by simp) id)
  | @physical w w' snapshotId resource elapsed decided hook =>
    rw [decided] at hdecided hcreated
    rw [answeredWell_physical decided, ← coreSnapshot_iff hdecided, show coreSnapshot H w = _ from hook]
    refine and_congr_right' ⟨fun hreal id _ _ he => ?_, fun hreal id hid => ?_⟩
    · cases he
      exact (hcreated w' snapshotId).mpr (hreal snapshotId ((registers_physical snapshotId).mpr rfl))
    · obtain rfl := (registers_physical id).mp hid
      exact (hcreated w' id).mp (hreal id resource elapsed rfl)
  | @virtual w w' hex decided uuid =>
    rw [decided] at hdecided
    have hunsent : Excused ((backend H).uuid4Hex w).2 := hdecided.of_eq id rfl
    rw [uuid] at hunsent
    exact iff_of_true ⟨hunsent, fun id hid => absurd hid (not_registers_virtual id)⟩ (answeredWell_virtual decided)

theorem snapshotsReal_iff (hs : Solo s.mgr) (h : Excused s.world) (op : SeqOp) :
    SnapshotsReal H op s ↔ AnsweredWell H op s := by
  cases op with
  | exec => exact iff_of_true (fun he => by cases he) (fun he => by cases he)
  | restore => exact iff_of_true (fun he => by cases he) (fun he => by cases he)
  | snapshot =>
    rw [← snapshot_real_iff h rfl, SnapshotsReal, SeqOp.run_prog_snapshot _ hs]
    exact forall_prop_of_true rfl

theorem Excused.step (hs : Solo s.mgr) (h : Excused s.world) {op : SeqOp} (hop : SnapshotsReal H op s) :
    Excused ((op.prog (backend H)).run s).2.world := by
  cases op with
  | exec c t =>
    rw [SeqOp.run_prog _ hs]
    exact (backend H).afterExec_world (fun c t _ h => h.coreExec c t) (fun _ h => h.of_eq id rfl) h c t
  | snapshot => exact (hop rfl).1
  | restore snapshotId =>
    rw [SeqOp.run_prog _ hs]
    exact h.restoreEffect snapshotId

theorem captured_running {captured : String × String} {elapsed : ℚ}
    (h : coreSnapshot H w = (.ok (some captured, elapsed), w')) : w'.vm = .running := by
  rcases hprepared : prepare H w with ⟨e | ⟨snapshotId, start⟩, w₁⟩
  · rw [coreSnapshot_raises hprepared] at h
    cases h
  · have hcase := coreSnapshot_cases hprepared
    rw [h] at hcase
    cases hcase with
    | captured _ _ _ _ resume => exact send_performed resume

/-- A manager is constructed only with a machine that runs. -/
theorem init_running {m : Manager} (hinit : init H w = (.ok m, w')) : Solo m ∧ w'.vm = .running := by
  unfold init at hinit
  rcases hdir : onHost H.freshDir w with ⟨_ | _, w₁⟩
  · rw [hdir] at hinit
    cases hinit
  · rw [hdir] at hinit
    dsimp only at hinit
    rcases hcapture : coreSnapshot H w₁ with ⟨_ | ⟨_ | captured, elapsed⟩, w₂⟩
    · rw [hcapture] at hinit
      cases hinit
    · rw [hcapture] at hinit
      cases hinit
    · rw [hcapture] at hinit
      have hrunning : w₂.vm = .running := captured_running hcapture
      have hvm : (onHost (H.connect w₂.vm) w₂).2.vm = w₂.vm := rfl
      dsimp only at hinit
      rcases hconnect : onHost (H.connect w₂.vm) w₂ with ⟨_ | _, w₃⟩
      · rw [hconnect] at hinit
        cases hinit
      · rw [hconnect] at hinit hvm
        cases hinit
        exact ⟨Manager.startedAt_solo _ _, hvm.trans hrunning⟩

end FireAttachManager

open FireAttachManager

/-- The snapshots of a run leave the machine running and are real exactly if the answers of the API go together at each. -/
theorem firecracker_snapshots_iff (H : FireHost W) {w w' : FireWorld W} {m : Manager} (hinit : init H w = (.ok m, w'))
    (ops : List SeqOp) :
    EachStep (backend H) (SnapshotsReal H) ops ⟨m, w'⟩ ↔ EachStep (backend H) (AnsweredWell H) ops ⟨m, w'⟩ := by
  obtain ⟨hsolo, hrunning⟩ := init_running hinit
  have hstart : Excused w' := by
    intro hpaused
    rw [hrunning] at hpaused
    cases hpaused
  refine Run.eachStep_iff (I := fun s => Solo s.mgr ∧ Excused s.world) ⟨hsolo, hstart⟩ ?_ ?_
  · rintro op s ⟨hs, h⟩
    exact snapshotsReal_iff hs h op
  · rintro op s ⟨hs, h⟩ hop
    exact ⟨solo_step s op hs, h.step hs hop⟩

/-- The answers and the uuids to come; a machine that is not told otherwise accepts everything. -/
structure FireScript where
  answers : List String
  hexes : List String

def FireHost.scripted : FireHost FireScript where
  freshDir w := (.ok (), w)
  request r vm w :=
    let stdout := w.answers.headD "204"
    (stdout, if StateFork.answers stdout "204" then r.effect vm else vm, { w with answers := w.answers.tail })
  performed r vm w h := if_pos h
  refused r vm w h := if_neg (Bool.not_eq_true _ ▸ h)
  connect _ w := (.ok (), w)
  ssh _ _ vm w := (.ok (0, "", ""), vm, w)
  ssh_paused _ _ _ _ h := h
  relaunch _ w := (.ok (), .off, w)
  relaunch_paused _ _ h := by cases h
  teardown _ w := (.off, w)
  mkdir _ w := (.ok (), w)
  decide _ w := (true, w)
  time w := (0, w)
  uuid4Hex w := (w.hexes.headD "", { w with hexes := w.hexes.tail })

def FireScript.booted (answers : List String) : FireWorld FireScript :=
  ⟨.running, [], ⟨["204", "204", "204"] ++ answers, ["6fa459ea", "16fd2706", "886313e1"]⟩⟩

theorem firecracker_snapshots_accepted :
    ∃ m w, init .scripted (FireScript.booted []) = (.ok m, w) ∧
      EachStep (backend .scripted) (SnapshotsReal .scripted) [.snapshot, .restore "16fd2706"] ⟨m, w⟩ := by
  refine ⟨_, _, rfl, ?_⟩
  refine (firecracker_snapshots_iff .scripted (w := FireScript.booted []) rfl _).mpr ⟨fun _ _ => ?_, fun he => ?_, trivial⟩
  · intro snapshotId start w₁ hprepared _
    obtain rfl := (congrArg Prod.snd hprepared).symm
    have hcode : answers "204" "204" = true := by decide +kernel
    exact .inl hcode
  · cases he

/-- A snapshot that is answered 400 leaves the machine paused, and one that is answered 500 is registered. -/
theorem not_firecracker_snapshots_refused :
    (∃ m w, init .scripted (FireScript.booted ["204", "400"]) = (.ok m, w) ∧
      ¬ EachStep (backend .scripted) (SnapshotsReal .scripted) [.snapshot] ⟨m, w⟩ ∧
        let s := runOps (backend .scripted) [.snapshot] ⟨m, w⟩
        s.world.vm = .paused ∧ s.world.requests.drop 3 = [(.pause, "204"), (.create "16fd2706", "400")]) ∧
    ∃ m w, init .scripted (FireScript.booted ["204", "500"]) = (.ok m, w) ∧
      ¬ EachStep (backend .scripted) (SnapshotsReal .scripted) [.snapshot] ⟨m, w⟩ ∧
        let s := runOps (backend .scripted) [.snapshot] ⟨m, w⟩
        s.mgr.snapshots.keys = ["6fa459ea", "16fd2706"] ∧ Ledger.isPhysical s.mgr "16fd2706" = true := by
  constructor
  · refine ⟨_, _, rfl, ?_, by decide +kernel⟩
    rintro ⟨h, -⟩
    exact absurd ((h rfl).1 (by decide +kernel)) (by decide +kernel)
  · refine ⟨_, _, rfl, ?_, by decide +kernel⟩
    rintro ⟨h, -⟩
    exact absurd ((h rfl).2 "16fd2706" (.inl (by decide +kernel))) (by decide +kernel)

end StateFork
