import StateFork.Lib.ShellWords
import StateFork.Sequential.Firecracker

/-!
# Commands in the background

`_core_exec` of the manager of a microVM puts a command that ends in an ampersand between single quotes, as it is. The
shell of the guest reads the line back (`Shell.tokens`): `PreservesText` says that it finds the command in the script.
-/

namespace StateFork

variable {W : Type}

/-- The host with the lines that were sent over ssh. -/
def FireHost.recordingLines (H : FireHost W) : FireHost (W × List String) where
  freshDir w := ((H.freshDir w.1).1, (H.freshDir w.1).2, w.2)
  request r vm w := ((H.request r vm w.1).1, (H.request r vm w.1).2.1, (H.request r vm w.1).2.2, w.2)
  performed r vm w := H.performed r vm w.1
  refused r vm w := H.refused r vm w.1
  connect vm w := ((H.connect vm w.1).1, (H.connect vm w.1).2, w.2)
  ssh line timeout vm w :=
    ((H.ssh line timeout vm w.1).1, (H.ssh line timeout vm w.1).2.1, (H.ssh line timeout vm w.1).2.2, w.2 ++ [line])
  ssh_paused line timeout vm w := H.ssh_paused line timeout vm w.1
  relaunch vm w := ((H.relaunch vm w.1).1, (H.relaunch vm w.1).2.1, (H.relaunch vm w.1).2.2, w.2)
  relaunch_paused vm w := H.relaunch_paused vm w.1
  teardown vm w := ((H.teardown vm w.1).1, (H.teardown vm w.1).2, w.2)
  mkdir snapshotId w := ((H.mkdir snapshotId w.1).1, (H.mkdir snapshotId w.1).2, w.2)
  decide context w := ((H.decide context w.1).1, (H.decide context w.1).2, w.2)
  time w := ((H.time w.1).1, (H.time w.1).2, w.2)
  uuid4Hex w := ((H.uuid4Hex w.1).1, (H.uuid4Hex w.1).2, w.2)

namespace FireAttachManager

/-- `command.strip().endswith("&")` -/
def RunsInBackground (text : String) : Prop := (Text.strip text.toList).getLast? = some '&'

instance (text : String) : Decidable (RunsInBackground text) := by
  unfold RunsInBackground
  infer_instance

/-- `command.strip().rstrip("&").strip()` -/
def backgroundCommand (text : String) : List Char := Text.strip ((Text.strip text.toList).rdropWhile (· = '&'))

/-- The script that the guest is meant to run. -/
def backgroundScript (cmd : List Char) : List Char := "nohup ".toList ++ cmd ++ " > /dev/null 2>&1 & disown".toList

/-- The lines that `_core_exec` sends over ssh. -/
def sentLines (H : FireHost W) (command : Command) (timeout : Option ℚ) (w : FireWorld W) : List String :=
  (coreExec H.recordingLines command timeout ⟨w.vm, w.requests, w.host, []⟩).2.host.2

/-- Once it is connected `_core_exec` sends one line, which the shell of the guest reads as a call of bash with the
command, unchanged, in its script. -/
structure PreservesText (H : FireHost W) (text : String) (timeout : Option ℚ) (w : FireWorld W) : Prop where
  sent : (H.connect w.vm w.host).1 = .ok () → ∃ line, sentLines H (.line text) timeout w = [line]
  tokens : ∀ line ∈ sentLines H (.line text) timeout w, Shell.tokens line.toList =
    some [.word "bash".toList, .word "-c".toList, .word (backgroundScript (backgroundCommand text))]

/-- The line as `_core_exec` puts it together. -/
def backgroundLine (text : String) : String :=
  "bash -c 'nohup " ++ String.ofList (backgroundCommand text) ++ " > /dev/null 2>&1 & disown'"

variable {H : FireHost W} {text : String} {timeout : Option ℚ} {w : FireWorld W}

theorem coreExec_of_runsInBackground (h : RunsInBackground text) :
    coreExec H (.line text) timeout w =
      match onHost (H.connect w.vm) w with
      | (.error e, w) => (.error e, w)
      | (.ok (), w) =>
        match onMachine (H.ssh (backgroundLine text) none) w with
        | (.error e, w) => (.error e, w)
        | (.ok _, w) => (.ok (0, "", ""), w) := by
  have hlast : (Text.strip text.toList).reverse.head? = some '&' := by rwa [List.head?_reverse]
  unfold coreExec
  rcases onHost (H.connect w.vm) w with ⟨e | ⟨⟩, w⟩
  · rfl
  · exact if_pos hlast

theorem sentLines_of_runsInBackground (h : RunsInBackground text) :
    sentLines H (.line text) timeout w =
      if (H.connect w.vm w.host).1 = .ok () then [backgroundLine text] else [] := by
  unfold sentLines
  rw [coreExec_of_runsInBackground h]
  unfold onHost onMachine FireHost.recordingLines
  dsimp only
  rcases H.connect w.vm w.host with ⟨e | ⟨⟩, host⟩
  · rfl
  · dsimp only
    cases (H.ssh (backgroundLine text) none w.vm host).1 <;> rfl

theorem toList_backgroundLine (text : String) :
    (backgroundLine text).toList = "bash -c '".toList ++ (backgroundScript (backgroundCommand text) ++ ['\'']) := by
  have hline (front cmd back : String) : (front ++ cmd ++ back).toList = front.toList ++ cmd.toList ++ back.toList := by
    simp
  have hcut (a b cmd d e : List Char) : a ++ b ++ cmd ++ (d ++ e) = a ++ (b ++ cmd ++ d ++ e) := by simp
  have hfront : "bash -c 'nohup ".toList = "bash -c '".toList ++ "nohup ".toList := by decide
  have hback : " > /dev/null 2>&1 & disown'".toList = " > /dev/null 2>&1 & disown".toList ++ ['\''] := by decide
  have hcommand : (String.ofList (backgroundCommand text)).toList = backgroundCommand text := String.toList_ofList
  calc (backgroundLine text).toList
      = "bash -c 'nohup ".toList ++ (String.ofList (backgroundCommand text)).toList ++
          " > /dev/null 2>&1 & disown'".toList := hline ..
    _ = "bash -c '".toList ++ "nohup ".toList ++ backgroundCommand text ++
          (" > /dev/null 2>&1 & disown".toList ++ ['\'']) := by rw [hfront, hback, hcommand]
    _ = _ := hcut ..

/-- The words in front of the script. -/
theorem feed_bash : Shell.feed (.plain none) "bash -c '".toList =
    some ([.word "bash".toList, .word "-c".toList], .single []) := by
  decide

theorem tokens_backgroundLine (text : String) :
    Shell.tokens (backgroundLine text).toList =
      (Shell.tokensFrom (.single []) (backgroundScript (backgroundCommand text) ++ ['\''])).map
        ([.word "bash".toList, .word "-c".toList] ++ ·) := by
  rw [toList_backgroundLine]
  exact Shell.tokensFrom_of_feed feed_bash _

theorem mem_middle {x : Char} {a b c : List Char} (ha : x ∉ a) (hc : x ∉ c) : x ∈ a ++ b ++ c ↔ x ∈ b := by
  simp [ha, hc]

theorem quote_mem_backgroundScript {cmd : List Char} : '\'' ∈ backgroundScript cmd ↔ '\'' ∈ cmd :=
  mem_middle (by decide) (by decide)

/-- The shell finds the command in its script exactly if the command has no single quote. -/
theorem tokens_backgroundLine_iff (text : String) :
    Shell.tokens (backgroundLine text).toList =
        some [.word "bash".toList, .word "-c".toList, .word (backgroundScript (backgroundCommand text))] ↔
      '\'' ∉ backgroundCommand text := by
  rw [tokens_backgroundLine, ← quote_mem_backgroundScript]
  constructor
  · intro h hquote
    obtain ⟨script, hscript, heq⟩ := Option.map_eq_some_iff.mp h
    obtain rfl : script = [.word (backgroundScript (backgroundCommand text))] := List.append_cancel_left heq
    have hend : backgroundScript (backgroundCommand text) =
        ("nohup ".toList ++ backgroundCommand text ++ " > /dev/null 2>&1 & disow".toList) ++ ['n'] := by
      rw [List.append_assoc]
      rfl
    rw [hend] at hscript hquote
    have hfront := (List.mem_append.mp hquote).resolve_right (by decide)
    exact absurd (Shell.size_lt_of_quote hfront (by decide) hscript) (by simp [Shell.size, Shell.Token.size])
  · intro h
    rw [Shell.tokensFrom, Shell.feed_single h]
    rfl

/-- A command in the background reaches the guest unchanged exactly if it has no single quote. -/
theorem preservesText_iff (h : RunsInBackground text) :
    PreservesText H text timeout w ↔ ((H.connect w.vm w.host).1 = .ok () → '\'' ∉ backgroundCommand text) := by
  have hsent : sentLines H (.line text) timeout w =
      if (H.connect w.vm w.host).1 = .ok () then [backgroundLine text] else [] := sentLines_of_runsInBackground h
  by_cases hconnect : (H.connect w.vm w.host).1 = .ok ()
  · rw [if_pos hconnect] at hsent
    constructor
    · intro hpreserves _
      refine (tokens_backgroundLine_iff text).mp (hpreserves.tokens _ ?_)
      rw [hsent]
      exact List.mem_singleton_self _
    · intro hquote
      refine ⟨fun _ => ⟨_, hsent⟩, fun line hline => ?_⟩
      rw [hsent] at hline
      obtain rfl := List.mem_singleton.mp hline
      exact (tokens_backgroundLine_iff text).mpr (hquote hconnect)
  · rw [if_neg hconnect] at hsent
    refine iff_of_true ⟨fun hok => absurd hok hconnect, fun line hline => ?_⟩ fun hok => absurd hok hconnect
    rw [hsent] at hline
    cases hline

theorem preservesText_server :
    PreservesText .scripted " python3 server.py &" none (FireScript.booted []) ↔
      ((FireHost.scripted.connect .running (FireScript.booted []).host).1 = .ok () →
        '\'' ∉ backgroundCommand " python3 server.py &") :=
  preservesText_iff (by decide)

/-- The guest's shell splits `echo 'a b' &` at the quotes. -/
theorem not_preservesText_quoted :
    RunsInBackground "echo 'a b' &" ∧ ¬ PreservesText .scripted "echo 'a b' &" none (FireScript.booted []) := by
  refine ⟨by decide, fun h => ?_⟩
  have hsent : sentLines .scripted (.line "echo 'a b' &") none (FireScript.booted []) = [backgroundLine "echo 'a b' &"] :=
    (sentLines_of_runsInBackground (by decide)).trans (if_pos rfl)
  have htokens := h.tokens _ (hsent ▸ List.mem_singleton_self _)
  exact absurd ((tokens_backgroundLine_iff _).mp htokens) (by decide)

end FireAttachManager

end StateFork
