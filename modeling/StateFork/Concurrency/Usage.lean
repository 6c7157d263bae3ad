import StateFork.Concurrency.Retire
import StateFork.Forkable.LiveObjects

/-!
# Discarding and parking beside everything else

Any number of threads run operations on named branches, forks, restores and listings. Every program keeps to
the protocol of `Lifetime`, so its promises hold of every step that a schedule takes
(`no_use_after_retire`).
-/

namespace StateFork

open Conc Conc.Prog Conc.Protocol EnvironmentManager ForkableEnvironmentManager

namespace Lifetime

variable {W α : Type} {live : W → String → Prop} {H : List Lock} {v : View (Sys W) Event}
  {F : List Event → View (Sys W) Event → Prop} {A : Prop}

/-! ### Templates on a named branch -/

/-- An operation on a branch has called a hook, or it fails. -/
def Ends (A : Prop) (refused : α → Prop) (r : Except PyError α) (h : List Event) : Prop :=
  Called A h ∨ (∃ a, r = .ok a ∧ refused a) ∨ ∃ e, r = .error e ∧ e.kind = .keyError

/-- What the thread knows in the section of the operation lock. -/
def Looked (H : List Lock) (state : Ref) (h : List Event) (v : View (Sys W) Event) : Prop :=
  (Holds (.operation state :: H) v ∧ Known state v.state.mgr) ∧ .lookedUp state ∈ h

/-- What it knows once it has seen that the record is active. -/
def InUse (H : List Lock) (state : Ref) (h : List Event) (v : View (Sys W) Event) : Prop :=
  (Holds (.operation state :: H) v ∧ Held state v) ∧ .lookedUp state ∈ h

/-- What it knows after it has called a hook. -/
def Past (H : List Lock) (A : Prop) (h : List Event) (v : View (Sys W) Event) : Prop := Holds H v ∧ Called A h

variable {state : Ref}

theorem frame_looked : (protocol live).Frame (.operation state :: H) (Looked H state) :=
  (frame_holds.and frame_known).and frame_logged

theorem frame_inUse : (protocol live).Frame (.operation state :: H) (InUse H state) :=
  (frame_holds.and (frame_held (List.mem_cons_self ..))).and frame_logged

theorem frame_past : (protocol live).Frame H (Past H A) := frame_holds.and frame_called

theorem triple_template {body : Ref → M W α} {b : String} {refused : α → Prop}
    (hbody : ∀ state, state.id = b → (protocol live).Triple (.operation state :: H)
      (fun h v => Looked H state h v ∧ Only A state h) (body state)
      fun r h v => Holds (.operation state :: H) v ∧ Ends A refused r h) :
    (protocol live).Triple H (fun h v => Holds H v ∧ Unlooked A h) (getBranchState (some b) >>= fun state =>
      announce (.lookedUp state) >>= fun _ => withLock (.operation state) (body state))
      fun r h v => Holds H v ∧ Ends A refused r h := by
  have hread : ∀ h v, (protocol live).valid v → (protocol live).guar H h [] v v := by
    intro h v hv
    have hguar := (quiet_read v hv).guar H h
    rwa [View.step_nil] at hguar
  have hstable : (protocol live).Stable H fun h v => Holds H v ∧ Unlooked A h :=
    fun h v v' hr hp => ⟨frame_holds.stable h v v' hr hp.1, hp.2⟩
  refine triple_bind (Q := fun r h v => (Holds H v ∧ Unlooked A h) ∧
    (∀ state, r = .ok state → Known state v.state.mgr ∧ state.id = b) ∧ ∀ e, r = .error e → e.kind = .keyError) ?_
    (fun state => ?_) fun e h v hq => ⟨hq.1.1, .inr (.inr ⟨e, rfl, hq.2.2 e rfl⟩)⟩
  · refine triple_getBranchState plain_state hread hstable (fun r h v v' hr hq => ?_) fun h v hv hp => ?_
    · refine ⟨hstable h v v' hr hq.1, fun state hs => ?_, hq.2.2⟩
      exact ⟨(hq.2.1 state hs).1.onward hr.onward, (hq.2.1 state hs).2⟩
    · refine ⟨hp, fun state hs => ?_, fun e he => ?_⟩
      · have hget := Manager.get?_of_getBranchState hs
        exact ⟨hv.known hget, hv.regular.ids b state hget⟩
      · unfold Manager.getBranchState at he
        dsimp only at he
        split at he
        · cases he
        · cases he
          rfl
  · refine triple_of_fact (fun h v hq => (hq.2.1 state rfl).2) fun hid => ?_
    refine triple_bind_total (by simp) (triple_lookedUp (A := A) ((frame_holds (H := H)).and (frame_known (r := state)))
      (fun h v hq => ⟨⟨hq.1.1, (hq.2.1 state rfl).1⟩, hq.1.2⟩) fun _ _ _ hp => hp.2) fun _ => ?_
    have hP : (protocol live).Frame H fun h v => (Holds H v ∧ Known state v.state.mgr) ∧ .lookedUp state ∈ h :=
      (frame_holds.and frame_known).and frame_logged
    refine triple_operation (fun h v v' hr hp => ⟨hP.stable h v v' hr hp.1, hp.2⟩)
      (fun r h v v' hr hq => ⟨frame_holds.stable h v v' hr hq.1, hq.2⟩) (fun h v hv hp => ⟨hp.1.1.2, hp.1.1.1⟩) ?_
    refine Triple.weaken (hbody state hid) (fun h v hp => ⟨⟨⟨hp.1, hp.2.1.1.2⟩, hp.2.1.2⟩, hp.2.2⟩) fun r h v hq => ?_
    exact ⟨hq.1, hq.1.mono (List.subset_cons_self _ _), hq.2⟩

/-- The test of the record under its lock: a template that passes it uses an existing branch. -/
theorem triple_active {β : Type} {g : Manager → β} (passed : β → Prop) {f : β → M W α} {refused : α → Prop}
    (hg : ∀ m, passed (g m) → (m.record state).active = true)
    (hlost : ∀ x, ¬ passed x → (protocol live).Triple (.operation state :: H) (Looked H state) (f x)
      fun r h v => Holds (.operation state :: H) v ∧ Ends A refused r h)
    (hpassed : ∀ x, passed x → (protocol live).Triple (.operation state :: H)
      (fun h v => InUse H state h v ∧ Only A state h) (f x)
      fun r h v => Holds (.operation state :: H) v ∧ Ends A refused r h) :
    (protocol live).Triple (.operation state :: H) (fun h v => Looked H state h v ∧ Only A state h) (readState g >>= f)
      fun r h v => Holds (.operation state :: H) v ∧ Ends A refused r h := by
  have hheld : (protocol live).Frame (.operation state :: H) fun _ v => Held state v := frame_held (List.mem_cons_self ..)
  refine triple_read (C := fun x _ v => passed x → Held state v)
    (fun h v v' hr hp => ⟨frame_looked.stable h v v' hr hp.1, hp.2⟩)
    (fun x h v v' hr hp hne => hheld.stable h v v' hr (hp hne)) (fun h v hv hp hx => ?_) fun x => ?_
  · have hget := hv.registered hp.1.1.2 (hg _ hx)
    exact ⟨hget, (hp.1.1.1 state (List.mem_cons_self ..)).2 hget⟩
  · by_cases hx : passed x
    · refine Triple.weaken (hpassed x hx) (fun h v hp => ?_) fun _ _ _ hq => hq
      exact ⟨⟨⟨hp.1.1.1.1, hp.2 hx⟩, hp.1.1.2⟩, hp.1.2⟩
    · exact Triple.weaken (hlost x hx) (fun _ _ hp => hp.1.1) fun _ _ _ hq => hq

/-- The call of a hook in a template. -/
theorem triple_hook {hook : Hook} {k : M W α} {refused : α → Prop}
    (hk : (protocol live).Keep (.operation state :: H) (Past (.operation state :: H) A) k) :
    (protocol live).Triple (.operation state :: H) (fun h v => InUse H state h v ∧ Only A state h)
      (announce (.call hook state) >>= fun _ => k)
      fun r h v => Holds (.operation state :: H) v ∧ Ends A refused r h := by
  refine triple_bind_total (by simp) (triple_call (A := A) frame_inUse
    fun h v hp => ⟨hp.1, hp.1.1.2, hp.1.2, hp.2⟩) fun _ => ?_
  exact Triple.weaken hk (fun h v hp => ⟨hp.1.1.1, hp.2⟩) fun r h v hq => ⟨hq.1, .inl hq.2⟩

/-- A step that updates a record, active or not, and leaves the flag as it is. -/
theorem quiet_update {m : Manager} {r : Ref} {ev : List Event} (hv : Sound live v) {f : BranchState → BranchState}
    (hm : m = v.state.mgr.modifyRecord r f) (hf : ∀ s, (f s).active = s.active) (hev : ∀ e ∈ ev, e.Mute) :
    (protocol live).Quiet ev v { v.state with mgr := m } := by
  subst hm
  refine quiet_of_congr hv (hv.regular.modifyRecord r f) rfl rfl (fun a => ?_) rfl rfl rfl hev
  show ((v.state.mgr.records.modify r.addr f).cell a).active = (v.state.mgr.records.cell a).active
  rw [Heap.cell_modify]
  split_ifs with ha
  · rw [hf, ha]
  · rfl

/-! ### Commands, copies and snapshots -/

section Templates

variable {B : ForkableBackend W} (hB : KeepsLive B live)

include hB

/-- The templates read the clock before they call the hook. -/
theorem keep_time (hF : (protocol live).Frame H F) : (protocol live).Keep H F B.hooks.toHooks.time :=
  keep_access hF fun v hv => quiet_of_world hv (hB.time _) (by simp)

/-- Reading the clock leaves no trace in the log. -/
theorem triple_time (hF : (protocol live).Frame H F) {L : List Event → Prop} :
    (protocol live).Triple H (fun h v => F h v ∧ L h) B.hooks.toHooks.time fun _ h v => F h v ∧ L h := by
  refine triple_access (fun _ h v v' hr hp => ⟨hF.stable h v v' hr hp.1, hp.2⟩) fun h v hv hp => ?_
  have hq : (protocol live).Quiet [] v { v.state with world := (B.time v.state.world).2 } :=
    quiet_of_world hv (hB.time _) (by simp)
  exact ⟨.of_quiet hq h, hq.frame_nil hF hp.1, hp.2⟩

omit hB in
theorem keep_logCommand (hF : (protocol live).Frame H F) (b : String) (command : Command) (elapsed counted : ℚ) :
    (protocol live).Keep H F (logCommand b state command elapsed counted : M W Unit) := by
  refine keep_bind (keep_withState hF plain_state fun v hv => ?_) fun target => ?_
  · exact quiet_update hv rfl (fun _ => rfl) (by simp)
  · exact StateFork.keep_addEntry hF plain_stats fun v hv =>
      quiet_of_records hv (hv.regular.congr rfl rfl rfl) rfl rfl rfl rfl

theorem triple_execBranch (b : String) (command : Command) (timeout : Option ℚ) :
    (protocol live).Triple H (fun h v => Holds H v ∧ Unlooked A h) (execBranch B.hooks.toHooks b command timeout)
      fun r h v => Holds H v ∧ Ends A (fun a => ∃ text, a = (-1, "", text)) r h := by
  refine triple_template fun state _ => ?_
  have hS : (protocol live).Frame (.operation state :: H) (Past (.operation state :: H) A) := frame_past
  refine triple_active (· = true) (fun _ hactive => hactive) (fun active hactive => ?_) fun active hactive => ?_
  · rw [if_neg hactive]
    exact triple_ret fun h v hp => ⟨hp.1.1, .inr (.inl ⟨_, rfl, _, rfl⟩)⟩
  · rw [if_pos hactive]
    refine triple_bind_total (neverRaises_access _) (triple_time hB frame_inUse) fun start => ?_
    refine triple_hook ?_
    have hexec : (protocol live).Keep (.operation state :: H) (Past (.operation state :: H) A)
        (tryWorld (B.exec command timeout b) fun _ => []) :=
      keep_tryWorld hS fun v hv => quiet_of_world hv (hB.exec ..) (by simp)
    refine keep_bind (keep_attempt hexec) fun result => keep_bind (keep_time hB hS) fun stop => ?_
    cases result with
    | error e => exact keep_bind (keep_logCommand hS b command _ _) fun _ => keep_ret _
    | ok answer => exact keep_bind (keep_logCommand hS b command _ _) fun _ => keep_ret _

theorem triple_copyBranch (b hostPath envPath : String) (into : Bool) :
    (protocol live).Triple H (fun h v => Holds H v ∧ Unlooked A h) (copyBranch B.hooks.toHooks b hostPath envPath into)
      fun r h v => Holds H v ∧ Ends A (· = false) r h := by
  refine triple_template fun state _ => ?_
  have hS : (protocol live).Frame (.operation state :: H) (Past (.operation state :: H) A) := frame_past
  refine triple_active (· ≠ none) (fun m hx => ?_) (fun x hx => ?_) fun x hx => ?_
  · by_contra hactive
    exact hx (if_neg hactive)
  · obtain rfl := not_not.mp hx
    exact triple_ret fun h v hp => ⟨hp.1.1, .inr (.inl ⟨_, rfl, rfl⟩)⟩
  · cases x with
    | none => exact absurd rfl hx
    | some target =>
      refine triple_bind_total (neverRaises_access _) (triple_time hB frame_inUse) fun start => ?_
      refine triple_hook ?_
      have hcopy : (protocol live).Keep (.operation state :: H) (Past (.operation state :: H) A)
          (tryWorld (B.copy b hostPath envPath into) fun _ => []) :=
        keep_tryWorld hS fun v hv => quiet_of_world hv (hB.copy ..) (by simp)
      refine keep_bind (keep_attempt hcopy) fun result => ?_
      cases result with
      | error e => exact keep_ret _
      | ok answer =>
        refine keep_bind (keep_time hB hS) fun stop => keep_bind ?_ fun _ => keep_ret _
        exact StateFork.keep_addEntry hS plain_stats fun v hv =>
          quiet_of_records hv (hv.regular.congr rfl rfl rfl) rfl rfl rfl rfl

omit hB in
theorem mute_capturedEvents (b : String) (r : Except PyError (Option (String × String) × ℚ)) :
    ∀ e ∈ ForkableBackend.capturedEvents b r, e.Mute := by
  intro e he
  rcases r with _ | ⟨_ | ⟨id, resource⟩, elapsed⟩
  · cases he
  · cases he
  · obtain rfl := List.mem_singleton.mp he
    trivial

/-- `_core_snapshot`, with the refresh of the registry if the backend has one. -/
theorem keep_coreSnapshot (hK : OnlyOperations H) (b : String) (hF : (protocol live).Frame H F) :
    (protocol live).Keep H F (B.hooks.coreSnapshot b) := by
  have hreg : .branchRegistry ∉ H := by
    intro hl
    obtain ⟨r, he⟩ := hK _ hl
    cases he
  have hrefresh : (protocol live).Keep H F B.refresh := by
    unfold ForkableBackend.refresh
    split_ifs
    · exact keep_bind (keep_listBranches hB hK (List.Subset.refl H) hF hreg) fun _ => keep_ret ()
    · exact keep_ret ()
  refine keep_bind (keep_tryWorld hF fun v hv => quiet_of_world hv (hB.snapshot ..) ?_) fun captured => ?_
  · exact mute_capturedEvents b _
  · rcases captured with ⟨_ | ⟨id, resource⟩, elapsed⟩
    · exact keep_ret _
    · refine keep_bind (keep_bind (keep_updateState hF plain_state fun v hv => ?_) fun _ => keep_ret _) fun answer => ?_
      · exact quiet_of_records hv (hv.regular.congr rfl rfl rfl) rfl rfl rfl rfl
      · dsimp only
        split_ifs
        · exact keep_bind hrefresh fun _ => keep_ret _
        · exact keep_ret _

omit hB in
theorem keep_commitSnapshot (b : String) {node : SnapshotNode} (hnode : node.isVirtual = false)
    (hF : (protocol live).Frame H F) :
    (protocol live).Keep H F (commitSnapshot B.hooks.toHooks b state true node) := by
  refine keep_bind (keep_updateState hF plain_state fun v hv => ?_) fun _ => ?_
  · exact quiet_of_records hv (hv.regular.recordSnapshotNode hnode) rfl rfl rfl rfl
  refine keep_bind ?_ fun _ => ?_
  · refine triple_updateStateEmit plain_state hF.stable (fun _ => hF.stable) fun h v hv hp => ?_
    have hq : (protocol live).Quiet [.advanced b node.snapshotId node.parentId] v { v.state with
        mgr := v.state.mgr.modifyRecord state fun r =>
          { r with
            currentSnapshotId := some node.snapshotId
            lastSnapshotId := some node.snapshotId
            commandLog := []
            cumulativeExecTime := if true then 0 else r.cumulativeExecTime } } :=
      quiet_update hv rfl (fun _ => rfl) (by simp [Event.Mute])
    exact ⟨.of_quiet hq h, hq.frame hF hp⟩
  have hafter : (protocol live).Keep H F (updateState (·.advanceLiveBase b node.snapshotId) : M W Unit) := by
    refine keep_updateState hF plain_state fun v hv => ?_
    obtain ⟨liveObjects, he⟩ := v.state.mgr.advanceLiveBase_eq b node.snapshotId
    dsimp only
    rw [he]
    exact quiet_of_records hv (hv.regular.congr rfl rfl rfl) rfl rfl rfl rfl
  refine keep_bind hafter fun _ => keep_bind (keep_access hF fun v hv => ?_) fun _ => keep_ret _
  exact quiet_of_records hv (hv.regular.congr rfl rfl rfl) rfl rfl rfl rfl

theorem triple_capturePhysical (hK : OnlyOperations (.operation state :: H)) (b : String) (parentId : Option String) :
    (protocol live).Triple (.operation state :: H) (fun h v => InUse H state h v ∧ Only A state h)
      (capturePhysical B.hooks.toHooks b state parentId) fun r h v =>
        Past (.operation state :: H) A h v ∧ ∀ node, r = .ok (some node) → node.isVirtual = false := by
  have hS : (protocol live).Frame (.operation state :: H) (Past (.operation state :: H) A) := frame_past
  refine triple_bind_total (by simp) (triple_call (A := A) frame_inUse
    fun h v hp => ⟨hp.1, hp.1.1.2, hp.1.2, hp.2⟩) fun _ => ?_
  refine Triple.weaken (P := Past (.operation state :: H) A) ?_ (fun h v hp => ⟨hp.1.1.1, hp.2⟩) fun _ _ _ hq => hq
  refine Keep.bind (keep_coreSnapshot hB hK b hS) (fun captured => ?_) fun e h v hp => ⟨hp, by simp⟩
  rcases captured with ⟨_ | snapshotId, elapsed⟩
  · exact triple_ret fun h v hp => ⟨hp, by simp⟩
  · refine Keep.bind (StateFork.keep_addEntry hS plain_stats fun v hv => ?_) (fun _ => ?_) fun e h v hp => ⟨hp, by simp⟩
    · exact quiet_of_records hv (hv.regular.congr rfl rfl rfl) rfl rfl rfl rfl
    · refine triple_ret fun h v hp => ⟨hp, ?_⟩
      rintro _ ⟨⟩
      rfl

theorem triple_snapshotBranch (b : String) :
    (protocol live).Triple [] (fun h v => Holds [] v ∧ Unlooked A h) (EnvironmentManager.snapshotBranch B.hooks.toHooks b true)
      fun r h v => Holds [] v ∧ Ends A (· = none) r h := by
  refine triple_template fun state _ => ?_
  have hS : (protocol live).Frame [.operation state] (Past [.operation state] A) := frame_past
  have hK : OnlyOperations [.operation state] := fun l hl => ⟨state, List.mem_singleton.mp hl⟩
  refine triple_active (· ≠ none) (fun m hx => ?_) (fun x hx => ?_) fun x hx => ?_
  · by_contra hactive
    exact hx (if_neg hactive)
  · obtain rfl := not_not.mp hx
    exact triple_ret fun h v hp => ⟨hp.1.1, .inr (.inl ⟨_, rfl, rfl⟩)⟩
  · cases x with
    | none => exact absurd rfl hx
    | some seen =>
      obtain ⟨parentId, time, log⟩ := seen
      show (protocol live).Triple _ _ (capturePhysical B.hooks.toHooks b state parentId >>=
        commitCaptured B.hooks.toHooks b state true) _
      refine triple_bind (triple_capturePhysical hB hK b parentId) (fun captured => ?_) fun e h v hq =>
        ⟨hq.1.1, .inl hq.1.2⟩
      cases captured with
      | none => exact triple_ret fun h v hq => ⟨hq.1.1, .inl hq.1.2⟩
      | some node =>
        refine triple_of_fact (fun h v hq => hq.2 node rfl) fun hnode => ?_
        exact Triple.weaken (keep_commitSnapshot b hnode hS) (fun h v hq => hq.1) fun r h v hq => ⟨hq.1, .inl hq.2⟩

end Templates

/-! ### Forks and restores -/

section Births

variable {B : ForkableBackend W} (hB : KeepsLive B live)

include hB

theorem keep_fork (hF : (protocol live).Frame [] F) (snapshotId : String) (n : Int) (ids : Option (List String)) :
    (protocol live).Keep [] F (fork B.hooks snapshotId n ids) := by
  have hK : OnlyOperations [] := by simp [OnlyOperations]
  have hG := frame_settled_and (H := []) (List.Subset.refl []) hF
  have hmaterialize (requestedIds : List (Option String)) : (protocol live).Keep [.branchRegistry]
      (fun h v => Settled live v ∧ F h v) (materializeBranches B.hooks snapshotId requestedIds true) := by
    have hG' := frame_settled_and (H := [.branchRegistry]) (List.nil_subset _) hF
    exact triple_withLock_held (by simp) (fun _ _ _ _ => trivial) hG'.stable
      (keep_materialize hB hK (List.nil_subset _) hF) fun _ => hG.stable
  refine triple_registry (by simp) hF.stable (fun _ => hF.stable) ?_
  refine keep_bind (keep_readState hG plain_state quiet_read) fun ok => ?_
  split
  · exact keep_ret _
  · cases ids with
    | none =>
      dsimp only
      split
      · exact keep_ret _
      · exact hmaterialize _
    | some ids =>
      dsimp only
      split
      · exact keep_ret _
      · refine keep_bind (keep_readState hG plain_state quiet_read) fun conflicts => ?_
        split
        · exact keep_ret _
        · split
          · exact keep_ret _
          · exact hmaterialize _

/-- `_core_restore`: the restored branch comes to life, the pointer moves to it, and the departing branch is retired. -/
theorem keep_coreRestore (departing : Ref) (snapshotId : String) :
    (protocol live).Keep [.operation departing, .currentBranch] (fun _ v => Holds [.operation departing, .currentBranch] v)
      (B.hooks.coreRestore snapshotId departing.id) := by
  have hH : (protocol live).Frame [.operation departing, .currentBranch]
      fun _ v => Holds [.operation departing, .currentBranch] v := frame_holds
  have hK : OnlyOperations [.operation departing] := fun l hl => ⟨departing, List.mem_singleton.mp hl⟩
  have hF : (protocol live).Frame [.operation departing] fun _ v => Holds [.operation departing, .currentBranch] v :=
    ⟨fun h v v' hr hp r hl => (frame_holds (H := [.operation departing])).stable h v v' hr
      (fun r' hl' => hp r' (by simpa using hl')) r (by simpa using hl), fun _ _ _ hp => hp⟩
  have hclock := keep_time hB hH
  refine keep_bind hclock fun start => ?_
  refine keep_bind (keep_materializeBranches hB hK (by simp) hF (by simp)) fun branches => ?_
  cases branches with
  | nil => exact keep_ret _
  | cons restored rest =>
    refine triple_bind (triple_setCurrentBranch (N := True) hH hH (fun h v hp => hp.switched restored.id)
      fun _ _ _ _ _ => trivial) (fun _ => ?_) fun e h v hq => (hq.2 e rfl).1
    refine Triple.weaken (P := fun _ v => Holds [.operation departing, .currentBranch] v) ?_ (fun h v hq => hq.1 _ rfl)
      fun _ _ _ hq => hq
    dsimp only
    split_ifs
    · have hdiscard : (protocol live).Keep [.operation departing, .currentBranch]
          (fun _ v => Holds [.operation departing, .currentBranch] v) (discardBranchBody B.hooks departing.id) :=
        Triple.weaken (triple_discardBranchBody (A := False) hB (by simp) (by simp) departing.id)
          (fun _ _ hp => ⟨hp, False.elim⟩) fun _ _ _ hq => hq.1
      exact keep_bind hdiscard fun _ => keep_bind hclock fun stop => keep_ret _
    · exact keep_bind hclock fun stop => keep_ret _

omit hB in
/-- The end of a restore that has nothing to replay. -/
theorem keep_finishRestore (hcurrent : .currentBranch ∈ H) (snapshotId ancestorId : String) (elapsed : ℚ) :
    (protocol live).Keep H (fun _ v => Holds H v) (finishRestore B.hooks.toHooks snapshotId ancestorId [] elapsed) := by
  refine triple_read (C := fun c _ v => v.state.mgr.currentBranchId = c) frame_holds.stable (fun c => (frame_current hcurrent).stable)
    (fun _ _ _ _ => rfl) fun active => ?_
  have hF : (protocol live).Frame H fun _ v => Holds H v ∧ v.state.mgr.currentBranchId = active :=
    frame_holds.and (frame_current hcurrent)
  refine Triple.weaken (Q := fun _ _ v => Holds H v ∧ v.state.mgr.currentBranchId = active) ?_ (fun _ _ hp => hp)
    fun _ _ _ hq => hq.1
  refine keep_bind (StateFork.keep_addEntry hF plain_stats fun v hv => ?_) fun _ => keep_bind (keep_ret ()) fun _ => ?_
  · exact quiet_of_records hv (hv.regular.congr rfl rfl rfl) rfl rfl rfl rfl
  · refine keep_bind (keep_setBranchPosition (.inr hcurrent) hF fun h v hv hp => .inl ?_) fun _ => keep_ret true
    rw [← hp.2]
    exact hv.current

theorem keep_restore (snapshotId : String) :
    (protocol live).Keep [] (fun _ v => Holds [] v) (restore B.hooks.toHooks snapshotId) := by
  have hread : ∀ h v, (protocol live).valid v → (protocol live).guar [.currentBranch] h [] v v := by
    intro h v hv
    have hguar := (quiet_read v hv).guar [.currentBranch] h
    rwa [View.step_nil] at hguar
  have hH : (protocol live).Frame [.currentBranch] fun _ v => Holds [.currentBranch] v := frame_holds
  refine triple_plain plain_current frame_holds.stable (fun _ => frame_holds.stable) ?_
  refine Triple.weaken (P := fun _ v => Holds [.currentBranch] v) (Q := fun _ _ v => Holds [.currentBranch] v) ?_
    (fun h v hp r hl => absurd hl (by simp)) fun _ h v hq => hq.mono (List.nil_subset _)
  refine triple_bind (Q := fun r _ v => Holds [.currentBranch] v ∧ ∀ state, r = .ok state → Known state v.state.mgr) ?_
    (fun departing => ?_) fun _ _ _ hq => hq.1
  · refine triple_getBranchState plain_state hread hH.stable (fun r h v v' hr hq => ?_) fun h v hv hp => ⟨hp, ?_⟩
    · exact ⟨hH.stable h v v' hr hq.1, fun state hs => (hq.2 state hs).onward hr.onward⟩
    · intro state hs
      unfold Manager.getBranchState at hs
      dsimp only at hs
      split at hs
      · next r hget =>
        cases hs
        exact hv.known hget
      · cases hs
  · refine Triple.weaken (P := fun _ v => Holds [.currentBranch] v ∧ Known departing v.state.mgr) ?_
      (fun h v hq => ⟨hq.1, hq.2 departing rfl⟩) fun _ _ _ hq => hq
    refine triple_operation (hH.and frame_known).stable (fun _ => hH.stable) (fun h v _ hp => ⟨hp.2, hp.1⟩) ?_
    refine Triple.weaken (P := fun _ v => Holds [.operation departing, .currentBranch] v)
      (Q := fun _ _ v => Holds [.operation departing, .currentBranch] v) ?_ (fun _ _ hp => hp.1)
      fun _ h v hq => ⟨hq, hq.mono (by simp)⟩
    refine triple_read (C := fun (walk : Except Manager.WalkError (SnapshotNode × List Command)) _ _ =>
        ∀ node commands, walk = .ok (node, commands) → commands = []) frame_holds.stable
      (fun walk => fun _ _ _ _ hp => hp) (fun h v hv hp node commands hw => ?_) fun walk => ?_
    · exact (hv.regular.physicalAncestor hw).2
    · cases walk with
      | error e => exact triple_ret fun h v hp => hp.1
      | ok found =>
        obtain ⟨ancestor, commands⟩ := found
        refine triple_of_fact (fun h v hp => hp.2 _ _ rfl) fun hcommands : commands = [] => ?_
        subst hcommands
        refine Triple.weaken (P := fun _ v => Holds [.operation departing, .currentBranch] v) ?_ (fun _ _ hp => hp.1)
          fun _ _ _ hq => hq
        refine keep_bind (keep_coreRestore hB departing ancestor.snapshotId) fun switched => ?_
        rcases switched with ⟨_ | _, elapsed⟩
        · exact keep_ret _
        · exact keep_finishRestore (by simp) snapshotId ancestor.snapshotId elapsed

end Births

/-! ### The operations -/

section Operations

variable {B : ForkableBackend W} (hB : KeepsLive B live)

/-- `except KeyError` turns the remaining failures into the failure value. -/
theorem triple_onKeyError {p : M W α} {a : α} {refused : α → Prop} (ha : refused a)
    (hp : (protocol live).Triple [] (fun h v => Holds [] v ∧ Unlooked A h) p fun r h v => Holds [] v ∧ Ends A refused r h) :
    (protocol live).Triple [] (fun h v => Holds [] v ∧ Unlooked A h) (onKeyError p a)
      fun r h _ => Called A h ∨ ∃ x, r = .ok x ∧ refused x := by
  refine triple_andThen hp fun r => ?_
  rcases r with e | x
  · dsimp only
    split_ifs with hkind
    · exact triple_ret fun h v _ => .inr ⟨a, rfl, ha⟩
    · refine triple_throw fun h v hq => ?_
      rcases hq.2 with hcalled | ⟨x, he, -⟩ | ⟨e', he, hkind'⟩
      · exact .inl hcalled
      · cases he
      · cases he
        exact absurd hkind' hkind
  · refine triple_ret fun h v hq => ?_
    rcases hq.2 with hcalled | hrefused | ⟨e, he, -⟩
    · exact .inl hcalled
    · exact .inr hrefused
    · cases he

/-- An operation on a branch that is not live fails. -/
theorem triple_ifLive {p : M W α} {a b : α} {id : String} (refused : α → Prop) (ha : refused a) (hb : refused b)
    (hp : (protocol live).Triple [] (fun h v => Holds [] v ∧ Unlooked A h) p fun r h v => Holds [] v ∧ Ends A refused r h) :
    (protocol live).Triple [] (fun h v => Holds [] v ∧ Unlooked A h) (do
      if ← isLive id then onKeyError p a else return b) fun r h _ => Called A h ∨ ∃ x, r = .ok x ∧ refused x := by
  refine triple_read (C := fun _ _ _ => True) (fun h v v' hr hp => ⟨frame_holds.stable h v v' hr hp.1, hp.2⟩)
    (fun _ _ _ _ _ _ => trivial) (fun _ _ _ _ => trivial) fun ok => ?_
  cases ok with
  | false => exact triple_ret fun h v _ => .inr ⟨b, rfl, hb⟩
  | true => exact Triple.weaken (triple_onKeyError ha hp) (fun _ _ hp => hp.1) fun _ _ _ hq => hq

/-- What an operation reports, when no hook was called only failure counts. -/
theorem justified_of_called {h : List Event} {op : PublicOp} {outcome : Outcome}
    (hretired : ∀ b, retiredBy op outcome = some b → .retired b ∈ h) (href : Called True h ∨ Refused op outcome) :
    Justified h (.returned op outcome) := by
  refine ⟨hretired, href.imp_left ?_⟩
  rintro ⟨h₁, hook, r, h₂, he, honly⟩
  exact ⟨h₁, hook, r, h₂, he, honly trivial⟩

/-- Nothing was looked up before the operation starts. -/
def Fresh (h : List Event) (v : View (Sys W) Event) : Prop := Holds [] v ∧ Unlooked True h

include hB

theorem triple_execOnBranch (b : String) (command : Command) (timeout : Option ℚ) :
    (protocol live).Triple [] Fresh (PublicOp.prog B.hooks (.execOnBranch b command timeout))
      fun r h _ => Justified h (.returned (.execOnBranch b command timeout) (Outcome.ofResult r)) := by
  refine Triple.weaken (triple_map (triple_ifLive (fun a => ∃ text, a = (-1, "", text)) ⟨_, rfl⟩ ⟨_, rfl⟩
    (triple_execBranch hB b command timeout))) (fun _ _ hp => hp) ?_
  rintro r h v ⟨r', rfl, hr'⟩
  refine justified_of_called (by simp [retiredBy]) (hr'.imp_right ?_)
  rintro ⟨x, rfl, text, rfl⟩
  exact ⟨text, rfl⟩

theorem triple_copyIn (b hostSrc path : String) :
    (protocol live).Triple [] Fresh (PublicOp.prog B.hooks (.copyInBranch b hostSrc path))
      fun r h _ => Justified h (.returned (.copyInBranch b hostSrc path) (Outcome.ofResult r)) := by
  refine Triple.weaken (triple_map (triple_ifLive (· = false) rfl rfl
    (triple_copyBranch hB b hostSrc path true))) (fun _ _ hp => hp) ?_
  rintro r h v ⟨r', rfl, hr'⟩
  refine justified_of_called (by simp [retiredBy]) (hr'.imp_right ?_)
  rintro ⟨x, rfl, rfl⟩
  rfl

theorem triple_copyOut (b path hostDst : String) :
    (protocol live).Triple [] Fresh (PublicOp.prog B.hooks (.copyOutBranch b path hostDst))
      fun r h _ => Justified h (.returned (.copyOutBranch b path hostDst) (Outcome.ofResult r)) := by
  refine Triple.weaken (triple_map (triple_ifLive (· = false) rfl rfl
    (triple_copyBranch hB b hostDst path false))) (fun _ _ hp => hp) ?_
  rintro r h v ⟨r', rfl, hr'⟩
  refine justified_of_called (by simp [retiredBy]) (hr'.imp_right ?_)
  rintro ⟨x, rfl, rfl⟩
  rfl

/-- `park_branch`, by whichever name it is called. -/
theorem triple_parkBranch (b : String) {op : PublicOp} (hretired : ∀ o, retiredBy op o = retiredBy (.parkBranch b) o)
    (href : Refused op (.snapshotId none)) :
    (protocol live).Triple [] Fresh (Outcome.snapshotId <$> parkBranch B.hooks b)
      fun r h _ => Justified h (.returned op (Outcome.ofResult r)) := by
  have hpark : (protocol live).Triple [] Fresh (parkBranch B.hooks b) fun r h _ => ParkEnds True b r h := by
    refine triple_plain plain_current (fun h v v' hr hp => ⟨frame_holds.stable h v v' hr hp.1, hp.2⟩)
      (fun _ _ _ _ _ hq => hq) ?_
    exact Triple.weaken (triple_parkBranchBody hB (by simp) (by simp) b)
      (fun h v hp => ⟨fun r hl => absurd hl (by simp), hp.2⟩) fun r h v hq => hq.2
  refine Triple.weaken (triple_map hpark) (fun _ _ hp => hp) ?_
  rintro r h v ⟨r', rfl, hparked, hcalled⟩
  refine justified_of_called (fun b' hb' => ?_) (hcalled.imp_right ?_)
  · rw [hretired] at hb'
    rcases r' with e | _ | id
    · cases hb'
    · cases hb'
    · cases hb'
      exact hparked id rfl
  · rintro rfl
    exact href

theorem triple_snapshotOnBranch (b : String) (park : Bool) :
    (protocol live).Triple [] Fresh (PublicOp.prog B.hooks (.snapshotBranch b park))
      fun r h _ => Justified h (.returned (.snapshotBranch b park) (Outcome.ofResult r)) := by
  cases park with
  | true =>
    refine triple_parkBranch hB b (fun o => ?_) rfl
    cases o with
    | snapshotId id => cases id <;> rfl
    | _ => rfl
  | false =>
    refine Triple.weaken (triple_map (triple_ifLive (· = none) rfl rfl (triple_snapshotBranch hB b)))
      (fun _ _ hp => hp) ?_
    rintro r h v ⟨r', rfl, hr'⟩
    refine justified_of_called (by simp [retiredBy]) (hr'.imp_right ?_)
    rintro ⟨x, rfl, rfl⟩
    rfl

theorem triple_discardBranch (b : String) :
    (protocol live).Triple [] Fresh (PublicOp.prog B.hooks (.discardBranch b))
      fun r h _ => Justified h (.returned (.discardBranch b) (Outcome.ofResult r)) := by
  have hdiscard : (protocol live).Triple [] Fresh (discardBranch B.hooks b)
      fun r h _ => DiscardEnds True b r h := by
    refine triple_plain plain_current (fun h v v' hr hp => ⟨frame_holds.stable h v v' hr hp.1, hp.2⟩)
      (fun _ _ _ _ _ hq => hq) ?_
    exact Triple.weaken (triple_discardBranchBody hB (by simp) (by simp) b)
      (fun h v hp => ⟨fun r hl => absurd hl (by simp), hp.2⟩) fun r h v hq => hq.2
  refine Triple.weaken (triple_map hdiscard) (fun _ _ hp => hp) ?_
  rintro r h v ⟨r', rfl, hdiscarded, hcalled⟩
  refine justified_of_called (fun b' hb' => ?_) (hcalled.imp_right ?_)
  · rcases r' with e | _ | _
    · cases hb'
    · cases hb'
    · cases hb'
      exact hdiscarded rfl
  · rintro rfl
    rfl

omit hB in
/-- An operation that reports no retired branch and has no failure value. -/
theorem justified_other {op : PublicOp} {p : M W Outcome} (hretired : ∀ o, retiredBy op o = none)
    (href : ∀ o, Refused op o) (hp : (protocol live).Keep [] (fun _ v => Holds [] v) p) :
    (protocol live).Triple [] Fresh p
      fun r h _ => Justified h (.returned op (Outcome.ofResult r)) :=
  Triple.weaken hp (fun _ _ hp => hp.1) fun r h v _ => justified_of_called (by simp [hretired]) (.inr (href _))

/-- The operations that the threads run: on named branches, and those that make and retire branches. -/
def OnBranches : PublicOp → Prop
  | .execOnBranch .. | .snapshotBranch .. | .copyInBranch .. | .copyOutBranch .. | .parkBranch _ | .discardBranch _ => True
  | .fork .. | .restore _ | .listBranches => True
  | _ => False

theorem triple_client {op : PublicOp} (hop : OnBranches op) :
    (protocol live).Triple [] (fun h _ => h = []) (client B.hooks op) fun _ _ _ => True := by
  have hK : OnlyOperations [] := by simp [OnlyOperations]
  have hprog : (protocol live).Triple [] Fresh (PublicOp.prog B.hooks op)
      fun r h _ => Justified h (.returned op (Outcome.ofResult r)) := by
    cases op with
    | execOnBranch b c t => exact triple_execOnBranch hB b c t
    | snapshotBranch b park => exact triple_snapshotOnBranch hB b park
    | copyInBranch b h p => exact triple_copyIn hB b h p
    | copyOutBranch b p h => exact triple_copyOut hB b p h
    | parkBranch b => exact triple_parkBranch hB b (fun _ => rfl) rfl
    | discardBranch b => exact triple_discardBranch hB b
    | fork s n ids =>
      refine justified_other (fun _ => rfl) (fun _ => trivial) ?_
      exact keep_bind (keep_fork hB frame_holds s n ids) fun _ => keep_ret _
    | restore s =>
      refine justified_other (fun _ => rfl) (fun _ => trivial) ?_
      exact keep_bind (keep_restore hB s) fun _ => keep_ret _
    | listBranches =>
      refine justified_other (fun _ => rfl) (fun _ => trivial) ?_
      exact keep_bind (keep_listBranches hB hK (List.Subset.refl []) frame_holds (by simp)) fun _ => keep_ret _
    | _ => exact hop.elim
  refine Triple.weaken (P := Fresh) (Q := fun _ _ _ => True) ?_ (fun h v hh => ?_) fun _ _ _ _ => trivial
  case refine_2 => exact ⟨fun r hl => absurd hl (by simp), fun _ r hr => by simp [hh] at hr⟩
  refine triple_bind (triple_attempt hprog) (fun r => ?_) fun _ _ _ _ => trivial
  refine triple_returned fun h v hp => ?_
  obtain ⟨r', he, hjustified⟩ := hp
  cases he
  exact hjustified

end Operations

end Lifetime

/-- A manager and a backend that agree on which branches exist. -/
structure InTouch {W : Type} (live : W → String → Prop) (s : Sys W) : Prop where
  regular : Regular s.mgr
  active : ∀ a < s.mgr.records.next, (s.mgr.records.cell a).active = true → ∃ b, s.mgr.branches.get? b = some ⟨b, a⟩
  main : defaultBranchId ∈ s.mgr.branches.keys
  current : s.mgr.currentBranchId ∈ s.mgr.branches.keys
  listed : ∀ b ∈ s.mgr.liveBranches.keys, live s.world b

/-- When the branch of `r` was retired, the operation that thread `t` is running had looked `r` up, and it had called
no hook yet. -/
def Overtaken {W : Type} (c : Config (Sys W) Lock Event PyError Unit) (t : Nat) (r : Ref) : Prop :=
  ∃ tr tr' h, c.trace = tr ++ tr' ∧ (c.thread t).log = h ++ (tr'.filter (·.1 = t)).map Prod.snd ∧
    .lookedUp r ∈ h ∧ (∀ hook r', .call hook r' ∉ h) ∧ Stale r (tr.map Prod.snd)

theorem Stale.append {r : Ref} {tr : List Event} (h : Stale r tr) (ev : List Event) : Stale r (tr ++ ev) := by
  obtain ⟨t, ht, hl⟩ := h
  exact ⟨t, ht.trans (List.prefix_append _ _), hl⟩

/-- An operation that is overtaken calls no hook any more, so it was not served. -/
theorem Overtaken.not_served {W : Type} {c : Config (Sys W) Lock Event PyError Unit} {t : Nat} {r : Ref}
    (h : Overtaken c t r) (hsafe : UseSafe c.view.events) : ¬ Served (c.thread t).log := by
  obtain ⟨tr, tr', h, htrace, hlog, hlooked, hnone, hstale⟩ := h
  rintro ⟨h₁, hook, r', h₂, hserved, honly⟩
  have hsplit : h ++ (tr'.filter (·.1 = t)).map Prod.snd = h₁ ++ .call hook r' :: h₂ := hlog.symm.trans hserved
  obtain ⟨l, rfl, hrest⟩ : ∃ l, h₁ = h ++ l ∧ (tr'.filter (·.1 = t)).map Prod.snd = l ++ .call hook r' :: h₂ := by
    rcases List.append_eq_append_iff.mp hsplit with ⟨l, hl, hrest⟩ | ⟨_ | ⟨e, l⟩, rfl, hrest⟩
    · exact ⟨l, hl, hrest⟩
    · exact ⟨[], by simp, hrest.symm⟩
    · cases hrest
      exact absurd (List.mem_append_right _ (List.mem_cons_self ..)) (hnone hook r')
  -- the call came after the lookup of `r`, so it went through `r`
  obtain rfl := honly r (List.mem_append_left _ hlooked)
  have hmem : .call hook r ∈ tr'.map Prod.snd := by
    obtain ⟨⟨u, e⟩, hfilter, he⟩ := List.mem_map.mp (hrest ▸ List.mem_append_right l (List.mem_cons_self ..))
    exact List.mem_map.mpr ⟨_, (List.mem_filter.mp hfilter).1, he⟩
  obtain ⟨l₁, l₂, hl⟩ := List.append_of_mem hmem
  have hevents : c.view.events = (tr.map Prod.snd ++ l₁) ++ [.call hook r] ++ l₂ := by
    show c.trace.map Prod.snd = _
    rw [htrace, List.map_append, hl]
    simp
  exact (hsafe _ hook r (hevents ▸ List.prefix_append _ _)).2 (hstale.append l₁)

/-- In every run of operations on branches, forks, restores and listings, no hook is called for a branch that is gone,
nor through a record that was looked up before its branch was retired; every step of every thread is justified by what
the operation did before it, so a retirement is reported only after it happened; and an operation that was waiting
when the branch of its record was retired returns its failure value. -/
theorem no_use_after_retire {W : Type} (B : ForkableBackend W) (live : W → String → Prop) (hB : KeepsLive B live)
    {s : Sys W} (h₀ : InTouch live s) {c : Config (Sys W) Lock Event PyError Unit}
    (h : Config.Reach (fun p => ∃ op, Lifetime.OnBranches op ∧ p = client B.hooks op) Lock.reentrant s c) :
    UseSafe c.view.events ∧ ∀ t, (∀ e ∈ c.emits t, Justified (c.thread t).log e) ∧
      ∀ r op outcome, Overtaken c t r → .returned op outcome ∈ c.emits t → Refused op outcome := by
  have hvalid : Lifetime.Sound live (⟨s, []⟩ : View (Sys W) Event) := by
    constructor
    case regular => exact h₀.regular
    case active => exact h₀.active
    case main =>
      obtain ⟨r, hr⟩ := Dict.mem_keys_iff.mp h₀.main
      exact Option.isSome_iff_exists.mpr ⟨r, hr⟩
    case current =>
      obtain ⟨r, hr⟩ := Dict.mem_keys_iff.mp h₀.current
      exact Option.isSome_iff_exists.mpr ⟨r, hr⟩
    case dead => exact fun b hb => absurd hb (by simp [gone])
    case looked => simp
    case stale =>
      rintro r ⟨t, ht, -⟩
      simp at ht
    case used => exact fun t hook r ht => by simp at ht
  have hsafe : c.Safe (Lifetime.protocol live) := by
    refine Config.safe_reach Lifetime.protocol_coherent ?_ hvalid (fun l => ?_) h
    · rintro p ⟨op, hop, rfl⟩ v
      exact (Lifetime.triple_client hB hop [] v rfl).mono fun _ _ _ _ hq => hq.1
    · cases l with
      | operation r => exact fun _ => rfl
      | branchRegistry => exact ⟨h₀.listed, fun b hb => absurd hb (by simp [gone])⟩
      | _ => trivial
  refine ⟨hsafe.valid.used, fun t => ?_⟩
  have hjustified : ∀ e ∈ c.emits t, Justified (c.thread t).log e := by
    unfold Config.emits
    split
    · next hp => exact (hsafe.guar Lifetime.protocol_coherent hp).justified
    · simp
  refine ⟨hjustified, fun r op outcome hovertaken hreturned => ?_⟩
  exact (hjustified _ hreturned).2.resolve_left (hovertaken.not_served hsafe.valid.used)

open ForkableEnvironmentManager

/-- A thread looks a fresh branch up, and another discards the branch before the first gets the operation lock. -/
def overtakingDiscard : List (Config.Move (Sys Fleet) Lock Event PyError Unit) :=
  .start 0 (client (Fleet.sole true).hooks (.fork "base" 1 none)) :: List.replicate 21 (.run 0) ++
    .start 1 (client (Fleet.sole true).hooks (.execOnBranch "x1" (.line "ls") none)) :: List.replicate 7 (.run 1) ++
    .start 0 (client (Fleet.sole true).hooks (.discardBranch "x1")) :: List.replicate 26 (.run 0) ++
    List.replicate 5 (.run 1)

theorem no_use_after_retire_discard :
    ∃ c : Config (Sys Fleet) Lock Event PyError Unit,
      .returned (.discardBranch "x1") (.flag true) ∈ c.view.events ∧ UseSafe c.view.events ∧
        Overtaken c 1 ⟨"x1", 1⟩ ∧ ∃ outcome, c.emits 1 = [.returned (.execOnBranch "x1" (.line "ls") none) outcome] ∧
          Refused (.execOnBranch "x1" (.line "ls") none) outcome := by
  have hmenu : ∀ t p, Config.Move.start t p ∈ overtakingDiscard →
      ∃ op, Lifetime.OnBranches op ∧ p = client (Fleet.sole true).hooks op := by
    intro t p hp
    simp only [overtakingDiscard, List.mem_cons, List.mem_append, List.mem_replicate, Config.Move.start.injEq,
      reduceCtorEq, and_false, or_false] at hp
    rcases hp with (⟨-, rfl⟩ | ⟨-, rfl⟩) | ⟨-, rfl⟩
    · exact ⟨.fork "base" 1 none, trivial, rfl⟩
    · exact ⟨.execOnBranch "x1" (.line "ls") none, trivial, rfl⟩
    · exact ⟨.discardBranch "x1", trivial, rfl⟩
  let q : Config (Sys Fleet) Lock Event PyError Unit → Bool := fun c => decide
    (c.emits 1 = [.returned (.execOnBranch "x1" (.line "ls") none) (.exec (-1) "" "Branch x1 is no longer active.")] ∧
      (c.thread 1).log = [.lookedUp ⟨"x1", 1⟩] ∧
      c.trace = (c.trace.take 5 ++ [(0, .retired "x1")]) ++ [(0, .returned (.discardBranch "x1") (.flag true))] ∧
      .lookedUp ⟨"x1", 1⟩ ∈ (c.trace.take 5).map Prod.snd)
  have hplay : (Config.play Lock.reentrant overtakingDiscard { state := Fleet.start ["x1"] [] }).any q = true := by
    decide +kernel
  obtain ⟨c, hreach, hq⟩ := Config.exists_reach_of_play hmenu hplay
  obtain ⟨hends, hlog, htrace, hlooked⟩ := of_decide_eq_true hq
  have htouch : InTouch (fun w b => Fleet.base w b ≠ none) (Fleet.start ["x1"] []) := by
    refine ⟨Regular.seeded "base" "base", ?_, by decide +kernel, by decide +kernel, by decide +kernel⟩
    intro a ha _
    obtain rfl : a = 0 := Nat.lt_one_iff.mp ha
    exact ⟨defaultBranchId, by decide +kernel⟩
  obtain ⟨hsafe, hjustified⟩ := no_use_after_retire (Fleet.sole true) _ (Fleet.sole_keepsLive true) htouch hreach
  have hovertaken : Overtaken c 1 ⟨"x1", 1⟩ := by
    refine ⟨_, _, _, htrace, ?_, List.mem_singleton_self _, by simp, _, ?_, hlooked⟩
    · simp [hlog]
    · simp
  refine ⟨c, ?_, hsafe, hovertaken, _, hends, ?_⟩
  · exact List.mem_map.mpr ⟨_, htrace ▸ List.mem_append_right _ (List.mem_singleton_self _), rfl⟩
  · exact (hjustified 1).2 _ _ _ hovertaken (hends ▸ List.mem_singleton_self _)

end StateFork
