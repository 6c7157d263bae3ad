import StateFork.Concurrency.Locking
import StateFork.Concurrency.Sections
import StateFork.Forkable.Consistency
import StateFork.Lib.Twin

/-!
# The pointer to the current branch

`list_branches` drops the record of a stale branch in a section of its own, after it has found that the branch is not
the current one. Meanwhile a restore may make the branch current, for it needs neither the registry lock nor anything
else that the listing holds. `current_registered` says that this is the only way in which the pointer can come to
dangle: it names a registered branch in every configuration that is reached without a step that makes a branch current
while another thread is about to remove its record. The proof compares the listing with one that tests again in the
section that removes; that one needs no such care.
-/

namespace StateFork

open Conc Conc.Prog Conc.Protocol EnvironmentManager ForkableEnvironmentManager

variable {W α : Type}

/-- The operations that register branches, remove them or switch between them. -/
def Switching : PublicOp → Prop
  | .restore _ | .listBranches | .fork .. | .parkBranch _ | .discardBranch _ => True
  | _ => False

/-- A branch is made current in front of a thread that is about to remove its record. -/
def PulledAway (act : Sys W → Sys W) (s s' : Sys W) : Prop :=
  ∃ b, act = (fun s => { s with mgr := s.mgr.removeBranch b }) ∧ s.mgr.currentBranchId ≠ b ∧ s'.mgr.currentBranchId = b

/-! ### A listing that tests in the section that removes -/

namespace Pointer

/-- `dropStale` with a second test. -/
def dropStale (staleId : String) : M W Unit := do
  let current ← getCurrentBranchId
  if staleId = defaultBranchId ∨ staleId = current then return ()
  else updateState fun m => if staleId = m.currentBranchId then m else m.removeBranch staleId

/-- `_list_branches`, given how it drops a stale branch. -/
def listBranchesBody (F : ForkHooks W) (drop : String → M W Unit) : M W (List EnvironmentBranch) := do
  let listing ← F.coreListBranches
  match listing with
  | none => liveBranches
  | some listing =>
    let refreshed ← newLiveObjects listing
    let previousIds ← withState fun m =>
      (m.liveBranches.keys, { m with liveBranches := .ofList (refreshed.map fun r => (r.id, r)) })
    each refreshed reconcile
    each (previousIds.filter fun b => b ∉ refreshed.map Ref.id) drop
    peek fun m => refreshed.map m.liveObject

/-- `list_branches` with the second test. -/
def listBranches (F : ForkHooks W) : M W (List EnvironmentBranch) :=
  withLock .branchRegistry (listBranchesBody F dropStale)

/-- A thread that calls an operation, with the second test in the listing. -/
def client (F : ForkHooks W) : PublicOp → M W Unit
  | .listBranches => do
    let r ← (Outcome.branches <$> listBranches F).attempt
    announce (.returned .listBranches (Outcome.ofResult r))
  | op => ForkableEnvironmentManager.client F op

/-- In front of a removal the branch is not made current, if it was not before. -/
theorem ne_of_calm {b : String} {p : M W α} {s s' : Sys W}
    (hp : p.pending = some fun s => { s with mgr := s.mgr.removeBranch b })
    (h : Relation.ReflTransGen (Calm PulledAway p) s s') (hb : s.mgr.currentBranchId ≠ b) :
    s'.mgr.currentBranchId ≠ b := by
  induction h with
  | refl => exact hb
  | tail _ hlast ih => exact fun he => hlast _ hp ⟨b, rfl, ih, he⟩

theorem twin_dropStale (b : String) (s : Sys W) :
    Twin PulledAway (ForkableEnvironmentManager.dropStale b) (dropStale b) s := by
  refine ⟨_, rfl, fun s₁ _ => ⟨_, _, rfl, fun s₂ _ => ⟨rfl, _, rfl, fun s₃ h₃ => ?_⟩⟩⟩
  set current := s₂.mgr.currentBranchId with hcurrent
  change Twin PulledAway (if b = defaultBranchId ∨ b = current then ret () else removeBranch b)
    (if b = defaultBranchId ∨ b = current then ret () else
      updateState fun m => if b = m.currentBranchId then m else m.removeBranch b) s₃
  change Relation.ReflTransGen
    (Calm PulledAway (if b = defaultBranchId ∨ b = current then ret () else removeBranch b)) s₂ s₃ at h₃
  split_ifs at h₃ ⊢ with hspared
  · exact .refl _ _
  · rw [not_or] at hspared
    have hne : s₃.mgr.currentBranchId ≠ b := ne_of_calm rfl h₃ (Ne.symm hspared.2)
    refine ⟨_, rfl, fun s₄ h₄ => ⟨_, _, rfl, fun s₅ h₅ => ⟨?_, .refl _ _⟩⟩⟩
    have hne' : s₅.mgr.currentBranchId ≠ b := ne_of_calm rfl h₅ (ne_of_calm rfl h₄ hne)
    show ({ s₅ with mgr := if b = s₅.mgr.currentBranchId then s₅.mgr else s₅.mgr.removeBranch b } : Sys W) = _
    rw [if_neg (Ne.symm hne')]

theorem twin_listBranches (F : ForkHooks W) (s : Sys W) :
    Twin PulledAway (ForkableEnvironmentManager.listBranches F) (listBranches F) s := by
  refine Twin.withLock (fun s => ?_) s
  refine (Twin.refl F.coreListBranches s).bind fun listing s => ?_
  cases listing with
  | none => exact .refl _ s
  | some listing =>
    refine (Twin.refl _ s).bind fun refreshed s => (Twin.refl _ s).bind fun previousIds s => ?_
    refine (Twin.refl _ s).bind fun _ s => (Twin.each twin_dropStale s).bind fun _ s => .refl _ s

theorem twin_client (F : ForkHooks W) (op : PublicOp) (s : Sys W) :
    Twin PulledAway (ForkableEnvironmentManager.client F op) (client F op) s := by
  cases op with
  | listBranches =>
    have hprog : Twin PulledAway (Outcome.branches <$> ForkableEnvironmentManager.listBranches F)
        (Outcome.branches <$> listBranches F) s := (twin_listBranches F s).bind fun _ s => .refl _ s
    exact hprog.attempt.bind fun _ s => .refl _ s
  | _ => exact .refl _ s

/-! ### The protocol -/

/-- The default branch and the current one have records. -/
def Sound (m : Manager) : Prop := defaultBranchId ∈ m.branches.keys ∧ m.currentBranchId ∈ m.branches.keys

/-- The pointer belongs to whoever holds its lock. -/
def protocol : Protocol (Sys W) Lock Event where
  valid v := Sound v.state.mgr
  rely H v v' := .currentBranch ∈ H → v'.state.mgr.currentBranchId = v.state.mgr.currentBranchId
  guar H _ _ v v' := v'.state.mgr.currentBranchId = v.state.mgr.currentBranchId ∨ .currentBranch ∈ H
  acq _ _ _ := True
  inv _ _ := True

theorem protocol_coherent : (protocol (W := W)).Coherent where
  refl _ _ _ := rfl
  trans _ _ _ _ h h' hl := (h' hl).trans (h hl)
  guar_rely _ _ _ _ _ _ hdisjoint _ hg hl := hg.resolve_right fun hl' => hdisjoint _ hl' hl
  guar_inv _ _ _ _ _ _ _ _ _ _ := trivial

theorem plain (l : Lock) : (protocol (W := W)).Plain l where
  acq _ _ := trivial
  inv _ := trivial
  rely _ _ _ h hl := h (List.mem_cons_of_mem _ hl)
  guar _ _ _ _ _ hg := hg.imp_right (List.mem_cons_of_mem _)

variable {v : View (Sys W) Event} {s : Sys W} {ev : List Event} {H : List Lock}
  {F : List Event → View (Sys W) Event → Prop}

/-- A step that leaves the pointer and the two records. -/
theorem quiet (hcurrent : s.mgr.currentBranchId = v.state.mgr.currentBranchId) (hs : Sound s.mgr) :
    protocol.Quiet ev v s :=
  ⟨hs, fun _ _ => .inl hcurrent, fun _ _ => hcurrent⟩

/-- A step that removes no record. -/
theorem quiet_of_keys (hv : Sound v.state.mgr) (hcurrent : s.mgr.currentBranchId = v.state.mgr.currentBranchId)
    (hkeys : ∀ b ∈ v.state.mgr.branches.keys, b ∈ s.mgr.branches.keys) : protocol.Quiet ev v s := by
  refine quiet hcurrent ⟨hkeys _ hv.1, ?_⟩
  rw [hcurrent]
  exact hkeys _ hv.2

theorem quiet_read (v : View (Sys W) Event) (hv : Sound v.state.mgr) : protocol.Quiet ev v v.state :=
  quiet_of_keys hv rfl fun _ hb => hb

theorem sound_removeBranch {m : Manager} (h : Sound m) {b : String} (hmain : b ≠ defaultBranchId)
    (hcurrent : b ≠ m.currentBranchId) : Sound (m.removeBranch b) := by
  unfold Sound
  rw [Manager.currentBranchId_removeBranch, Manager.mem_keys_removeBranch, Manager.mem_keys_removeBranch]
  exact ⟨⟨hmain.symm, h.1⟩, hcurrent.symm, h.2⟩

theorem frame_true : (protocol (W := W)).Frame H fun _ _ => True := ⟨fun _ _ _ _ hp => hp, fun _ _ _ hp => hp⟩

/-- Under its lock the pointer stays where it is. -/
theorem frame_current (hl : .currentBranch ∈ H) {C : String → Prop} :
    (protocol (W := W)).Frame H fun _ v => C v.state.mgr.currentBranchId where
  stable _ v v' hr hp := by
    show C v'.state.mgr.currentBranchId
    rw [hr hl]
    exact hp
  log _ _ _ hp := hp

/-! ### Registering -/

section Keep

variable (hF : protocol.Frame H F)

include hF

theorem keep_registerBranch (b : String) (base : Option String) :
    protocol.Keep H F (registerBranch b base : M W Ref) :=
  keep_withState hF (plain _) fun _ hv => quiet_of_keys hv (Manager.currentBranchId_registerBranch ..) fun _ hb =>
    Manager.mem_keys_registerBranch.mpr (.inr hb)

theorem keep_setBranchPosition (b : String) (id : Option String) :
    protocol.Keep H F (setBranchPosition b id : M W Unit) := by
  refine keep_bind (keep_registerBranch hF b id) fun state => ?_
  refine triple_updateStateEmit (plain _) hF.stable (fun _ => hF.stable) fun h v hv hp => ?_
  have hq : protocol.Quiet [.positioned b id] v
      { v.state with mgr := v.state.mgr.modifyRecord state fun _ => .positionedAt id } :=
    quiet_of_keys hv rfl fun _ hb => hb
  exact ⟨.of_quiet hq h, hq.frame hF hp⟩

theorem keep_reconcile (branch : Ref) : protocol.Keep H F (reconcile branch : M W Unit) := by
  refine keep_bind (keep_peek hF quiet_read) fun base => keep_bind (keep_registerBranch hF _ _) fun state => ?_
  refine keep_bind (keep_peek hF quiet_read) fun base => ?_
  split
  · exact keep_ret ()
  · refine keep_bind (keep_peek hF quiet_read) fun current => ?_
    refine keep_bind (keep_peek hF quiet_read) fun base => ?_
    split
    · exact keep_ret ()
    · exact keep_bind (keep_peek hF quiet_read) fun base => keep_setBranchPosition hF _ _

theorem keep_dropStale (b : String) : protocol.Keep H F (dropStale b : M W Unit) := by
  refine keep_bind (keep_readState hF (plain _) quiet_read) fun current => ?_
  split_ifs with hspared
  · exact keep_ret ()
  · rw [not_or] at hspared
    refine keep_updateState hF (plain _) fun v hv => ?_
    by_cases hcurrent : b = v.state.mgr.currentBranchId
    · rw [if_pos hcurrent]
      exact quiet_of_keys hv rfl fun _ hb => hb
    · rw [if_neg hcurrent]
      exact quiet (Manager.currentBranchId_removeBranch ..) (sound_removeBranch hv hspared.1 hcurrent)

theorem keep_newLiveObjects (l : List EnvironmentBranch) :
    protocol.Keep H F (newLiveObjects l : M W (List Ref)) := by
  unfold newLiveObjects
  induction l with
  | nil => exact keep_ret _
  | cons branch l ih =>
    refine keep_bind (keep_access hF fun v hv => quiet_of_keys hv rfl fun _ hb => hb) fun r => ?_
    exact keep_bind ih fun refs => keep_ret _

variable (B : ForkableBackend W)

theorem keep_listBranches : protocol.Keep H F (listBranches B.hooks) := by
  refine triple_plain (plain _) hF.stable (fun _ => hF.stable) ?_
  have hF' := (plain .branchRegistry).frame hF
  have hfetch : protocol.Keep _ F (tryWorld B.list ForkableBackend.fetchedEvents) :=
    keep_tryWorld hF' fun v hv => quiet_of_keys hv rfl fun _ hb => hb
  refine keep_bind hfetch fun listing => ?_
  cases listing with
  | none => exact keep_readState hF' (plain _) quiet_read
  | some listing =>
    refine keep_bind (keep_newLiveObjects hF' listing) fun refreshed => ?_
    refine keep_bind (keep_withState hF' (plain _) fun v hv => quiet_of_keys hv rfl fun _ hb => hb) fun previous => ?_
    refine keep_bind (keep_each fun branch _ => keep_reconcile hF' branch) fun _ => ?_
    exact keep_bind (keep_each fun b _ => keep_dropStale hF' b) fun _ => keep_peek hF' quiet_read

theorem keep_registerOutcome (activate : Bool) (outcome : EnvironmentBranch × ℚ) :
    protocol.Keep H F (registerOutcome activate outcome : M W Unit) := by
  refine keep_bind (keep_access hF fun v hv => quiet_of_keys hv rfl fun _ hb => hb) fun branch => ?_
  refine keep_bind (keep_peek hF quiet_read) fun base => keep_bind (keep_registerBranch hF _ _) fun state => ?_
  refine keep_bind (keep_updateState hF (plain _) fun v hv => quiet_of_keys hv rfl fun _ hb => hb) fun _ => ?_
  exact keep_addEntry hF (plain _) fun v hv => quiet_of_keys hv rfl fun _ hb => hb

theorem keep_materializeBranches (snapshotId : String) (requestedIds : List (Option String)) (activate : Bool) :
    protocol.Keep H F (materializeBranches B.hooks snapshotId requestedIds activate) := by
  refine triple_plain (plain _) hF.stable (fun _ => hF.stable) ?_
  have hF' := (plain .branchRegistry).frame hF
  have hfork : protocol.Keep _ F (tryWorld (B.fork snapshotId requestedIds) ForkableBackend.forkedEvents) :=
    keep_tryWorld hF' fun v hv => quiet_of_keys hv rfl fun _ hb => hb
  refine keep_bind hfork fun outcomes => ?_
  exact keep_bind (keep_each fun outcome _ => keep_registerOutcome hF' activate outcome) fun _ => keep_ret _

theorem keep_fork (snapshotId : String) (n : Int) (ids : Option (List String)) :
    protocol.Keep H F (fork B.hooks snapshotId n ids) := by
  refine triple_plain (plain _) hF.stable (fun _ => hF.stable) ?_
  have hF' := (plain .branchRegistry).frame hF
  refine keep_bind (keep_readState hF' (plain _) quiet_read) fun ok => ?_
  split
  · exact keep_ret _
  · cases ids with
    | none =>
      dsimp only
      split
      · exact keep_ret _
      · exact keep_materializeBranches hF' B _ _ _
    | some ids =>
      dsimp only
      split
      · exact keep_ret _
      · refine keep_bind (keep_readState hF' (plain _) quiet_read) fun conflicts => ?_
        split
        · exact keep_ret _
        · split
          · exact keep_ret _
          · exact keep_materializeBranches hF' B _ _ _

theorem keep_logCommand (b : String) (state : Ref) (command : Command) (elapsed counted : ℚ) :
    protocol.Keep H F (logCommand b state command elapsed counted : M W Unit) := by
  refine keep_bind (keep_withState hF (plain _) fun v hv => quiet_of_keys hv rfl fun _ hb => hb) fun target => ?_
  exact keep_addEntry hF (plain _) fun v hv => quiet_of_keys hv rfl fun _ hb => hb

theorem keep_execBranch (b : String) (command : Command) (timeout : Option ℚ) :
    protocol.Keep H F (execBranch B.hooks.toHooks b command timeout) := by
  refine keep_bind (keep_tryState hF (plain _) quiet_read) fun state => ?_
  refine keep_bind (keep_announce hF quiet_read) fun _ => ?_
  refine triple_plain (plain _) hF.stable (fun _ => hF.stable) ?_
  have hF' := (plain (.operation state)).frame hF
  have hclock : protocol.Keep (.operation state :: H) F (world B.time) :=
    keep_access hF' fun v hv => quiet_of_keys hv rfl fun _ hb => hb
  have hexec : protocol.Keep (.operation state :: H) F (tryWorld (B.exec command timeout b) fun _ => []) :=
    keep_tryWorld hF' fun v hv => quiet_of_keys hv rfl fun _ hb => hb
  refine keep_bind (keep_readState hF' (plain _) quiet_read) fun active => ?_
  cases active with
  | false => exact keep_ret _
  | true =>
    refine keep_bind hclock fun start => keep_bind (keep_announce hF' quiet_read) fun _ => ?_
    refine keep_bind (keep_attempt hexec) fun result => keep_bind hclock fun stop => ?_
    cases result with
    | error e => exact keep_bind (keep_logCommand hF' b state command _ _) fun _ => keep_ret _
    | ok answer => exact keep_bind (keep_logCommand hF' b state command _ _) fun _ => keep_ret _

theorem keep_finishRestore (snapshotId ancestorId : String) (commands : List Command) (elapsed : ℚ) :
    protocol.Keep H F (finishRestore B.hooks.toHooks snapshotId ancestorId commands elapsed) := by
  refine keep_bind (keep_readState hF (plain _) quiet_read) fun active => ?_
  refine keep_bind (keep_addEntry hF (plain _) fun v hv => quiet_of_keys hv rfl fun _ hb => hb) fun _ => ?_
  refine keep_bind (keep_each fun command _ => keep_bind ?_ fun _ => keep_ret ()) fun _ => ?_
  · refine triple_plain (plain _) hF.stable (fun _ => hF.stable) ?_
    have hF' := (plain .currentBranch).frame hF
    exact keep_bind (keep_readState hF' (plain _) quiet_read) fun b => keep_execBranch hF' B b command none
  · exact keep_bind (keep_setBranchPosition hF active (some snapshotId)) fun _ => keep_ret true

end Keep

/-! ### Switching and removing -/

section Switch

variable (hl : .currentBranch ∈ H)

include hl

/-- The pointer as its lock's holder reads it. -/
theorem triple_getCurrentBranchId {C : String → Prop} :
    protocol.Triple H (fun _ v => C v.state.mgr.currentBranchId) (getCurrentBranchId : M W String)
      fun r _ v => C v.state.mgr.currentBranchId ∧ ∀ b, r = .ok b → v.state.mgr.currentBranchId = b := by
  have hread : (protocol (W := W)).Frame H fun _ v => C v.state.mgr.currentBranchId := frame_current hl
  refine triple_readState (plain _) (fun _ _ _ => .inl rfl) hread.stable (fun r h v v' hr hp => ?_) fun h v hv hp => ?_
  · exact (frame_current hl (C := fun c => C c ∧ ∀ b, r = .ok b → c = b)).stable h v v' hr hp
  · refine ⟨hp, ?_⟩
    rintro b ⟨⟩
    rfl

/-- `_set_current_branch` finds the record of the branch. -/
theorem triple_setCurrentBranch (b : String) :
    protocol.Triple H (fun _ _ => True) (setCurrentBranch b : M W Unit)
      fun r _ v => r = .ok () → v.state.mgr.currentBranchId = b := by
  have hafter : ∀ r : Except PyError Unit, (protocol (W := W)).Stable H fun _ v =>
      r = .ok () → v.state.mgr.currentBranchId = b := fun r =>
    (frame_current hl (C := fun c => r = .ok () → c = b)).stable
  refine triple_plain (plain _) frame_true.stable hafter ?_
  refine triple_tryState (plain _) frame_true.stable (fun r => (plain _).stable (hafter r)) fun h v hv _ => ?_
  unfold Manager.setCurrentBranch
  cases hget : v.state.mgr.branches.get? b with
  | none =>
    exact ⟨.of_quiet (quiet_read v hv) h, by simp⟩
  | some r =>
    refine ⟨⟨⟨hv.1, Dict.mem_keys_of_get? hget⟩, .inr (List.mem_cons_of_mem _ hl)⟩, fun _ => rfl⟩

/-- Another branch than `b` is the current one. -/
def Away (b : String) (_ : List Event) (v : View (Sys W) Event) : Prop := v.state.mgr.currentBranchId ≠ b

omit hl in
theorem frame_away (hl : .currentBranch ∈ H) (b : String) : (protocol (W := W)).Frame H (Away b) :=
  frame_current hl (C := (· ≠ b))

theorem keep_removeBranch {b : String} (hmain : b ≠ defaultBranchId) :
    protocol.Keep H (Away b) (removeBranch b : M W Unit) := by
  have hF := frame_away (W := W) hl b
  show protocol.Triple H _ (withState fun m => ((), m.removeBranch b)) _
  refine triple_withState (plain _) hF.stable (fun _ => hF.stable) fun h v hv hp => ?_
  have hq : protocol.Quiet [] v { v.state with mgr := v.state.mgr.removeBranch b } :=
    quiet (Manager.currentBranchId_removeBranch ..) (sound_removeBranch hv hmain (Ne.symm hp))
  exact ⟨.of_quiet hq h, hq.frame_nil hF hp⟩

variable (B : ForkableBackend W)

theorem keep_discardBranchBody (b : String) :
    protocol.Keep H (fun _ _ => True) (discardBranchBody B.hooks b) := by
  unfold discardBranchBody
  split_ifs with hmain
  · exact keep_ret _
  refine triple_bind (triple_getCurrentBranchId hl (C := fun _ => True)) (fun current => ?_) fun _ _ _ _ => trivial
  split_ifs with hcurrent
  · exact triple_ret fun _ _ _ => trivial
  have hF := frame_away (W := W) hl b
  refine Triple.weaken (P := Away b) (Q := fun _ => Away b) ?_ (fun h v hp he => ?_) fun _ _ _ _ => trivial
  · refine keep_bind (keep_readState hF (plain _) quiet_read) fun found => ?_
    cases found with
    | none => exact keep_ret _
    | some state =>
      refine keep_bind (keep_announce hF quiet_read) fun _ => ?_
      refine triple_plain (plain _) hF.stable (fun _ => hF.stable) ?_
      have hF' := (plain (.operation state)).frame hF
      refine triple_plain (plain _) hF'.stable (fun _ => hF'.stable) ?_
      have hF'' := (plain .branchRegistry).frame hF'
      refine keep_bind (keep_readState hF'' (plain _) quiet_read) fun live => ?_
      have hdiscard : protocol.Keep (.branchRegistry :: .operation state :: H) (Away b)
          (tryWorld (B.discard b) (ForkableBackend.discardedEvents b)) :=
        keep_tryWorld hF'' fun v hv => quiet_of_keys hv rfl fun _ hb => hb
      cases live with
      | false => exact keep_ret _
      | true =>
        refine keep_bind (keep_announce hF'' quiet_read) fun _ => keep_bind hdiscard fun ok => ?_
        cases ok with
        | false => exact keep_ret _
        | true =>
          refine keep_bind (keep_updateState hF'' (plain _) fun v hv => quiet_of_keys hv rfl fun _ hb => hb) fun _ => ?_
          exact keep_bind (keep_removeBranch (by simp [hl]) hmain) fun _ => keep_ret true
  · exact hcurrent (he.symm.trans (hp.2 current rfl))

/-- The pointer leaves a parked branch before its record goes. -/
theorem keep_retireParked {b : String} (hmain : b ≠ defaultBranchId) (snapshotId : String) (parentId : Option String)
    (elapsed : ℚ) : protocol.Keep H (fun _ _ => True) (retireParked b snapshotId parentId elapsed : M W Unit) := by
  have hF := frame_away (W := W) hl b
  have hdrop : protocol.Keep H (Away b) (updateState (fun m => { m with liveBranches := m.liveBranches.erase b }) >>=
      fun _ => removeBranch b : M W Unit) := by
    refine keep_bind (keep_updateState hF (plain _) fun v hv => quiet_of_keys hv rfl fun _ hb => hb) fun _ => ?_
    exact keep_removeBranch hl hmain
  refine keep_bind (keep_updateState frame_true (plain _) fun v hv => quiet_of_keys hv rfl fun _ hb => hb) fun _ => ?_
  refine keep_bind (keep_addEntry frame_true (plain _) fun v hv => quiet_of_keys hv rfl fun _ hb => hb) fun _ => ?_
  refine triple_bind (triple_getCurrentBranchId hl (C := fun _ => True)) (fun current => ?_) fun _ _ _ _ => trivial
  split_ifs with hcurrent
  · refine Triple.weaken (P := fun _ _ => True) ?_ (fun _ _ _ => trivial) fun _ _ _ h => h
    refine triple_bind (triple_setCurrentBranch hl defaultBranchId) (fun _ => ?_) fun _ _ _ _ => trivial
    exact Triple.weaken hdrop (fun h v hp he => hmain (he.symm.trans (hp rfl))) fun _ _ _ _ => trivial
  · exact Triple.weaken hdrop (fun h v hp he => hcurrent (he.symm.trans (hp.2 current rfl))) fun _ _ _ _ => trivial

theorem keep_parkBranchBody (b : String) :
    protocol.Keep H (fun _ _ => True) (parkBranchBody B.hooks b) := by
  unfold parkBranchBody
  split_ifs with hmain
  · exact keep_ret _
  have hF {H : List Lock} : (protocol (W := W)).Frame H fun _ _ => True := frame_true
  refine keep_bind (keep_readState hF (plain _) quiet_read) fun found => ?_
  cases found with
  | none => exact keep_ret _
  | some state =>
    refine keep_bind (keep_announce hF quiet_read) fun _ => ?_
    refine triple_plain (plain _) hF.stable (fun _ => hF.stable) ?_
    refine triple_plain (plain _) hF.stable (fun _ => hF.stable) ?_
    refine keep_bind (keep_readState hF (plain _) quiet_read) fun parent => ?_
    have hpark : protocol.Keep (.branchRegistry :: .operation state :: H) (fun _ _ => True)
        (B.hooks.coreParkBranch b) := by
      refine keep_bind (keep_tryWorld hF fun v hv => quiet_of_keys hv rfl fun _ hb => hb) fun captured => ?_
      rcases captured with ⟨_ | ⟨snapshotId, resource⟩, elapsed⟩
      · exact keep_ret _
      · exact keep_bind (keep_updateState hF (plain _) fun v hv => quiet_of_keys hv rfl fun _ hb => hb) fun _ =>
          keep_ret _
    cases parent with
    | none => exact keep_ret _
    | some parentId =>
      refine keep_bind (keep_announce hF quiet_read) fun _ => keep_bind hpark fun parked => ?_
      rcases parked with ⟨_ | snapshotId, elapsed⟩
      · exact keep_ret _
      · exact keep_bind (keep_retireParked (by simp [hl]) hmain snapshotId parentId elapsed) fun _ => keep_ret _

theorem keep_coreRestore (snapshotId departing : String) :
    protocol.Keep H (fun _ _ => True) (B.hooks.coreRestore snapshotId departing) := by
  have hclock : protocol.Keep H (fun _ _ => True) (world B.time) :=
    keep_access frame_true fun v hv => quiet_of_keys hv rfl fun _ hb => hb
  refine keep_bind hclock fun start => keep_bind (keep_materializeBranches frame_true B _ _ _) fun branches => ?_
  cases branches with
  | nil => exact keep_ret _
  | cons restored rest =>
    refine keep_bind (Triple.weaken (triple_setCurrentBranch hl restored.id) (fun _ _ h => h) fun _ _ _ _ => trivial)
      fun _ => ?_
    dsimp only
    split_ifs
    · refine keep_bind (keep_discardBranchBody hl B departing) fun _ => ?_
      exact keep_bind hclock fun stop => keep_ret _
    · exact keep_bind hclock fun stop => keep_ret _

end Switch

theorem keep_restore (B : ForkableBackend W) (snapshotId : String) :
    protocol.Keep [] (fun _ _ => True) (restore B.hooks.toHooks snapshotId) := by
  have hF {H : List Lock} : (protocol (W := W)).Frame H fun _ _ => True := frame_true
  refine triple_plain (plain _) hF.stable (fun _ => hF.stable) ?_
  refine keep_bind (keep_tryState hF (plain _) quiet_read) fun departing => ?_
  refine triple_plain (plain _) hF.stable (fun _ => hF.stable) ?_
  refine keep_bind (keep_readState hF (plain _) quiet_read) fun walk => ?_
  rcases walk with _ | ⟨ancestor, commands⟩
  · exact keep_ret _
  · refine keep_bind (keep_coreRestore (by simp) B ancestor.snapshotId departing.id) fun switched => ?_
    rcases switched with ⟨_ | _, elapsed⟩
    · exact keep_ret _
    · exact keep_finishRestore hF B snapshotId ancestor.snapshotId commands elapsed

theorem keep_client (B : ForkableBackend W) {op : PublicOp} (hop : Switching op) :
    protocol.Keep [] (fun _ _ => True) (client B.hooks op) := by
  have hF {H : List Lock} : (protocol (W := W)).Frame H fun _ _ => True := frame_true
  have hanswer {p : M W Outcome} (hp : protocol.Keep [] (fun _ _ => True) p) :
      protocol.Keep [] (fun _ _ => True) (p.attempt >>= fun r => announce (.returned op (Outcome.ofResult r))) :=
    keep_bind (keep_attempt hp) fun r => keep_announce hF quiet_read
  cases op with
  | restore snapshotId => exact hanswer (keep_bind (keep_restore B snapshotId) fun _ => keep_ret _)
  | listBranches => exact hanswer (keep_bind (keep_listBranches hF B) fun _ => keep_ret _)
  | fork snapshotId n ids => exact hanswer (keep_bind (keep_fork hF B snapshotId n ids) fun _ => keep_ret _)
  | parkBranch b =>
    refine hanswer (keep_bind (triple_plain (plain _) hF.stable (fun _ => hF.stable) ?_) fun _ => keep_ret _)
    exact keep_parkBranchBody (by simp) B b
  | discardBranch b =>
    refine hanswer (keep_bind (triple_plain (plain _) hF.stable (fun _ => hF.stable) ?_) fun _ => keep_ret _)
    exact keep_discardBranchBody (by simp) B b
  | _ => exact hop.elim

end Pointer

/-- The current branch is registered, in every configuration that is reached without a step that makes a branch
current in front of a thread that is about to remove its record. -/
theorem current_registered (B : ForkableBackend W) {s : Sys W} (h₀ : Consistent s.mgr)
    {c : Config (Sys W) Lock Event PyError Unit}
    (h : Config.CarefulReach PulledAway (fun p => ∃ op, Switching op ∧ p = client B.hooks op) Lock.reentrant s c) :
    c.state.mgr.currentBranchId ∈ c.state.mgr.branches.keys := by
  have htwins : ∀ p, (∃ op, Switching op ∧ p = client B.hooks op) →
      ∃ p', (∃ op, Switching op ∧ p' = Pointer.client B.hooks op) ∧ ∀ s, Twin PulledAway p p' s := by
    rintro _ ⟨op, hop, rfl⟩
    exact ⟨_, ⟨op, hop, rfl⟩, Pointer.twin_client B.hooks op⟩
  obtain ⟨d, hd, hstate⟩ := h.twin htwins
  have hsafe := Config.safe_reach Pointer.protocol_coherent (by
    rintro _ ⟨op, hop, rfl⟩ v
    exact (Pointer.keep_client B hop [] v trivial).mono fun _ _ _ _ hr => hr.1) ⟨h₀.main, h₀.current⟩
    (fun _ => trivial) hd
  rw [← hstate]
  exact hsafe.valid.2

theorem not_pulledAway_self (act : Sys W → Sys W) (s : Sys W) : ¬ PulledAway act s s :=
  fun ⟨_, _, hne, he⟩ => hne he

/-- The pointer stays, or it moves to a branch that survives what a thread is about to do. -/
def survives (act : Sys W → Sys W) (s s' : Sys W) : Bool :=
  s'.mgr.currentBranchId = s.mgr.currentBranchId || s'.mgr.currentBranchId ∈ (act s).mgr.branches.keys

theorem not_pulledAway_of_survives (act : Sys W → Sys W) (s s' : Sys W) (h : survives act s s' = true) :
    ¬ PulledAway act s s' := by
  rintro ⟨b, rfl, hne, rfl⟩
  unfold survives at h
  simp only [Bool.or_eq_true, decide_eq_true_eq] at h
  rcases h with h | h
  · exact hne h.symm
  · exact (Manager.mem_keys_removeBranch.mp h).1 rfl

/-- A restore materializes its branch. A listing that names neither this branch nor a forked one finds that the forked
one is not current, and is about to remove its record when the restore switches to its own branch. The listing goes on
after the restore, and spares the branch of the restore. -/
def sparing : List (Config.Move (Sys Fleet) Lock Event PyError Unit) :=
  .start 1 (client (Fleet.backend false).hooks (.fork "base" 1 none)) :: List.replicate 21 (.run 1) ++
    .start 0 (client (Fleet.backend false).hooks (.restore "base")) :: List.replicate 24 (.run 0) ++
    .start 1 (client (Fleet.backend false).hooks .listBranches) :: List.replicate 16 (.run 1) ++
    List.replicate 21 (.run 0) ++ List.replicate 10 (.run 1)

theorem current_registered_sparing :
    ∃ c : Config (Sys Fleet) Lock Event PyError Unit,
      .returned (.restore "base") (.flag true) ∈ c.view.events ∧
      .returned .listBranches (.branches [⟨"main", "base", "running"⟩]) ∈ c.view.events ∧
      c.state.mgr.currentBranchId = "x1" ∧ c.state.mgr.branches.keys = ["main", "x1"] ∧
      c.state.mgr.currentBranchId ∈ c.state.mgr.branches.keys := by
  have hmenu : ∀ t p, Config.Move.start t p ∈ sparing →
      ∃ op, Switching op ∧ p = client (Fleet.backend false).hooks op := by
    intro t p hp
    simp only [sparing, List.mem_cons, List.mem_append, List.mem_replicate, Config.Move.start.injEq, reduceCtorEq,
      and_false, or_false] at hp
    rcases hp with ((⟨-, rfl⟩ | ⟨-, rfl⟩) | ⟨-, rfl⟩)
    · exact ⟨.fork "base" 1 none, trivial, rfl⟩
    · exact ⟨.restore "base", trivial, rfl⟩
    · exact ⟨.listBranches, trivial, rfl⟩
  let q : Config (Sys Fleet) Lock Event PyError Unit → Bool := fun c => decide
    (.returned (.restore "base") (.flag true) ∈ c.view.events ∧
      .returned .listBranches (.branches [⟨"main", "base", "running"⟩]) ∈ c.view.events ∧
      c.state.mgr.currentBranchId = "x1" ∧ c.state.mgr.branches.keys = ["main", "x1"])
  have hplay : (Config.playTested survives 2 Lock.reentrant sparing
      { state := Fleet.start ["y1", "x1"] [["y1", "x1"]] }).any q = true := by decide +kernel
  obtain ⟨c, hc, hq⟩ := (Option.any_eq_true _ _).mp hplay
  obtain ⟨hrestored, hlisted, hcurrent, hkeys⟩ := of_decide_eq_true hq
  exact ⟨c, hrestored, hlisted, hcurrent, hkeys,
    current_registered (Fleet.backend false) (Consistent.seeded "base" "base")
      (Config.careful_of_playTested not_pulledAway_of_survives not_pulledAway_self hmenu (fun _ _ => rfl) hc)⟩

/-- A restore materializes its branch. A listing that does not name the branch finds that it is not the current one.
The restore switches to it and returns, and only then the listing removes the record. -/
def pulling : List (Config.Move (Sys Fleet) Lock Event PyError Unit) :=
  .start 0 (client (Fleet.backend false).hooks (.restore "base")) :: List.replicate 24 (.run 0) ++
    .start 1 (client (Fleet.backend false).hooks .listBranches) :: List.replicate 16 (.run 1) ++
    List.replicate 21 (.run 0) ++ List.replicate 7 (.run 1)

/-- Both calls have returned, no other is in progress, and the current branch is not registered. -/
theorem not_current_registered_of_pulling :
    Consistent (Fleet.start ["x1"] [["x1"]]).mgr ∧ ∃ c : Config (Sys Fleet) Lock Event PyError Unit,
      Config.Reach (fun p => ∃ op, Switching op ∧ p = client (Fleet.backend false).hooks op) Lock.reentrant
        (Fleet.start ["x1"] [["x1"]]) c ∧
      (∀ t, (c.thread t).code = none) ∧ .returned (.restore "base") (.flag true) ∈ c.view.events ∧
      c.state.mgr.currentBranchId = "x1" ∧ "x1" ∉ c.state.mgr.branches.keys := by
  have hmenu : ∀ t p, Config.Move.start t p ∈ pulling →
      ∃ op, Switching op ∧ p = client (Fleet.backend false).hooks op := by
    intro t p hp
    simp only [pulling, List.mem_cons, List.mem_append, List.mem_replicate, Config.Move.start.injEq, reduceCtorEq,
      and_false, or_false] at hp
    rcases hp with ⟨-, rfl⟩ | ⟨-, rfl⟩
    · exact ⟨.restore "base", trivial, rfl⟩
    · exact ⟨.listBranches, trivial, rfl⟩
  let q : Config (Sys Fleet) Lock Event PyError Unit → Bool := fun c =>
    (c.thread 0).code.isNone && (c.thread 1).code.isNone && decide
      (.returned (.restore "base") (.flag true) ∈ c.view.events ∧ c.state.mgr.currentBranchId = "x1" ∧
        "x1" ∉ c.state.mgr.branches.keys)
  have hplay : (Config.play Lock.reentrant pulling { state := Fleet.start ["x1"] [["x1"]] }).any q = true := by
    decide +kernel
  obtain ⟨c, hc, hq⟩ := (Option.any_eq_true _ _).mp hplay
  simp only [q, Bool.and_eq_true, Option.isNone_iff_eq_none, decide_eq_true_eq] at hq
  obtain ⟨⟨hfirst, hsecond⟩, hends⟩ := hq
  refine ⟨.seeded "base" "base", c, Config.reach_of_play hmenu hc, fun t => ?_, hends⟩
  match t with
  | 0 => exact hfirst
  | 1 => exact hsecond
  | t + 2 =>
    have hthread := Config.thread_of_play (t := t + 2) (by simp [pulling]) (by simp [pulling]) hc
    rw [hthread]

end StateFork
