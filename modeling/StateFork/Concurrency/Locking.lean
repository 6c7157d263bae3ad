import StateFork.Forkable.Registry
import StateFork.Lib.LockOrder
import StateFork.Lib.RelyGuarantee

/-!
# The lock order

Every public operation requests the locks it does not hold in the order current branch, operation,
registry, state, statistics. There is one exception: `restore` holds the operation lock of the
departing branch and then requests the operation lock under which it discards that branch, which is
another lock if the branch was registered anew in between. The request is for the same branch id, and
it is made under the current-branch lock.

Hooks may do what `Conduct` allows: whatever the caller holds, as long as it is neither the state lock
nor the statistics lock, they request locks in this order. Code without locks does, sections of the
state lock do, and so does `list_branches`.
-/

namespace StateFork

open Conc Conc.Prog

namespace Lock

def rank : Lock → Nat
  | lifecycle => 0
  | currentBranch => 1
  | operation _ => 2
  | branchRegistry => 3
  | state => 4
  | stats => 5

/-- All locks are `RLock`s except the one of `BenchmarkStats`. -/
def reentrant : Lock → Bool
  | stats => false
  | _ => true

theorem rank_le (l : Lock) : l.rank ≤ 5 := by
  cases l <;> simp [rank]

end Lock

/-- A thread that holds `H` may request `l`: again, or in the order, or as the operation lock of the branch
whose operation lock it holds together with the current-branch lock. -/
def Admissible (H : List Lock) (l : Lock) : Prop :=
  (l ∈ H ∧ l.reentrant = true) ∨
    (l ∉ H ∧ ∀ h ∈ H, h.rank < l.rank ∨
      (.currentBranch ∈ H ∧ ∃ r r', h = .operation r ∧ l = .operation r' ∧ r.id = r'.id))

namespace Admissible

variable {H : List Lock}

theorem ordered {l : Lock} (h : Admissible H l) : Conc.Ordered Lock.rank .currentBranch Lock.reentrant H l := by
  rcases h with h | ⟨hnot, hrank⟩
  · exact .inl h
  · refine .inr ⟨hnot, fun h' hh' => ?_⟩
    rcases hrank h' hh' with hlt | ⟨hgate, r, r', rfl, rfl, -⟩
    · exact .inl hlt
    · exact .inr ⟨hgate, rfl⟩

/-- A reentrant lock above all that is held, unless it is held itself. -/
theorem of_rank {l : Lock} (hre : l.reentrant = true) (h : ∀ h ∈ H, h ≠ l → h.rank < l.rank) :
    Admissible H l := by
  by_cases hl : l ∈ H
  · exact .inl ⟨hl, hre⟩
  · exact .inr ⟨hl, fun h' hh' => .inl (h h' hh' fun he => hl (he ▸ hh'))⟩

theorem state (h : .stats ∉ H) : Admissible H .state := by
  refine of_rank rfl fun l hl hne => ?_
  cases l with
  | state => exact absurd rfl hne
  | stats => exact absurd hl h
  | _ => simp [Lock.rank]

theorem stats (h : .stats ∉ H) : Admissible H .stats := by
  refine .inr ⟨h, fun l hl => .inl ?_⟩
  cases l with
  | stats => exact absurd hl h
  | _ => simp [Lock.rank]

theorem branchRegistry (hstate : .state ∉ H) (hstats : .stats ∉ H) : Admissible H .branchRegistry := by
  refine of_rank rfl fun l hl hne => ?_
  cases l with
  | branchRegistry => exact absurd rfl hne
  | state => exact absurd hl hstate
  | stats => exact absurd hl hstats
  | _ => simp [Lock.rank]

theorem held {l : Lock} (hl : l ∈ H) (hre : l.reentrant = true) : Admissible H l := .inl ⟨hl, hre⟩

theorem nil (l : Lock) : Admissible [] l := .inr ⟨by simp, by simp⟩

/-- An operation lock, when no lock but the current-branch lock is held, or operation locks of the same
branch together with it. -/
theorem operation {r : Ref} (h : ∀ l ∈ H, l = .currentBranch ∨
    (.currentBranch ∈ H ∧ ∃ r', l = .operation r' ∧ r'.id = r.id)) : Admissible H (.operation r) := by
  by_cases hl : .operation r ∈ H
  · exact .inl ⟨hl, rfl⟩
  · refine .inr ⟨hl, fun l hl' => ?_⟩
    rcases h l hl' with rfl | ⟨hcurrent, r', rfl, hid⟩
    · exact .inl (by simp [Lock.rank])
    · exact .inr ⟨hcurrent, r', r, rfl, rfl, hid⟩

end Admissible

/-- Threads promise to request locks in the order; they assume nothing of each other but that the
registries stay regular. -/
def lockProtocol (W : Type) : Protocol (Sys W) Lock Event where
  valid v := Regular v.state.mgr
  rely _ _ _ := True
  guar _ _ _ _ _ := True
  acq H l _ := Admissible H l
  inv _ _ := True

theorem lockProtocol_coherent (W : Type) : (lockProtocol W).Coherent :=
  ⟨fun _ _ => trivial, fun _ _ _ _ _ _ => trivial, fun _ _ _ _ _ _ _ _ _ => trivial,
    fun _ _ _ _ _ _ _ _ _ _ => trivial⟩

/-- Under the locks `H` the program requests locks in the order, and its outcome satisfies `Q`. -/
def Disciplined {W α : Type} (H : List Lock) (p : M W α) (Q : Except PyError α → Prop) : Prop :=
  (lockProtocol W).Triple H (fun _ _ => True) p fun r _ _ => Q r

/-- The same, about a program whose outcome does not matter. -/
abbrev InOrder {W α : Type} (H : List Lock) (p : M W α) : Prop := Disciplined H p fun _ => True

section Rules

variable {W α β : Type} {H : List Lock} {p : M W α} {f : α → M W β} {Q : Except PyError α → Prop}

theorem inOrder_ret (a : α) : InOrder H (ret a : M W α) := Protocol.triple_ret fun _ _ _ => trivial

theorem inOrder_throw (e : PyError) : InOrder H (throw e : M W α) := Protocol.triple_throw fun _ _ _ => trivial

/-- Sequencing, with what the outcome of the first program tells about the second. -/
theorem disciplined_bind {Q' : Except PyError β → Prop} (hp : Disciplined H p Q)
    (hf : ∀ a, Q (.ok a) → Disciplined H (f a) Q') (he : ∀ e, Q (.error e) → Q' (.error e)) :
    Disciplined H (p >>= f) Q' := by
  refine Protocol.triple_bind hp (fun a => ?_) fun e _ _ => he e
  refine Protocol.triple_of_fact (fun _ _ hq => hq) fun hq => ?_
  exact Protocol.Triple.weaken (hf a hq) (fun _ _ _ => trivial) fun _ _ _ h => h

theorem Disciplined.bind (hp : Disciplined H p Q) (hf : ∀ a, Q (.ok a) → InOrder H (f a)) :
    InOrder H (p >>= f) :=
  disciplined_bind hp hf fun _ _ => trivial

theorem inOrder_bind (hp : InOrder H p) (hf : ∀ a, InOrder H (f a)) : InOrder H (p >>= f) :=
  hp.bind fun a _ => hf a

theorem inOrder_andThen {k : Except PyError α → M W β} (hp : InOrder H p) (hk : ∀ r, InOrder H (k r)) :
    InOrder H (p.andThen k) :=
  Protocol.triple_andThen hp fun r => hk r

theorem Disciplined.withLock {l : Lock} (hl : Admissible H l) (hp : Disciplined (l :: H) p Q) :
    Disciplined H (withLock l p) Q := by
  by_cases hmem : l ∈ H
  · exact Protocol.triple_withLock_held hmem (fun _ _ _ _ => hl) (fun _ _ _ _ h => h) hp
      fun _ _ _ _ _ h => h
  · exact Protocol.triple_withLock hmem (fun _ _ _ _ => hl) (fun _ _ _ _ h => h) (fun _ _ _ _ h => h) hp
      (fun _ _ _ _ _ => trivial) (fun _ _ _ _ _ h => h) fun _ _ _ _ h => h

/-- An atomic step that keeps the registries regular. -/
theorem disciplined_atomic {ev : Sys W → List Event} {act : Sys W → Sys W} {next : Sys W → M W α}
    (hact : ∀ s, Regular s.mgr → Regular (act s).mgr)
    (hnext : ∀ s, Regular s.mgr → Disciplined H (next s) Q) : Disciplined H (atomic ev act next) Q := by
  refine Protocol.triple_atomic (M := fun s _ _ => Regular s.mgr) (fun _ _ _ _ _ h => h)
    (fun _ v hv _ => ⟨hact v.state hv, trivial, hv⟩) fun s => ?_
  refine Protocol.triple_of_fact (fun _ _ hs => hs) fun hs => ?_
  exact Protocol.Triple.weaken (hnext s hs) (fun _ _ _ => trivial) fun _ _ _ h => h

theorem disciplined_ret {a : α} (h : Q (.ok a)) : Disciplined H (ret a : M W α) Q :=
  Protocol.triple_ret fun _ _ _ => h

theorem disciplined_throw {e : PyError} (h : Q (.error e)) : Disciplined H (throw e : M W α) Q :=
  Protocol.triple_throw fun _ _ _ => h

theorem disciplined_ofExcept {r : Except PyError α} (h : Q r) : Disciplined H (ofExcept r : M W α) Q := by
  cases r with
  | ok a => exact disciplined_ret h
  | error e => exact disciplined_throw h

/-! ### The accesses of the controller -/

theorem disciplined_withState {g : Manager → α × Manager} (hH : .stats ∉ H)
    (hg : ∀ m, Regular m → Regular (g m).2 ∧ Q (.ok (g m).1)) : Disciplined H (withState g : M W α) Q :=
  Disciplined.withLock (.state hH) <|
    disciplined_atomic (fun s hs => (hg s.mgr hs).1) fun s hs => disciplined_ret (hg s.mgr hs).2

theorem disciplined_tryState {g : Manager → Except PyError α × Manager} (hH : .stats ∉ H)
    (hg : ∀ m, Regular m → Regular (g m).2 ∧ Q (g m).1) : Disciplined H (tryState g : M W α) Q :=
  Disciplined.withLock (.state hH) <|
    disciplined_atomic (fun s hs => (hg s.mgr hs).1) fun s hs => disciplined_ofExcept (hg s.mgr hs).2

theorem disciplined_readState {g : Manager → α} (hH : .stats ∉ H) (hg : ∀ m, Regular m → Q (.ok (g m))) :
    Disciplined H (readState g : M W α) Q :=
  disciplined_withState hH fun m hm => ⟨hm, hg m hm⟩

theorem inOrder_readState {g : Manager → α} (hH : .stats ∉ H) : InOrder H (readState g : M W α) :=
  disciplined_readState hH fun _ _ => trivial

theorem inOrder_updateState {g : Manager → Manager} (hH : .stats ∉ H) (hg : ∀ m, Regular m → Regular (g m)) :
    InOrder H (updateState g : M W Unit) :=
  disciplined_withState hH fun m hm => ⟨hg m hm, trivial⟩

theorem inOrder_updateStateEmit {events : List Event} {g : Manager → Manager} (hH : .stats ∉ H)
    (hg : ∀ m, Regular m → Regular (g m)) : InOrder H (updateStateEmit events g : M W Unit) :=
  Disciplined.withLock (.state hH) <|
    disciplined_atomic (fun s hs => hg s.mgr hs) fun _ _ => disciplined_ret trivial

theorem inOrder_peek {g : Manager → α} : InOrder H (peek g : M W α) :=
  disciplined_atomic (fun _ hs => hs) fun _ _ => disciplined_ret trivial

theorem inOrder_poke {g : Manager → Manager} (hg : ∀ m, Regular m → Regular (g m)) :
    InOrder H (poke g : M W Unit) :=
  disciplined_atomic (fun s hs => hg s.mgr hs) fun _ _ => disciplined_ret trivial

theorem inOrder_world {g : W → α × W} : InOrder H (world g : M W α) :=
  disciplined_atomic (fun _ hs => hs) fun _ _ => disciplined_ret trivial

theorem inOrder_tryWorld {g : W → Except PyError α × W} {events : Except PyError α → List Event} :
    InOrder H (tryWorld g events : M W α) :=
  disciplined_atomic (fun _ hs => hs) fun _ _ => disciplined_ofExcept trivial

theorem inOrder_announce {e : Event} : InOrder H (announce e : M W Unit) :=
  disciplined_atomic (fun _ hs => hs) fun _ _ => disciplined_ret trivial

theorem inOrder_each {l : List β} {g : β → M W Unit} (hg : ∀ b, InOrder H (g b)) : InOrder H (each l g) :=
  Protocol.triple_each (fun b _ => hg b) (fun _ _ _ => trivial) (fun _ _ _ _ => trivial) fun _ _ _ => trivial

theorem inOrder_collect {l : List β} {g : β → M W α} (hg : ∀ b, InOrder H (g b)) :
    InOrder H (collect l g) := by
  induction l with
  | nil => exact inOrder_ret _
  | cons b l ih => exact inOrder_bind (hg b) fun _ => inOrder_bind ih fun _ => inOrder_ret _

theorem inOrder_attempt (hp : InOrder H p) : InOrder H p.attempt :=
  inOrder_andThen hp fun r => inOrder_ret r

theorem inOrder_map {g : α → β} (hp : InOrder H p) : InOrder H (g <$> p) :=
  inOrder_bind hp fun _ => inOrder_ret _

end Rules

/-- What a hook may do, under whatever locks the templates call it. -/
def Conduct {W α : Type} (p : M W α) : Prop := ∀ H, .state ∉ H → .stats ∉ H → InOrder H p

/-- Hooks that keep to the order, whatever else they do. -/
structure HooksConduct {W : Type} (F : ForkHooks W) : Prop where
  coreSnapshot : ∀ b, Conduct (F.coreSnapshot b)
  coreCleanup : Conduct F.coreCleanup
  coreExec : ∀ c t b, Conduct (F.coreExec c t b)
  coreCopy : ∀ b h e i, Conduct (F.coreCopy b h e i)
  coreFork : ∀ s r, Conduct (F.coreFork s r)
  coreDiscardBranch : ∀ b, Conduct (F.coreDiscardBranch b)
  coreParkBranch : ∀ b, Conduct (F.coreParkBranch b)
  coreListBranches : Conduct F.coreListBranches
  time : Conduct F.time
  uuid4Hex : Conduct F.uuid4Hex

namespace EnvironmentManager

variable {W : Type} {H : List Lock}

theorem inOrder_addEntry {operation targetId : String} {elapsed : ℚ} {b : String} (hH : .stats ∉ H) :
    InOrder H (addEntry operation targetId elapsed b : M W Unit) :=
  Disciplined.withLock (.stats hH) <|
    disciplined_atomic (fun _ hs => hs.congr rfl rfl rfl) fun _ _ => disciplined_ret trivial

theorem inOrder_registerBranch {b : String} {base : Option String} (hH : .stats ∉ H) :
    InOrder H (registerBranch b base : M W Ref) :=
  disciplined_withState hH fun _ hm => ⟨hm.registerBranch b base, trivial⟩

theorem inOrder_setBranchPosition {b : String} {snapshotId : Option String} (hH : .stats ∉ H) :
    InOrder H (setBranchPosition b snapshotId : M W Unit) :=
  inOrder_bind (inOrder_registerBranch hH) fun _ =>
    inOrder_updateStateEmit hH fun _ hm => hm.modifyRecord _ _

theorem inOrder_setCurrentBranch {b : String} (hcurrent : .currentBranch ∈ H) (hH : .stats ∉ H) :
    InOrder H (setCurrentBranch b : M W Unit) :=
  Disciplined.withLock (.held hcurrent rfl) <|
    disciplined_tryState (by simp [hH]) fun _ hm => ⟨hm.setCurrentBranch b, trivial⟩

theorem inOrder_getBranchState {b : Option String} (hH : .stats ∉ H) :
    InOrder H (getBranchState b : M W Ref) :=
  disciplined_tryState hH fun _ hm => ⟨hm, trivial⟩

end EnvironmentManager

/-- Only the current-branch lock may be held. -/
def Outer (H : List Lock) : Prop := ∀ l ∈ H, l = .currentBranch

namespace Outer

variable {H : List Lock} (h : Outer H)

include h

theorem stats : .stats ∉ H := fun hl => by cases h _ hl

theorem state : .state ∉ H := fun hl => by cases h _ hl

theorem operation (r : Ref) : Admissible H (.operation r) := .operation fun l hl => .inl (h l hl)

end Outer

theorem outer_nil : Outer [] := by simp [Outer]

theorem outer_current : Outer [.currentBranch] := by simp [Outer]

namespace ForkableEnvironmentManager

open EnvironmentManager

variable {W : Type} {F : ForkHooks W} (hF : HooksConduct F) {H : List Lock}

/-! ### Listing and forking -/

theorem inOrder_reconcile {branch : Ref} (hH : .stats ∉ H) : InOrder H (reconcile branch : M W Unit) := by
  unfold reconcile baseSnapshotId
  refine inOrder_bind inOrder_peek fun base => ?_
  refine inOrder_bind (inOrder_registerBranch hH) fun state => ?_
  refine inOrder_bind inOrder_peek fun base => ?_
  split
  · exact inOrder_ret _
  · refine inOrder_bind inOrder_peek fun current => ?_
    refine inOrder_bind inOrder_peek fun base => ?_
    split
    · exact inOrder_ret _
    · exact inOrder_bind inOrder_peek fun base => inOrder_setBranchPosition hH

theorem inOrder_dropStale {staleId : String} (hH : .stats ∉ H) : InOrder H (dropStale staleId : M W Unit) := by
  unfold dropStale getCurrentBranchId
  refine inOrder_bind (inOrder_readState hH) fun current => ?_
  split
  · exact inOrder_ret _
  · exact inOrder_updateState hH fun m hm => hm.removeBranch staleId

theorem inOrder_newLiveObjects {l : List EnvironmentBranch} : InOrder H (newLiveObjects l : M W (List Ref)) :=
  inOrder_collect fun _ => disciplined_atomic (fun _ hs => hs.congr rfl rfl rfl) fun _ _ => disciplined_ret trivial

/-- `list_branches` is something a hook may call. -/
theorem conduct_listBranches (hF : HooksConduct F) : Conduct (listBranches F) := by
  intro H hstate hstats
  have hstate' : .state ∉ .branchRegistry :: H := by simp [hstate]
  have hstats' : .stats ∉ .branchRegistry :: H := by simp [hstats]
  refine Disciplined.withLock (.branchRegistry hstate hstats) ?_
  unfold listBranchesBody
  refine inOrder_bind (hF.coreListBranches _ hstate' hstats') fun listing => ?_
  cases listing with
  | none => exact inOrder_readState hstats'
  | some listing =>
    refine inOrder_bind inOrder_newLiveObjects fun refreshed => ?_
    refine inOrder_bind (disciplined_withState hstats' fun m hm => ⟨hm.congr rfl rfl rfl, trivial⟩)
      fun previousIds => ?_
    refine inOrder_bind (inOrder_each fun branch => inOrder_reconcile hstats') fun _ => ?_
    exact inOrder_bind (inOrder_each fun staleId => inOrder_dropStale hstats') fun _ => inOrder_peek

theorem inOrder_registerOutcome {activate : Bool} {outcome : EnvironmentBranch × ℚ} (hH : .stats ∉ H) :
    InOrder H (registerOutcome activate outcome : M W Unit) := by
  unfold registerOutcome baseSnapshotId
  refine inOrder_bind (disciplined_atomic (fun _ hs => hs.congr rfl rfl rfl) fun _ _ => disciplined_ret trivial)
    fun branch => ?_
  refine inOrder_bind inOrder_peek fun base => ?_
  refine inOrder_bind (inOrder_registerBranch hH) fun state => ?_
  refine inOrder_bind (inOrder_updateState hH fun m hm => ?_) fun _ => inOrder_addEntry hH
  exact (hm.modifyRecord state _).congr rfl rfl rfl

include hF

theorem inOrder_materializeBranches {s : String} {ids : List (Option String)} {activate : Bool}
    (hstate : .state ∉ H) (hstats : .stats ∉ H) : InOrder H (materializeBranches F s ids activate) := by
  have hstate' : .state ∉ .branchRegistry :: H := by simp [hstate]
  have hstats' : .stats ∉ .branchRegistry :: H := by simp [hstats]
  refine Disciplined.withLock (.branchRegistry hstate hstats) ?_
  refine inOrder_bind (hF.coreFork s ids _ hstate' hstats') fun outcomes => ?_
  exact inOrder_bind (inOrder_each fun outcome => inOrder_registerOutcome hstats') fun _ => inOrder_ret _

theorem inOrder_fork {s : String} {n : Int} {ids : Option (List String)} : InOrder [] (fork F s n ids) := by
  have hstate : .state ∉ [Lock.branchRegistry] := by simp
  have hstats : .stats ∉ [Lock.branchRegistry] := by simp
  refine Disciplined.withLock (.nil _) ?_
  unfold forkBody
  refine inOrder_bind (inOrder_readState hstats) fun ok => ?_
  split
  · exact inOrder_ret _
  · cases ids with
    | some ids =>
      dsimp only
      split
      · exact inOrder_ret _
      · refine inOrder_bind (inOrder_readState hstats) fun conflicts => ?_
        split
        · exact inOrder_ret _
        · split
          · exact inOrder_ret _
          · exact inOrder_materializeBranches hF hstate hstats
    | none =>
      dsimp only
      split
      · exact inOrder_ret _
      · exact inOrder_materializeBranches hF hstate hstats

/-! ### Discarding and parking -/

omit hF in
/-- The record that is looked up belongs to the branch. -/
theorem disciplined_lookupLive {b : String} (hH : .stats ∉ H) :
    Disciplined H (lookupLive b : M W (Option Ref)) fun r => ∀ state, r = .ok (some state) → state.id = b := by
  refine disciplined_readState hH fun m hm state hstate => ?_
  split at hstate
  · exact hm.ids b state (Except.ok.inj hstate)
  · cases hstate

/-- `_discard_branch` may be called while the operation lock of a record of the same branch is held. -/
theorem inOrder_discardBranchBody {b : String}
    (hH : ∀ l ∈ H, l = .currentBranch ∨ (.currentBranch ∈ H ∧ ∃ r, l = .operation r ∧ r.id = b)) :
    InOrder H (discardBranchBody F b) := by
  have hnot {l : Lock} (h₁ : l ≠ .currentBranch) (h₂ : ∀ r, l ≠ .operation r) : l ∉ H := fun hl => by
    rcases hH l hl with h | ⟨-, r, h, -⟩
    · exact h₁ h
    · exact h₂ r h
  have hstats : .stats ∉ H := hnot (by simp) (by simp)
  have hstate : .state ∉ H := hnot (by simp) (by simp)
  unfold discardBranchBody getCurrentBranchId
  split
  · exact inOrder_ret _
  · refine inOrder_bind (inOrder_readState hstats) fun current => ?_
    split
    · exact inOrder_ret _
    · refine (disciplined_lookupLive hstats).bind fun found hfound => ?_
      cases found with
      | none => exact inOrder_ret _
      | some state =>
        have hid := hfound state rfl
        have hop : Admissible H (.operation state) := .operation fun l hl => by
          rcases hH l hl with h | ⟨hc, r, h, hr⟩
          · exact .inl h
          · exact .inr ⟨hc, r, h, hr.trans hid.symm⟩
        refine inOrder_bind inOrder_announce fun _ => ?_
        refine Disciplined.withLock hop (Disciplined.withLock ?_ ?_)
        · exact .branchRegistry (by simp [hstate]) (by simp [hstats])
        · have hstate' : .state ∉ .branchRegistry :: .operation state :: H := by simp [hstate]
          have hstats' : .stats ∉ .branchRegistry :: .operation state :: H := by simp [hstats]
          unfold stillLive
          refine inOrder_bind (inOrder_readState hstats') fun live => ?_
          split
          · refine inOrder_bind inOrder_announce fun _ => ?_
            refine inOrder_bind (hF.coreDiscardBranch b _ hstate' hstats') fun gone => ?_
            split
            · refine inOrder_bind (inOrder_updateState hstats' fun m hm => hm.congr rfl rfl rfl) fun _ => ?_
              exact inOrder_bind (inOrder_updateState hstats' fun m hm => hm.removeBranch b) fun _ =>
                inOrder_ret _
            · exact inOrder_ret _
          · exact inOrder_ret _

omit hF in
theorem inOrder_retireParked {b snapshotId : String} {parentId : Option String} {elapsed : ℚ}
    (hcurrent : .currentBranch ∈ H) (hH : .stats ∉ H) :
    InOrder H (retireParked b snapshotId parentId elapsed : M W Unit) := by
  unfold retireParked getCurrentBranchId EnvironmentManager.recordSnapshotNode
  refine inOrder_bind (inOrder_updateState hH fun m hm => hm.recordSnapshotNode rfl) fun _ => ?_
  refine inOrder_bind (inOrder_addEntry hH) fun _ => ?_
  refine inOrder_bind (inOrder_readState hH) fun current => ?_
  have hdrop : InOrder H (do
      updateState fun m => { m with liveBranches := m.liveBranches.erase b }
      removeBranch b : M W Unit) :=
    inOrder_bind (inOrder_updateState hH fun m hm => hm.congr rfl rfl rfl) fun _ =>
      inOrder_updateState hH fun m hm => hm.removeBranch b
  split
  · exact inOrder_bind (inOrder_setCurrentBranch hcurrent hH) fun _ => hdrop
  · exact hdrop

theorem inOrder_parkBranch {b : String} : InOrder [] (parkBranch F b) := by
  refine Disciplined.withLock (.nil _) ?_
  unfold parkBranchBody
  split
  · exact inOrder_ret _
  · refine (disciplined_lookupLive (by simp)).bind fun found _ => ?_
    cases found with
    | none => exact inOrder_ret _
    | some state =>
      refine inOrder_bind inOrder_announce fun _ => ?_
      refine Disciplined.withLock (outer_current.operation state) (Disciplined.withLock ?_ ?_)
      · exact .branchRegistry (by simp) (by simp)
      · have hstate : .state ∉ [Lock.branchRegistry, .operation state, .currentBranch] := by simp
        have hstats : .stats ∉ [Lock.branchRegistry, .operation state, .currentBranch] := by simp
        refine inOrder_bind (inOrder_readState hstats) fun parent => ?_
        cases parent with
        | none => exact inOrder_ret _
        | some parentId =>
          refine inOrder_bind inOrder_announce fun _ => ?_
          refine inOrder_bind (hF.coreParkBranch b _ hstate hstats) fun parked => ?_
          obtain ⟨snapshotId, elapsed⟩ := parked
          cases snapshotId with
          | none => exact inOrder_ret _
          | some snapshotId =>
            exact inOrder_bind (inOrder_retireParked (by simp) hstats) fun _ => inOrder_ret _

/-- The second half of `_core_restore`. -/
theorem inOrder_coreRestore {s b : String}
    (hH : ∀ l ∈ H, l = .currentBranch ∨ ∃ r, l = .operation r ∧ r.id = b) (hcurrent : .currentBranch ∈ H) :
    InOrder H (F.coreRestore s b) := by
  have hstate : .state ∉ H := fun hl => by rcases hH _ hl with h | ⟨r, h, -⟩ <;> cases h
  have hstats : .stats ∉ H := fun hl => by rcases hH _ hl with h | ⟨r, h, -⟩ <;> cases h
  have htime {α : Type} {k : ℚ → M W α} (hk : ∀ t, InOrder H (k t)) : InOrder H (F.time >>= k) :=
    inOrder_bind (hF.time H hstate hstats) hk
  refine htime fun start => ?_
  refine inOrder_bind (inOrder_materializeBranches hF hstate hstats) fun branches => ?_
  cases branches with
  | nil => exact inOrder_ret _
  | cons restored rest =>
    refine inOrder_bind (inOrder_setCurrentBranch hcurrent hstats) fun _ => ?_
    have hdiscard : InOrder H (discardBranchBody F b) :=
      inOrder_discardBranchBody hF fun l hl => (hH l hl).imp_right fun h => ⟨hcurrent, h⟩
    split
    · exact inOrder_bind hdiscard fun _ => htime fun stop => inOrder_ret _
    · exact htime fun stop => inOrder_ret _

end ForkableEnvironmentManager

namespace EnvironmentManager

open ForkableEnvironmentManager

variable {W : Type} {F : ForkHooks W} (hF : HooksConduct F) {H : List Lock} (hH : Outer H)

/-! ### Templates -/

/-- The end of `_snapshot_branch`: what was captured, if anything, is committed. -/
def commitCaptured (T : Hooks W) (b : String) (state : Ref) (takePhysical : Bool) :
    Option SnapshotNode → M W (Option String)
  | none => return none
  | some node => commitSnapshot T b state takePhysical node

theorem inOrder_commitSnapshot {b : String} {state : Ref} {takePhysical : Bool} {node : SnapshotNode}
    (hnode : node.isVirtual = false) (hstats : .stats ∉ H) :
    InOrder H (commitSnapshot F.toHooks b state takePhysical node) := by
  unfold commitSnapshot recordSnapshotNode
  refine inOrder_bind (inOrder_updateState hstats fun m hm => hm.recordSnapshotNode hnode) fun _ => ?_
  refine inOrder_bind (inOrder_updateStateEmit hstats fun m hm => hm.modifyRecord state _) fun _ => ?_
  refine inOrder_bind (inOrder_updateState hstats fun m hm => hm.advanceLiveBase b node.snapshotId) fun _ => ?_
  exact inOrder_bind (inOrder_poke fun m hm => hm.congr rfl rfl rfl) fun _ => inOrder_ret _

include hF hH

theorem inOrder_snapshotBranch {b : String} {forcePhysical : Bool} :
    InOrder H (snapshotBranch F.toHooks b forcePhysical) := by
  unfold snapshotBranch
  refine inOrder_bind (inOrder_getBranchState hH.stats) fun state => ?_
  refine inOrder_bind inOrder_announce fun _ => ?_
  refine Disciplined.withLock (hH.operation state) ?_
  have hstate : .state ∉ .operation state :: H := by simp [hH.state]
  have hstats : .stats ∉ .operation state :: H := by simp [hH.stats]
  refine inOrder_bind (inOrder_readState hstats) fun seen => ?_
  cases seen with
  | none => exact inOrder_ret _
  | some seen =>
    obtain ⟨parentId, cumulativeExecTime, replayCommands⟩ := seen
    -- the decider always asks for a physical snapshot
    have hphysical : InOrder (.operation state :: H)
        (capturePhysical F.toHooks b state parentId >>= commitCaptured F.toHooks b state true) := by
      have hnode : Disciplined (.operation state :: H) (capturePhysical F.toHooks b state parentId)
          fun r => ∀ node, r = .ok (some node) → node.isVirtual = false := by
        unfold capturePhysical
        refine disciplined_bind inOrder_announce (fun _ _ => ?_) (by simp)
        refine disciplined_bind (hF.coreSnapshot b _ hstate hstats) (fun captured _ => ?_) (by simp)
        obtain ⟨snapshotId, elapsed⟩ := captured
        cases snapshotId with
        | none => exact disciplined_ret (by simp)
        | some snapshotId =>
          refine disciplined_bind (inOrder_addEntry hstats) (fun _ _ => ?_) (by simp)
          refine disciplined_ret fun node hnode => ?_
          obtain rfl := Option.some.inj (Except.ok.inj hnode)
          rfl
      refine hnode.bind fun node hkind => ?_
      cases node with
      | none => exact inOrder_ret _
      | some node => exact inOrder_commitSnapshot (hkind node rfl) hstats
    cases forcePhysical <;> exact hphysical

omit hF hH in
theorem inOrder_logCommand {b : String} {state : Ref} {command : Command} {elapsed counted : ℚ}
    (hstats : .stats ∉ H) : InOrder H (logCommand b state command elapsed counted : M W Unit) :=
  inOrder_bind (disciplined_withState hstats fun _ hm => ⟨hm.modifyRecord state _, trivial⟩) fun _ =>
    inOrder_addEntry hstats

theorem inOrder_execBranch {b : String} {command : Command} {timeout : Option ℚ} :
    InOrder H (execBranch F.toHooks b command timeout) := by
  unfold execBranch
  refine inOrder_bind (inOrder_getBranchState hH.stats) fun state => ?_
  refine inOrder_bind inOrder_announce fun _ => ?_
  refine Disciplined.withLock (hH.operation state) ?_
  have hstate : .state ∉ .operation state :: H := by simp [hH.state]
  have hstats : .stats ∉ .operation state :: H := by simp [hH.stats]
  refine inOrder_bind (inOrder_readState hstats) fun active => ?_
  split
  · refine inOrder_bind (hF.time _ hstate hstats) fun start => ?_
    refine inOrder_bind inOrder_announce fun _ => ?_
    refine inOrder_bind (inOrder_attempt (hF.coreExec command timeout b _ hstate hstats)) fun result => ?_
    refine inOrder_bind (hF.time _ hstate hstats) fun stop => ?_
    cases result with
    | error e => exact inOrder_bind (inOrder_logCommand hstats) fun _ => inOrder_ret _
    | ok r => exact inOrder_bind (inOrder_logCommand hstats) fun _ => inOrder_ret _
  · exact inOrder_ret _

theorem inOrder_copyBranch {b hostPath envPath : String} {into : Bool} :
    InOrder H (copyBranch F.toHooks b hostPath envPath into) := by
  unfold copyBranch
  refine inOrder_bind (inOrder_getBranchState hH.stats) fun state => ?_
  refine inOrder_bind inOrder_announce fun _ => ?_
  refine Disciplined.withLock (hH.operation state) ?_
  have hstate : .state ∉ .operation state :: H := by simp [hH.state]
  have hstats : .stats ∉ .operation state :: H := by simp [hH.stats]
  refine inOrder_bind (inOrder_readState hstats) fun target => ?_
  cases target with
  | none => exact inOrder_ret _
  | some target =>
    refine inOrder_bind (hF.time _ hstate hstats) fun start => ?_
    refine inOrder_bind inOrder_announce fun _ => ?_
    refine inOrder_bind (inOrder_attempt (hF.coreCopy b hostPath envPath into _ hstate hstats)) fun result => ?_
    cases result with
    | error e => exact inOrder_ret _
    | ok r =>
      refine inOrder_bind (hF.time _ hstate hstats) fun stop => ?_
      exact inOrder_bind (inOrder_addEntry hstats) fun _ => inOrder_ret _

omit hH in
/-- `restore` replays nothing, so the only operation locks it requests are those of the departing
branch. -/
theorem inOrder_restore {s : String} : InOrder [] (restore F.toHooks s) := by
  refine Disciplined.withLock (.nil _) ?_
  unfold restoreCurrentBranch
  refine inOrder_bind (inOrder_getBranchState (by simp)) fun departing => ?_
  refine Disciplined.withLock (outer_current.operation departing) ?_
  have hstats : .stats ∉ [Lock.operation departing, .currentBranch] := by simp
  have hwalk : Disciplined [.operation departing, .currentBranch]
      (readState (·.physicalAncestor s) : M W _)
      fun r => ∀ node commands, r = .ok (.ok (node, commands)) → commands = [] := by
    refine disciplined_readState hstats fun _ hm node commands hr => ?_
    exact (hm.physicalAncestor (Except.ok.inj hr)).2
  refine hwalk.bind fun walk hempty => ?_
  cases walk with
  | error e => exact inOrder_ret _
  | ok found =>
    obtain ⟨ancestor, commands⟩ := found
    obtain rfl := hempty ancestor commands rfl
    have hrestore : InOrder [.operation departing, .currentBranch]
        (F.coreRestore ancestor.snapshotId departing.id) :=
      inOrder_coreRestore hF (by simp) (by simp)
    refine inOrder_bind hrestore fun result => ?_
    obtain ⟨success, elapsed⟩ := result
    dsimp only
    split
    · unfold finishRestore getCurrentBranchId replay
      refine inOrder_bind (inOrder_readState hstats) fun active => ?_
      refine inOrder_bind (inOrder_addEntry hstats) fun _ => ?_
      refine inOrder_bind (inOrder_ret ()) fun _ => ?_
      exact inOrder_bind (inOrder_setBranchPosition hstats) fun _ => inOrder_ret _
    · exact inOrder_ret _

omit hF hH in
/-- The inherited operations run a template on the current branch. -/
theorem inOrder_onCurrent {α : Type} {p : String → M W α} (hp : ∀ b, InOrder [.currentBranch] (p b)) :
    InOrder [] (withLock .currentBranch (getCurrentBranchId >>= p)) :=
  Disciplined.withLock (.nil _) (inOrder_bind (inOrder_readState (by simp)) hp)

end EnvironmentManager

namespace ForkableEnvironmentManager

open EnvironmentManager

variable {W : Type} {F : ForkHooks W} (hF : HooksConduct F)

theorem inOrder_onKeyError {α : Type} {p : M W α} {a : α} (hp : InOrder [] p) :
    InOrder [] (onKeyError p a) := by
  refine inOrder_andThen hp fun r => ?_
  cases r with
  | ok a => exact inOrder_ret _
  | error e =>
    dsimp only
    split
    · exact inOrder_ret _
    · exact inOrder_throw _

/-- A named operation runs a template if the branch is live. -/
theorem inOrder_named {α : Type} {b : String} {p : M W α} {a a' : α} (hp : InOrder [] p) :
    InOrder [] (do if ← isLive b then onKeyError p a else return a' : M W α) := by
  refine inOrder_bind (inOrder_readState (by simp)) fun live => ?_
  split
  · exact inOrder_onKeyError hp
  · exact inOrder_ret _

include hF

/-- Every public operation requests its locks in the order. -/
theorem inOrder_prog (op : PublicOp) : InOrder [] (PublicOp.prog F op) := by
  cases op with
  | snapshot => exact inOrder_map (inOrder_onCurrent fun b => inOrder_snapshotBranch hF outer_current)
  | restore s => exact inOrder_map (inOrder_restore hF)
  | execCommand c t => exact inOrder_map (inOrder_onCurrent fun b => inOrder_execBranch hF outer_current)
  | copyIn h p => exact inOrder_map (inOrder_onCurrent fun b => inOrder_copyBranch hF outer_current)
  | copyOut p h => exact inOrder_map (inOrder_onCurrent fun b => inOrder_copyBranch hF outer_current)
  | cleanup =>
    refine inOrder_map (Disciplined.withLock (.nil _) ?_)
    refine inOrder_bind (hF.coreCleanup _ (by simp) (by simp)) fun ok => ?_
    exact inOrder_bind (inOrder_poke fun m hm => hm.congr rfl rfl rfl) fun _ => inOrder_ret _
  | listSnapshots => exact inOrder_map (inOrder_readState (by simp))
  | printSnapshotTree limit =>
    exact inOrder_map (disciplined_tryState (by simp) fun m hm => ⟨hm, trivial⟩)
  | currentSnapshot =>
    refine inOrder_map (Disciplined.withLock (.nil _) ?_)
    exact inOrder_bind (inOrder_getBranchState (by simp)) fun state => inOrder_peek
  | currentBranchId => exact inOrder_map (inOrder_readState (by simp))
  | statsLog => exact inOrder_map (Disciplined.withLock (.nil _) inOrder_peek)
  | snapshotBranch b park =>
    refine inOrder_map ?_
    unfold snapshotBranch
    split
    · exact inOrder_parkBranch hF
    · exact inOrder_named (inOrder_snapshotBranch hF outer_nil)
  | execOnBranch b c t => exact inOrder_map (inOrder_named (inOrder_execBranch hF outer_nil))
  | copyInBranch b h p => exact inOrder_map (inOrder_named (inOrder_copyBranch hF outer_nil))
  | copyOutBranch b p h => exact inOrder_map (inOrder_named (inOrder_copyBranch hF outer_nil))
  | fork s n ids => exact inOrder_map (inOrder_fork hF)
  | discardBranch b =>
    exact inOrder_map (Disciplined.withLock (.nil _) (inOrder_discardBranchBody hF (by simp)))
  | parkBranch b => exact inOrder_map (inOrder_parkBranch hF)
  | listBranches => exact inOrder_map (conduct_listBranches hF [] (by simp) (by simp))
  | liveBranches => exact inOrder_map (inOrder_readState (by simp))

theorem inOrder_client (op : PublicOp) : InOrder [] (client F op) :=
  inOrder_bind (inOrder_attempt (inOrder_prog hF op)) fun _ => inOrder_announce

/-- Operations that run one after the other keep the registries regular. -/
theorem regular_runOps (ops : List PublicOp) {s : Sys W} (hs : Regular s.mgr) :
    Regular (runOps F ops s).mgr := by
  induction ops generalizing s with
  | nil => exact hs
  | cons op ops ih =>
    have hop := inOrder_prog hF op [] ⟨s, []⟩ trivial
    obtain ⟨_, _, _, hvalid, -⟩ := hop.run (fun _ _ => trivial) (fun _ _ => trivial) hs
    exact ih hvalid

end ForkableEnvironmentManager

open ForkableEnvironmentManager in
/-- Any number of threads call any public operations: every request for a lock is admissible, so no set of
threads ever waits for itself. -/
theorem deadlock_free {W : Type} (F : ForkHooks W) (hF : HooksConduct F) (s : Sys W) (hs : Regular s.mgr)
    {c : Config (Sys W) Lock Event PyError Unit}
    (h : Config.Reach (fun p => ∃ op, p = client F op) Lock.reentrant s c) :
    (∀ t l, c.Requests t l → Admissible (c.thread t).held l) ∧
      ∀ S, ¬ c.Deadlocked Lock.reentrant S := by
  have hR := lockProtocol_coherent W
  have hsafe : c.Safe (lockProtocol W) := by
    refine Config.safe_reach hR ?_ hs (fun _ => trivial) h
    rintro p ⟨op, rfl⟩ s
    exact (inOrder_client hF op [] s trivial).mono fun _ _ _ _ hq => hq.1
  have hacq : ∀ t l, c.Requests t l → Admissible (c.thread t).held l := fun t l hl => hsafe.acq hR hl
  refine ⟨hacq, fun S => ?_⟩
  exact Config.not_deadlocked hsafe.owner (fun t l hl => (hacq t l hl).ordered) Lock.rank_le S

/-! ### Backends that refresh the registry in their snapshot hook -/

namespace ForkableBackend

open EnvironmentManager ForkableEnvironmentManager

variable {W : Type} (B : ForkableBackend W)

theorem conduct_tryWorld {α : Type} (g : W → Except PyError α × W) (events : Except PyError α → List Event) :
    Conduct (tryWorld g events : M W α) :=
  fun _ _ _ => inOrder_tryWorld

theorem conduct_register (captured : Option (String × String) × ℚ) :
    Conduct (register captured : M W (Option String × ℚ)) := by
  intro H _ hstats
  obtain ⟨_ | ⟨snapshotId, resource⟩, elapsed⟩ := captured
  · exact inOrder_ret _
  · exact inOrder_bind (inOrder_updateState hstats fun m hm => hm.congr rfl rfl rfl) fun _ => inOrder_ret _

theorem hooksWith_conduct {refresh : M W Unit} (hrefresh : Conduct refresh) :
    HooksConduct (B.hooksWith refresh) where
  coreSnapshot b H hstate hstats := by
    refine inOrder_bind inOrder_tryWorld fun captured => ?_
    refine inOrder_bind (conduct_register captured H hstate hstats) fun result => ?_
    dsimp only
    split
    · exact inOrder_bind (hrefresh H hstate hstats) fun _ => inOrder_ret _
    · exact inOrder_ret _
  coreCleanup := conduct_tryWorld B.cleanup fun _ => []
  coreExec command timeout b := conduct_tryWorld (B.exec command timeout b) fun _ => []
  coreCopy b hostPath envPath into := conduct_tryWorld (B.copy b hostPath envPath into) fun _ => []
  coreFork s ids := conduct_tryWorld (B.fork s ids) forkedEvents
  coreDiscardBranch b := conduct_tryWorld (B.discard b) (discardedEvents b)
  coreParkBranch b H hstate hstats :=
    inOrder_bind inOrder_tryWorld fun captured => conduct_register captured H hstate hstats
  coreListBranches := conduct_tryWorld B.list ForkableBackend.fetchedEvents
  time _ _ _ := inOrder_world
  uuid4Hex _ _ _ := inOrder_world

theorem hooks_conduct : HooksConduct B.hooks := by
  refine B.hooksWith_conduct fun H hstate hstats => ?_
  have hidle : Conduct (pure () : M W Unit) := fun _ _ _ => inOrder_ret _
  unfold refresh
  split
  · exact inOrder_bind (conduct_listBranches (B.hooksWith_conduct hidle) H hstate hstats) fun _ => inOrder_ret _
  · exact inOrder_ret _

end ForkableBackend

open ForkableEnvironmentManager in
/-- A listing holds the registry lock. A restore waits for it and holds the lock of the current branch, for which a command
waits. -/
def waiting : List (Config.Move (Sys Fleet) Lock Event PyError Unit) :=
  .start 2 (client (Fleet.backend true).hooks .listBranches) :: .run 2 ::
    .start 0 (client (Fleet.backend true).hooks (.restore "base")) :: List.replicate 9 (.run 0) ++
    [.start 1 (client (Fleet.backend true).hooks (.execCommand (.line "make") none))]

open ForkableEnvironmentManager in
theorem deadlock_free_waiting :
    ∃ c : Config (Sys Fleet) Lock Event PyError Unit,
      c.Requests 1 .currentBranch ∧ c.owner .currentBranch = some 0 ∧
      c.Requests 0 .branchRegistry ∧ c.owner .branchRegistry = some 2 ∧
      (∀ t l, c.Requests t l → Admissible (c.thread t).held l) ∧ ∀ S, ¬ c.Deadlocked Lock.reentrant S := by
  have hmenu : ∀ t p, Config.Move.start t p ∈ waiting → ∃ op, p = client (Fleet.backend true).hooks op := by
    intro t p hp
    simp only [waiting, List.mem_cons, List.mem_append, List.mem_replicate, Config.Move.start.injEq, reduceCtorEq,
      and_false, or_false, false_or, List.not_mem_nil] at hp
    rcases hp with (⟨-, rfl⟩ | ⟨-, rfl⟩) | ⟨-, rfl⟩
    · exact ⟨.listBranches, rfl⟩
    · exact ⟨.restore "base", rfl⟩
    · exact ⟨.execCommand (.line "make") none, rfl⟩
  let q : Config (Sys Fleet) Lock Event PyError Unit → Bool := fun c => decide
    (c.request 1 = some .currentBranch ∧ c.owner .currentBranch = some 0 ∧
      c.request 0 = some .branchRegistry ∧ c.owner .branchRegistry = some 2)
  have hplay : (Config.play Lock.reentrant waiting { state := Fleet.start ["3f2a"] [] }).any q = true := by
    decide +kernel
  obtain ⟨c, hc, hq⟩ := Config.exists_reach_of_play hmenu hplay
  obtain ⟨hcommand, hcurrent, hrestore, hregistry⟩ := of_decide_eq_true hq
  obtain ⟨hadmissible, hfree⟩ :=
    deadlock_free _ (Fleet.backend true).hooks_conduct (Fleet.start ["3f2a"] []) (Regular.seeded "base" "base") hc
  exact ⟨c, Config.requests_iff.mpr hcommand, hcurrent, Config.requests_iff.mpr hrestore, hregistry, hadmissible, hfree⟩

end StateFork
