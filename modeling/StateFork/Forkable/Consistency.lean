import StateFork.Lib.Run
import StateFork.Forkable.Updates

/-!
# The registries are consistent

Two dictionaries and a pointer name branches: the records, the live registry and the current branch. `Consistent`
says that the default branch, the current branch and every live branch have records, and that the graph contains
the children it names. Every update keeps it, although a listing rewrites the live registry wholesale: it
registers what it lists, and spares the default and the current branch when it drops records. So no lookup
of a template ever fails.
-/

namespace StateFork

open Conc Conc.Prog

namespace Manager

variable {m : Manager} {b b' : String}

/-! ### Which branches have records -/

theorem mem_keys_registerBranch {base : Option String} :
    b' ∈ (m.registerBranch b base).2.branches.keys ↔ b' = b ∨ b' ∈ m.branches.keys := by
  unfold registerBranch
  cases hb : m.branches.get? b with
  | some r =>
    refine ⟨.inr, ?_⟩
    rintro (rfl | h)
    · exact Dict.mem_keys_of_get? hb
    · exact h
  | none => exact Dict.mem_keys_set

theorem mem_keys_setBranchPosition {snapshotId : Option String} :
    b' ∈ (m.setBranchPosition b snapshotId).branches.keys ↔ b' = b ∨ b' ∈ m.branches.keys :=
  mem_keys_registerBranch

theorem mem_keys_reconcile {r : Ref} : b ∈ (m.reconcile r).branches.keys ↔ b = r.id ∨ b ∈ m.branches.keys := by
  unfold reconcile
  dsimp only
  generalize (if (m.liveObject r).baseSnapshotId = "" then none else some (m.liveObject r).baseSnapshotId) = base
  split_ifs
  · exact mem_keys_registerBranch
  · rw [mem_keys_setBranchPosition, mem_keys_registerBranch]
    tauto

theorem mem_keys_removeBranch : b' ∈ (m.removeBranch b).branches.keys ↔ b' ≠ b ∧ b' ∈ m.branches.keys := by
  unfold removeBranch
  cases hb : m.branches.get? b with
  | some r => exact Dict.mem_keys_erase
  | none =>
    refine ⟨fun h => ⟨?_, h⟩, And.right⟩
    rintro rfl
    exact Dict.get?_eq_none_iff.mp hb h

theorem mem_keys_dropStale :
    b' ∈ (m.dropStale b).branches.keys ↔
      b' ∈ m.branches.keys ∧ (b' = b → b = defaultBranchId ∨ b = m.currentBranchId) := by
  unfold dropStale
  split_ifs with hspared
  · exact ⟨fun h => ⟨h, fun _ => hspared⟩, And.left⟩
  · rw [mem_keys_removeBranch]
    tauto

@[simp] theorem currentBranchId_removeBranch : (m.removeBranch b).currentBranchId = m.currentBranchId := by
  unfold removeBranch
  split <;> rfl

@[simp] theorem liveBranches_removeBranch : (m.removeBranch b).liveBranches = m.liveBranches := by
  unfold removeBranch
  split <;> rfl

@[simp] theorem snapshotGraph_removeBranch : (m.removeBranch b).snapshotGraph = m.snapshotGraph := by
  unfold removeBranch
  split <;> rfl

@[simp] theorem currentBranchId_commit (m : Manager) (b : String) (state : Ref) (node : SnapshotNode) :
    (m.commit b state node).currentBranchId = m.currentBranchId := by
  unfold commit advanceLiveBase
  dsimp only
  split <;> rfl

@[simp] theorem liveBranches_setBranchPosition {snapshotId : Option String} :
    (m.setBranchPosition b snapshotId).liveBranches = m.liveBranches :=
  m.liveBranches_registerBranch b snapshotId

/-- What dropping stale records leaves alone. -/
theorem dropStale_frame (m : Manager) (b : String) :
    (m.dropStale b).currentBranchId = m.currentBranchId ∧ (m.dropStale b).liveBranches = m.liveBranches ∧
      (m.dropStale b).snapshotGraph = m.snapshotGraph := by
  unfold dropStale
  split_ifs
  · exact ⟨rfl, rfl, rfl⟩
  · exact ⟨currentBranchId_removeBranch, liveBranches_removeBranch, snapshotGraph_removeBranch⟩

theorem foldl_dropStale (stale : List String) (m : Manager) :
    (∀ b, b ∈ (stale.foldl dropStale m).branches.keys ↔
        b ∈ m.branches.keys ∧ (b ∈ stale → b = defaultBranchId ∨ b = m.currentBranchId)) ∧
      (stale.foldl dropStale m).currentBranchId = m.currentBranchId ∧
      (stale.foldl dropStale m).liveBranches = m.liveBranches ∧
      (stale.foldl dropStale m).snapshotGraph = m.snapshotGraph := by
  induction stale generalizing m with
  | nil => simp
  | cons b₀ stale ih =>
    obtain ⟨hcurrent, hlive, hgraph⟩ := m.dropStale_frame b₀
    obtain ⟨hkeys, hcurrent', hlive', hgraph'⟩ := ih (m.dropStale b₀)
    refine ⟨fun b => ?_, hcurrent'.trans hcurrent, hlive'.trans hlive, hgraph'.trans hgraph⟩
    rw [List.foldl_cons, hkeys, mem_keys_dropStale, hcurrent, List.mem_cons]
    constructor
    · rintro ⟨⟨hb, hfirst⟩, hrest⟩
      refine ⟨hb, ?_⟩
      rintro (rfl | hmem)
      · exact hfirst rfl
      · exact hrest hmem
    · rintro ⟨hb, hspared⟩
      exact ⟨⟨hb, fun he => he ▸ hspared (.inl he)⟩, fun hmem => hspared (.inr hmem)⟩

theorem foldl_reconcile (refs : List Ref) (m : Manager) :
    (∀ b, b ∈ (refs.foldl reconcile m).branches.keys ↔ b ∈ refs.map Ref.id ∨ b ∈ m.branches.keys) ∧
      (refs.foldl reconcile m).liveBranches = m.liveBranches ∧
      (refs.foldl reconcile m).liveObjects = m.liveObjects := by
  induction refs generalizing m with
  | nil => simp
  | cons r refs ih =>
    obtain ⟨hkeys, hlive, hobjects⟩ := ih (m.reconcile r)
    obtain ⟨hobjects₀, hlive₀, -⟩ := m.reconcile_frame r
    refine ⟨fun b => ?_, hlive.trans hlive₀, hobjects.trans hobjects₀⟩
    rw [List.foldl_cons, hkeys, mem_keys_reconcile, List.map_cons, List.mem_cons]
    tauto

/-- What a listing leaves registered and live. -/
theorem relist_spec (m : Manager) (listing : List EnvironmentBranch) :
    (∀ b, b ∈ (m.relist listing).branches.keys ↔ b ∈ listing.map EnvironmentBranch.id ∨
        (b ∈ m.branches.keys ∧ (b ∈ m.liveBranches.keys → b = defaultBranchId ∨ b = m.currentBranchId))) ∧
      (∀ b, b ∈ (m.relist listing).liveBranches.keys ↔ b ∈ listing.map EnvironmentBranch.id) ∧
      (m.relist listing).currentBranchId = m.currentBranchId ∧
      (m.relist listing).snapshotGraph = m.snapshotGraph := by
  have ha := adopted_newLiveObjects m listing
  unfold relist
  dsimp only
  set refs := (newLiveObjects listing m).1
  set m₁ := (newLiveObjects listing m).2
  have hm₁ : m₁.branches = m.branches ∧ m₁.liveBranches = m.liveBranches ∧
      m₁.currentBranchId = m.currentBranchId ∧ m₁.snapshotGraph = m.snapshotGraph := by
    rw [ha.rest]
    exact ⟨rfl, rfl, rfl, rfl⟩
  obtain ⟨hbranches, hlive, hcurrent, hgraph⟩ := hm₁
  set m₂ := refs.foldl reconcile (m₁.replaceLive refs) with hm₂
  have hgrows : Grows (m₁.replaceLive refs) m₂ := Grows.foldl Grows.reconcile refs _
  obtain ⟨hkeys₂, hlive₂, -⟩ := foldl_reconcile refs (m₁.replaceLive refs)
  obtain ⟨hkeys, hcurrent₃, hlive₃, hgraph₃⟩ :=
    foldl_dropStale (m₁.liveBranches.keys.filter fun b => b ∉ refs.map Ref.id) m₂
  have hcurrent₂ : m₂.currentBranchId = m.currentBranchId := hgrows.current.trans hcurrent
  refine ⟨fun b => ?_, fun b => ?_, hcurrent₃.trans hcurrent₂, hgraph₃.trans (hgrows.graph.trans hgraph)⟩
  · have hreplaced : (m₁.replaceLive refs).branches = m.branches := hbranches
    rw [hkeys, hkeys₂, hreplaced, hcurrent₂, hlive, ha.ids]
    simp only [List.mem_filter, decide_eq_true_eq]
    tauto
  · rw [hlive₃, hlive₂]
    show b ∈ (Dict.ofList (refs.map fun r => (r.id, r))).keys ↔ _
    rw [Dict.mem_keys_ofList, List.map_map, ← ha.ids]
    rfl

end Manager

/-! ### The registries of records and of live branches -/

namespace Regular

variable {m : Manager}

theorem setBranchPosition (h : Regular m) (b : String) (snapshotId : Option String) :
    Regular (m.setBranchPosition b snapshotId) :=
  (h.registerBranch b snapshotId).modifyRecord _ _

theorem reconcile (h : Regular m) (r : Ref) : Regular (m.reconcile r) := by
  unfold Manager.reconcile
  dsimp only
  generalize (if (m.liveObject r).baseSnapshotId = "" then none else some (m.liveObject r).baseSnapshotId) = base
  split_ifs
  · exact h.registerBranch _ _
  · exact (h.registerBranch _ _).setBranchPosition _ _

theorem dropStale (h : Regular m) (b : String) : Regular (m.dropStale b) := by
  unfold Manager.dropStale
  split_ifs
  · exact h
  · exact h.removeBranch b

theorem foldl {α : Type} {f : Manager → α → Manager} (hf : ∀ m a, Regular m → Regular (f m a)) (l : List α)
    (h : Regular m) : Regular (l.foldl f m) := by
  induction l generalizing m with
  | nil => exact h
  | cons a l ih => exact ih (hf m a h)

theorem relist (h : Regular m) (listing : List EnvironmentBranch) : Regular (m.relist listing) := by
  have ha := Manager.adopted_newLiveObjects m listing
  have hadopted : Regular (Manager.newLiveObjects listing m).2 := by
    rw [ha.rest]
    exact h.congr rfl rfl rfl
  have hreplaced : Regular ((Manager.newLiveObjects listing m).2.replaceLive (Manager.newLiveObjects listing m).1) :=
    hadopted.congr rfl rfl rfl
  exact foldl (fun m b => dropStale (b := b)) _ (foldl (fun m r hm => hm.reconcile r) _ hreplaced)

theorem forget (h : Regular m) (b : String) : Regular (m.forget b) := by
  have herased : Regular { m with liveBranches := m.liveBranches.erase b } := h.congr rfl rfl rfl
  exact herased.removeBranch b

theorem commit (h : Regular m) (b : String) (state : Ref) {node : SnapshotNode} (hnode : node.isVirtual = false) :
    Regular (m.commit b state node) := by
  have hmoved : Regular ((m.recordSnapshotNode node).modifyRecord state fun r =>
      { BranchState.positionedAt (some node.snapshotId) with active := r.active }) :=
    (h.recordSnapshotNode hnode).modifyRecord _ _
  exact (hmoved.advanceLiveBase b node.snapshotId).congr rfl rfl rfl

end Regular

/-- The graph contains the children that it names. -/
def ClosedGraph (graph : Dict String SnapshotNode) : Prop :=
  ∀ id node, graph.get? id = some node → node.children ⊆ graph.keys

theorem ClosedGraph.recordNode {graph : Dict String SnapshotNode} (h : ClosedGraph graph) {node : SnapshotNode}
    (hnode : node.children = []) : ClosedGraph (Manager.recordNode graph node) := by
  have hset : ClosedGraph (graph.set node.snapshotId node) := by
    intro id n hn c hc
    rw [Dict.mem_keys_set]
    rw [Dict.get?_set] at hn
    split_ifs at hn
    · obtain rfl := Option.some.inj hn
      rw [hnode] at hc
      exact absurd hc List.not_mem_nil
    · exact .inr (h id n hn hc)
  unfold Manager.recordNode
  dsimp only
  split
  · exact hset
  · split_ifs
    · exact hset
    · split
      · exact hset
      · next p parent hparent =>
        split_ifs
        · exact hset
        · intro id n hn c hc
          rw [Dict.keys_set_of_mem (Dict.mem_keys_of_get? hparent)]
          rw [Dict.get?_set] at hn
          split_ifs at hn with hid
          · obtain rfl := Option.some.inj hn
            rcases List.mem_append.mp hc with hc | hc
            · exact hset _ _ hparent hc
            · rw [List.mem_singleton.mp hc]
              exact Dict.mem_keys_set.mpr (.inl rfl)
          · exact hset id n hn hc

structure Consistent (m : Manager) : Prop where
  regular : Regular m
  main : defaultBranchId ∈ m.branches.keys
  current : m.currentBranchId ∈ m.branches.keys
  live : LiveRegistered m
  graph : ClosedGraph m.snapshotGraph

namespace Consistent

variable {m m' : Manager} {restoring : Bool}

/-- An update of other fields. -/
theorem congr (h : Consistent m) (hregular : Regular m') (hbranches : m'.branches = m.branches)
    (hlive : m'.liveBranches = m.liveBranches) (hcurrent : m'.currentBranchId = m.currentBranchId)
    (hgraph : ClosedGraph m'.snapshotGraph) : Consistent m' where
  regular := hregular
  main := by
    rw [hbranches]
    exact h.main
  current := by
    rw [hcurrent, hbranches]
    exact h.current
  live := h.live.congr hlive hbranches
  graph := hgraph

/-- An update that forgets no record, and keeps the current branch and the graph. -/
theorem of_grows (h : Consistent m) (hregular : Regular m') (hgrows : Grows m m') (hlive : LiveRegistered m') :
    Consistent m' where
  regular := hregular
  main := hgrows.mem_keys h.main
  current := by
    rw [hgrows.current]
    exact hgrows.mem_keys h.current
  live := hlive
  graph := by
    rw [hgrows.graph]
    exact h.graph

theorem relist (h : Consistent m) (listing : List EnvironmentBranch) : Consistent (m.relist listing) := by
  obtain ⟨hkeys, hlive, hcurrent, hgraph⟩ := m.relist_spec listing
  constructor
  case regular => exact h.regular.relist listing
  case main => exact (hkeys _).mpr (.inr ⟨h.main, fun _ => .inl rfl⟩)
  case current =>
    rw [hcurrent]
    exact (hkeys _).mpr (.inr ⟨h.current, fun _ => .inr rfl⟩)
  case live => exact fun b hb => (hkeys b).mpr (.inl ((hlive b).mp hb))
  case graph =>
    rw [hgraph]
    exact h.graph

theorem mem_keys_forget {b b' : String} : b' ∈ (m.forget b).branches.keys ↔ b' ≠ b ∧ b' ∈ m.branches.keys :=
  Manager.mem_keys_removeBranch

theorem switch (h : Consistent m) {b : String} (hb : b ∈ m.branches.keys) : Consistent (m.switch b) :=
  { h with regular := h.regular.congr rfl rfl rfl, current := hb }

theorem update (h : Consistent m) (hupdate : Manager.Update restoring m m') : Consistent m' := by
  cases hupdate with
  | bench stats => exact h.congr (h.regular.congr rfl rfl rfl) rfl rfl rfl h.graph
  | cleaned => exact h.congr (h.regular.congr rfl rfl rfl) rfl rfl rfl h.graph
  | logged r command counted => exact h.congr (h.regular.modifyRecord _ _) rfl rfl rfl h.graph
  | registered snapshotId resource => exact h.congr (h.regular.congr rfl rfl rfl) rfl rfl rfl h.graph
  | listed listing => exact h.relist listing
  | forked outcome active =>
    exact h.of_grows (h.regular.registerOutcome _ _) (Grows.registerOutcome _ _ _)
      (Grows.liveRegistered_registerOutcome h.live _ _)
  | committed b state snapshotId parentId =>
    refine h.congr (h.regular.commit b state rfl) (Manager.branches_commit ..) (Manager.liveBranches_commit ..) ?_ ?_
    · exact Manager.currentBranchId_commit ..
    · rw [Manager.snapshotGraph_commit]
      exact h.graph.recordNode rfl
  | recorded snapshotId parentId =>
    exact h.congr (h.regular.recordSnapshotNode rfl) rfl rfl rfl (h.graph.recordNode rfl)
  | switched registered => exact h.switch registered
  | stashed main notMain =>
    have hstashed := h.switch main
    constructor
    case regular => exact hstashed.regular.forget _
    case main => exact mem_keys_forget.mpr ⟨notMain.symm, h.main⟩
    case current =>
      rw [Manager.currentBranchId_forget]
      exact mem_keys_forget.mpr ⟨notMain.symm, h.main⟩
    case live => exact hstashed.live.forget _
    case graph =>
      rw [Manager.snapshotGraph_forget]
      exact h.graph
  | forgotten notMain notCurrent =>
    constructor
    case regular => exact h.regular.forget _
    case main => exact mem_keys_forget.mpr ⟨notMain.symm, h.main⟩
    case current =>
      rw [Manager.currentBranchId_forget]
      exact mem_keys_forget.mpr ⟨notCurrent.symm, h.current⟩
    case live => exact h.live.forget _
    case graph =>
      rw [Manager.snapshotGraph_forget]
      exact h.graph
  | positioned b snapshotId restores =>
    have hgrows := Grows.setBranchPosition m b (some snapshotId)
    refine h.of_grows (h.regular.setBranchPosition _ _) hgrows fun b' hb' => hgrows.mem_keys (h.live b' ?_)
    rwa [Manager.liveBranches_setBranchPosition] at hb'

theorem init : Consistent Manager.init where
  regular := .init
  main := Dict.mem_keys_set.mpr (.inl rfl)
  current := Dict.mem_keys_set.mpr (.inl rfl)
  live b hb := absurd hb List.not_mem_nil
  graph id node hn := by simp [Manager.init] at hn

/-- A manager that has just started is consistent. -/
theorem seeded (root resource : String) : Consistent (Manager.seeded root resource) := by
  have hregistered : Consistent (Manager.init.registerSnapshotResource root resource) :=
    init.congr (init.regular.congr rfl rfl rfl) rfl rfl rfl init.graph
  constructor
  case regular => exact .seeded root resource
  case main => exact hregistered.main
  case current => exact hregistered.current
  case live =>
    intro b hb
    rcases Dict.mem_keys_set.mp hb with rfl | hb
    · exact hregistered.main
    · exact hregistered.live b hb
  case graph => exact hregistered.graph.recordNode rfl

theorem updates (h : Consistent m) (hupdates : Manager.Updates restoring m m') : Consistent m' :=
  hupdates.invariant (fun _ _ hu hm => hm.update hu) h

end Consistent

/-! ### Lookups -/

/-- The outcome is not a `KeyError`. -/
def Unkeyed {α : Type} (r : Except PyError α) : Prop := ∀ e, r = .error e → e.kind ≠ .keyError

theorem Unkeyed.ok {α : Type} (a : α) : Unkeyed (.ok a : Except PyError α) := fun _ h => nomatch h

theorem Unkeyed.of_ne {α : Type} {r : Except PyError α} (h : ∀ e, r ≠ .error e) : Unkeyed r :=
  fun e he => absurd he (h e)

theorem Unkeyed.map {α β : Type} {r : Except PyError α} (h : Unkeyed r) (f : α → β) : Unkeyed (r.map f) := by
  intro e he
  cases r with
  | error e' => exact h e (by cases he; rfl)
  | ok a => cases he

theorem Unkeyed.bind {α β : Type} {r : Except PyError α} {f : α → Except PyError β} (h : Unkeyed r)
    (hf : ∀ a, Unkeyed (f a)) : Unkeyed (r >>= f) := by
  cases r with
  | error e => exact fun e' he => h e' (by cases he; rfl)
  | ok a => exact hf a

theorem Unkeyed.mapM {α β : Type} {f : α → Except PyError β} {l : List α} (h : ∀ a ∈ l, Unkeyed (f a)) :
    Unkeyed (l.mapM f) := by
  induction l with
  | nil => exact .ok []
  | cons a l ih =>
    rw [List.mapM_cons]
    refine (h a (List.mem_cons_self ..)).bind fun b => ?_
    exact (ih fun a' ha' => h a' (List.mem_cons_of_mem _ ha')).bind fun bs => .ok _

/-- Hooks that answer, though arbitrarily. What `_core_exec` and `_core_copy` raise is caught anyway. -/
structure ForkableBackend.Answers {W : Type} (B : ForkableBackend W) : Prop where
  snapshot : ∀ b w e, (B.snapshot b w).1 ≠ .error e
  fork : ∀ id ids w e, (B.fork id ids w).1 ≠ .error e
  discard : ∀ b w e, (B.discard b w).1 ≠ .error e
  park : ∀ b w e, (B.park b w).1 ≠ .error e
  list : ∀ w e, (B.list w).1 ≠ .error e
  cleanup : ∀ w e, (B.cleanup w).1 ≠ .error e

namespace Manager

variable {m : Manager}

theorem treeLines_unkeyed (h : ClosedGraph m.snapshotGraph) (limit : Nat) {snapshot indent : String}
    (hmem : snapshot ∈ m.snapshotGraph.keys) : Unkeyed (m.treeLines limit snapshot indent) := by
  induction limit generalizing snapshot indent with
  | zero =>
    rintro e he
    cases he
    simp
  | succ limit ih =>
    obtain ⟨node, hnode⟩ := Dict.mem_keys_iff.mp hmem
    unfold treeLines
    rw [hnode]
    exact (Unkeyed.mapM fun child hchild => ih (h snapshot node hnode hchild)).bind fun below => .ok _

theorem printSnapshotTree_unkeyed (h : ClosedGraph m.snapshotGraph) (limit : Nat) :
    Unkeyed (m.printSnapshotTree limit) := by
  unfold printSnapshotTree
  dsimp only
  split_ifs
  · exact .ok _
  · refine (Unkeyed.mapM fun root hroot => treeLines_unkeyed h limit ?_).bind fun below => .ok _
    obtain ⟨entry, hentry, rfl⟩ := List.mem_map.mp hroot
    exact List.mem_map_of_mem (List.mem_of_mem_filter hentry)

theorem getBranchState_of_mem {b : Option String} (h : b.getD m.currentBranchId ∈ m.branches.keys) :
    ∃ r, m.getBranchState b = .ok r := by
  obtain ⟨r, hr⟩ := Dict.mem_keys_iff.mp h
  exact ⟨r, by simp only [getBranchState, hr]⟩

end Manager

namespace ForkableBackend

open EnvironmentManager ForkableEnvironmentManager

variable {W : Type} {B : ForkableBackend W} {s : Sys W}

theorem onKeyError_unkeyed {α : Type} (p : M W α) (a : α) : Unkeyed ((onKeyError p a).run s).1 := by
  unfold onKeyError Prog.tryCatch
  rw [run_andThen]
  rcases (p.run s).1 with e | r
  · dsimp only
    split_ifs with hkind
    · exact .ok a
    · rintro e' he
      cases he
      exact hkind
  · exact .ok r

theorem listBranches_unkeyed (hB : B.Answers) (refresh : M W Unit) :
    Unkeyed ((listBranches (B.hooksWith refresh)).run s).1 :=
  .of_ne fun e he => hB.list _ _ ((B.run_listBranches refresh s).2 e he)

theorem coreSnapshot_answers (hB : B.Answers) (b : String) (e : PyError) :
    ((B.hooks.coreSnapshot b).run s).1 ≠ .error e := by
  have hrefresh (s : Sys W) : (B.refresh.run s).1 = .ok () := by
    unfold refresh
    split_ifs
    · rw [run_bind_eq]
      rcases hl : ((listBranches (B.hooksWith (pure ()))).run s).1 with e | l
      · exact absurd ((B.run_listBranches _ s).2 e hl) (hB.list _ e)
      · rfl
    · rfl
  simp only [hooks, hooksWith, run_bind, run_tryWorld]
  rcases hs : B.snapshot b s.world with ⟨e' | ⟨_ | captured, elapsed⟩, w⟩
  · exact absurd (congrArg Prod.fst hs) (hB.snapshot b s.world e')
  · simp [register]
  · simp only [register, EnvironmentManager.registerSnapshotResource, run_afterValue_ok, run_bind, run_updateState,
      run_pure, Option.isSome_some, if_true, hrefresh]
    simp

theorem snapshotBranch_unkeyed (hB : B.Answers) {b : String} (hb : b ∈ s.mgr.branches.keys) :
    Unkeyed ((EnvironmentManager.snapshotBranch B.hooks.toHooks b true).run s).1 := by
  have hcase := snapshot_cases B.hooks b s
  generalize (EnvironmentManager.snapshotBranch B.hooks.toHooks b true).run s = x at hcase ⊢
  cases hcase with
  | unregistered lookup => exact absurd hb (Dict.get?_eq_none_iff.mp lookup)
  | retired => exact .ok none
  | raised hook => exact absurd (congrArg Prod.fst hook) (coreSnapshot_answers hB b _)
  | failed => exact .ok none
  | committed => exact .ok _

theorem execBranch_unkeyed {b : String} (hb : b ∈ s.mgr.branches.keys) (command : Command) (timeout : Option ℚ) :
    Unkeyed ((execBranch B.hooks.toHooks b command timeout).run s).1 := by
  obtain ⟨state, hstate⟩ := Manager.getBranchState_of_mem (b := some b) hb
  have htime (s : Sys W) : B.hooks.time.run s = (.ok (B.time s.world).1, { s with world := (B.time s.world).2 }) := rfl
  simp only [execBranch, getBranchState, run_bind, run_tryState, hstate, run_afterValue_ok, run_announce, run_withLock,
    run_readState, ForkHooks.toHooks]
  split
  · simp only [run_bind, htime, run_afterValue_ok, run_announce, run_attempt]
    split
    · simp only [logCommand, run_bind, run_withState, run_afterValue_ok, run_addEntry, run_pure]
      exact .ok _
    · simp only [logCommand, run_bind, run_withState, run_afterValue_ok, run_addEntry, run_pure]
      exact .ok _
  · exact .ok _

theorem copyBranch_unkeyed {b : String} (hb : b ∈ s.mgr.branches.keys) (hostPath envPath : String) (into : Bool) :
    Unkeyed ((copyBranch B.hooks.toHooks b hostPath envPath into).run s).1 := by
  obtain ⟨state, hstate⟩ := Manager.getBranchState_of_mem (b := some b) hb
  have htime (s : Sys W) : B.hooks.time.run s = (.ok (B.time s.world).1, { s with world := (B.time s.world).2 }) := rfl
  simp only [copyBranch, getBranchState, run_bind, run_tryState, hstate, run_afterValue_ok, run_announce, run_withLock,
    run_readState, ForkHooks.toHooks]
  split
  · exact .ok _
  · simp only [run_bind, htime, run_afterValue_ok, run_announce, run_attempt]
    split
    · exact .ok _
    · simp only [run_bind, htime, run_afterValue_ok, run_addEntry, run_pure]
      exact .ok _

theorem materialized_unkeyed (hB : B.Answers) (snapshotId : String) (requestedIds : List (Option String))
    (activate : Bool) : Unkeyed (B.materialized snapshotId requestedIds activate s).1 := by
  unfold materialized
  split
  · next e w hfork => exact absurd (congrArg Prod.fst hfork) (hB.fork _ _ _ e)
  · exact .ok _

theorem discardAnswer_unkeyed (hB : B.Answers) (b : String) : Unkeyed (B.discardAnswer b s).1 := by
  unfold discardAnswer
  split
  · next e w hook => exact absurd (congrArg Prod.fst hook) (hB.discard _ _ e)
  · exact .ok _
  · exact .ok _

theorem discardBranchBody_unkeyed (hB : B.Answers) (b : String) :
    Unkeyed ((discardBranchBody B.hooks b).run s).1 := by
  rw [B.run_discardBranchBody]
  split_ifs
  · exact discardAnswer_unkeyed hB b
  · exact .ok _

theorem parkBranchBody_unkeyed (hB : B.Answers) (b : String) (hmain : defaultBranchId ∈ s.mgr.branches.keys) :
    Unkeyed ((parkBranchBody B.hooks b).run s).1 := by
  have hcase := B.park_cases b hmain
  generalize (parkBranchBody B.hooks b).run s = x at hcase ⊢
  cases hcase with
  | refused => exact .ok none
  | raised hook => exact absurd (congrArg Prod.fst hook) (hB.park _ _ _)
  | failed => exact .ok none
  | parked => exact .ok _

theorem restored_unkeyed (hB : B.Answers) (h : Consistent s.mgr) (snapshotId : String) :
    Unkeyed (B.restored snapshotId s).1 := by
  obtain ⟨departing, hdeparting⟩ := Manager.getBranchState_of_mem (b := none) h.current
  have hleft (restored : String) (s : Sys W) : Unkeyed (B.left departing.id restored s).1 := by
    unfold left
    split_ifs
    · exact (discardAnswer_unkeyed hB departing.id).map _
    · exact .ok ()
    · exact .ok ()
  have hswitched : Unkeyed (B.switched snapshotId departing.id s).1 := by
    unfold switched
    dsimp only
    have hmaterialized := materialized_unkeyed (s := { s with world := (B.time s.world).2 }) hB snapshotId [none] false
    split
    · next he =>
      rw [he] at hmaterialized
      exact fun e' he' => hmaterialized e' (by cases he'; rfl)
    · exact .ok _
    · next branch _ s₁ _ =>
      have hdeparts := hleft branch.id { s₁ with mgr := s₁.mgr.switch branch.id }
      split
      · next he =>
        rw [he] at hdeparts
        exact fun e' he' => hdeparts e' (by cases he'; rfl)
      · exact .ok _
  unfold restored
  rw [hdeparting]
  dsimp only
  split
  · exact .ok false
  · split
    · next he =>
      rw [he] at hswitched
      exact fun e' he' => hswitched e' (by cases he'; rfl)
    · exact .ok false
    · exact .ok true

/-- No public operation raises `KeyError`. -/
theorem prog_unkeyed (hB : B.Answers) (h : Consistent s.mgr) (op : PublicOp) :
    Unkeyed ((PublicOp.prog B.hooks op).run s).1 := by
  have hmap {α : Type} {p : M W α} (hp : Unkeyed (p.run s).1) (f : α → Outcome) : Unkeyed ((f <$> p).run s).1 := by
    rw [run_map]
    exact hp.map f
  have hcurrent {α : Type} {p : String → M W α} (hp : Unkeyed ((p s.mgr.currentBranchId).run s).1) :
      Unkeyed ((withLock .currentBranch (getCurrentBranchId >>= p) : M W α).run s).1 := by
    simpa only [getCurrentBranchId, run_withLock, run_bind, run_readState, run_afterValue_ok] using hp
  have hnamed {α : Type} {b : String} {p : M W α} {a c : α} :
      Unkeyed ((isLive b >>= fun live => if live then onKeyError p a else pure c : M W α).run s).1 := by
    simp only [isLive, run_bind, run_readState, run_afterValue_ok]
    split
    · exact onKeyError_unkeyed p a
    · exact .ok c
  have hpark (b : String) : Unkeyed ((Outcome.snapshotId <$> parkBranch B.hooks b).run s).1 := by
    rw [run_map, parkBranch, run_withLock]
    exact (parkBranchBody_unkeyed hB b h.main).map _
  cases op with
  | snapshot => exact hmap (hcurrent (snapshotBranch_unkeyed hB h.current)) _
  | restore id =>
    show Unkeyed ((Outcome.flag <$> restore B.hooks.toHooks id).run s).1
    rw [run_map, B.run_restore id h.regular]
    exact (restored_unkeyed hB h id).map _
  | execCommand c t => exact hmap (hcurrent (execBranch_unkeyed h.current c t)) _
  | copyIn src path => exact hmap (hcurrent (copyBranch_unkeyed h.current src path true)) _
  | copyOut path dst => exact hmap (hcurrent (copyBranch_unkeyed h.current dst path false)) _
  | cleanup =>
    refine hmap ?_ _
    have hhook : B.hooks.toHooks.coreCleanup.run s = ((B.cleanup s.world).1, { s with world := (B.cleanup s.world).2 }) :=
      run_tryWorld B.cleanup (fun _ => []) s
    rw [EnvironmentManager.cleanup, run_withLock, run_bind_eq, hhook]
    cases hr : (B.cleanup s.world).1 with
    | error e => exact absurd hr (hB.cleanup _ e)
    | ok r => exact .ok _
  | snapshotBranch b park =>
    cases park with
    | true => exact hpark b
    | false => exact hmap hnamed _
  | parkBranch b => exact hpark b
  | execOnBranch b c t => exact hmap hnamed _
  | copyInBranch b src path => exact hmap hnamed _
  | copyOutBranch b path dst => exact hmap hnamed _
  | fork id n ids =>
    refine hmap ?_ _
    rw [B.run_fork]
    split
    · exact .ok []
    · exact materialized_unkeyed hB _ _ _
  | discardBranch b =>
    refine hmap ?_ _
    rw [discardBranch, run_withLock]
    exact discardBranchBody_unkeyed hB b
  | listBranches => exact hmap (listBranches_unkeyed hB _) _
  | printSnapshotTree limit =>
    refine hmap ?_ _
    rw [printSnapshotTree, run_tryState]
    exact Manager.printSnapshotTree_unkeyed h.graph limit
  | currentSnapshot =>
    refine hmap ?_ _
    obtain ⟨state, hstate⟩ := Manager.getBranchState_of_mem (b := none) h.current
    simp only [currentSnapshot, getBranchState, run_withLock, run_bind, run_tryState, hstate, run_afterValue_ok, run_peek]
    exact .ok _
  | listSnapshots => exact hmap (by rw [listSnapshots, run_readState]; exact .ok _) _
  | currentBranchId => exact hmap (by rw [getCurrentBranchId, run_readState]; exact .ok _) _
  | statsLog => exact hmap (by rw [statsLog, run_withLock, run_peek]; exact .ok _) _
  | liveBranches => exact hmap (by rw [liveBranches, run_readState]; exact .ok _) _

/-! ### Runs -/

theorem consistent_prog (h : Consistent s.mgr) (op : PublicOp) :
    Consistent ((PublicOp.prog B.hooks op).run s).2.mgr :=
  h.updates (B.updates_prog op h.regular h.main)

theorem consistent_runOps (ops : List PublicOp) (h : Consistent s.mgr) : Consistent (runOps B.hooks ops s).mgr := by
  induction ops generalizing s with
  | nil => exact h
  | cons op ops ih => exact ih (consistent_prog h op)

variable (B) in
/-- `P` holds in every state of the run. -/
def Throughout (P : Sys W → Prop) (ops : List PublicOp) (s : Sys W) : Prop :=
  Run.Throughout (fun s op => ((PublicOp.prog B.hooks op).run s).2) P ops s

variable (B) in
/-- `C` holds of every operation of the run and the state in which it starts. -/
def EachStep (C : PublicOp → Sys W → Prop) (ops : List PublicOp) (s : Sys W) : Prop :=
  Run.EachStep (fun s op => ((PublicOp.prog B.hooks op).run s).2) C ops s

theorem throughout_of_eachStep {P : Sys W → Prop} {C : PublicOp → Sys W → Prop} {ops : List PublicOp}
    (hc : Consistent s.mgr)
    (step : ∀ op ∈ ops, ∀ s : Sys W, Consistent s.mgr → P s → C op s → P ((PublicOp.prog B.hooks op).run s).2)
    (h : P s) (hsteps : B.EachStep C ops s) : B.Throughout P ops s :=
  Run.throughout_of_eachStep hc (fun _ op hc => consistent_prog hc op) step h hsteps

end ForkableBackend

/-- The operation does not touch what the registries hold under an id. -/
def Manager.Spares (b : String) (m m' : Manager) : Prop :=
  m'.branches.get? b = m.branches.get? b ∧ m'.liveBranches.get? b = m.liveBranches.get? b

theorem Manager.spares_forget {m : Manager} {b b' : String} (h : b' ≠ b) : m.Spares b' (m.forget b) := by
  unfold Manager.forget Manager.removeBranch
  split
  · exact ⟨Dict.get?_erase_of_ne _ h, Dict.get?_erase_of_ne _ h⟩
  · exact ⟨rfl, Dict.get?_erase_of_ne _ h⟩

theorem Manager.spares_retireParked {m : Manager} {b b' id : String} {parentId : Option String} {elapsed : ℚ}
    (h : b' ≠ b) : m.Spares b' (m.retireParked b id parentId elapsed) := by
  unfold Manager.retireParked
  dsimp only
  split_ifs
  · refine Eq.mp ?_ (Manager.spares_forget (m := (((m.recordSnapshotNode { snapshotId := id, parentId }).addEntry "park" id
      elapsed b).setCurrentBranch defaultBranchId).2) h)
    unfold Manager.setCurrentBranch
    split <;> rfl
  · exact Manager.spares_forget h

namespace ForkableBackend

open EnvironmentManager ForkableEnvironmentManager

variable {W : Type} {B : ForkableBackend W} {s : Sys W}

theorem spares_discard {b b' : String} (hb' : b' = defaultBranchId ∨ b' = s.mgr.currentBranchId) :
    s.mgr.Spares b' ((PublicOp.prog B.hooks (.discardBranch b)).run s).2.mgr := by
  have hrun : ((PublicOp.prog B.hooks (.discardBranch b)).run s).2 = ((discardBranchBody B.hooks b).run s).2 := by
    show ((Outcome.flag <$> discardBranch B.hooks b).run s).2 = _
    rw [run_map, discardBranch, run_withLock]
  rw [hrun]
  have hcase := B.discard_cases b s
  generalize (discardBranchBody B.hooks b).run s = x at hcase ⊢
  cases hcase with
  | refused => exact ⟨rfl, rfl⟩
  | raised => exact ⟨rfl, rfl⟩
  | failed => exact ⟨rfl, rfl⟩
  | discarded notMain notCurrent =>
    refine Manager.spares_forget ?_
    rcases hb' with rfl | rfl
    · exact notMain.symm
    · exact notCurrent.symm

theorem spares_park {b : String} (hmain : defaultBranchId ∈ s.mgr.branches.keys) :
    s.mgr.Spares defaultBranchId ((PublicOp.prog B.hooks (.parkBranch b)).run s).2.mgr := by
  have hrun : ((PublicOp.prog B.hooks (.parkBranch b)).run s).2 = ((parkBranchBody B.hooks b).run s).2 := by
    show ((Outcome.snapshotId <$> parkBranch B.hooks b).run s).2 = _
    rw [run_map, parkBranch, run_withLock]
  rw [hrun]
  have hcase := B.park_cases b hmain
  generalize (parkBranchBody B.hooks b).run s = x at hcase ⊢
  cases hcase with
  | refused => exact ⟨rfl, rfl⟩
  | raised => exact ⟨rfl, rfl⟩
  | failed => exact ⟨rfl, rfl⟩
  | @parked r id resource elapsed w notMain =>
    have hspares : (s.mgr.registerSnapshotResource id resource).Spares defaultBranchId
        ((s.mgr.registerSnapshotResource id resource).retireParked b id (s.mgr.record r).lastSnapshotId elapsed) :=
      Manager.spares_retireParked notMain.symm
    exact hspares

end ForkableBackend

open ForkableEnvironmentManager ForkableBackend in
/-- After any operations of any backend that answers: the default branch, the current branch and every live branch
are registered, no operation raises `KeyError`, a discard spares the default and the current branch, and a park
spares the default branch. -/
theorem lookups_succeed {W : Type} (B : ForkableBackend W) (hB : B.Answers) (s₀ : Sys W) (h₀ : Consistent s₀.mgr)
    (ops : List PublicOp) :
    let s := runOps B.hooks ops s₀
    defaultBranchId ∈ s.mgr.branches.keys ∧ s.mgr.currentBranchId ∈ s.mgr.branches.keys ∧
      (∀ b ∈ s.mgr.liveBranches.keys, b ∈ s.mgr.branches.keys) ∧
      (∀ op e, ((PublicOp.prog B.hooks op).run s).1 = .error e → e.kind ≠ .keyError) ∧
      (∀ b, s.mgr.Spares defaultBranchId ((PublicOp.prog B.hooks (.discardBranch b)).run s).2.mgr ∧
        s.mgr.Spares s.mgr.currentBranchId ((PublicOp.prog B.hooks (.discardBranch b)).run s).2.mgr) ∧
      ∀ b, s.mgr.Spares defaultBranchId ((PublicOp.prog B.hooks (.parkBranch b)).run s).2.mgr := by
  intro s
  have h : Consistent s.mgr := consistent_runOps ops h₀
  exact ⟨h.main, h.current, h.live, fun op => prog_unkeyed hB h op,
    fun b => ⟨spares_discard (.inl rfl), spares_discard (.inr rfl)⟩, fun b => spares_park h.main⟩

/-- A fleet answers, whoever else destroys its branches. -/
theorem Fleet.backend_answers (refreshes : Bool) : (Fleet.backend refreshes).Answers := by
  have hcapture (b : String) (w : Fleet) (e : PyError) : (Fleet.capture b w).1 ≠ .error e := by
    unfold Fleet.capture
    split
    · split_ifs <;> simp
    · simp
  constructor
  case snapshot => exact hcapture
  case fork => exact fun _ _ _ _ => by simp [Fleet.backend]
  case discard => exact fun _ _ _ => by simp [Fleet.backend, Fleet.discard]
  case park =>
    intro b w e
    show (Fleet.park b w).1 ≠ .error e
    unfold Fleet.park
    split
    · simp
    · exact hcapture b w e
  case list => exact fun _ _ => by simp [Fleet.backend, Fleet.list]
  case cleanup => exact fun _ _ => by simp [Fleet.backend]

open ForkableEnvironmentManager in
/-- The current branch was destroyed by somebody else and left behind by a restore. -/
theorem lookups_succeed_staleRun :
    let s := runOps (Fleet.backend false).hooks staleRun staleStart
    s.mgr.currentBranchId ∈ s.mgr.branches.keys ∧
      Unkeyed ((PublicOp.prog (Fleet.backend false).hooks (.snapshotBranch "3f2a" false)).run s).1 := by
  obtain ⟨-, hcurrent, -, hunkeyed, -⟩ := lookups_succeed (Fleet.backend false) (Fleet.backend_answers false) staleStart
    (.seeded "base" "base") staleRun
  exact ⟨hcurrent, hunkeyed _⟩

end StateFork
