import StateFork.Controller.State
import StateFork.Lib.Pool

/-!
# Where a branch should stand

The `Standing` of a branch is what its captures and advances say. What a listing may apply to the branch is `Supported`:
the latest snapshot of the branch when the listing was fetched, or the branch has been overtaken since, that is, a
snapshot of it was both captured and recorded. `AdvanceKept` is what reconciliation promises of the history and the
records; each kind of event keeps it under a condition of its own, and a listing that moves a branch under the one that it
was not overtaken (`AdvanceKept.positioned`).
-/

namespace StateFork

open Conc

/-! ### The history of a branch -/

/-- The snapshot that a branch was last advanced to, and the one captured since. -/
structure Standing where
  settled : Option String := none
  pending : Option String := none
  deriving DecidableEq

/-- The standing of `b` after an event. A capture after one that was never recorded leaves it open where
the branch stands. -/
def Standing.after (b : String) (st : Standing) : Event → Standing
  | .captured b' x => if b' = b then ⟨if st.pending = none then st.settled else none, some x⟩ else st
  | .advanced b' x _ => if b' = b then ⟨some x, none⟩ else st
  | _ => st

/-- The snapshot that the backend took last. -/
def Standing.newest (st : Standing) : Option String := st.pending.or st.settled

/-- `p` is the last snapshot of the branch. -/
def Standing.Last (p : Option String) (st : Standing) : Prop := ∀ x, st = ⟨some x, none⟩ → p = some x

/-- What was captured since has the parent `p`. -/
def Standing.Follows (p : Option String) (st : Standing) : Prop := ∀ x, st.settled = some x → p = some x

def standing (b : String) (tr : List Event) : Standing := tr.foldl (Standing.after b) {}

/-- The events since a listing was last fetched. -/
def sinceFetched (tr : List Event) : List Event :=
  tr.foldl (fun window e => if e = .fetched then [] else window ++ [e]) []

/-- The second event records the snapshot of `b` that the first one captured. -/
def Event.RecordedBy (b : String) : Event → Event → Prop
  | .captured b₁ x, .advanced b₂ y _ => b₁ = b ∧ b₂ = b ∧ x = y
  | _, _ => False

instance decidableRecordedBy (b : String) : DecidableRel (Event.RecordedBy b) := by
  intro e e'
  unfold Event.RecordedBy
  split <;> infer_instance

/-- No snapshot of `b` was both captured and recorded. -/
def Unsurpassed (b : String) (window : List Event) : Prop := window.Pairwise fun e e' => ¬ e.RecordedBy b e'

instance decidableUnsurpassed (b : String) : DecidablePred (Unsurpassed b) := fun window =>
  inferInstanceAs (Decidable (window.Pairwise fun e e' => ¬ e.RecordedBy b e'))

/-- Where the event says that a listing was applied to a branch, no snapshot of that branch was captured and recorded
since the listing was fetched. -/
def Timely (tr : List Event) : Event → Prop
  | .positioned b _ => Unsurpassed b (sinceFetched tr)
  | _ => True

instance decidableTimely (tr : List Event) : DecidablePred (Timely tr) := by
  intro e
  unfold Timely
  split <;> infer_instance

/-- No listing was overtaken. -/
def NotOvertaken (tr : List Event) : Prop := ∀ t e, t ++ [e] <+: tr → Timely t e

instance decidableNotOvertaken : DecidablePred NotOvertaken := fun tr =>
  decidable_of_iff (∀ i : Fin tr.length, Timely (tr.take i) tr[i]) <| by
    constructor
    · rintro h t e ⟨rest, rfl⟩
      have hlen : t.length < (t ++ [e] ++ rest).length := by simp
      simpa using h ⟨t.length, hlen⟩
    · intro h i
      refine h _ _ ?_
      rw [Fin.getElem_fin, List.take_append_getElem]
      exact List.take_prefix _ _

/-- No advance of a branch is lost. -/
structure AdvanceKept (tr : List Event) (m : Manager) : Prop where
  /-- A branch stands on the snapshot it was last advanced to, or on one captured since. -/
  kept : ∀ b x pending, standing b tr = ⟨some x, pending⟩ → ∃ r, m.branches.get? b = some r ∧
    ((m.record r).lastSnapshotId = some x ∨ ∃ y, pending = some y ∧ (m.record r).lastSnapshotId = some y)
  /-- Consecutive snapshots are parent and child. -/
  parent : ∀ t b y p, t ++ [.advanced b y p] <+: tr →
    ∀ x pending, standing b t = ⟨some x, pending⟩ → pending = some y ∧ p = some x
  /-- What `snapshot_branch` returns, the branch was advanced to. -/
  returned : ∀ t b x, t ++ [.returned (.snapshotBranch b false) (.snapshotId (some x))] <+: tr →
    ∃ p, .advanced b x p ∈ t

/-- The operations that threads call. -/
def Reconciling (op : PublicOp) : Prop := op = .listBranches ∨ ∃ b, op = .snapshotBranch b false

/-- Events that say nothing about where branches stand. -/
def Event.Neutral : Event → Prop
  | .lookedUp _ | .call _ _ | .materialized _ | .retired _ | .fetched => True
  | _ => False

@[simp] theorem standing_snoc (b : String) (tr : List Event) (e : Event) :
    standing b (tr ++ [e]) = (standing b tr).after b e := by
  simp [standing]

theorem standing_append_neutral {b : String} {tr ev : List Event} (hev : ∀ e ∈ ev, e.Neutral) :
    standing b (tr ++ ev) = standing b tr := by
  induction ev using List.reverseRecOn with
  | nil => rw [List.append_nil]
  | append_singleton ev e ih =>
    have he : e.Neutral := hev e (by simp)
    rw [← List.append_assoc, standing_snoc, ih fun f hf => hev f (by simp [hf])]
    cases e with
    | lookedUp | call | materialized | retired | fetched => rfl
    | _ => exact he.elim

theorem NotOvertaken.of_prefix {tr tr' : List Event} (h : NotOvertaken tr') (hp : tr <+: tr') :
    NotOvertaken tr :=
  fun t e ht => h t e (ht.trans hp)

/-! ### What a listing may apply -/

theorem sinceFetched_snoc {tr : List Event} {e : Event} (he : e ≠ .fetched) :
    sinceFetched (tr ++ [e]) = sinceFetched tr ++ [e] := by
  unfold sinceFetched
  rw [List.foldl_append, List.foldl_cons, List.foldl_nil, if_neg he]

/-- Unless `b` was overtaken since the last fetch, it was last advanced to `id`, or `id` was captured since; and what is
captured now, the listing shows, or it was captured after the fetch. -/
def Supported (b id : String) (tr : List Event) : Prop :=
  Unsurpassed b (sinceFetched tr) →
    ((standing b tr).settled = none ∨ (standing b tr).settled = some id ∨ (standing b tr).pending = some id) ∧
      ∀ y, (standing b tr).pending = some y → y = id ∨ .captured b y ∈ sinceFetched tr

/-- The latest snapshot is supported. -/
theorem supported_of_newest {b id : String} {tr : List Event} (h : ∀ y, (standing b tr).newest = some y → y = id) :
    Supported b id tr := by
  intro _
  rcases hst : standing b tr with ⟨settled, _ | y⟩
  · rw [hst] at h
    refine ⟨?_, fun y hy => by cases hy⟩
    cases settled with
    | none => exact .inl rfl
    | some x => exact .inr (.inl (congrArg some (h x rfl)))
  · rw [hst] at h
    obtain rfl := h y rfl
    exact ⟨.inr (.inr rfl), fun y hy => .inl (Option.some.inj hy).symm⟩

/-- What is supported stays so, if branches are advanced only to what was captured. -/
theorem Supported.snoc {b id : String} {tr : List Event} {e : Event} (h : Supported b id tr) (hfetched : e ≠ .fetched)
    (hadvanced : ∀ y p, e = .advanced b y p → (standing b tr).pending = some y) : Supported b id (tr ++ [e]) := by
  intro hwindow
  rw [sinceFetched_snoc hfetched] at hwindow ⊢
  obtain ⟨hold, -, hlast⟩ := List.pairwise_append.mp hwindow
  obtain ⟨hcurrent, hpending⟩ := h hold
  have hsame : (standing b tr).after b e = standing b tr →
      ((standing b (tr ++ [e])).settled = none ∨ (standing b (tr ++ [e])).settled = some id ∨
          (standing b (tr ++ [e])).pending = some id) ∧
        ∀ y, (standing b (tr ++ [e])).pending = some y → y = id ∨ .captured b y ∈ sinceFetched tr ++ [e] := by
    intro hafter
    rw [standing_snoc, hafter]
    exact ⟨hcurrent, fun y hy => (hpending y hy).imp_right (List.mem_append_left _)⟩
  cases e with
  | captured b' y =>
    by_cases hb : b' = b
    · subst hb
      rw [standing_snoc]
      simp only [Standing.after, if_true]
      refine ⟨?_, fun y' hy' => .inr ?_⟩
      · split_ifs with hnone
        · rcases hcurrent with hc | hc | hc
          · exact .inl hc
          · exact .inr (.inl hc)
          · rw [hnone] at hc
            cases hc
        · exact .inl rfl
      · obtain rfl := Option.some.inj hy'
        exact List.mem_append_right _ (List.mem_singleton_self _)
    · exact hsame (if_neg hb)
  | advanced b' y p =>
    by_cases hb : b' = b
    · subst hb
      rw [standing_snoc]
      simp only [Standing.after, if_true]
      refine ⟨.inr (.inl ?_), fun y' hy' => by cases hy'⟩
      rcases hpending y (hadvanced y p rfl) with rfl | hcaptured
      · rfl
      · exact absurd ⟨rfl, rfl, rfl⟩ (hlast _ hcaptured _ (List.mem_singleton_self _))
    · exact hsame (if_neg hb)
  | _ => exact hsame rfl

theorem Supported.append_neutral {b id : String} {tr ev : List Event} (h : Supported b id tr)
    (hev : ∀ e ∈ ev, e.Neutral) (hfetched : .fetched ∉ ev) : Supported b id (tr ++ ev) := by
  induction ev using List.reverseRecOn with
  | nil => rwa [List.append_nil]
  | append_singleton ev e ih =>
    rw [List.mem_append, not_or] at hfetched
    rw [← List.append_assoc]
    refine (ih (fun f hf => hev f (by simp [hf])) hfetched.1).snoc ?_ ?_
    · rintro rfl
      exact hfetched.2 (List.mem_singleton_self _)
    · rintro y p rfl
      exact (hev (.advanced b y p) (by simp)).elim

namespace AdvanceKept

variable {tr ev : List Event} {m m' : Manager}

theorem init (m : Manager) : AdvanceKept [] m where
  kept b x pending h := by cases h
  parent t b y p h := by simp at h
  returned t b x h := by simp at h

/-- What the history says is kept where the records stay where they are. -/
theorem congr (h : AdvanceKept tr m) (hm : ∀ b r, m.branches.get? b = some r →
    m'.branches.get? b = some r ∧ (m'.record r).lastSnapshotId = (m.record r).lastSnapshotId) :
    AdvanceKept tr m' where
  kept b x pending hst := by
    obtain ⟨r, hr, hlast⟩ := h.kept b x pending hst
    obtain ⟨hr', hlast'⟩ := hm b r hr
    exact ⟨r, hr', hlast' ▸ hlast⟩
  parent := h.parent
  returned := h.returned

theorem neutral (h : AdvanceKept tr m) (hev : ∀ e ∈ ev, e.Neutral) : AdvanceKept (tr ++ ev) m where
  kept b x pending hst := h.kept b x pending (standing_append_neutral hev ▸ hst)
  parent t b y p ht := by
    have hnot : .advanced b y p ∉ ev := fun he => hev _ he
    exact h.parent t b y p ((snoc_prefix_append hnot).mp ht)
  returned t b x ht := by
    have hnot : .returned (.snapshotBranch b false) (.snapshotId (some x)) ∉ ev := fun he => hev _ he
    exact h.returned t b x ((snoc_prefix_append hnot).mp ht)

/-- A capture opens the next advance of its branch. -/
theorem captured (h : AdvanceKept tr m) (b x : String) : AdvanceKept (tr ++ [.captured b x]) m where
  kept b' y pending hst := by
    rw [standing_snoc] at hst
    by_cases hb : b = b'
    · subst hb
      rcases hold : standing b tr with ⟨settled, pend⟩
      simp only [Standing.after, hold, if_true, Standing.mk.injEq] at hst
      obtain ⟨hsettled, -⟩ := hst
      split_ifs at hsettled with hpend
      subst hsettled hpend
      obtain ⟨r, hr, hlast | ⟨z, hz, -⟩⟩ := h.kept b y none hold
      · exact ⟨r, hr, .inl hlast⟩
      · cases hz
    · simp only [Standing.after, hb, if_false] at hst
      exact h.kept b' y pending hst
  parent t b' y p ht := h.parent t b' y p ((snoc_prefix_append (by simp)).mp ht)
  returned t b' x ht := h.returned t b' x ((snoc_prefix_append (by simp)).mp ht)

/-- The advance of a branch whose record moves with it, from what its thread knows of the parent. -/
theorem advanced (h : AdvanceKept tr m) {b x : String} {p : Option String} {r : Ref}
    (hr : m.branches.get? b = some r)
    (hp : ∀ y pending, standing b tr = ⟨some y, pending⟩ → pending = some x ∧ p = some y)
    (hm : ∀ b' r', m.branches.get? b' = some r' → m'.branches.get? b' = some r' ∧
      (m'.record r').lastSnapshotId = if b' = b then some x else (m.record r').lastSnapshotId) :
    AdvanceKept (tr ++ [.advanced b x p]) m' where
  kept b' y pending hst := by
    rw [standing_snoc] at hst
    by_cases hb : b = b'
    · subst hb
      simp only [Standing.after, if_true, Standing.mk.injEq, Option.some.injEq] at hst
      obtain ⟨hr', hlast⟩ := hm b r hr
      rw [if_pos rfl] at hlast
      exact ⟨r, hr', .inl (hlast.trans (congrArg some hst.1))⟩
    · simp only [Standing.after, hb, if_false] at hst
      obtain ⟨r', hr', hlast⟩ := h.kept b' y pending hst
      obtain ⟨hr'', hlast'⟩ := hm b' r' hr'
      rw [if_neg fun he => hb he.symm] at hlast'
      exact ⟨r', hr'', hlast' ▸ hlast⟩
  parent t b' y q ht := by
    rcases snoc_prefix_snoc.mp ht with ⟨rfl, he⟩ | ht
    · cases he
      exact hp
    · exact h.parent t b' y q ht
  returned t b' y ht := h.returned t b' y ((snoc_prefix_append (by simp)).mp ht)

/-- A listing moves a branch to what is supported. -/
theorem positioned (h : AdvanceKept tr m) {b id : String} (hn : NotOvertaken (tr ++ [.positioned b (some id)]))
    (hid : Supported b id tr) (hm : ∀ b' r', m.branches.get? b' = some r' → m'.branches.get? b' = some r' ∧
      (m'.record r').lastSnapshotId = if b' = b then some id else (m.record r').lastSnapshotId) :
    AdvanceKept (tr ++ [.positioned b (some id)]) m' where
  kept b' y pending hst := by
    rw [standing_snoc] at hst
    change standing b' tr = _ at hst
    obtain ⟨r', hr', hlast⟩ := h.kept b' y pending hst
    obtain ⟨hr'', hlast'⟩ := hm b' r' hr'
    refine ⟨r', hr'', ?_⟩
    by_cases hb : b' = b
    · subst hb
      rw [if_pos rfl] at hlast'
      have htimely : Unsurpassed b' (sinceFetched tr) := hn tr (.positioned b' (some id)) (List.prefix_refl _)
      obtain ⟨hcurrent, -⟩ := hid htimely
      rw [hst] at hcurrent
      rcases hcurrent with hnone | hid | hpending
      · cases hnone
      · exact .inl (hlast'.trans hid.symm)
      · exact .inr ⟨id, hpending, hlast'⟩
    · rw [if_neg hb] at hlast'
      exact hlast' ▸ hlast
  parent t b' y q ht := h.parent t b' y q ((snoc_prefix_append (by simp)).mp ht)
  returned t b' y ht := h.returned t b' y ((snoc_prefix_append (by simp)).mp ht)

theorem returns (h : AdvanceKept tr m) {op : PublicOp} {outcome : Outcome}
    (ho : ∀ b x, op = .snapshotBranch b false → outcome = .snapshotId (some x) → ∃ p, .advanced b x p ∈ tr) :
    AdvanceKept (tr ++ [.returned op outcome]) m where
  kept b y pending hst := h.kept b y pending (by rwa [standing_snoc] at hst)
  parent t b' y q ht := h.parent t b' y q ((snoc_prefix_append (by simp)).mp ht)
  returned t b x ht := by
    rcases snoc_prefix_snoc.mp ht with ⟨rfl, he⟩ | ht
    · cases he
      exact ho b x rfl rfl
    · exact h.returned t b x ht

end AdvanceKept

end StateFork
