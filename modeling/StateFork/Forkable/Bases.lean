import StateFork.Forkable.Tracking

/-!
# Backends that keep their bases

What a backend promises when it alone decides where a branch stands (`KeepsBases`), and what it means that
the manager is in step with it (`InStep`). A fleet without raids keeps its bases.
-/

namespace StateFork

open Conc Conc.Prog

variable {W : Type}

/-- `base` says for each live branch which snapshot it was materialized from or last captured as. A hook
that fails or raises changes nothing, and a listing is truthful if there is one. -/
structure KeepsBases (B : ForkableBackend W) (base : W → String → Option String) : Prop where
  captured : ∀ b w id resource elapsed w', B.snapshot b w = (.ok (some (id, resource), elapsed), w') →
    id ≠ "" ∧ base w' = Function.update (base w) b (some id)
  notCaptured : ∀ b w r w', B.snapshot b w = (r, w') → (∀ x t, r ≠ .ok (some x, t)) → base w' = base w
  forked : ∀ s requestedIds w outcomes w', B.fork s requestedIds w = (.ok outcomes, w') →
    (∀ o ∈ outcomes, o.1.baseSnapshotId = s ∧ base w o.1.id = none) ∧ (outcomes.map fun o => o.1.id).Nodup ∧
      base w' = fun b => if b ∈ outcomes.map (fun o => o.1.id) then some s else base w b
  notForked : ∀ s requestedIds w e w', B.fork s requestedIds w = (.error e, w') → base w' = base w
  discarded : ∀ b w w', B.discard b w = (.ok true, w') → base w' = Function.update (base w) b none
  notDiscarded : ∀ b w r w', B.discard b w = (r, w') → r ≠ .ok true → base w' = base w
  parked : ∀ b w id resource elapsed w', B.park b w = (.ok (some (id, resource), elapsed), w') →
    id ≠ "" ∧ base w' = Function.update (base w) b none
  notParked : ∀ b w r w', B.park b w = (r, w') → (∀ x t, r ≠ .ok (some x, t)) → base w' = base w
  listed : ∀ w, base (B.list w).2 = base w ∧ ((B.list w).1 = .ok none ∨
    ∃ listing, (B.list w).1 = .ok (some listing) ∧ Truthful (base w) listing)
  exec : ∀ command timeout b w, base (B.exec command timeout b w).2 = base w
  copy : ∀ b hostPath envPath into w, base (B.copy b hostPath envPath into w).2 = base w
  time : ∀ w, base (B.time w).2 = base w
  uuid4Hex : ∀ w, base (B.uuid4Hex w).2 = base w

/-- `live` says which branches exist. Only forks bring branches to life; captures, commands and listings
neither create nor destroy one, and a listing shows the live ones. -/
structure KeepsLive (B : ForkableBackend W) (live : W → String → Prop) : Prop where
  snapshot : ∀ b w, live (B.snapshot b w).2 = live w
  forked : ∀ s requestedIds w outcomes w', B.fork s requestedIds w = (.ok outcomes, w') →
    (∀ o ∈ outcomes, ¬ live w o.1.id) ∧ (outcomes.map fun o => o.1.id).Nodup ∧
      ∀ b, live w' b ↔ live w b ∨ b ∈ outcomes.map fun o => o.1.id
  notForked : ∀ s requestedIds w e w', B.fork s requestedIds w = (.error e, w') → live w' = live w
  discarded : ∀ b w w', B.discard b w = (.ok true, w') → ∀ b', live w' b' ↔ b' ≠ b ∧ live w b'
  notDiscarded : ∀ b w r w', B.discard b w = (r, w') → r ≠ .ok true → live w' = live w
  parked : ∀ b w captured elapsed w', B.park b w = (.ok (some captured, elapsed), w') →
    ∀ b', live w' b' ↔ b' ≠ b ∧ live w b'
  notParked : ∀ b w r w', B.park b w = (r, w') → (∀ x t, r ≠ .ok (some x, t)) → live w' = live w
  list : ∀ w, live (B.list w).2 = live w
  listed : ∀ w listing, (B.list w).1 = .ok (some listing) → ∀ b, live w b ↔ b ∈ listing.map EnvironmentBranch.id
  exec : ∀ command timeout b w, live (B.exec command timeout b w).2 = live w
  copy : ∀ b hostPath envPath into w, live (B.copy b hostPath envPath into w).2 = live w
  time : ∀ w, live (B.time w).2 = live w
  uuid4Hex : ∀ w, live (B.uuid4Hex w).2 = live w

/-- A backend that keeps its bases and captures live branches only keeps its branches. -/
theorem KeepsBases.keepsLive {B : ForkableBackend W} {base : W → String → Option String} (hB : KeepsBases B base)
    (hcapture : ∀ b w captured elapsed w', B.snapshot b w = (.ok (some captured, elapsed), w') → base w b ≠ none) :
    KeepsLive B fun w b => base w b ≠ none where
  snapshot b w := by
    rcases h : B.snapshot b w with ⟨r, w'⟩
    by_cases hr : ∃ x t, r = .ok (some x, t)
    · obtain ⟨x, t, rfl⟩ := hr
      funext b'
      rw [(hB.captured b w x.1 x.2 t w' h).2, Function.update_apply]
      split_ifs with hb
      · simp [hb, hcapture b w x t w' h]
      · rfl
    · rw [hB.notCaptured b w r w' h fun x t he => hr ⟨x, t, he⟩]
  forked s requestedIds w outcomes w' h := by
    obtain ⟨hout, hnodup, hbase⟩ := hB.forked s requestedIds w outcomes w' h
    refine ⟨fun o ho => not_not.mpr (hout o ho).2, hnodup, fun b => ?_⟩
    rw [hbase]
    by_cases hb : b ∈ outcomes.map fun o => o.1.id
    · simp [hb]
    · simp [hb]
  notForked s requestedIds w e w' h := by rw [hB.notForked s requestedIds w e w' h]
  discarded b w w' h b' := by
    rw [hB.discarded b w w' h, Function.update_apply]
    split_ifs with hb <;> simp [hb]
  notDiscarded b w r w' h hr := by rw [hB.notDiscarded b w r w' h hr]
  parked b w captured elapsed w' h b' := by
    rw [(hB.parked b w captured.1 captured.2 elapsed w' h).2, Function.update_apply]
    split_ifs with hb <;> simp [hb]
  notParked b w r w' h hr := by rw [hB.notParked b w r w' h hr]
  list w := by rw [(hB.listed w).1]
  listed w listing h b := by
    rcases (hB.listed w).2 with hnone | ⟨listing', hl, htruthful⟩
    · rw [hnone] at h
      cases h
    · rw [h] at hl
      obtain rfl := Option.some.inj (Except.ok.inj hl)
      exact htruthful.ne_none_iff
  exec command timeout b w := by rw [hB.exec]
  copy b hostPath envPath into w := by rw [hB.copy]
  time w := by rw [hB.time]
  uuid4Hex w := by rw [hB.uuid4Hex]

/-- The manager knows where every branch stands. -/
structure InStep (base : W → String → Option String) (s : Sys W) : Prop where
  tracks : Tracks (fun _ => False) (base s.world) s.mgr
  registered : LiveRegistered s.mgr

theorem InStep.seeded {base : W → String → Option String} {root resource : String} {w : W} (hroot : root ≠ "")
    (hbase : base w defaultBranchId = some root) (hnamed : ∀ b, base w b ≠ some "") :
    InStep base ⟨Manager.seeded root resource, w⟩ := by
  have hbranch {b : String} {r : Ref} (hr : (Manager.seeded root resource).branches.get? b = some r) :
      b = defaultBranchId ∧ r = ⟨defaultBranchId, 0⟩ := by
    have hr' : (Dict.empty.set defaultBranchId (⟨defaultBranchId, 0⟩ : Ref)).get? b = some r := hr
    rw [Dict.get?_set, Dict.get?_empty] at hr'
    split_ifs at hr' with hb
    exact ⟨hb, (Option.some.inj hr').symm⟩
  have hlive {b : String} {l : Ref} (hl : (Manager.seeded root resource).liveBranches.get? b = some l) :
      b = defaultBranchId ∧ l = ⟨defaultBranchId, 0⟩ := by
    have hl' : (Dict.empty.set defaultBranchId (⟨defaultBranchId, 0⟩ : Ref)).get? b = some l := hl
    rw [Dict.get?_set, Dict.get?_empty] at hl'
    split_ifs at hl' with hb
    exact ⟨hb, (Option.some.inj hl').symm⟩
  have hmain : (Manager.seeded root resource).branches.get? defaultBranchId = some ⟨defaultBranchId, 0⟩ := rfl
  refine ⟨?_, fun b hb => ?_⟩
  · constructor
    case regular => exact Regular.seeded root resource
    case position =>
      intro b r hr
      obtain ⟨rfl, rfl⟩ := hbranch hr
      exact ⟨root, hbase, fun _ => ⟨rfl, rfl⟩⟩
    case live =>
      intro b l hl
      obtain ⟨rfl, rfl⟩ := hlive hl
      exact ⟨Nat.one_pos, root, hbase, fun _ => rfl⟩
    case liveDistinct =>
      intro b b' l l' hl hl' _
      rw [(hlive hl).1, (hlive hl').1]
    case main => exact Dict.mem_keys_of_get? hmain
    case current => exact Dict.mem_keys_of_get? hmain
    case baseNamed => exact hnamed
    case snapshotsNamed =>
      show "" ∉ (Dict.empty.set root resource).keys
      rw [Dict.mem_keys_set]
      simpa [Dict.empty, Dict.keys] using hroot.symm
    case nodesNamed =>
      show "" ∉ (Dict.empty.set root ({ snapshotId := root, parentId := none } : SnapshotNode)).keys
      rw [Dict.mem_keys_set]
      simpa [Dict.empty, Dict.keys] using hroot.symm
  · obtain ⟨l, hl⟩ := Dict.mem_keys_iff.mp hb
    obtain ⟨rfl, -⟩ := hlive hl
    exact Dict.mem_keys_of_get? hmain

namespace Fleet

def base (w : Fleet) (branchId : String) : Option String := w.live.get? branchId

theorem fork_base (snapshotId : String) (requestedIds : List (Option String)) (w : Fleet) :
    let x := fork snapshotId requestedIds w
    (∀ o ∈ x.1, o.1.baseSnapshotId = snapshotId ∧ w.base o.1.id = none) ∧ (x.1.map fun o => o.1.id).Nodup ∧
      x.2.base = fun b => if b ∈ x.1.map (fun o => o.1.id) then some snapshotId else w.base b := by
  induction requestedIds generalizing w with
  | nil => simp [fork]
  | cons request requests ih =>
    have hplace : ∀ (id : String) (w : Fleet), (place snapshotId id w = (none, w)) ∨
        (w.live.get? id = none ∧
          place snapshotId id w =
            (some ⟨id, snapshotId, "running"⟩, { w with live := w.live.set id snapshotId })) := by
      intro id w
      unfold place
      cases h : w.live.get? id with
      | none => exact .inr ⟨rfl, rfl⟩
      | some _ => exact .inl rfl
    have hcase : ∃ w' : Fleet, w'.live = w.live ∧ (materialize snapshotId request w = (none, w') ∨
        ∃ id, w.live.get? id = none ∧ materialize snapshotId request w =
          (some ⟨id, snapshotId, "running"⟩, { w' with live := w.live.set id snapshotId })) := by
      unfold materialize
      rcases request with _ | id
      · rcases hids : w.ids with _ | ⟨id, ids⟩
        · exact ⟨w, rfl, .inl rfl⟩
        · rcases hplace id { w with ids } with h | ⟨hnone, h⟩
          · exact ⟨{ w with ids }, rfl, .inl h⟩
          · exact ⟨{ w with ids }, rfl, .inr ⟨id, hnone, h⟩⟩
      · rcases hplace id w with h | ⟨hnone, h⟩
        · exact ⟨w, rfl, .inl h⟩
        · exact ⟨w, rfl, .inr ⟨id, hnone, h⟩⟩
    obtain ⟨w', hlive, hnone | ⟨id, hfree, hsome⟩⟩ := hcase
    · have h := ih w'
      unfold fork
      rw [hnone]
      unfold base at h ⊢
      rw [hlive] at h
      exact h
    · obtain ⟨hout, hnodup, hbase⟩ := ih { w' with live := w.live.set id snapshotId }
      unfold fork
      rw [hsome]
      dsimp only [Option.map_some, Option.toList_some]
      have hnot : ∀ o ∈ (fork snapshotId requests { w' with live := w.live.set id snapshotId }).1,
          o.1.id ≠ id ∧ w.base o.1.id = none := by
        intro o ho
        have h := (hout o ho).2
        unfold base at h
        rw [Dict.get?_set] at h
        split_ifs at h with he
        exact ⟨he, h⟩
      refine ⟨?_, ?_, ?_⟩
      · intro o ho
        rcases List.mem_cons.mp ho with rfl | ho
        · exact ⟨rfl, hfree⟩
        · exact ⟨(hout o ho).1, (hnot o ho).2⟩
      · refine List.nodup_cons.mpr ⟨fun hmem => ?_, hnodup⟩
        obtain ⟨o, ho, he⟩ := List.mem_map.mp hmem
        exact (hnot o ho).1 he
      · rw [hbase]
        funext b
        simp only [List.singleton_append, List.map_cons, List.mem_cons, base, Dict.get?_set]
        by_cases he : b = id
        · simp only [he, if_true, true_or, ite_self]
        · simp only [he, if_false, false_or]

theorem capture_cases (b : String) (w : Fleet) :
    capture b w = (.ok (none, 0), w) ∨ ∃ id, id ≠ "" ∧
      capture b w = (.ok (some (id, id), 1), { w with live := w.live.set b id, ids := w.ids.tail }) := by
  unfold capture
  split
  · next id ids _ hids =>
    split_ifs with hid
    · exact .inl rfl
    · exact .inr ⟨id, hid, by rw [hids]; rfl⟩
  · exact .inl rfl

theorem sole_keepsBases (refreshes : Bool) : KeepsBases (sole refreshes) base where
  captured b w id resource elapsed w' h := by
    change capture b w = _ at h
    rcases capture_cases b w with hc | ⟨id', hid, hc⟩
    · rw [hc] at h
      cases h
    · rw [hc] at h
      cases h
      refine ⟨hid, funext fun b' => ?_⟩
      rw [Function.update_apply]
      exact Dict.get?_set _ _ _ _
  notCaptured b w r w' h hr := by
    change capture b w = _ at h
    rcases capture_cases b w with hc | ⟨id', hid, hc⟩
    · rw [hc] at h
      cases h
      rfl
    · rw [hc] at h
      cases h
      exact absurd rfl (hr _ _)
  forked s requestedIds w outcomes w' h := by
    cases h
    exact fork_base s requestedIds w
  notForked s requestedIds w e w' h := by cases h
  discarded b w w' h := by
    obtain ⟨-, rfl⟩ := Prod.mk.inj h
    refine funext fun b' => ?_
    rw [Function.update_apply]
    exact Dict.get?_erase _ _ _
  notDiscarded b w r w' h hr := by
    obtain ⟨rfl, rfl⟩ := Prod.mk.inj h
    have hnone : w.live.get? b = none := by
      cases hget : w.live.get? b with
      | none => rfl
      | some _ => exact absurd (by simp [hget]) hr
    refine funext fun b' => ?_
    refine (Dict.get?_erase _ _ _).trans ?_
    split_ifs with he
    · rw [he]
      exact hnone.symm
    · rfl
  parked b w id resource elapsed w' h := by
    change park b w = _ at h
    unfold park at h
    rcases capture_cases b w with hc | ⟨id', hid, hc⟩
    · rw [hc] at h
      cases h
    · rw [hc] at h
      cases h
      refine ⟨hid, funext fun b' => ?_⟩
      rw [Function.update_apply]
      refine (Dict.get?_erase _ _ _).trans ?_
      split_ifs with he
      · rfl
      · exact Dict.get?_set_of_ne _ _ he
  notParked b w r w' h hr := by
    change park b w = _ at h
    unfold park at h
    rcases capture_cases b w with hc | ⟨id', hid, hc⟩
    · rw [hc] at h
      cases h
      rfl
    · rw [hc] at h
      cases h
      exact absurd rfl (hr _ _)
  listed w := by
    refine ⟨rfl, .inr ⟨_, rfl, ?_, fun b id => ?_⟩⟩
    · rw [List.map_map]
      exact w.live.nodup_keys
    · constructor
      · intro hb
        exact ⟨⟨b, id, "running"⟩, List.mem_map.mpr ⟨(b, id), Dict.mem_entries_of_get? hb, rfl⟩, rfl, rfl⟩
      · rintro ⟨o, ho, rfl, rfl⟩
        obtain ⟨e, he, rfl⟩ := List.mem_map.mp ho
        exact Dict.get?_of_mem_entries he
  exec _ _ _ _ := rfl
  copy _ _ _ _ _ := rfl
  time _ := rfl
  uuid4Hex _ := rfl

/-- Only a live branch is captured. -/
theorem alive_of_capture {b : String} {w w' : Fleet} {captured : String × String} {elapsed : ℚ}
    (h : capture b w = (.ok (some captured, elapsed), w')) : w.base b ≠ none := by
  unfold capture at h
  split at h
  · next id ids hlive _ =>
    show w.live.get? b ≠ none
    simp [hlive]
  · cases h

theorem sole_keepsLive (refreshes : Bool) : KeepsLive (sole refreshes) fun w b => w.base b ≠ none :=
  (sole_keepsBases refreshes).keepsLive fun _ _ _ _ _ h => alive_of_capture h

theorem start_inStep (ids : List String) (raids : List (List String)) : InStep base (start ids raids) := by
  refine InStep.seeded (by decide) rfl fun b => ?_
  show (Dict.empty.set defaultBranchId "base").get? b ≠ some ""
  rw [Dict.get?_set, Dict.get?_empty]
  split_ifs
  · simp
  · simp

end Fleet

end StateFork
