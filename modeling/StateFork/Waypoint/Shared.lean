import StateFork.Waypoint.Session

/-!
# A session with a second manager

A session whose one branch another manager may capture before each listing, so that the branch is moved to checkpoints
that the first manager did not take.
-/

namespace StateFork

/-- A session of one branch in which another manager may take a snapshot before each listing. -/
structure Shared where
  journal : Journal
  /-- Where the branch stands. -/
  main : Option String
  /-- The ids of the checkpoints to come. -/
  ids : List String
  /-- Whether the other manager takes a snapshot before the listings to come. -/
  visits : List Bool
  sound : journal.Sound
  stands : ∀ p, main = some p → p ∈ journal.ids

namespace Shared

/-- A session without a history. -/
def start (ids : List String) (visits : List Bool) : Shared where
  journal := []
  main := none
  ids
  visits
  sound := ⟨List.nodup_nil, List.not_mem_nil, fun _ _ h => absurd h List.not_mem_nil⟩
  stands _ h := nomatch h

theorem sound_append {H : Journal} (h : H.Sound) {id : String} {parent : Option String} (hid : id ∉ H.ids)
    (hnamed : id ≠ "") (hparent : ∀ p, parent = some p → p ∈ H.ids) : Journal.Sound (H ++ [(id, parent)]) where
  nodup := by
    rw [Journal.ids_append]
    refine List.nodup_append.mpr ⟨h.nodup, List.nodup_singleton _, fun a ha b hb he => hid ?_⟩
    rw [he, List.mem_singleton.mp hb] at ha
    exact ha
  named := by
    rw [Journal.ids_append, List.mem_append, not_or]
    exact ⟨h.named, fun he => hnamed (List.mem_singleton.mp he).symm⟩
  parents id' p hmem := by
    rcases List.mem_append.mp hmem with hold | hnew
    · exact (h.parents id' p hold).mono (List.prefix_append ..)
    · obtain ⟨rfl, hp⟩ := Prod.mk.inj (List.mem_singleton.mp hnew)
      exact (Journal.earlier_of_notMem (hparent p hp.symm) hid).mono (List.prefix_append ..)

def capture (w : Shared) : Option (String × String) × Shared :=
  match w.ids with
  | [] => (none, w)
  | id :: ids =>
    if hid : id ∉ w.journal.ids ∧ id ≠ "" then
      (some (id, id), {
        journal := w.journal ++ [(id, w.main)]
        main := some id
        ids
        visits := w.visits
        sound := sound_append w.sound hid.1 hid.2 w.stands
        stands := by
          rintro _ ⟨⟩
          rw [Journal.ids_append]
          exact List.mem_append_right _ (List.mem_singleton_self _) })
    else (none, w)

/-- What happens before a listing. -/
def visit (w : Shared) : Shared :=
  match w.visits with
  | [] => w
  | true :: visits => (capture { w with visits }).2
  | false :: visits => { w with visits }

def backend : WaypointBackend Shared where
  snapshot _ w := (.ok ((capture w).1, 1), (capture w).2)
  refreshes := true
  exec _ _ _ w := (.ok (0, "", ""), w)
  copy _ _ _ _ w := (.ok (true, ""), w)
  fork _ _ w := (.ok [], w)
  discard _ w := (.ok false, w)
  park _ w := (.ok (none, 0), w)
  list w := (.ok (some [⟨defaultBranchId, (visit w).main.getD "", "running"⟩]), visit w)
  cleanup w := (.ok (some true), w)
  time w := (0, w)
  uuid4Hex w := ("", w)
  checkpoints w := (.ok (some (w.journal.map fun e => ⟨e.1, e.2⟩)), w)

theorem capture_grows (w : Shared) : w.journal <+: (capture w).2.journal := by
  unfold capture
  split
  · exact List.prefix_refl _
  · split_ifs
    · exact List.prefix_append ..
    · exact List.prefix_refl _

theorem visit_grows (w : Shared) : w.journal <+: (visit w).journal := by
  unfold visit
  split
  · exact List.prefix_refl _
  · next visits _ => exact capture_grows { w with visits }
  · exact List.prefix_refl _

theorem backend_truthful : backend.Truthful Shared.journal where
  sound := Shared.sound
  snapshot _ := capture_grows
  exec _ _ _ _ := List.prefix_refl _
  copy _ _ _ _ _ := List.prefix_refl _
  fork _ _ _ := List.prefix_refl _
  discard _ _ := List.prefix_refl _
  park _ _ := List.prefix_refl _
  list := visit_grows
  cleanup _ := List.prefix_refl _
  time _ := List.prefix_refl _
  checkpoints _ := List.prefix_refl _
  captured b w id resource elapsed w' h := by
    obtain ⟨hcaptured, rfl⟩ := Prod.mk.inj h
    obtain ⟨hcaptured, -⟩ := Prod.mk.inj (Except.ok.inj hcaptured)
    unfold capture at hcaptured ⊢
    split at hcaptured
    · cases hcaptured
    · next id' ids hids =>
      split_ifs at hcaptured with hid
      cases hcaptured
      refine ⟨hid.1, ?_⟩
      rw [dif_pos hid, Journal.ids_append]
      exact List.mem_append_right _ (List.mem_singleton_self _)
  parked b w id resource elapsed w' h := by cases h
  forked snapshotId requestedIds w outcomes w' h := by
    cases h
    simp
  listed w listing w' h o ho hne := by
    obtain ⟨hlisting, rfl⟩ := Prod.mk.inj h
    obtain rfl := Option.some.inj (Except.ok.inj hlisting)
    obtain rfl := List.mem_singleton.mp ho
    cases hmain : (visit w).main with
    | none => exact absurd (by rw [hmain]; rfl) hne
    | some p => exact (visit w).stands p hmain
  history w checkpoints w' h := by
    obtain ⟨hlisting, rfl⟩ := Prod.mk.inj h
    obtain rfl := Option.some.inj (Except.ok.inj hlisting)
    refine List.Perm.of_eq ?_
    rw [List.map_map]
    refine (List.map_congr_left fun e he => ?_).trans (List.map_id _)
    obtain ⟨id, parent⟩ := e
    have hparent : parent ≠ some "" := by
      rintro rfl
      exact w.sound.named (w.sound.parents id "" he).1
    exact congrArg (Prod.mk id) (if_neg hparent)

end Shared

end StateFork
