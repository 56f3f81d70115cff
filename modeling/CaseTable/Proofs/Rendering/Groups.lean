import CaseTable.Proofs.Rendering.Sections

/-!
# The group of a name

A name belongs to the group with the longest stem that covers it, and to the
last slot if none does. `Group.IsSlot` says so without a search, and
`slotOf_eq_iff` that the search over the numbered groups finds it.

Two stems of one length that cover one name are both its front, hence equal,
and no stem is listed twice: so the longest one is unique although the search
would settle a tie by position.
-/

namespace CaseTable.Group

/-- The names of a group: its stem, and whatever the stem and an underscore
start. -/
def Covers (g : Group) (name : Text) : Prop :=
  name = g.stem ∨ g.stem ++ ['_'] <+: name

theorem holds_iff {g : Group} {name : Text} : g.holds name = true ↔ g.Covers name := by
  rw [holds, Covers, Bool.or_eq_true, decide_eq_true_eq, List.isPrefixOf_iff_prefix]

theorem Covers.stem_leads {g : Group} {name : Text} (h : g.Covers name) :
    g.stem <+: name := by
  rcases h with rfl | h
  · exact List.prefix_refl _
  · exact (List.prefix_append _ _).trans h

/-- The slot of a name. -/
inductive IsSlot (name : Text) : Nat → Prop
    | group {slot : Nat} {g : Group} (position : all[slot]? = some g) (covers : g.Covers name)
        (longest : ∀ h ∈ all, h.Covers name → h.stem.length ≤ g.stem.length) : IsSlot name slot
    | other (uncovered : ∀ g ∈ all, ¬ g.Covers name) : IsSlot name all.length

theorem nodup_stems : (all.map stem).Nodup := by decide

theorem IsSlot.unique {name : Text} {slot slot' : Nat} (h : IsSlot name slot)
    (h' : IsSlot name slot') : slot = slot' := by
  cases h with
  | group position covers longest =>
      cases h' with
      | group position' covers' longest' =>
          have hlength := Nat.le_antisymm
            (longest' _ (List.mem_of_getElem? position) covers)
            (longest _ (List.mem_of_getElem? position') covers')
          have hstem := List.prefix_iff_eq_take.mp covers.stem_leads
          rw [hlength, ← List.prefix_iff_eq_take.mp covers'.stem_leads] at hstem
          have hat : (all.map stem)[slot]? = (all.map stem)[slot']? := by
            rw [List.getElem?_map, List.getElem?_map, position, position', Option.map_some,
              Option.map_some, hstem]
          have hlt := (List.getElem?_eq_some_iff.mp position).1
          exact (List.getElem?_inj (by simpa using hlt) nodup_stems).mp hat
      | other uncovered => exact absurd covers (uncovered _ (List.mem_of_getElem? position))
  | other uncovered =>
      cases h' with
      | group position covers _ =>
          exact absurd covers (uncovered _ (List.mem_of_getElem? position))
      | other => rfl

/-- One step keeps a stem at least as long as the two it compares. -/
theorem exists_longer (best : Option (Group × Nat)) (candidate : Group × Nat) :
    ∃ next, longer best candidate = some next ∧
      candidate.1.stem.length ≤ next.1.stem.length ∧
      ∀ c, best = some c → c.1.stem.length ≤ next.1.stem.length := by
  cases best with
  | none => exact ⟨candidate, rfl, Nat.le_refl _, fun c hc => by cases hc⟩
  | some held =>
      rw [longer]
      split
      · next hle =>
          refine ⟨candidate, rfl, Nat.le_refl _, fun c hc => ?_⟩
          cases hc
          exact hle
      · next hlt =>
          refine ⟨held, rfl, Nat.le_of_not_le hlt, fun c hc => ?_⟩
          cases hc
          exact Nat.le_refl _

/-- No candidate has a longer stem than the one that is found. -/
theorem length_le_of_foldl_longer {candidates : List (Group × Nat)} :
    ∀ {best : Option (Group × Nat)} {found : Group × Nat},
      candidates.foldl longer best = some found →
      ∀ c, best = some c ∨ c ∈ candidates → c.1.stem.length ≤ found.1.stem.length := by
  induction candidates with
  | nil =>
      intro best found h c hc
      rcases hc with hc | hc
      · cases h.symm.trans hc
        exact Nat.le_refl _
      · cases hc
  | cons candidate rest ih =>
      intro best found h c hc
      obtain ⟨next, hnext, hcandidate, hbest⟩ := exists_longer best candidate
      rw [List.foldl_cons] at h
      have hfound := ih h next (Or.inl hnext)
      rcases hc with hc | hc
      · exact Nat.le_trans (hbest c hc) hfound
      · rcases List.mem_cons.mp hc with rfl | hc
        · exact Nat.le_trans hcandidate hfound
        · exact ih h c (Or.inr hc)

/-- Any candidate makes the search find one. -/
theorem eq_nil_of_foldl_longer {candidates : List (Group × Nat)} :
    ∀ {best : Option (Group × Nat)}, candidates.foldl longer best = none →
      best = none ∧ candidates = [] := by
  induction candidates with
  | nil => exact fun h => ⟨h, rfl⟩
  | cons candidate rest ih =>
      intro best h
      obtain ⟨next, hnext, -⟩ := exists_longer best candidate
      cases hnext.symm.trans (ih h).1

theorem isSlot_slotOf (name : Text) : IsSlot name (slotOf name) := by
  have hmem {g : Group} {slot : Nat} :
      (g, slot) ∈ all.zipIdx.filter (fun candidate => candidate.1.holds name) ↔
        all[slot]? = some g ∧ g.Covers name := by
    rw [List.mem_filter, List.mem_zipIdx_iff_getElem?, holds_iff]
  rw [slotOf]
  split
  · next g slot hfound =>
      have hat : (g, slot) ∈ all.zipIdx.filter fun candidate => candidate.1.holds name :=
        (Rendering.foldl_longer_mem hfound).resolve_left fun h => by cases h
      obtain ⟨hposition, hcovers⟩ := hmem.mp hat
      refine .group hposition hcovers fun other hother hcovered => ?_
      obtain ⟨i, hi⟩ := List.getElem?_of_mem hother
      exact length_le_of_foldl_longer hfound (other, i) (Or.inr (hmem.mpr ⟨hi, hcovered⟩))
  · next hnone =>
      refine .other fun g hg hcovers => ?_
      obtain ⟨i, hi⟩ := List.getElem?_of_mem hg
      have hcandidate := hmem.mpr ⟨hi, hcovers⟩
      rw [(eq_nil_of_foldl_longer hnone).2] at hcandidate
      cases hcandidate

/-- The search finds the slot of a name. -/
theorem slotOf_eq_iff {name : Text} {slot : Nat} : slotOf name = slot ↔ IsSlot name slot :=
  ⟨fun h => h ▸ isSlot_slotOf name, fun h => (isSlot_slotOf name).unique h⟩

/-- A stem covers a name that goes on with an underscore, and no other longer
name. -/
example : IsSlot "multisplit".toList 2 ∧ IsSlot "disorder".toList 9 ∧
    IsSlot "fakedsplit".toList 9 ∧ IsSlot "fake_tls".toList 4 := by
  simp only [← slotOf_eq_iff]
  decide

end CaseTable.Group
