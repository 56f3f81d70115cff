import CaseTable.Rendering
import Mathlib.Data.List.Nodup
import Mathlib.Data.List.Perm.Basic

/-!
# The sections of a rendering

Whatever the layout, a rendering holds the same sections: the leading ones,
and one for every remaining strategy. Sorting into groups only reorders
(`bodySections_perm`): every slot is one of the numbered ones, so no strategy
falls between two buckets, and a bucket is sorted, which loses nothing.

Two consequences carry the rest. Membership can be read off without looking
at the layout (`mem_sections_iff`), and the names are pairwise different
(`nodup_sections`), because those of the table are and the two fixed names
are kept free.
-/

namespace CaseTable

/-! ## Looking up the table -/

theorem Table.get?_of_mem {t : Table} {e : Entry} (h : e ∈ t.entries) :
    t.get? e.name = some e.args := by
  obtain ⟨i, hi, rfl⟩ := List.getElem_of_mem h
  have hi' : i < t.names.length := by simpa [names] using hi
  have hname : t.names[i] = t.entries[i].name := by simp [names]
  have hpos : t.position? t.entries[i].name = some i := by
    rw [← hname, position?, List.idxOf?_eq_some_iff]
    exact ⟨hi', rfl, fun j hj h => Nat.ne_of_lt hj
      ((List.Nodup.getElem_inj_iff t.nodup).mp h)⟩
  rw [get?, hpos, Option.bind_some, List.getElem?_eq_getElem hi]
  rfl

theorem Table.mem_names {t : Table} {name : Text} :
    name ∈ t.names ↔ ∃ e ∈ t.entries, e.name = name :=
  List.mem_map

/-- A default that resolves is a strategy of the table. -/
theorem Table.exists_of_default? {t : Table} {asked : Option Text}
    {name : Text} (h : t.default? asked = some name) :
    ∃ e ∈ t.entries, e.name = name := by
  rw [← Table.mem_names]
  unfold default? at h
  split at h
  · split at h
    · next hin => cases h; exact (t.contains_iff_mem _).mp hin
    · cases h
  · split at h
    · next hin => cases h; exact (t.contains_iff_mem _).mp hin
    · exact List.mem_of_head? h

namespace Rendering

/-! ## Buckets -/

theorem foldl_longer_mem {candidates : List (Group × Nat)} :
    ∀ {best : Option (Group × Nat)} {found : Group × Nat},
      candidates.foldl Group.longer best = some found →
      best = some found ∨ found ∈ candidates := by
  induction candidates with
  | nil => exact fun h => Or.inl h
  | cons candidate rest ih =>
      intro best found h
      rw [List.foldl_cons] at h
      rcases ih h with h | h
      · unfold Group.longer at h
        split at h
        · exact Or.inr (by simp [Option.some.inj h])
        · split at h
          · exact Or.inr (by simp [Option.some.inj h])
          · exact Or.inl h
      · exact Or.inr (List.mem_cons_of_mem _ h)

theorem slotOf_lt (name : Text) : Group.slotOf name < Group.otherSlot + 1 := by
  rw [Group.slotOf]
  split
  · next slot hfound =>
      rcases foldl_longer_mem hfound with h | h
      · cases h
      · have hmem := List.mem_of_mem_filter h
        have hlt := (List.mem_zipIdx hmem).2.1
        rw [Group.otherSlot]
        omega
  · exact Nat.lt_succ_self _

/-- Cutting a list by the value of `f` and putting the parts in a row only
reorders it. -/
theorem flatMap_range_filter_perm {α : Type} (f : α → Nat) (l : List α) :
    ∀ n, ((List.range n).flatMap fun i => l.filter fun a => f a = i).Perm
      (l.filter fun a => f a < n)
  | 0 => by simp
  | n + 1 => by
      have hlow : l.filter (fun a => decide (f a < n))
          = (l.filter fun a => decide (f a < n + 1)).filter
              fun a => decide (f a < n) := by
        rw [List.filter_filter]
        exact List.filter_congr fun a _ => by
          by_cases h : f a < n <;> simp [h]; omega
      have hhigh : l.filter (fun a => decide (f a = n))
          = (l.filter fun a => decide (f a < n + 1)).filter
              fun a => !decide (f a < n) := by
        rw [List.filter_filter]
        exact List.filter_congr fun a _ => by
          by_cases h : f a < n <;> simp [h] <;> omega
      rw [List.range_succ, List.flatMap_append, List.flatMap_singleton]
      refine ((flatMap_range_filter_perm f l n).append_right _).trans ?_
      rw [hlow, hhigh]
      exact List.filter_append_perm _ _

theorem bucket_perm (entries : List Entry) (slot : Nat) :
    (bucket entries slot).Perm
      (entries.filter fun e => Group.slotOf e.name = slot) :=
  List.mergeSort_perm _ _

/-- The sections of one slot are those of its bucket: a title has none. -/
theorem slotBlocks_sections (style : DescriptionStyle) (entries : List Entry)
    (slot : Nat) : (slotBlocks style entries slot).filterMap Block.content?
      = (bucket entries slot).map (sectionOf style) := by
  rw [slotBlocks]
  split
  · next h => rw [h]; rfl
  · next e rest h =>
      rw [h, List.filterMap_cons_none rfl, List.filterMap_map]
      exact congrFun (List.filterMap_eq_map (f := sectionOf style)) _

/-- The sections after the leading ones, in any layout. -/
theorem bodySections_perm (layout : Layout) (style : DescriptionStyle)
    (entries : List Entry) :
    ((bodyBlocks layout style entries).filterMap Block.content?).Perm
      (entries.map (sectionOf style)) := by
  cases layout with
  | flat =>
      rw [bodyBlocks, List.filterMap_map]
      rw [show (Block.content? ∘ fun e => Block.body (sectionOf style e))
        = some ∘ sectionOf style from rfl, List.filterMap_eq_map]
  | grouped =>
      have hsections : ((List.range (Group.otherSlot + 1)).flatMap
            (slotBlocks style entries)).filterMap Block.content?
          = ((List.range (Group.otherSlot + 1)).flatMap
              (bucket entries)).map (sectionOf style) := by
        rw [List.filterMap_flatMap, List.map_flatMap]
        exact List.flatMap_congr fun slot _ =>
          slotBlocks_sections style entries slot
      have hbuckets : ((List.range (Group.otherSlot + 1)).flatMap
          (bucket entries)).Perm entries := by
        refine (List.Perm.flatMap_left _ fun slot _ =>
          bucket_perm entries slot).trans ?_
        refine (flatMap_range_filter_perm (fun e => Group.slotOf e.name)
          entries _).trans ?_
        rw [List.filter_eq_self.mpr fun e _ => by simpa using slotOf_lt e.name]
      rw [bodyBlocks, hsections]
      exact hbuckets.map _

/-! ## The whole list -/

theorem sections_eq (t : Table) (o : RenderingOptions) :
    (render t o).sections = leading t (t.default? o.default) ++
      (bodyBlocks o.layout o.style (remaining t (t.default? o.default))).filterMap
        Block.content? := by
  show (blocks t o).filterMap Block.content? = _
  rw [blocks, List.filterMap_append, List.filterMap_map]
  rw [show (Block.content? ∘ Block.body) = some from rfl, List.filterMap_some]

theorem mem_remaining_iff {t : Table} {default : Option Text} {e : Entry} :
    e ∈ remaining t default ↔ e ∈ t.entries ∧ default ≠ some e.name ∧
      e.name ≠ StrategySection.disabledName ∧
      e.name ≠ StrategySection.defaultName := by
  simp only [remaining, others, List.mem_filter, StrategySection.isReserved,
    decide_eq_true_eq, Bool.not_eq_true', Bool.or_eq_false_iff,
    decide_eq_false_iff_not, and_assoc, ne_comm (a := some e.name)]

/-- A section is the fixed first one, the one of the default, or that of a
remaining strategy. -/
theorem mem_sections_iff {t : Table} {o : RenderingOptions}
    {s : StrategySection} :
    s ∈ (render t o).sections ↔ s = .disabled ∨
      (∃ e ∈ t.entries, t.default? o.default = some e.name ∧
        s = .defaultOf e.name e.args) ∨
      ∃ e ∈ remaining t (t.default? o.default), s = sectionOf o.style e := by
  rw [sections_eq, List.mem_append,
    (bodySections_perm o.layout o.style _).mem_iff, leading, List.mem_cons,
    or_assoc]
  refine or_congr_right (or_congr ?_ ?_)
  · constructor
    · intro h
      obtain ⟨name, hname, rfl⟩ :=
        Option.map_eq_some_iff.mp (Option.mem_toList.mp h)
      obtain ⟨e, he, rfl⟩ := Table.exists_of_default? hname
      exact ⟨e, he, hname, by rw [Table.get?_of_mem he]; rfl⟩
    · rintro ⟨e, he, hname, rfl⟩
      rw [hname, Option.map_some, Table.get?_of_mem he]
      simp
  · rw [List.mem_map]
    exact exists_congr fun e => and_congr_right fun _ => eq_comm

/-- The remaining strategies keep the order of the table. -/
theorem names_remaining_sublist (t : Table) (default : Option Text) :
    ((remaining t default).map Entry.name).Sublist t.names :=
  (List.filter_sublist.trans List.filter_sublist).map _

theorem nodup_remaining (t : Table) (default : Option Text) :
    ((remaining t default).map Entry.name).Nodup :=
  t.nodup.sublist (names_remaining_sublist t default)

/-- No two sections share a name. -/
theorem nodup_sections (t : Table) (o : RenderingOptions) :
    ((render t o).sections.map StrategySection.name).Nodup := by
  have hbody := nodup_remaining t (t.default? o.default)
  have hfree : ∀ name ∈ (remaining t (t.default? o.default)).map Entry.name,
      name ≠ StrategySection.disabledName ∧
        name ≠ StrategySection.defaultName := by
    intro name hname
    obtain ⟨e, he, rfl⟩ := List.mem_map.mp hname
    exact (mem_remaining_iff.mp he).2.2
  have hleading : (leading t (t.default? o.default)).map StrategySection.name
        = [StrategySection.disabledName] ∨
      (leading t (t.default? o.default)).map StrategySection.name
        = [StrategySection.disabledName, StrategySection.defaultName] := by
    rw [leading]
    cases t.default? o.default with
    | none => exact Or.inl rfl
    | some name => exact Or.inr rfl
  rw [sections_eq, List.map_append]
  refine ((((bodySections_perm o.layout o.style _).map
    StrategySection.name).append_left _).nodup_iff).mpr ?_
  rw [List.map_map, show StrategySection.name ∘ sectionOf o.style
    = Entry.name from rfl]
  rcases hleading with h | h
  · rw [h, List.singleton_append, List.nodup_cons]
    exact ⟨fun hmem => (hfree _ hmem).1 rfl, hbody⟩
  · rw [h]
    simp only [List.cons_append, List.nil_append, List.nodup_cons,
      List.mem_cons, not_or]
    exact ⟨⟨by decide, fun hmem => (hfree _ hmem).1 rfl⟩,
      fun hmem => (hfree _ hmem).2 rfl, hbody⟩

end Rendering

end CaseTable
