import CaseTable.Proofs.Rendering.Sections

/-!
# What becomes of every strategy

A strategy of the table is the default, or it has the name of a fixed section
and is left out with a warning, or it gets a section under its own name. These
are exactly the sections and the warnings of a rendering
(`render_complete`).

The sections behind the leading ones are a permutation of those of the
remaining strategies, whatever the layout (`bodySections_perm`), so what is
left is to say which strategies remain, what the default is, and which
warnings there are.
-/

namespace CaseTable

/-- The rule for the default. A strategy that was asked for is the default if
the table holds it. If none was asked for it is the well-known one, or the
first of a table that does not hold that. -/
def Table.Resolves (t : Table) (asked : Option Text) (name : Text) : Prop :=
  name ∈ t.names ∧ match asked with
    | some wanted => name = wanted
    | none => name = wellKnownDefault ∨
        wellKnownDefault ∉ t.names ∧ t.names.head? = some name

theorem Table.default?_eq_some_iff {t : Table} {asked : Option Text} {name : Text} :
    t.default? asked = some name ↔ t.Resolves asked name := by
  cases asked with
  | some wanted =>
      rw [default?, Resolves, Option.ite_none_right_eq_some, contains_iff_mem]
      constructor
      · rintro ⟨hheld, ⟨⟩⟩
        exact ⟨hheld, rfl⟩
      · rintro ⟨hheld, rfl⟩
        exact ⟨hheld, rfl⟩
  | none =>
      rw [default?, Resolves]
      split
      · next hheld =>
          rw [contains_iff_mem] at hheld
          constructor
          · rintro ⟨⟩
            exact ⟨hheld, .inl rfl⟩
          · rintro ⟨-, rfl | ⟨hfree, -⟩⟩
            · rfl
            · exact absurd hheld hfree
      · next hfree =>
          rw [contains_iff_mem] at hfree
          constructor
          · intro hfirst
            exact ⟨List.mem_of_head? hfirst, .inr ⟨hfree, hfirst⟩⟩
          · rintro ⟨hheld, rfl | ⟨-, hfirst⟩⟩
            · exact absurd hheld hfree
            · exact hfirst

namespace Rendering

/-! ## Warnings -/

theorem mem_defaultWarnings_iff {t : Table} {asked : Option Text} {w : RenderingWarning} :
    w ∈ t.defaultWarnings asked ↔
      ∃ name, w = .noSuchDefault name ∧ asked = some name ∧ name ∉ t.names := by
  cases asked with
  | none => simp [Table.defaultWarnings]
  | some wanted =>
      by_cases hheld : wanted ∈ t.names
      · simp [Table.defaultWarnings, Table.contains_iff_mem, hheld]
      · simp [Table.defaultWarnings, Table.contains_iff_mem, hheld]

theorem isReserved_iff {name : Text} : StrategySection.isReserved name = true ↔
    name = StrategySection.disabledName ∨ name = StrategySection.defaultName := by
  rw [StrategySection.isReserved, Bool.or_eq_true, decide_eq_true_iff, decide_eq_true_iff]

theorem mem_reservedWarnings_iff {t : Table} {default : Option Text} {w : RenderingWarning} :
    w ∈ reservedWarnings t default ↔
      ∃ name ∈ t.names, w = .reservedName name ∧
        (name = StrategySection.disabledName ∨ name = StrategySection.defaultName) ∧
        default ≠ some name := by
  rw [reservedWarnings, List.mem_map]
  constructor
  · rintro ⟨e, he, rfl⟩
    rw [List.mem_filter, others, List.mem_filter, decide_eq_true_iff] at he
    obtain ⟨⟨hmem, hdefault⟩, hreserved⟩ := he
    exact ⟨e.name, List.mem_map_of_mem hmem, rfl, isReserved_iff.mp hreserved, hdefault.symm⟩
  · rintro ⟨name, hname, rfl, hreserved, hdefault⟩
    obtain ⟨e, hmem, rfl⟩ := List.mem_map.mp hname
    refine ⟨e, ?_, rfl⟩
    rw [List.mem_filter, others, List.mem_filter, decide_eq_true_iff]
    exact ⟨⟨hmem, hdefault.symm⟩, isReserved_iff.mpr hreserved⟩

theorem nodup_defaultWarnings (t : Table) (asked : Option Text) :
    (t.defaultWarnings asked).Nodup := by
  cases asked with
  | none => exact List.nodup_nil
  | some wanted =>
      rw [Table.defaultWarnings]
      split
      · exact List.nodup_nil
      · exact List.nodup_singleton _

theorem nodup_reservedWarnings (t : Table) (default : Option Text) :
    (reservedWarnings t default).Nodup := by
  have hnames : (((others t default).filter fun e =>
      StrategySection.isReserved e.name).map Entry.name).Nodup :=
    t.nodup.sublist (List.Sublist.map _ (List.filter_sublist.trans List.filter_sublist))
  have hmap := hnames.map fun _ _ => RenderingWarning.reservedName.inj
  rw [List.map_map] at hmap
  exact hmap

/-- No warning is given twice. -/
theorem nodup_warnings (t : Table) (o : RenderingOptions) : (render t o).warnings.Nodup := by
  refine List.Nodup.append (nodup_defaultWarnings t _) (nodup_reservedWarnings t _) ?_
  intro w hdefault hreserved
  obtain ⟨name, rfl, -⟩ := mem_defaultWarnings_iff.mp hdefault
  obtain ⟨name', -, heq, -⟩ := mem_reservedWarnings_iff.mp hreserved
  cases heq

/-! ## Strategies -/

theorem remaining_eq (t : Table) (default : Option Text) :
    remaining t default = t.entries.filter fun e => default ≠ some e.name ∧
      e.name ≠ StrategySection.disabledName ∧ e.name ≠ StrategySection.defaultName := by
  rw [remaining, others, List.filter_filter]
  refine List.filter_congr fun e _ => ?_
  rw [Bool.eq_iff_iff, Bool.and_eq_true, Bool.not_eq_true', ← Bool.not_eq_true, isReserved_iff,
    decide_eq_true_iff, decide_eq_true_iff, not_or, and_comm, ne_comm]

/-- The section of the default has its name to itself. -/
theorem exists_default_section_iff {t : Table} {o : RenderingOptions} :
    (∃ s ∈ (render t o).sections, s.name = StrategySection.defaultName) ↔
      ∃ name, t.default? o.default = some name := by
  constructor
  · rintro ⟨s, hs, hname⟩
    rcases mem_sections_iff.mp hs with rfl | ⟨e, -, hdefault, -⟩ | ⟨e, he, rfl⟩
    · exact absurd hname (by decide)
    · exact ⟨e.name, hdefault⟩
    · exact absurd hname (mem_remaining_iff.mp he).2.2.2
  · rintro ⟨name, hdefault⟩
    obtain ⟨e, he, rfl⟩ := Table.exists_of_default? hdefault
    exact ⟨_, mem_sections_iff.mpr (.inr (.inl ⟨e, he, hdefault, rfl⟩)), rfl⟩

/-- No strategy is lost and none is written twice. The names of the sections
differ pairwise. First comes `disabled`, then `default` with the arguments of
the default if there is one, and then one section for every other strategy
that is not named like a fixed section, and nothing else. The warnings are one
about a default that was asked for in vain, and one for every strategy that is
left out. -/
theorem render_complete (t : Table) (o : RenderingOptions) :
    ((render t o).sections.map StrategySection.name).Nodup ∧
    (∀ name, t.default? o.default = some name ↔ t.Resolves o.default name) ∧
    ((∃ s ∈ (render t o).sections, s.name = "default".toList) ↔
      ∃ name, t.default? o.default = some name) ∧
    (∃ rest : List StrategySection,
      (match t.default? o.default with
        | none => (render t o).sections =
            ⟨"disabled".toList, "TCP bypass disabled".toList, []⟩ :: rest
        | some name => ∃ args, t.get? name = some args ∧
            (render t o).sections =
              ⟨"disabled".toList, "TCP bypass disabled".toList, []⟩ ::
              ⟨"default".toList, "Default TCP bypass strategy (".toList ++ name ++ [')'],
                args⟩ :: rest) ∧
      rest.Perm ((t.entries.filter fun e => t.default? o.default ≠ some e.name ∧
        e.name ≠ "disabled".toList ∧ e.name ≠ "default".toList).map fun e =>
          ⟨e.name, describe o.style e.name, e.args⟩)) ∧
    (render t o).warnings.Nodup ∧
    ∀ w, w ∈ (render t o).warnings ↔
      (∃ name, w = .noSuchDefault name ∧ o.default = some name ∧ name ∉ t.names) ∨
      ∃ name ∈ t.names, w = .reservedName name ∧
        (name = "disabled".toList ∨ name = "default".toList) ∧
        t.default? o.default ≠ some name := by
  have hwarnings (w : RenderingWarning) : w ∈ (render t o).warnings ↔
      w ∈ t.defaultWarnings o.default ∨ w ∈ reservedWarnings t (t.default? o.default) :=
    List.mem_append
  refine ⟨nodup_sections t o, fun name => Table.default?_eq_some_iff,
    exists_default_section_iff, ?_, nodup_warnings t o, fun w => ?_⟩
  · have hsections := sections_eq t o
    have hperm := bodySections_perm o.layout o.style (remaining t (t.default? o.default))
    generalize (bodyBlocks o.layout o.style (remaining t (t.default? o.default))).filterMap
      Block.content? = rest at hsections hperm
    rw [remaining_eq] at hperm
    refine ⟨rest, ?_, hperm⟩
    cases hdefault : t.default? o.default with
    | none =>
        rw [hdefault] at hsections
        exact hsections
    | some name =>
        obtain ⟨e, he, rfl⟩ := Table.exists_of_default? hdefault
        have hargs := Table.get?_of_mem he
        rw [hdefault, leading, Option.map_some, hargs] at hsections
        exact ⟨e.args, hargs, hsections⟩
  · rw [hwarnings, mem_defaultWarnings_iff, mem_reservedWarnings_iff]
    rfl

end Rendering

end CaseTable
