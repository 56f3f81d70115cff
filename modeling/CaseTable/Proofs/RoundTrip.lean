import CaseTable.Proofs.Extraction.Entries
import CaseTable.Proofs.Rendering.ReadBack

/-!
# From script to file and back

The two halves meet here. Extraction makes names without blanks and
arguments whose only blank is the space (`Extraction/Entries`), and that is
more than a rendering needs to be read back unchanged
(`Rendering/ReadBack`). So `parse_render_extract` has no condition on the
script at all, and none on the options but that the name of the script,
which stands in a comment, is on one line.
-/

namespace CaseTable

open Text

namespace Entry.Extracted

theorem fitsHeader {e : Entry} (h : e.Extracted) :
    Rendering.FitsHeader e.name := by
  have hblank : ∀ c ∈ e.name, isBlank c = false :=
    fun c hc => isBlank_of_mem_strategyName h.1 hc
  refine ⟨strategyName_ne_nil h.1,
    trim_of_trimmed (trimmed_of_forall hblank), fun hmem => ?_⟩
  exact absurd (hblank _ hmem) (by decide)

theorem fitsLine {e : Entry} (h : e.Extracted) : Rendering.FitsLine e.args := by
  obtain ⟨-, t, ht⟩ := h
  have hspace : ∀ c ∈ e.args, isBlank c = true → c = ' ' :=
    fun c hc => Arguments.eq_space_of_mem_normalize (ht ▸ hc)
  refine ⟨fun hmem => ?_, fun hlast => ?_⟩
  · exact absurd (hspace _ hmem (by decide)) (by decide)
  · exact absurd (hspace _ (List.mem_of_getLast? hlast) (by decide))
      (by decide)

end Entry.Extracted

/-- Every section of a rendered extraction survives writing and reading. -/
theorem survives_of_extracted {t : Table} (h : t.Extracted)
    {o : RenderingOptions} :
    ∀ s ∈ (render t o).sections, Rendering.Survives s := by
  intro s hs
  rcases Rendering.mem_sections_iff.mp hs with
    rfl | ⟨e, he, -, rfl⟩ | ⟨e, he, rfl⟩
  · exact Rendering.survives_disabled
  · exact Rendering.survives_defaultOf_iff.mpr
      ⟨(h e he).fitsHeader.2.2, (h e he).fitsLine⟩
  · have he := (Rendering.mem_remaining_iff.mp he).1
    exact Rendering.survives_sectionOf_iff.mpr
      ⟨(h e he).fitsHeader, (h e he).fitsLine⟩

/-- What is extracted from any script, under any policy, and rendered with
any options, is read back section for section, each with the two values that
were written and no others, and passes verification. -/
theorem parse_render_extract (policy : Policy) (script : ScriptNames)
    (source : Text) (o : RenderingOptions) (hsource : '\n' ∉ o.sourceName)
    {x : Extraction} (hx : extract policy script source = .ok x) :
    Ini.Document.parse (render x.table o).text =
        .ok ⟨(render x.table o).sections.map fun s =>
          ⟨s.name, [("desc".toList, s.desc), ("args".toList, s.args)]⟩⟩ ∧
      verify (render x.table o).sections (render x.table o).text = .ok () := by
  have hall := survives_of_extracted (extracted_of_extract hx) (o := o)
  exact ⟨Rendering.parse_render_of_survives hsource hall,
    (Rendering.verify_sections_iff hsource).mpr hall⟩

theorem parse_render_extract_two_labels :
    let source := ("get_tcp_strategy_options() \x7b\n case $1 in\n" ++
      " fast|fake_b) echo \"$filter --x \\\n  --y=[1]\" ;;\n esac\n\x7d\n").toList
    let o : RenderingOptions :=
      ⟨some "fast".toList, .grouped, .expanded, "s.sh".toList⟩
    ∃ x, extract .direct .stock source = .ok x ∧
      x.table.names = ["fast".toList, "fake_b".toList] ∧
      Ini.Document.parse (render x.table o).text =
        .ok ⟨(render x.table o).sections.map fun s =>
          ⟨s.name, [("desc".toList, s.desc), ("args".toList, s.args)]⟩⟩ ∧
      verify (render x.table o).sections (render x.table o).text = .ok () := by
  intro source o
  have hnames : (extract .direct .stock source).toOption.map
      (fun x => x.table.names) = some ["fast".toList, "fake_b".toList] := by
    decide +kernel
  cases hx : extract .direct .stock source with
  | error cause =>
      rw [hx] at hnames
      cases hnames
  | ok x =>
      rw [hx] at hnames
      exact ⟨x, rfl, Option.some.inj hnames,
        parse_render_extract .direct .stock source o (by decide) hx⟩

end CaseTable
