import CaseTable.Proofs.Conversion.Runs
import CaseTable.Proofs.Rendering.Strategies

/-!
# The count that a conversion reports

A conversion ends with the number of strategies that it wrote, and takes it from
the table. The output has a section for every strategy but those that are named
like a fixed section: such a strategy is left out with a warning, unless it is
the default, which has a section of its own. So the number is too high by the
warnings of that kind, and right if there is none (`convert_written`).

The count itself is one of a rendering (`length_strategies_add`): a default that
resolves is one strategy of the table and one section, every other strategy is a
section or a warning. It holds of the output because what was verified is read
back section for section (`parse_render_of_verify`).
-/

namespace CaseTable

/-- The sections that stand for strategies: all but the fixed first one. -/
def Ini.Document.strategies (d : Ini.Document) : List Ini.Section :=
  d.sections.filter fun s => s.name ≠ StrategySection.disabledName

/-- Whether a warning says that a strategy was left out. -/
def Warning.leavesOut : Warning → Bool
  | .rendering (.reservedName _) => true
  | _ => false

theorem Warning.leavesOut_eq_true_iff {w : Warning} :
    w.leavesOut = true ↔ ∃ name, w = .rendering (.reservedName name) := by
  constructor
  · intro h
    unfold leavesOut at h
    split at h
    · next name => exact ⟨name, rfl⟩
    · cases h
  · rintro ⟨name, rfl⟩
    rfl

/-- The count and the path of the announcement that the output is written. -/
def Progress.written? : Progress → Option (Nat × Text)
  | .written count output => some (count, output)
  | _ => none

namespace Rendering

/-! ## Counting a rendering -/

/-- A default that resolves is one strategy of the table. -/
theorem length_others_add (t : Table) (asked : Option Text) :
    (others t (t.default? asked)).length + (t.default? asked).toList.length = t.size := by
  have hsplit := (List.filter_append_perm (fun e : Entry => some e.name ≠ t.default? asked)
    t.entries).length_eq
  rw [List.length_append] at hsplit
  rw [others, Table.size, ← hsplit, Nat.add_left_cancel_iff]
  cases hdefault : t.default? asked with
  | none => simp
  | some name =>
      obtain ⟨e, he, hname⟩ := Table.exists_of_default? hdefault
      have honce : t.names.count name = 1 :=
        List.count_eq_one_of_mem t.nodup (Table.mem_names.mpr ⟨e, he, hname⟩)
      rw [Table.names, List.count_eq_countP, List.countP_map,
        List.countP_eq_length_filter] at honce
      rw [Option.toList_some, List.length_singleton, ← honce]
      congr 1
      exact List.filter_congr fun e _ => by simp [beq_eq_decide]

/-- A strategy that is not the default is a section or a warning. -/
theorem length_remaining_add (t : Table) (default : Option Text) :
    (remaining t default).length + (reservedWarnings t default).length =
      (others t default).length := by
  have hsplit := (List.filter_append_perm (fun e : Entry => StrategySection.isReserved e.name)
    (others t default)).length_eq
  rw [List.length_append] at hsplit
  rw [remaining, reservedWarnings, List.length_map, Nat.add_comm]
  exact hsplit

/-- The sections behind the first one are those of the default and of the
remaining strategies. -/
theorem length_strategies (t : Table) (o : RenderingOptions) :
    ((render t o).sections.filter fun s => s.name ≠ StrategySection.disabledName).length =
      (t.default? o.default).toList.length + (remaining t (t.default? o.default)).length := by
  have hnodup := nodup_sections t o
  rw [sections_eq, leading, List.cons_append] at hnodup ⊢
  rw [List.map_cons, List.nodup_cons] at hnodup
  have hother : ∀ s ∈ ((t.default? o.default).map fun name =>
        StrategySection.defaultOf name ((t.get? name).getD [])).toList ++
      (bodyBlocks o.layout o.style (remaining t (t.default? o.default))).filterMap
        Block.content?,
      decide (s.name ≠ StrategySection.disabledName) = true := by
    intro s hs
    refine decide_eq_true fun hname => hnodup.1 ?_
    exact List.mem_map.mpr ⟨s, hs, hname⟩
  rw [List.filter_cons_of_neg (by simp [StrategySection.disabled]),
    List.filter_eq_self.mpr hother, List.length_append,
    (bodySections_perm o.layout o.style _).length_eq, List.length_map]
  cases t.default? o.default with
  | none => rfl
  | some name => rfl

/-- A strategy of the table is a section or a warning. -/
theorem length_strategies_add (t : Table) (o : RenderingOptions) :
    ((render t o).sections.filter fun s => s.name ≠ StrategySection.disabledName).length +
      (reservedWarnings t (t.default? o.default)).length = t.size := by
  have hothers := length_others_add t o.default
  have hremaining := length_remaining_add t (t.default? o.default)
  rw [length_strategies]
  omega

/-! ## Counting what is read back -/

/-- What is verified is read back section for section. -/
theorem parse_render_of_verify {t : Table} {o : RenderingOptions}
    (h : verify (render t o).sections (render t o).text = .ok ()) :
    Ini.Document.parse (render t o).text =
      .ok ⟨(render t o).sections.map StrategySection.toIni⟩ := by
  obtain ⟨hinert, hall⟩ := verify_render_sourceName_iff.mp h
  have hbase := parse_render_of_survives (t := t) (o := { o with sourceName := [] })
    List.not_mem_nil hall
  rw [parse_render_of_inert t hinert, hbase]
  rfl

theorem strategies_toIni (sections : List StrategySection) :
    (Ini.Document.mk (sections.map StrategySection.toIni)).strategies.length =
      (sections.filter fun s => s.name ≠ StrategySection.disabledName).length := by
  rw [Ini.Document.strategies, List.filter_map, List.length_map]
  rfl

/-- The warnings about strategies that are left out are those of the rendering. -/
theorem countP_leavesOut (x : Draft) {t : Table} {o : RenderingOptions}
    (h : x.rendering = render t o) :
    x.warnings.countP Warning.leavesOut =
      (reservedWarnings t (t.default? o.default)).length := by
  have hextraction : (x.extraction.warnings.map Warning.extraction).countP
      Warning.leavesOut = 0 := by
    rw [List.countP_eq_zero]
    intro w hw
    obtain ⟨w', -, rfl⟩ := List.mem_map.mp hw
    exact Bool.false_ne_true
  have hdefault : ((t.defaultWarnings o.default).map Warning.rendering).countP
      Warning.leavesOut = 0 := by
    rw [List.countP_eq_zero]
    intro w hw
    obtain ⟨w', hw', rfl⟩ := List.mem_map.mp hw
    obtain ⟨name, rfl, -⟩ := mem_defaultWarnings_iff.mp hw'
    exact Bool.false_ne_true
  have hreserved : ((reservedWarnings t (t.default? o.default)).map
      Warning.rendering).countP Warning.leavesOut =
        (reservedWarnings t (t.default? o.default)).length := by
    rw [List.countP_map, List.countP_eq_length]
    intro w hw
    obtain ⟨name, -, rfl, -⟩ := mem_reservedWarnings_iff.mp hw
    rfl
  rw [Draft.warnings, h, List.countP_append, hextraction, render, List.map_append,
    List.countP_append, hdefault, hreserved, Nat.zero_add, Nat.zero_add]

end Rendering

namespace Disk

open Conversion

/-! ## Counting a run -/

/-- The document that a file holds, if it is one. -/
def document? (d : Disk) (path : Text) : Option Ini.Document :=
  (d.readText path).toOption.bind fun t => (Ini.Document.parse t).toOption

/-- A draft announces no output. -/
theorem filterMap_begun (o : ConversionOptions) (x : Draft) :
    (begun o x).filterMap Progress.written? = [] := by
  rw [begun, Draft.progress]
  cases x.rendering.default with
  | none => rfl
  | some name => rfl

/-- A conversion that succeeds announces its output once, with a number that is
the strategy sections of the output and the strategies that it warned to have
left out. So it is the number of the sections exactly if none was left out. -/
theorem convert_written (d : Disk) (o : ConversionOptions) (hreal : o.dryRun = false)
    (h : (d.convert o).1.failure = none) :
    ∃ count document,
      (d.convert o).1.progress.filterMap Progress.written? = [(count, o.output)] ∧
      (d.convert o).2.document? o.output = some document ∧
      count = document.strategies.length +
        (d.convert o).1.warnings.countP Warning.leavesOut ∧
      (count = document.strategies.length ↔
        ∀ name, .rendering (.reservedName name) ∉ (d.convert o).1.warnings) := by
  have hends := d.ends_convert hreal
  generalize d.convert o = run at hends h
  cases hends with
  | early e hdraft => cases h
  | unwritten x hdraft cause hcause hplaces => cases h
  | unread x hdraft l hplaces f hread => cases h
  | unverified x hdraft l hplaces hread cause hverify => cases h
  | done x hdraft l hplaces hread hverify =>
      obtain ⟨source, -, hx⟩ := draft_eq_ok_iff.mp hdraft
      obtain ⟨-, hrendering⟩ := extract_of_draft hx
      have hcount := Rendering.length_strategies_add x.extraction.table
        ⟨o.default, o.layout, o.style, sourceName o.input⟩
      rw [← Rendering.countP_leavesOut x hrendering, ← Rendering.strategies_toIni] at hcount
      rw [hrendering] at hverify
      refine ⟨_, _, ?_, ?_, hcount.symm, ?_⟩
      · rw [report, hreal]
        simp only [Bool.false_eq_true, if_false]
        rw [List.filterMap_append, filterMap_begun]
        rfl
      · rw [document?, readText_eq_ok_iff.mpr (hplaces.read_put hread _), hrendering]
        simp only [Except.toOption, Option.bind_some]
        rw [Rendering.parse_render_of_verify hverify]
      · rw [← hcount, Nat.add_eq_left, List.countP_eq_zero]
        simp only [Warning.leavesOut_eq_true_iff, not_exists]
        constructor
        · intro hnone name hmem
          exact hnone _ hmem name rfl
        · rintro hnone w hw name rfl
          exact hnone name hw

/-- A script with a strategy that is named like the first section. -/
def reservedScript : Text :=
  ("get_tcp_strategy_options() \x7b\n case $1 in\n  a) echo \"--a\" ;;\n" ++
    "  disabled) echo \"--d\" ;;\n esac\n\x7d\n").toList

/-- A disk with that script as its one file. -/
def reservedDisk : Disk where
    nodes := [(["s.sh".toList], .file (Text.toBytes reservedScript))]
    working := []

/-- As the default it has a section, and both strategies are counted. -/
theorem convert_written_default :
    let o : ConversionOptions := ⟨"s.sh".toList, "out".toList, .direct, .stock, .expanded,
      .flat, some "disabled".toList, false⟩
    (reservedDisk.convert o).1.failure = none ∧
      (reservedDisk.convert o).1.progress.filterMap Progress.written? = [(2, o.output)] ∧
      ∃ document, (reservedDisk.convert o).2.document? o.output = some document ∧
        document.strategies.length = 2 := by
  intro o
  have hrun : (reservedDisk.convert o).1 = report o
      [.reading o.input, .parsing, .found 2 .direct, .default "disabled".toList,
        .written 2 o.output, .done] [] none := by
    decide +kernel
  have hdone : (reservedDisk.convert o).1.failure = none := by
    rw [hrun]
    rfl
  obtain ⟨count, document, hannounced, hdocument, hcount, -⟩ :=
    convert_written reservedDisk o rfl hdone
  rw [hrun] at hannounced hcount
  cases hannounced
  exact ⟨hdone, by rw [hrun]; rfl, document, hdocument, hcount.symm⟩

/-- Without a section it is counted all the same. -/
theorem not_convert_written :
    let o : ConversionOptions :=
      ⟨"s.sh".toList, "out".toList, .direct, .stock, .expanded, .flat, none, false⟩
    let run := reservedDisk.convert o
    run.1.failure = none ∧ run.1.progress.filterMap Progress.written? = [(2, o.output)] ∧
      (run.2.document? o.output).map (fun document => document.strategies.length) =
        some 1 := by
  decide +kernel

end Disk

end CaseTable
