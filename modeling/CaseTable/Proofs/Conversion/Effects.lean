import CaseTable.Proofs.Conversion.Runs

/-!
# What a conversion does to the files

Three statements on whole runs, over every disk and all options, each by the
ways a run can end.

A failed run leaves the disk as it was, unless what failed is the check of what
it wrote (`convert_failed`). The check comes after the old file was replaced,
and nothing puts that one back, so the output then holds the whole rendering.
No other file changes, and no temporary file stays. A run that succeeded changes
the output only, and doing it again changes nothing more and reports the same
(`convert_twice`), if the output is not the script itself. And where the output
can be written and read, a dry run tells what the run will do
(`convert_dryRun`).
-/

namespace CaseTable.Disk

open Conversion

variable {d : Disk} {o : ConversionOptions}

/-! ## A disk with one script -/

/-- A script that gives one strategy. -/
def loneScript : Text :=
  ("get_tcp_strategy_options() \x7b\n case $1 in\n  a) echo \"--a\" ;;\n esac\n\x7d\n").toList

/-- A disk with that script as its one file. -/
def holding (name : Text) : Disk where
    nodes := [([name], .file (Text.toBytes loneScript))]
    working := []

/-- Where the script can be read it gives a draft. -/
theorem exists_draft_loneScript (hpolicy : o.policy = .direct) (hscript : o.script = .stock)
    (hread : d.read o.input = .ok (Text.toBytes loneScript)) : ∃ x, d.draft o = .ok x := by
  have hextract : (extract .direct .stock loneScript).toOption.map
      (fun e => e.table.isEmpty) = some false := by
    decide +kernel
  cases h : extract .direct .stock loneScript with
  | error cause =>
      rw [h] at hextract
      cases hextract
  | ok e =>
      rw [h] at hextract
      have hdraft : Conversion.draft o loneScript = .ok
          ⟨e, render e.table ⟨o.default, o.layout, o.style, sourceName o.input⟩⟩ := by
        rw [Conversion.draft, hpolicy, hscript, h]
        simp only [Option.some.inj hextract, Bool.false_eq_true, if_false]
      exact ⟨_, draft_eq_ok_iff.mpr ⟨_, readText_eq_ok_iff.mpr hread, hdraft⟩⟩

/-! ## A run that fails -/

/-- A conversion that fails leaves the disk as it was, unless it writes and its
check is what fails. Then the output holds the whole rendering, and nothing else
has changed. The check fails by the name of the script, if that does not stay in
its comment, or because the output cannot be read again. -/
theorem convert_failed (d : Disk) (o : ConversionOptions) (cause : ConversionError)
    (h : (d.convert o).1.failure = some cause) :
    (o.dryRun = true ∨ ¬ cause.OfCheck → (d.convert o).2 = d) ∧
      (o.dryRun = false → cause.OfCheck →
        ∃ x l, d.draft o = .ok x ∧ d.Places o.output l ∧
          (d.convert o).2 = d.put l (.file (Text.toBytes x.rendering.text)) ∧
          (d.convert o).2.resolve o.output = .ok l ∧
          ∀ k, (d.convert o).2.node? k =
            if k = l then some (.file (Text.toBytes x.rendering.text)) else d.node? k) ∧
      (cause.OfCheck →
        (∃ e, cause = .roundTrip e) ∧ ¬ Rendering.Inert (sourceName o.input) ∨
          o.dryRun = false ∧
            ∃ f, cause = .unverifiable o.output f ∧ d.refuses (.read o.output) = some f) := by
  cases hdry : o.dryRun with
  | true =>
      refine ⟨fun _ => ?_, nofun, fun hcheck => .inl (roundTrip_of_dryRun hdry h hcheck)⟩
      rw [convert_of_dryRun hdry]
  | false =>
      have hends := d.ends_convert hdry
      generalize d.convert o = run at hends h
      cases hends with
      | early e hdraft =>
          cases h
          have hnot := not_ofCheck_of_draft hdraft
          exact ⟨fun _ => rfl, fun _ hcheck => absurd hcheck hnot, fun hcheck => absurd hcheck hnot⟩
      | unwritten x hdraft cause hcause hplaces =>
          cases h
          have hnot := hcause.not_ofCheck
          exact ⟨fun _ => rfl, fun _ hcheck => absurd hcheck hnot, fun hcheck => absurd hcheck hnot⟩
      | unread x hdraft l hplaces f hread =>
          cases h
          exact ⟨fun hnot => absurd trivial (hnot.resolve_left Bool.false_ne_true),
            fun _ _ => ⟨x, l, hdraft, hplaces, rfl, hplaces.resolve_put _, hplaces.node?_put _⟩,
            fun _ => .inr ⟨rfl, f, rfl, hread⟩⟩
      | unverified x hdraft l hplaces hread e hverify =>
          cases h
          exact ⟨fun hnot => absurd trivial (hnot.resolve_left Bool.false_ne_true),
            fun _ _ => ⟨x, l, hdraft, hplaces, rfl, hplaces.resolve_put _, hplaces.node?_put _⟩,
            fun _ => .inl ⟨⟨e, rfl⟩, not_inert_of_verify_eq_error hdraft hverify⟩⟩
      | done x hdraft l hplaces hread hverify => cases h

/-- Without its script a conversion leaves the old output. With a script whose
name does not stay in its comment, it leaves the new one. -/
theorem convert_failed_lone :
    let d := (holding "s\n[b]".toList).put ["out".toList] (.file [])
    let o (input : String) : ConversionOptions :=
      ⟨input.toList, "out".toList, .direct, .stock, .expanded, .flat, none, false⟩
    let written := (d.convert (o "s\n[b]")).2
    ((d.convert (o "s.sh")).1.failure = some (.inputMissing "s.sh".toList) ∧
        (d.convert (o "s.sh")).2 = d) ∧
      ∃ e x, (d.convert (o "s\n[b]")).1.failure = some (.roundTrip e) ∧
        d.draft (o "s\n[b]") = .ok x ∧
        written.node? ["out".toList] = some (.file (Text.toBytes x.rendering.text)) ∧
        written.node? ["s\n[b]".toList] = d.node? ["s\n[b]".toList] := by
  intro d o written
  have hmissing : (d.convert (o "s.sh")).1.failure = some (.inputMissing "s.sh".toList) := by
    decide +kernel
  obtain ⟨x, hdraft⟩ := exists_draft_loneScript (d := d) (o := o "s\n[b]") rfl rfl rfl
  have hplaces : d.Places "out".toList ["out".toList] :=
    ⟨rfl, ⟨[], by decide, rfl⟩, rfl, rfl, rfl, by decide⟩
  obtain ⟨⟨e, hfailure⟩, -⟩ := convert_of_not_inert rfl hdraft hplaces rfl (by decide)
  obtain ⟨hsame, -, -⟩ := convert_failed d _ _ hmissing
  obtain ⟨-, hwritten, -⟩ := convert_failed d _ _ hfailure
  obtain ⟨x, l, hdraft, hl, -, -, hnode⟩ := hwritten rfl trivial
  cases hl.unique hplaces
  exact ⟨⟨hmissing, hsame (.inr id)⟩, e, x, hfailure, hdraft, hnode _, hnode _⟩

/-- A run that fails can have written its output. -/
theorem not_convert_failed :
    let d := holding "s\n[b]".toList
    let o : ConversionOptions :=
      ⟨"s\n[b]".toList, "out".toList, .direct, .stock, .expanded, .flat, none, false⟩
    (∃ e, (d.convert o).1.failure = some (.roundTrip e)) ∧
      d.node? ["out".toList] = none ∧
      ((d.convert o).2.node? ["out".toList]).isSome = true := by
  intro d o
  obtain ⟨x, hdraft⟩ := exists_draft_loneScript (d := d) (o := o) rfl rfl (by rfl)
  have hplaces : d.Places o.output ["out".toList] :=
    ⟨rfl, ⟨[], by decide, rfl⟩, rfl, rfl, rfl, by decide⟩
  obtain ⟨hfailure, hleft⟩ := convert_of_not_inert rfl hdraft hplaces rfl (by decide)
  refine ⟨hfailure, by decide, ?_⟩
  rw [hleft, hplaces.node?_put, if_pos rfl]
  rfl

/-! ## A run that succeeds -/

/-- A conversion that succeeds changes nothing but its output. If the output is
another file than the script, the script is as it was, and the same conversion
once more reports the same and leaves the disk as it is. -/
theorem convert_twice (d : Disk) (o : ConversionOptions) (hreal : o.dryRun = false)
    (h : (d.convert o).1.failure = none) :
    ∃ l, (d.convert o).2.resolve o.output = .ok l ∧
      (∀ k, k ≠ l → (d.convert o).2.node? k = d.node? k) ∧
      (d.resolve o.input ≠ .ok l →
        (d.convert o).2.read o.input = d.read o.input ∧
          (d.convert o).2.convert o = d.convert o) := by
  have hends := d.ends_convert hreal
  generalize d.convert o = run at hends h
  cases hends with
  | early e hdraft => cases h
  | unwritten x hdraft cause hcause hplaces => cases h
  | unread x hdraft l hplaces f hread => cases h
  | unverified x hdraft l hplaces hread cause hverify => cases h
  | done x hdraft l hplaces hread hverify =>
      have hl := hplaces.isDirectory_eq_false
      refine ⟨l, hplaces.resolve_put _, fun k hk => ?_, fun hother => ?_⟩
      · rw [node?_put_file hl, if_neg hk]
      · obtain ⟨source, hsource, hx⟩ := draft_eq_ok_iff.mp hdraft
        have hinput := readText_eq_ok_iff.mp hsource
        have hagain := read_put_of_ne hl (Text.toBytes x.rendering.text) hinput hother
        have hdraft' := draft_eq_ok_iff.mpr ⟨source, readText_eq_ok_iff.mpr hagain, hx⟩
        refine ⟨hagain.trans hinput.symm, ?_⟩
        -- the same draft, written to the same place a second time
        rw [convert_of_places hreal hdraft' (hplaces.put _) hread, hverify, put_put]

/-- A script is converted twice into a file of its own. -/
theorem convert_twice_lone :
    let d := holding "s.sh".toList
    let o : ConversionOptions :=
      ⟨"s.sh".toList, "out".toList, .direct, .stock, .expanded, .flat, none, false⟩
    (d.convert o).1.failure = none ∧
      (d.convert o).2.read "s.sh".toList = .ok (Text.toBytes loneScript) ∧
      (d.convert o).2.convert o = d.convert o := by
  intro d o
  have hread : d.read o.input = .ok (Text.toBytes loneScript) := rfl
  have hplaces : d.Places o.output ["out".toList] :=
    ⟨rfl, ⟨[], by decide, rfl⟩, rfl, rfl, rfl, by decide⟩
  obtain ⟨x, hdraft⟩ := exists_draft_loneScript (d := d) (o := o) rfl rfl hread
  have hdone : (d.convert o).1.failure = none :=
    (failure_convert_eq_none_iff rfl).mpr ⟨⟨x, hdraft⟩, ⟨_, hplaces⟩, rfl, by decide⟩
  obtain ⟨l, hl, -, hother⟩ := convert_twice d o rfl hdone
  rw [convert_of_places rfl hdraft hplaces rfl, hplaces.resolve_put] at hl
  cases hl
  obtain ⟨hsame, hagain⟩ := hother (by decide)
  exact ⟨hdone, hsame.trans hread, hagain⟩

theorem head?_text_render (t : Table) (o : RenderingOptions) :
    (render t o).text.head? = some '#' :=
  rfl

/-- A script that is its own output is gone after a conversion. -/
theorem not_convert_twice :
    let d := holding "s.sh".toList
    let o : ConversionOptions :=
      ⟨"s.sh".toList, "s.sh".toList, .direct, .stock, .expanded, .flat, none, false⟩
    (d.convert o).1.failure = none ∧
      (d.convert o).2.read "s.sh".toList ≠ d.read "s.sh".toList := by
  intro d o
  have hread : d.read o.input = .ok (Text.toBytes loneScript) := rfl
  have hplaces : d.Places o.output ["s.sh".toList] :=
    ⟨rfl, ⟨[], by decide, rfl⟩, rfl, rfl, rfl, by decide⟩
  obtain ⟨x, hdraft⟩ := exists_draft_loneScript (d := d) (o := o) rfl rfl hread
  refine ⟨(failure_convert_eq_none_iff rfl).mpr
    ⟨⟨x, hdraft⟩, ⟨_, hplaces⟩, rfl, by decide⟩, fun hsame => ?_⟩
  rw [convert_of_places rfl hdraft hplaces rfl] at hsame
  have hbytes := Except.ok.inj ((hplaces.read_put rfl _).symm.trans (hsame.trans hread))
  have htext : x.rendering.text = loneScript := by
    rw [← Option.some_inj, ← Text.ofBytes?_toBytes, hbytes, Text.ofBytes?_toBytes]
  obtain ⟨source, -, hx⟩ := draft_eq_ok_iff.mp hdraft
  have hhead := congrArg List.head? htext
  rw [(extract_of_draft hx).2, head?_text_render] at hhead
  exact absurd hhead (by decide)

/-! ## A dry run -/

/-- Where the output can be written and read, a dry run fails with what the run
fails with, warns of the same, and prints what the run writes; and it leaves the
disk as it is. -/
theorem convert_dryRun (d : Disk) (o : ConversionOptions)
    (h : ∀ cause, (d.convert { o with dryRun := false }).1.failure = some cause →
      ¬ cause.OfOutput) :
    let real := d.convert { o with dryRun := false }
    let dry := d.convert { o with dryRun := true }
    dry.2 = d ∧ dry.1.failure = real.1.failure ∧
      (∀ p, dry.1.err p = real.1.err p) ∧
      (dry.1.failure = none →
        ∀ p, real.2.read o.output = .ok (Text.toBytes (dry.1.out p))) := by
  intro real dry
  have hends : d.Ends { o with dryRun := false } real := d.ends_convert rfl
  have hput : ∀ cause, real.1.failure = some cause → ¬ cause.OfOutput := h
  have hdry : dry = _ := convert_of_dryRun rfl
  rw [draft_dryRun] at hdry
  generalize real = run at hends hput ⊢
  cases hends with
  | early e hdraft =>
      rw [draft_dryRun] at hdraft
      simp only [hdraft] at hdry
      rw [hdry]
      exact ⟨rfl, rfl, fun p => rfl, fun hnone => by cases hnone⟩
  | unwritten x hdraft cause hcause hplaces => exact absurd hcause.ofOutput (hput cause rfl)
  | unread x hdraft l hplaces f hread => exact absurd trivial (hput (.unverifiable _ f) rfl)
  | unverified x hdraft l hplaces hread cause hverify =>
      rw [draft_dryRun] at hdraft
      simp only [hdraft, hverify] at hdry
      rw [hdry]
      exact ⟨rfl, rfl, fun p => rfl, fun hnone => by cases hnone⟩
  | done x hdraft l hplaces hread hverify =>
      rw [draft_dryRun] at hdraft
      simp only [hdraft, hverify] at hdry
      rw [hdry]
      exact ⟨rfl, rfl, fun p => rfl, fun _ p => hplaces.read_put hread _⟩

/-- A dry run on a disk with a script and room for the output. -/
theorem convert_dryRun_lone :
    let d := holding "s.sh".toList
    let o (dryRun : Bool) : ConversionOptions :=
      ⟨"s.sh".toList, "out".toList, .direct, .stock, .expanded, .flat, none, dryRun⟩
    (d.convert (o false)).1.failure = none ∧ (d.convert (o true)).1.failure = none ∧
      (d.convert (o true)).2 = d ∧
      (d.convert (o false)).2.read "out".toList =
        .ok (Text.toBytes ((d.convert (o true)).1.out .plain)) := by
  intro d o
  have hplaces : d.Places (o false).output ["out".toList] :=
    ⟨rfl, ⟨[], by decide, rfl⟩, rfl, rfl, rfl, by decide⟩
  have hdone : (d.convert (o false)).1.failure = none :=
    (failure_convert_eq_none_iff rfl).mpr
      ⟨exists_draft_loneScript rfl rfl rfl, ⟨_, hplaces⟩, rfl, by decide⟩
  have hput : ∀ cause, (d.convert (o false)).1.failure = some cause → ¬ cause.OfOutput := by
    intro cause hcause
    rw [hdone] at hcause
    cases hcause
  obtain ⟨hdisk, hfailure, -, hout⟩ := convert_dryRun d (o false) hput
  have hnone := hfailure.trans hdone
  exact ⟨hdone, hnone, hdisk, hout hnone .plain⟩

end CaseTable.Disk
