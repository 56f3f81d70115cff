import CaseTable.Proofs.Ini.Parts
import CaseTable.Proofs.Rendering.ReadBack

/-!
# What the name of the source does to the file

The name of the source is copied into one comment line of the head. It stays
there if it is on one line. If it is not, its further lines are lines of the
file like any other, and the reader reads them: `parse_render_eq` says that
the document is what these lines hold and then what the file would hold
without them, for every table and every name.

So a name has no influence exactly if its further lines are blank or comments
(`Inert`). What is left of it then is the number of lines, and that only shows
in an error. `parse_render_sourceName` says so for two names, and
`verify_render_sourceName_iff` for verification with one.
-/

namespace CaseTable.Rendering

open Text

/-- The lines that the name of a source makes behind its first one. -/
def continued (sourceName : Text) : List Text := (lines (sourceName ++ ['\n'])).tail

/-- A name that goes on with nothing but blank lines and comments. -/
def Inert (sourceName : Text) : Prop :=
  ∀ line ∈ continued sourceName, Ini.Line.read line = .ok .silent

instance (sourceName : Text) : Decidable (Inert sourceName) :=
  inferInstanceAs (Decidable (∀ line ∈ _, _))

theorem length_continued (sourceName : Text) :
    (continued sourceName).length = sourceName.count '\n' := by
  rw [continued, List.length_tail, length_lines_newline, Nat.add_sub_cancel]

theorem continued_of_notMem {sourceName : Text} (h : '\n' ∉ sourceName) :
    continued sourceName = [] := by
  rw [← List.length_eq_zero_iff, length_continued, List.count_eq_zero_of_not_mem h]

/-- A name on one line is inert. -/
theorem inert_of_notMem {sourceName : Text} (h : '\n' ∉ sourceName) :
    Inert sourceName := by
  rw [Inert, continued_of_notMem h]
  exact List.forall_mem_nil _

/-- Of a name inside a text, the first line goes on the line of the text and
the others are lines of their own. -/
theorem exists_lines_around (sourceName : Text) :
    ∃ first : Text, ∀ before : Text, '\n' ∉ before → ∀ rest : Text,
      lines (before ++ sourceName ++ '\n' :: rest) =
        dropReturn (before ++ first) :: (continued sourceName ++ lines rest) := by
  induction sourceName using induction_lines with
  | line name h =>
      refine ⟨name, fun before hbefore rest => ?_⟩
      have hline : '\n' ∉ before ++ name := by simp [hbefore, h]
      rw [continued_of_notMem h, lines_append_newline hline]
      rfl
  | cut first more h =>
      refine ⟨first, fun before hbefore rest => ?_⟩
      have hline : '\n' ∉ before ++ first := by simp [hbefore, h]
      have hcontinued : continued (first ++ '\n' :: more) = lines (more ++ ['\n']) := by
        rw [continued, List.append_assoc, List.cons_append, lines_append_newline h]
        rfl
      rw [hcontinued, ← List.append_assoc, List.append_assoc (before ++ first),
        List.cons_append, lines_append_newline hline, lines_append_newline_append more]

/-! ## The lines around the name -/

/-- The lines of the head in front of the name, and those behind it. -/
theorem head_eq (sourceName : Text) : head sourceName =
    (head []).take 3 ++
      ("# Auto-generated from ".toList ++ sourceName) :: (head []).drop 4 :=
  rfl

/-- What is read behind the name: the rest of the head, then the blocks. -/
def afterName (t : Table) (o : RenderingOptions) : List Text :=
  lines (join ['\n'] ((head []).drop 4 ++ (blocks t o).flatMap Block.lines))

/-- Every file has the section `disabled` behind its head. -/
theorem exists_blockLines (t : Table) (o : RenderingOptions) :
    ∃ more, (blocks t o).flatMap Block.lines =
      [['['] ++ StrategySection.disabledName ++ [']']] ++
        ("desc=".toList ++ StrategySection.disabled.desc) :: more :=
  ⟨_, rfl⟩

/-- The file behind the name is read on its own. -/
theorem opening_afterName (t : Table) (o : RenderingOptions) :
    Ini.Document.Opening (afterName t o) := by
  obtain ⟨more, hmore⟩ := exists_blockLines t o
  have hhead : ∀ line ∈ (head []).drop 4, '\n' ∉ line := fun line hline =>
    newline_head List.not_mem_nil line (List.mem_of_mem_drop hline)
  have hname : StrategySection.disabledName.trim = StrategySection.disabledName := by
    decide
  have hheader : Ini.Line.read (dropReturn
      (['['] ++ StrategySection.disabledName ++ [']'])) =
        .ok (.header StrategySection.disabledName) := by
    rw [dropReturn_of_getLast? (by rw [List.getLast?_concat]; simp)]
    exact Ini.Line.read_header (by decide) hname
  have hnewline : ∀ line ∈ [['['] ++ StrategySection.disabledName ++ [']']],
      '\n' ∉ line := by
    decide
  rw [afterName, hmore, lines_join_append hhead (by simp),
    lines_join_append hnewline (by simp)]
  intro n current
  rw [readLines_silent_append fun line hline =>
      silentLine_head [] line (List.mem_of_mem_drop hline),
    readLines_silent_append fun line hline =>
      silentLine_head [] line (List.mem_of_mem_drop hline)]
  exact Ini.Document.opening_header hheader _ _ _

/-- The lines of a rendering: the head up to the name, the further lines of
the name, and the rest. -/
theorem readLines_render (t : Table) (o : RenderingOptions) :
    Ini.Document.readLines 1 none (lines (render t o).text) =
      (Ini.Document.readLines 5 none (continued o.sourceName)).bind fun own =>
        (Ini.Document.readLines (5 + o.sourceName.count '\n') none
          (afterName t o)).map fun later => own ++ later := by
  have hhead : ∀ line ∈ (head []).take 3, '\n' ∉ line := fun line hline =>
    newline_head List.not_mem_nil line (List.mem_of_mem_take hline)
  have hstart : '\n' ∉ "# Auto-generated from ".toList := by
    rw [String.toList_ofList]
    decide
  obtain ⟨first, hfirst⟩ := exists_lines_around o.sourceName
  have hbehind : (head []).drop 4 ++ (blocks t o).flatMap Block.lines ≠ [] :=
    List.cons_ne_nil _ _
  have htext : lines (render t o).text = ((head []).take 3).map dropReturn ++
      dropReturn ("# Auto-generated from ".toList ++ first) ::
        (continued o.sourceName ++ afterName t o) := by
    show lines (join ['\n'] (head o.sourceName ++
      (blocks t o).flatMap Block.lines)) = _
    rw [head_eq, List.append_assoc, List.cons_append, lines_join_append hhead (by simp),
      join_cons hbehind, hfirst _ hstart, afterName]
  have hcomment : SilentLine ("# Auto-generated from ".toList ++ first) := by
    refine silentLine_head first _ ?_
    rw [head_eq]
    exact List.mem_append_right _ List.mem_cons_self
  rw [htext, readLines_silent_append fun line hline =>
      silentLine_head [] line (List.mem_of_mem_take hline),
    Ini.Document.readLines_silent hcomment,
    Ini.Document.readLines_append_opening (opening_afterName t o), length_continued]
  rfl

/-! ## Documents -/

/-- Reading a rendering gives what the further lines of the name hold, and
then what is read if the name is left out, with the lines numbered on. -/
theorem parse_render_eq (t : Table) (o : RenderingOptions) :
    Ini.Document.parse (render t o).text =
      (Ini.Document.readLines 5 none (continued o.sourceName)).bind fun own =>
        ((Ini.Document.parse (render t { o with sourceName := [] }).text).mapError
          (Ini.Error.later (o.sourceName.count '\n'))).map fun d => ⟨own ++ d.sections⟩ := by
  have hbase : Ini.Document.readLines 1 none
      (lines (render t { o with sourceName := [] }).text) =
        Ini.Document.readLines 5 none (afterName t o) := by
    have hone : '\n' ∉ ({ o with sourceName := [] } : RenderingOptions).sourceName :=
      List.not_mem_nil
    have hsame : afterName t { o with sourceName := [] } = afterName t o := rfl
    rw [readLines_render, continued_of_notMem hone, List.count_eq_zero_of_not_mem hone,
      hsame, Ini.Document.readLines, Nat.add_zero]
    cases Ini.Document.readLines 5 none (afterName t o) with
    | error e => rfl
    | ok sections => rfl
  rw [Ini.Document.parse, Ini.Document.parse, readLines_render, hbase,
    Ini.Document.readLines_add]
  cases Ini.Document.readLines 5 none (continued o.sourceName) with
  | error e => rfl
  | ok own =>
      cases Ini.Document.readLines 5 none (afterName t o) with
      | error e => rfl
      | ok sections => rfl

/-- An inert name only moves the lines behind it. -/
theorem parse_render_of_inert (t : Table) {o : RenderingOptions} (h : Inert o.sourceName) :
    Ini.Document.parse (render t o).text =
      (Ini.Document.parse (render t { o with sourceName := [] }).text).mapError
        (Ini.Error.later (o.sourceName.count '\n')) := by
  rw [parse_render_eq, Ini.Document.readLines_eq_nil_iff.mpr h]
  cases Ini.Document.parse (render t { o with sourceName := [] }).text with
  | error e => rfl
  | ok d => rfl

/-- A name that adds no section is inert. -/
theorem inert_of_length_eq {t : Table} {o : RenderingOptions} {d d' : Ini.Document}
    (hbase : Ini.Document.parse (render t { o with sourceName := [] }).text = .ok d)
    (hparse : Ini.Document.parse (render t o).text = .ok d')
    (hlength : d'.sections.length = d.sections.length) : Inert o.sourceName := by
  rw [parse_render_eq, hbase] at hparse
  cases hown : Ini.Document.readLines 5 none (continued o.sourceName) with
  | error e =>
      rw [hown] at hparse
      cases hparse
  | ok own =>
      rw [hown] at hparse
      obtain rfl := Except.ok.inj hparse
      have hnil : own = [] := by
        rw [List.length_append] at hlength
        exact List.length_eq_zero_iff.mp (by omega)
      exact Ini.Document.readLines_eq_nil_iff.mp (hnil ▸ hown)

/-- Two inert names give the same document. They give the same error if they
have as many lines. -/
theorem parse_render_eq_iff (t : Table) (o : RenderingOptions) {s₁ s₂ : Text}
    (h₁ : Inert s₁) (h₂ : Inert s₂) :
    Ini.Document.parse (render t { o with sourceName := s₁ }).text =
        Ini.Document.parse (render t { o with sourceName := s₂ }).text ↔
      (∃ d, Ini.Document.parse (render t { o with sourceName := s₁ }).text = .ok d) ∨
        s₁.count '\n' = s₂.count '\n' := by
  rw [parse_render_of_inert t (o := { o with sourceName := s₁ }) h₁,
    parse_render_of_inert t (o := { o with sourceName := s₂ }) h₂]
  cases Ini.Document.parse (render t { o with sourceName := [] }).text with
  | ok d => exact ⟨fun _ => .inl ⟨d, rfl⟩, fun _ => rfl⟩
  | error e =>
      rw [← Ini.Error.later_eq_later_iff (e := e)]
      constructor
      · exact fun h => .inr (Except.error.inj h)
      · rintro (⟨d, ⟨⟩⟩ | h)
        exact congrArg Except.error h

/-- A document that an inert name gives is given by the inert names only. -/
theorem parse_render_eq_ok_iff {t : Table} {o : RenderingOptions} {s₁ : Text}
    (h₁ : Inert s₁) {d : Ini.Document}
    (hparse : Ini.Document.parse (render t { o with sourceName := s₁ }).text = .ok d)
    (s₂ : Text) :
    Ini.Document.parse (render t { o with sourceName := s₂ }).text = .ok d ↔ Inert s₂ := by
  have hbase : Ini.Document.parse (render t { o with sourceName := [] }).text = .ok d := by
    rw [← hparse, parse_render_eq_iff t o (inert_of_notMem List.not_mem_nil) h₁]
    rw [parse_render_of_inert t (o := { o with sourceName := s₁ }) h₁] at hparse
    cases hempty : Ini.Document.parse (render t { o with sourceName := [] }).text with
    | ok d' => exact .inl ⟨d', rfl⟩
    | error e =>
        rw [hempty] at hparse
        cases hparse
  constructor
  · exact fun h => inert_of_length_eq (o := { o with sourceName := s₂ }) hbase h rfl
  · intro h₂
    rw [parse_render_of_inert t (o := { o with sourceName := s₂ }) h₂, hbase]
    rfl

/-! ## Verification -/

/-- The exact condition for a rendering to verify, over names of any kind. -/
theorem verify_render_sourceName_iff {t : Table} {o : RenderingOptions} :
    verify (render t o).sections (render t o).text = .ok () ↔
      Inert o.sourceName ∧ ∀ s ∈ (render t o).sections, Survives s := by
  have hone : '\n' ∉ ({ o with sourceName := [] } : RenderingOptions).sourceName :=
    List.not_mem_nil
  have hempty := inert_of_notMem hone
  have hbase := verify_sections_iff (t := t) hone
  constructor
  · intro h
    have hreadable := readable_of_verify h
    have hread := parse_render (t := t) hone hreadable
    obtain ⟨d, hparse, hlength, -⟩ := verify_eq_ok_iff.mp h
    have hinert : Inert o.sourceName :=
      inert_of_length_eq hread hparse (by rw [hlength, List.length_map]; rfl)
    refine ⟨hinert, hbase.mp ?_⟩
    rw [← h]
    exact verify_congr (((parse_render_eq_ok_iff hempty hread _).mpr hinert).trans hread.symm).symm
  · rintro ⟨hinert, hall⟩
    have hread := parse_render (t := t) hone fun s hs => (hall s hs).1
    rw [← hbase.mpr hall]
    exact verify_congr (((parse_render_eq_ok_iff hempty hread _).mpr hinert).trans hread.symm)

/-- Verification tells two inert names apart where the reader does. -/
theorem verify_render_eq_iff (t : Table) (o : RenderingOptions) {s₁ s₂ : Text}
    (h₁ : Inert s₁) (h₂ : Inert s₂) (sections : List StrategySection) :
    verify sections (render t { o with sourceName := s₁ }).text =
        verify sections (render t { o with sourceName := s₂ }).text ↔
      Ini.Document.parse (render t { o with sourceName := s₁ }).text =
        Ini.Document.parse (render t { o with sourceName := s₂ }).text := by
  refine ⟨fun h => ?_, verify_congr⟩
  cases hparse : Ini.Document.parse (render t { o with sourceName := s₁ }).text with
  | error e =>
      rw [verify_eq_malformed_iff.mpr hparse] at h
      exact (verify_eq_malformed_iff.mp h.symm).symm
  | ok d => exact ((parse_render_eq_ok_iff h₁ hparse s₂).mpr h₂).symm

/-- Two names that stay within comments give the same document and the same
answer of verification. Only in an error of the reader the number of the line
moves with the number of lines in the name. A file that could be read is read
the same under another name, and one that verified still verifies, if and
only if that name stays within comments too. -/
theorem parse_render_sourceName (t : Table) (o : RenderingOptions) (s₁ s₂ : Text)
    (h₁ : Inert s₁) :
    let r (s : Text) : Rendering := render t { o with sourceName := s }
    (Inert s₂ →
      (Ini.Document.parse (r s₁).text = Ini.Document.parse (r s₂).text ↔
        (∃ d, Ini.Document.parse (r s₁).text = .ok d) ∨ s₁.count '\n' = s₂.count '\n') ∧
      (verify (r s₁).sections (r s₁).text = verify (r s₂).sections (r s₂).text ↔
        (∃ d, Ini.Document.parse (r s₁).text = .ok d) ∨ s₁.count '\n' = s₂.count '\n')) ∧
    (∀ d, Ini.Document.parse (r s₁).text = .ok d →
      (Ini.Document.parse (r s₂).text = .ok d ↔ Inert s₂)) ∧
    (verify (r s₁).sections (r s₁).text = .ok () →
      (verify (r s₂).sections (r s₂).text = .ok () ↔ Inert s₂)) := by
  intro r
  refine ⟨fun h₂ => ⟨parse_render_eq_iff t o h₁ h₂, ?_⟩,
    fun d hd => parse_render_eq_ok_iff h₁ hd s₂, fun hverify => ?_⟩
  · rw [← parse_render_eq_iff t o h₁ h₂]
    exact verify_render_eq_iff t o h₁ h₂ _
  · have hall := (verify_render_sourceName_iff.mp hverify).2
    refine verify_render_sourceName_iff.trans ?_
    exact ⟨fun h => h.1, fun h₂ => ⟨h₂, hall⟩⟩

/-- A table of one strategy. -/
def lone : Table := ⟨[⟨"a".toList, "--a".toList⟩], by decide⟩

theorem survives_lone (o : RenderingOptions) : ∀ s ∈ (render lone o).sections, Survives s := by
  intro s hs
  rcases mem_sections_iff.mp hs with rfl | ⟨e, he, -, rfl⟩ | ⟨e, he, rfl⟩
  · exact survives_disabled
  · obtain rfl := List.mem_singleton.mp he
    exact survives_defaultOf_iff.mpr (by decide)
  · obtain rfl := List.mem_singleton.mp (mem_remaining_iff.mp he).1
    exact survives_sectionOf_iff.mpr (by decide)

/-- A comment and a blank line may follow, a header may not. -/
theorem parse_render_sourceName_comment :
    let r (s : Text) : Rendering := render lone ⟨none, .flat, .simple, s⟩
    Inert "s.sh".toList ∧ Inert "s\n# b\n\n ;c".toList ∧ ¬ Inert "s\n[b]".toList ∧
      Ini.Document.parse (r "s.sh".toList).text =
        Ini.Document.parse (r "s\n# b\n\n ;c".toList).text ∧
      verify (r "s.sh".toList).sections (r "s.sh".toList).text = .ok () ∧
      verify (r "s\n[b]".toList).sections (r "s\n[b]".toList).text ≠ .ok () := by
  intro r
  have hone : Inert "s.sh".toList := by decide
  have hcomment : Inert "s\n# b\n\n ;c".toList := by decide
  have hheader : ¬ Inert "s\n[b]".toList := by decide
  have hsource : '\n' ∉ "s.sh".toList := by decide
  have hread := parse_render_of_survives (o := ⟨none, .flat, .simple, "s.sh".toList⟩)
    hsource (survives_lone _)
  have hverify : verify (r "s.sh".toList).sections (r "s.sh".toList).text = .ok () :=
    verify_render_sourceName_iff.mpr ⟨hone, survives_lone _⟩
  let o : RenderingOptions := ⟨none, .flat, .simple, []⟩
  have hsame := ((parse_render_sourceName lone o _ _ hone).1 hcomment).1.mpr (.inl ⟨_, hread⟩)
  have hother := mt ((parse_render_sourceName lone o _ _ hone).2.2 hverify).mp hheader
  exact ⟨hone, hcomment, hheader, hsame, hverify, hother⟩

/-- A second line of the name is read as a part of the document. -/
theorem not_parse_render_sourceName :
    let r (s : Text) : Rendering := render lone ⟨none, .flat, .simple, s⟩
    Ini.Document.parse (r "s.sh".toList).text ≠ Ini.Document.parse (r "s\n[b]".toList).text ∧
      verify (r "s.sh".toList).sections (r "s.sh".toList).text ≠
        verify (r "s\n[b]".toList).sections (r "s\n[b]".toList).text := by
  intro r
  have hone : Inert "s.sh".toList := by decide
  have hheader : ¬ Inert "s\n[b]".toList := by decide
  have hverify : verify (r "s.sh".toList).sections (r "s.sh".toList).text = .ok () :=
    verify_render_sourceName_iff.mpr ⟨hone, survives_lone _⟩
  have hother : verify (r "s\n[b]".toList).sections (r "s\n[b]".toList).text ≠ .ok () :=
    fun h => hheader (verify_render_sourceName_iff.mp h).1
  refine ⟨fun h => hother ?_, fun h => hother (h ▸ hverify)⟩
  rw [← verify_congr h]
  exact hverify

end CaseTable.Rendering
