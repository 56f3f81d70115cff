import CaseTable.Proofs.Description
import CaseTable.Proofs.Ini.Reading
import CaseTable.Proofs.Rendering.Sections
import CaseTable.Proofs.Verification

/-!
# Reading back a rendering

A rendering is a head of comments, and then blocks of lines that each end
with an empty one. `parse_render` reads it back: if every section is readable
the document holds the sections in their order, each with its two values and
nothing else, up to the carriage return that a line end swallows.

`verify_render_iff` is the exact condition under which a rendering passes
its own verification, over tables of arbitrary text. One direction is
`parse_render`. The other needs no knowledge of what a bad value does to the
file: a name or value that passed was found by the reader, and the reader
returns no line feed and no blank edge, so the bad values are ruled out
before the layout of the file is looked at. What remains is the carriage
return, which `parse_render` itself accounts for.
-/

namespace CaseTable

open Text

namespace Rendering

/-! ## The lines of a rendering -/

/-- A line that the reader passes over, also after it lost a carriage
return. -/
def SilentLine (line : Text) : Prop :=
  Ini.Line.read (dropReturn line) = .ok .silent

theorem silentLine_nil : SilentLine [] := rfl

theorem silentLine_comment (t : Text) : SilentLine ('#' :: t) := by
  have h : dropReturn (['#'] ++ t) = ['#'] ++ dropReturn t :=
    dropReturn_append (by decide)
  rw [List.singleton_append] at h
  rw [SilentLine, h]
  exact Ini.Line.read_comment _

/-- The name of the source stands in one line of the head only. -/
theorem mem_head {sourceName line : Text} (h : line ∈ head sourceName) :
    line ∈ head [] ∨ line = "# Auto-generated from ".toList ++ sourceName := by
  rw [head, List.mem_cons, List.mem_cons, List.mem_cons, List.mem_cons] at h ⊢
  rcases h with h | h | h | h | h
  · exact .inl (.inl h)
  · exact .inl (.inr (.inl h))
  · exact .inl (.inl h)
  · exact .inr h
  · exact .inl (.inr (.inr (.inr (.inr h))))

theorem head_fixed : ∀ line ∈ head [],
    (line = [] ∨ line.head? = some '#') ∧ '\n' ∉ line := by
  -- each literal is turned into its characters by a lemma, because decoding
  -- it in the kernel takes seconds
  rw [head, String.toList_append, String.toList_append]
  repeat rw [String.toList_ofList]
  decide +kernel

theorem silentLine_head (sourceName : Text) :
    ∀ line ∈ head sourceName, SilentLine line := by
  intro line hline
  rcases mem_head hline with hline | rfl
  · rcases (head_fixed line hline).1 with rfl | hhash
    · exact silentLine_nil
    · obtain ⟨t, rfl⟩ := List.head?_eq_some_iff.mp hhash
      exact silentLine_comment t
  · exact silentLine_comment (" Auto-generated from ".toList ++ sourceName)

theorem newline_head {sourceName : Text} (h : '\n' ∉ sourceName) :
    ∀ line ∈ head sourceName, '\n' ∉ line := by
  have hstart : '\n' ∉ "# Auto-generated from ".toList := by
    rw [String.toList_ofList]
    decide
  intro line hline
  rcases mem_head hline with hline | rfl
  · exact (head_fixed line hline).2
  · rw [List.mem_append]
    exact fun hmem => hmem.elim hstart h

theorem newline_titleOf (slot : Nat) : '\n' ∉ Group.titleOf slot := by
  have hall : ∀ g ∈ Group.all, '\n' ∉ g.title := by decide
  have hother : '\n' ∉ Group.otherTitle := by decide
  rw [Group.titleOf]
  cases hslot : Group.all[slot]? with
  | none => exact hother
  | some g => exact hall g (List.mem_of_getElem? hslot)

/-- The headings of a rendering are titles of slots. -/
theorem exists_slot_of_heading {t : Table} {o : RenderingOptions}
    {title : Text} (h : Block.heading title ∈ blocks t o) :
    ∃ slot, title = Group.titleOf slot := by
  rw [blocks, List.mem_append] at h
  rcases h with h | h
  · obtain ⟨s, -, hs⟩ := List.mem_map.mp h
    cases hs
  · unfold bodyBlocks at h
    split at h
    · obtain ⟨e, -, he⟩ := List.mem_map.mp h
      cases he
    · obtain ⟨slot, -, hslot⟩ := List.mem_flatMap.mp h
      refine ⟨slot, ?_⟩
      rw [slotBlocks] at hslot
      split at hslot
      · cases hslot
      · rcases List.mem_cons.mp hslot with hslot | hslot
        · cases hslot
          rfl
        · obtain ⟨e, -, he⟩ := List.mem_map.mp hslot
          cases he

theorem body_mem_iff {t : Table} {o : RenderingOptions}
    {s : StrategySection} :
    Block.body s ∈ blocks t o ↔ s ∈ (render t o).sections := by
  show _ ↔ s ∈ (blocks t o).filterMap Block.content?
  rw [List.mem_filterMap]
  constructor
  · exact fun h => ⟨_, h, rfl⟩
  · rintro ⟨b, hb, hs⟩
    cases b with
    | heading title => cases hs
    | body content =>
        cases hs
        exact hb

theorem newline_blocks {t : Table} {o : RenderingOptions}
    (h : ∀ s ∈ (render t o).sections, s.Readable) :
    ∀ b ∈ blocks t o, ∀ line ∈ b.lines, '\n' ∉ line := by
  intro b hb
  cases b with
  | heading title =>
      obtain ⟨slot, rfl⟩ := exists_slot_of_heading hb
      simp [Block.lines, newline_titleOf]
  | body s => exact (h s (body_mem_iff.mp hb)).newline_lines

/-- The head and every block end with an empty line. -/
theorem getLast?_lines (sourceName : Text) (bs : List Block) :
    (head sourceName ++ bs.flatMap Block.lines).getLast? = some [] := by
  rcases List.eq_nil_or_concat bs with rfl | ⟨bs, b, rfl⟩
  · rfl
  · have hb : b.lines.getLast? = some [] := by
      cases b with
      | heading title => rfl
      | body s => rfl
    rw [List.concat_eq_append, List.flatMap_append, List.flatMap_singleton,
      ← List.append_assoc, List.getLast?_append, hb]
    rfl

/-! ## The document -/

theorem readLines_silent_append {ls : List Text}
    (h : ∀ line ∈ ls, SilentLine line) (current : Option Ini.Section)
    (rest : List Text) : ∀ n : Nat,
      Ini.Document.readLines n current (ls.map dropReturn ++ rest) =
        Ini.Document.readLines (n + ls.length) current rest := by
  induction ls with
  | nil => intro n; rfl
  | cons line ls ih =>
      intro n
      rw [List.map_cons, List.cons_append,
        Ini.Document.readLines_silent (h line (by simp)),
        ih (fun l hl => h l (by simp [hl])), List.length_cons,
        Nat.add_right_comm, Nat.add_assoc]

theorem readLines_blocks {bs : List Block}
    (h : ∀ s, Block.body s ∈ bs → s.Readable) :
    ∀ (n : Nat) (current : Option Ini.Section),
      Ini.Document.readLines n current ((bs.flatMap Block.lines).map dropReturn)
        = .ok (current.toList ++
            (bs.filterMap Block.content?).map StrategySection.readBack) := by
  induction bs with
  | nil =>
      intro n current
      simp [Ini.Document.readLines]
  | cons b bs ih =>
      intro n current
      have ih := ih fun s hs => h s (List.mem_cons_of_mem b hs)
      rw [List.flatMap_cons, List.map_append]
      cases b with
      | heading title =>
          have hsilent : ∀ line ∈ (Block.heading title).lines,
              SilentLine line := by
            simp only [Block.lines, List.forall_mem_cons]
            exact ⟨silentLine_comment _, silentLine_nil, by simp⟩
          rw [readLines_silent_append hsilent, ih]
          rfl
      | body s =>
          rw [show (Block.body s).lines = s.lines from rfl,
            Ini.Document.readLines_section (h s (by simp)), ih]
          rfl

/-- A rendering of readable sections is read back as those sections. -/
theorem parse_render {t : Table} {o : RenderingOptions}
    (hsource : '\n' ∉ o.sourceName)
    (h : ∀ s ∈ (render t o).sections, s.Readable) :
    Ini.Document.parse (render t o).text =
      .ok ⟨(render t o).sections.map StrategySection.readBack⟩ := by
  have hlast := getLast?_lines o.sourceName (blocks t o)
  have hnewline : ∀ line ∈ head o.sourceName ++
      (blocks t o).flatMap Block.lines, '\n' ∉ line := by
    intro line hline
    rcases List.mem_append.mp hline with hline | hline
    · exact newline_head hsource line hline
    · obtain ⟨b, hb, hline⟩ := List.mem_flatMap.mp hline
      exact newline_blocks h b hb line hline
  have hread : Ini.Document.readLines 1 none (lines (render t o).text) =
      .ok ((render t o).sections.map StrategySection.readBack) := by
    obtain ⟨init, hinit⟩ := List.getLast?_eq_some_iff.mp hlast
    show Ini.Document.readLines 1 none
      (lines (join ['\n'] (head o.sourceName ++
        (blocks t o).flatMap Block.lines))) = _
    rw [lines_join hlast hnewline, hinit, List.dropLast_concat,
      ← Ini.Document.readLines_append_silent Ini.Line.read_nil,
      ← dropReturn_nil, ← List.map_singleton, ← List.map_append, ← hinit,
      List.map_append, readLines_silent_append (silentLine_head _),
      readLines_blocks fun s hs => h s (body_mem_iff.mp hs)]
    rfl
  rw [Ini.Document.parse, hread]
  rfl

/-! ## Verification -/

/-- A section that survives writing and reading unchanged. -/
def Survives (s : StrategySection) : Prop :=
  s.Readable ∧ s.args.getLast? ≠ some '\r'

theorem find?_readBack {ss : List StrategySection}
    (h : (ss.map StrategySection.name).Nodup) {s : StrategySection}
    (hs : s ∈ ss) :
    (Ini.Document.mk (ss.map StrategySection.readBack)).find? s.name =
      some s.readBack := by
  have hnames : ((ss.map StrategySection.readBack).map Ini.Section.name).Nodup := by
    rw [List.map_map]
    exact h
  exact (Ini.Document.find?_eq_some_iff hnames).mpr ⟨List.mem_map_of_mem hs, rfl⟩

theorem holds_readBack_iff {s : StrategySection} :
    Ini.Document.Holds s.readBack s ↔ s.args.getLast? ≠ some '\r' := by
  have hdesc : s.readBack.get? SectionKey.desc.name = some s.desc := rfl
  have hargs : s.readBack.get? SectionKey.args.name
      = some (dropReturn s.args) := rfl
  rw [← dropReturn_eq_self_iff]
  constructor
  · intro h
    exact Option.some.inj (hargs.symm.trans (h .args))
  · rintro h (_ | _)
    · exact hdesc
    · rw [hargs, h]
      rfl

theorem defaultOf_last (name args : Text) :
    (StrategySection.defaultOf name args).desc.getLast? ≠ some '\r' := by
  rw [StrategySection.defaultOf, List.getLast?_concat]
  simp

/-- A carriage return is a blank, so a trimmed name does not end with one,
and its description does not either. -/
theorem describe_last {name : Text} (htrim : name.trim = name)
    (style : DescriptionStyle) :
    (describe style name).getLast? ≠ some '\r' := by
  intro hlast
  have hedge := (trim_eq_self_iff.mp htrim).2
  rw [(spares_describe isControl_return style).last hlast] at hedge
  exact absurd hedge (by decide)

theorem desc_last_of_mem {t : Table} {o : RenderingOptions}
    {s : StrategySection} (hs : s ∈ (render t o).sections)
    (htrim : s.name.trim = s.name) : s.desc.getLast? ≠ some '\r' := by
  rcases mem_sections_iff.mp hs with rfl | ⟨e, -, -, rfl⟩ | ⟨e, -, rfl⟩
  · simp [StrategySection.disabled]
  · exact defaultOf_last e.name e.args
  · exact describe_last htrim o.style

/-- What passes verification was found by the reader, so it is of the kind
that the reader returns. -/
theorem readable_of_verify {t : Table} {o : RenderingOptions}
    (h : verify (render t o).sections (render t o).text = .ok ()) :
    ∀ s ∈ (render t o).sections, s.Readable := by
  obtain ⟨d, hparse, -, hfound⟩ := verify_eq_ok_iff.mp h
  intro s hs
  obtain ⟨found, hfind, hholds⟩ := hfound s hs
  have hmem := List.mem_of_find?_eq_some hfind
  have hname : found.name = s.name := by
    simpa using List.find?_some hfind
  have hlines := Ini.Document.fromLines_of_parse hparse found hmem
  have htrim : s.name.trim = s.name := hname ▸ hlines.name_trim
  exact ⟨hname ▸ hlines.name_ne_nil, htrim, hname ▸ hlines.newline_name,
    hlines.newline_get? (hholds .desc), hlines.newline_get? (hholds .args),
    desc_last_of_mem hs htrim⟩

/-- A rendering verifies if and only if every section of it survives. -/
theorem verify_sections_iff {t : Table} {o : RenderingOptions}
    (hsource : '\n' ∉ o.sourceName) :
    verify (render t o).sections (render t o).text = .ok () ↔
      ∀ s ∈ (render t o).sections, Survives s := by
  constructor
  · intro h
    have hreadable := readable_of_verify h
    obtain ⟨d, hparse, -, hfound⟩ := verify_eq_ok_iff.mp h
    rw [parse_render hsource hreadable] at hparse
    obtain rfl := Except.ok.inj hparse
    intro s hs
    refine ⟨hreadable s hs, ?_⟩
    obtain ⟨found, hfind, hholds⟩ := hfound s hs
    rw [find?_readBack (nodup_sections t o) hs] at hfind
    obtain rfl := Option.some.inj hfind
    exact holds_readBack_iff.mp hholds
  · intro h
    refine verify_eq_ok_iff.mpr
      ⟨_, parse_render hsource fun s hs => (h s hs).1, by simp, ?_⟩
    intro s hs
    exact ⟨_, find?_readBack (nodup_sections t o) hs,
      holds_readBack_iff.mpr (h s hs).2⟩

/-- If all sections survive, what is read back is what was written. -/
theorem parse_render_of_survives {t : Table} {o : RenderingOptions}
    (hsource : '\n' ∉ o.sourceName)
    (h : ∀ s ∈ (render t o).sections, Survives s) :
    Ini.Document.parse (render t o).text =
      .ok ⟨(render t o).sections.map StrategySection.toIni⟩ := by
  rw [parse_render hsource fun s hs => (h s hs).1]
  congr 2
  exact List.map_congr_left fun s hs =>
    StrategySection.readBack_eq_toIni (h s hs).2

/-- A name that can stand in a section header. -/
def FitsHeader (name : Text) : Prop :=
  name ≠ [] ∧ name.trim = name ∧ '\n' ∉ name

/-- A value that can stand at the end of a line. -/
def FitsLine (value : Text) : Prop :=
  '\n' ∉ value ∧ value.getLast? ≠ some '\r'

instance (name : Text) : Decidable (FitsHeader name) :=
  inferInstanceAs (Decidable (_ ∧ _))

instance (value : Text) : Decidable (FitsLine value) :=
  inferInstanceAs (Decidable (_ ∧ _))

theorem survives_disabled : Survives .disabled := by
  refine ⟨⟨by decide, by decide, by decide, by decide, by decide, ?_⟩, ?_⟩
  · simp [StrategySection.disabled]
  · simp [StrategySection.disabled]

theorem survives_defaultOf_iff {name args : Text} :
    Survives (.defaultOf name args) ↔ '\n' ∉ name ∧ FitsLine args := by
  constructor
  · rintro ⟨hread, hlast⟩
    refine ⟨fun hmem => hread.newline_desc ?_, hread.newline_args, hlast⟩
    simp [StrategySection.defaultOf, hmem]
  · rintro ⟨hname, hargs, hlast⟩
    have hfixed : FitsHeader StrategySection.defaultName := by decide
    refine ⟨⟨hfixed.1, hfixed.2.1, hfixed.2.2, ?_, hargs,
      defaultOf_last name args⟩, hlast⟩
    simp [StrategySection.defaultOf, hname]

theorem survives_sectionOf_iff {style : DescriptionStyle} {e : Entry} :
    Survives (sectionOf style e) ↔ FitsHeader e.name ∧ FitsLine e.args := by
  constructor
  · rintro ⟨hread, hlast⟩
    exact ⟨⟨hread.name_ne_nil, hread.name_trim, hread.newline_name⟩,
      hread.newline_args, hlast⟩
  · rintro ⟨⟨hne, htrim, hname⟩, hargs, hlast⟩
    have hdesc := spares_describe isControl_newline style
    exact ⟨⟨hne, htrim, hname, fun h => hname (hdesc.mem h), hargs,
      describe_last htrim style⟩, hlast⟩

/-- The exact condition for a rendering to verify. A strategy under its own
name needs a name that fits a header and arguments that fit a line. The
default stands under a fixed name; its own name goes into the description,
where only a line feed does harm. Nothing is asked of strategies that are
left out. -/
theorem verify_render_iff (t : Table) (o : RenderingOptions)
    (hsource : '\n' ∉ o.sourceName) :
    verify (render t o).sections (render t o).text = .ok () ↔
      (∀ e ∈ t.entries, t.default? o.default ≠ some e.name →
        e.name ≠ StrategySection.disabledName →
        e.name ≠ StrategySection.defaultName →
        FitsHeader e.name ∧ FitsLine e.args) ∧
      (∀ e ∈ t.entries, t.default? o.default = some e.name →
        '\n' ∉ e.name ∧ FitsLine e.args) := by
  rw [verify_sections_iff hsource]
  constructor
  · intro h
    constructor
    · intro e he hdefault hdis hdef
      exact survives_sectionOf_iff.mp (h _ (mem_sections_iff.mpr
        (Or.inr (Or.inr ⟨e, mem_remaining_iff.mpr ⟨he, hdefault, hdis, hdef⟩,
          rfl⟩))))
    · intro e he hdefault
      exact survives_defaultOf_iff.mp (h _ (mem_sections_iff.mpr
        (Or.inr (Or.inl ⟨e, he, hdefault, rfl⟩))))
  · rintro ⟨hown, hdefault⟩ s hs
    rcases mem_sections_iff.mp hs with rfl | ⟨e, he, hname, rfl⟩ | ⟨e, he, rfl⟩
    · exact survives_disabled
    · exact survives_defaultOf_iff.mpr (hdefault e he hname)
    · obtain ⟨hmem, hname, hdis, hdef⟩ := mem_remaining_iff.mp he
      exact survives_sectionOf_iff.mpr (hown e hmem hname hdis hdef)

/-- Brackets, comment marks and equals signs in names and arguments are
harmless; a carriage return at the end of the arguments is not. -/
theorem verify_render_odd_text :
    (let t : Table := ⟨[⟨"first".toList, []⟩, ⟨"a]b=#".toList, "[;=#".toList⟩],
        by decide⟩
      let o : RenderingOptions := ⟨none, .flat, .simple, "x.sh".toList⟩
      verify (render t o).sections (render t o).text = .ok ()) ∧
    (let t : Table := ⟨[⟨"first".toList, []⟩, ⟨"b".toList, "--b\r".toList⟩],
        by decide⟩
      let o : RenderingOptions := ⟨none, .flat, .simple, "x.sh".toList⟩
      verify (render t o).sections (render t o).text ≠ .ok ()) := by
  refine ⟨(verify_render_iff _ _ (by decide)).mpr ⟨?_, ?_⟩,
    mt (verify_render_iff _ _ (by decide)).mp ?_⟩
  · decide
  · decide
  · decide

end Rendering

end CaseTable
