import CaseTable.Proofs.Extraction.Entries
import CaseTable.Proofs.Shell.Echo

/-!
# Labels of strategies

The label of a strategy is its name, bare or in quotes, with blanks around
it. Of a row of labels with bars between them the names are read back
(`labels_join`), and where such a row stands as a pattern it shows that it is
one (`showsPattern_labels`). Both rest on how little a name can hold: no
blank, no mark, no bar. Only `esac` has to be left out, because the end of a
table is not told apart from a label of that name.
-/

namespace CaseTable.Shell

/-- The characters of a strategy's name. -/
def NameChar (c : Char) : Prop := c.isAlphanum = true ∨ c = '_' ∨ c = '-'

instance (c : Char) : Decidable (NameChar c) :=
  inferInstanceAs (Decidable (_ ∨ _))

theorem nameChar_of_mem {name : Text} (h : isStrategyName name = true) {c : Char}
    (hc : c ∈ name) : NameChar c := by
  rw [isStrategyName, Bool.and_eq_true, List.all_eq_true] at h
  have hchar := h.2 c hc
  simp only [Bool.or_eq_true, decide_eq_true_eq, or_assoc] at hchar
  exact hchar

theorem NameChar.ne {c d : Char} (h : NameChar c) (hd : ¬ NameChar d) : c ≠ d :=
  fun heq => hd (heq ▸ h)

/-- How a label is written: bare, or in quotes of one kind. -/
inductive Quoting
    | bare
    | single
    | double

def Quoting.marks : Quoting → Text
  | bare => []
  | single => ['\x27']
  | double => ['"']

/-- A label as it is written. -/
structure StrategyLabel where
    before : Text
    before_blank : before.all isBlank = true
    quoting : Quoting
    name : Text
    named : isStrategyName name = true
    not_esac : name ≠ esacWord
    after : Text
    after_blank : after.all isBlank = true

namespace StrategyLabel

def text (label : StrategyLabel) : Text :=
  label.before ++ (label.quoting.marks ++ label.name ++ label.quoting.marks) ++
    label.after

theorem isBlank_before {label : StrategyLabel} :
    ∀ c ∈ label.before, isBlank c = true :=
  List.all_eq_true.mp label.before_blank

theorem isBlank_after {label : StrategyLabel} :
    ∀ c ∈ label.after, isBlank c = true :=
  List.all_eq_true.mp label.after_blank

theorem marks_eq_nil_or (quoting : Quoting) :
    quoting.marks = [] ∨ quoting.marks = ['\x27'] ∨ quoting.marks = ['"'] := by
  cases quoting with
  | bare => exact .inl rfl
  | single => exact .inr (.inl rfl)
  | double => exact .inr (.inr rfl)

theorem mem_marks {quoting : Quoting} {c : Char} (h : c ∈ quoting.marks) :
    c = '\x27' ∨ c = '"' := by
  rcases marks_eq_nil_or quoting with hmarks | hmarks | hmarks <;>
    rw [hmarks] at h
  · cases h
  · exact .inl (List.mem_singleton.mp h)
  · exact .inr (List.mem_singleton.mp h)

/-- All that a label consists of. -/
theorem mem_text {label : StrategyLabel} {c : Char} (h : c ∈ label.text) :
    isBlank c = true ∨ NameChar c ∨ c = '\x27' ∨ c = '"' := by
  simp only [text, List.mem_append] at h
  rcases h with (h | (h | h) | h) | h
  · exact .inl (label.isBlank_before c h)
  · exact .inr (.inr (mem_marks h))
  · exact .inr (.inl (nameChar_of_mem label.named h))
  · exact .inr (.inr (mem_marks h))
  · exact .inl (label.isBlank_after c h)

theorem bar_notMem_text (label : StrategyLabel) : '|' ∉ label.text := by
  intro h
  have := mem_text h
  revert this
  decide

/-- Blanks and quotes are taken off again. -/
theorem unquoteLabel_text (label : StrategyLabel) :
    unquoteLabel label.text = label.name := by
  have hname {c : Char} (hc : c ∈ label.name) := nameChar_of_mem label.named hc
  have htrimmed : Text.Trimmed
      (label.quoting.marks ++ label.name ++ label.quoting.marks) := by
    refine Text.trimmed_of_forall fun c hc => ?_
    simp only [List.mem_append] at hc
    rcases hc with (hc | hc) | hc
    · rcases mem_marks hc with rfl | rfl <;> decide
    · exact isBlank_of_mem_strategyName label.named hc
    · rcases mem_marks hc with rfl | rfl <;> decide
  have hne : label.quoting.marks ++ label.name ++ label.quoting.marks ≠ [] := by
    simp [strategyName_ne_nil label.named]
  have hnone (mark : Char) (hmark : ¬ NameChar mark) :
      between? mark label.name = none := by
    obtain ⟨c, rest, hcons⟩ := List.exists_cons_of_ne_nil
      (strategyName_ne_nil label.named)
    have hc : c ≠ mark := (hname (by rw [hcons]; exact List.mem_cons_self)).ne hmark
    rw [hcons, between?, Text.afterStart?, if_neg hc.symm, Option.bind_none]
  have hsome (mark : Char) : between? mark ([mark] ++ label.name ++ [mark]) =
      some label.name := by
    rw [between?, List.append_assoc, Text.afterStart?_eq_some_iff.mpr rfl,
      Option.bind_some, Text.beforeEnd?_eq_some_iff.mpr rfl]
  rw [unquoteLabel, text, Text.trim_padded label.isBlank_before label.isBlank_after
    htrimmed hne]
  cases label.quoting with
  | bare =>
      simp only [Quoting.marks, List.nil_append, List.append_nil]
      rw [hnone '"' (by decide), hnone '\x27' (by decide)]
      rfl
  | single =>
      have hdouble : between? '"' (['\x27'] ++ label.name ++ ['\x27']) = none := rfl
      simp only [Quoting.marks]
      rw [hdouble, hsome]
      rfl
  | double =>
      simp only [Quoting.marks]
      rw [hsome]
      rfl

/-- The pieces that a label is read as. -/
def pieces (label : StrategyLabel) : List Piece :=
  label.before.map .plain ++
    (match label.quoting with
      | .bare => label.name.map .plain
      | .single => [.single label.name]
      | .double => [.double label.name]) ++
    label.after.map .plain

theorem textOf_pieces (label : StrategyLabel) : textOf label.pieces = label.text := by
  rw [pieces, text]
  cases label.quoting with
  | bare => simp [Quoting.marks]
  | single => simp [Quoting.marks, Piece.text]
  | double => simp [Quoting.marks, Piece.text]

end StrategyLabel

/-- The pattern of some labels, at least one of them. -/
def patternOf (first : StrategyLabel) (others : List StrategyLabel) : Text :=
  Text.join ['|'] ((first :: others).map StrategyLabel.text)

theorem labels_patternOf (first : StrategyLabel) (others : List StrategyLabel) :
    labels (patternOf first others) = (first :: others).map StrategyLabel.name := by
  have hbar : ∀ t ∈ (first :: others).map StrategyLabel.text, '|' ∉ t := by
    intro t ht
    obtain ⟨label, -, rfl⟩ := List.mem_map.mp ht
    exact label.bar_notMem_text
  have hunquote : unquoteLabel ∘ StrategyLabel.text = StrategyLabel.name :=
    funext StrategyLabel.unquoteLabel_text
  rw [labels, patternOf, Text.join, List.splitOn_intercalate _ hbar (by simp),
    List.map_map, hunquote, List.filter_eq_self]
  intro name hname
  obtain ⟨label, -, rfl⟩ := List.mem_map.mp hname
  simpa using strategyName_ne_nil label.named

/-- The pieces of the pattern. -/
def patternPieces (first : StrategyLabel) (others : List StrategyLabel) :
    List Piece :=
  [Piece.plain '|'].intercalate ((first :: others).map StrategyLabel.pieces)

theorem textOf_patternPieces (first : StrategyLabel) (others : List StrategyLabel) :
    textOf (patternPieces first others) = patternOf first others := by
  induction others generalizing first with
  | nil => simpa [patternPieces, patternOf, Text.join] using first.textOf_pieces
  | cons second others ih =>
      have hrest := ih second
      simp only [patternPieces, patternOf, Text.join, List.map_cons,
        List.intercalate_cons_cons] at hrest ⊢
      rw [textOf_append, textOf_append, first.textOf_pieces, hrest]
      rfl

theorem inPattern_plain {t : Text}
    (h : ∀ c ∈ t, c ∉ ['\\', '\x27', '"', ')']) :
    ∀ piece ∈ t.map Piece.plain, piece.InPattern := by
  intro piece hpiece
  obtain ⟨c, hc, rfl⟩ := List.mem_map.mp hpiece
  have hne := h c hc
  simp only [List.mem_cons, List.not_mem_nil, or_false, not_or] at hne
  exact ⟨⟨hne.1, hne.2.1, hne.2.2.1, fun _ => rfl⟩,
    fun heq => hne.2.2.2 (Piece.plain.inj heq)⟩

theorem escaped_of_forall {t : Text} (h : ∀ c ∈ t, c ≠ '\\' ∧ c ≠ '"') :
    isEscaped t = true := by
  fun_induction isEscaped t with
  | case1 => rfl
  | case2 => exact absurd rfl (h _ List.mem_cons_self).1
  | case3 => exact absurd rfl (h _ List.mem_cons_self).1
  | case4 c t _ _ ih =>
      rw [Bool.and_eq_true, decide_eq_true_eq]
      exact ⟨(h c List.mem_cons_self).2,
        ih fun d hd => h d (List.mem_cons_of_mem c hd)⟩

theorem closed_of_isBlank {c : Char} (h : isBlank c = true) :
    c ∉ ['\\', '\x27', '"', ')'] := by
  intro hmem
  simp only [List.mem_cons, List.not_mem_nil, or_false] at hmem
  rcases hmem with rfl | rfl | rfl | rfl <;> revert h <;> decide

theorem NameChar.closed {c : Char} (h : NameChar c) :
    c ∉ ['\\', '\x27', '"', ')'] := by
  intro hmem
  simp only [List.mem_cons, List.not_mem_nil, or_false] at hmem
  rcases hmem with rfl | rfl | rfl | rfl <;> revert h <;> decide

theorem StrategyLabel.inPattern (label : StrategyLabel) :
    ∀ piece ∈ label.pieces, piece.InPattern := by
  have hbefore := inPattern_plain fun c hc =>
    closed_of_isBlank (label.isBlank_before c hc)
  have hafter := inPattern_plain fun c hc =>
    closed_of_isBlank (label.isBlank_after c hc)
  have hname {c : Char} (hc : c ∈ label.name) := nameChar_of_mem label.named hc
  intro piece hpiece
  rw [pieces, List.mem_append, List.mem_append] at hpiece
  rcases hpiece with (hpiece | hpiece) | hpiece
  · exact hbefore piece hpiece
  · cases hquoting : label.quoting with
    | bare =>
        rw [hquoting] at hpiece
        exact inPattern_plain (fun c hc => (hname hc).closed) piece hpiece
    | single =>
        rw [hquoting] at hpiece
        cases List.mem_singleton.mp hpiece
        exact ⟨fun hmark => (hname hmark).ne (by decide) rfl, by simp⟩
    | double =>
        rw [hquoting] at hpiece
        cases List.mem_singleton.mp hpiece
        exact ⟨escaped_of_forall fun c hc =>
          ⟨(hname hc).ne (by decide), (hname hc).ne (by decide)⟩, by simp⟩
  · exact hafter piece hpiece

theorem inPattern_patternPieces (first : StrategyLabel)
    (others : List StrategyLabel) :
    ∀ piece ∈ patternPieces first others, piece.InPattern := by
  induction others generalizing first with
  | nil => simpa [patternPieces] using first.inPattern
  | cons second others ih =>
      have hrest := ih second
      intro piece hpiece
      simp only [patternPieces, List.map_cons, List.intercalate_cons_cons,
        List.mem_append] at hrest hpiece
      rcases hpiece with (hpiece | hpiece) | hpiece
      · exact first.inPattern piece hpiece
      · cases List.mem_singleton.mp hpiece
        decide
      · exact hrest piece hpiece

/-! ## Where a pattern of labels stands -/

/-- No `esac` stands at another name that ends before what follows. -/
theorem not_standsAt_name {name : Text} (hname : isStrategyName name = true)
    (hne : name ≠ esacWord) {behind t : Text}
    (hend : ∀ c, t.head? = some c → ¬ NameChar c) :
    ¬ StandsAt esacWord behind (name ++ t) := by
  rintro ⟨-, ⟨rest, hrest⟩, hafter⟩
  rw [← hrest, List.drop_left] at hafter
  rcases List.append_eq_append_iff.mp hrest with
    ⟨more, hmore, hcut⟩ | ⟨more, hmore, hcut⟩
  · cases more with
    | nil => exact hne (by rw [hmore, List.append_nil])
    | cons c more =>
        have hc : NameChar c := nameChar_of_mem hname (by rw [hmore]; simp)
        have hends : endsAfter c = true := by
          rw [hcut] at hafter
          exact hafter
        simp only [endsAfter, Bool.or_eq_true, decide_eq_true_eq] at hends
        rcases hends with ((((rfl | rfl) | rfl) | rfl) | rfl) | rfl <;>
          exact absurd hc (by decide)
  · cases more with
    | nil => exact hne (by rw [hmore, List.append_nil])
    | cons c more =>
        have hc : c ∈ esacWord := by
          rw [hmore]
          simp
        have hall : esacWord.all (fun d => NameChar d) = true := by decide
        have hname : NameChar c := by simpa using List.all_eq_true.mp hall c hc
        exact hend c (by rw [hcut]; rfl) hname

theorem not_nameChar_of_isBlank {c : Char} (h : isBlank c = true) : ¬ NameChar c := by
  rintro (hc | rfl | rfl)
  · rw [isBlank_of_isAlphanum hc] at h
    cases h
  · revert h
    decide
  · revert h
    decide

theorem showsPattern_of_head {c : Char} {behind t : Text}
    (hblank : isGapBlank c = false) (hparen : c ≠ '(') (hhash : c ≠ '#')
    (hesac : ¬ StandsAt esacWord behind (c :: t)) :
    WrittenArm.ShowsPattern behind (c :: t) := by
  rw [WrittenArm.ShowsPattern, if_neg (ne_true_of_eq_false hblank)]
  exact ⟨hparen, hhash, hesac⟩

/-- Blanks before a pattern are passed, or are a part of it. -/
theorem showsPattern_blanks {blanks t : Text}
    (hblanks : ∀ c ∈ blanks, isBlank c = true)
    (ht : ∀ behind, WrittenArm.ShowsPattern behind t) (behind : Text) :
    WrittenArm.ShowsPattern behind (blanks ++ t) := by
  induction blanks generalizing behind with
  | nil => exact ht behind
  | cons c blanks ih =>
      by_cases hgap : isGapBlank c = true
      · rw [List.cons_append, WrittenArm.ShowsPattern, if_pos hgap]
        exact ih (fun d hd => hblanks d (List.mem_cons_of_mem c hd)) _
      · have hc := hblanks c List.mem_cons_self
        refine showsPattern_of_head (eq_false_of_ne_true hgap) ?_ ?_
          (not_standsAt_of_head ?_)
        · rintro rfl
          cases hc
        · rintro rfl
          cases hc
        · intro heq
          cases heq
          cases hc

theorem showsPattern_label (label : StrategyLabel) {t : Text}
    (hend : ∀ c, t.head? = some c → ¬ NameChar c) (behind : Text) :
    WrittenArm.ShowsPattern behind (label.text ++ t) := by
  rw [StrategyLabel.text, List.append_assoc, List.append_assoc]
  refine showsPattern_blanks label.isBlank_before (fun behind => ?_) behind
  have hnext : ∀ c, (label.after ++ t).head? = some c → ¬ NameChar c := by
    intro c hc
    cases hafter : label.after with
    | nil =>
        rw [hafter, List.nil_append] at hc
        exact hend c hc
    | cons d after =>
        rw [hafter] at hc
        cases hc
        exact not_nameChar_of_isBlank (label.isBlank_after _ (by simp [hafter]))
  cases label.quoting with
  | bare =>
      have hesac : ¬ StandsAt esacWord behind (label.name ++ (label.after ++ t)) :=
        not_standsAt_name label.named label.not_esac hnext
      obtain ⟨c, rest, hcons⟩ := List.exists_cons_of_ne_nil
        (strategyName_ne_nil label.named)
      have hc : NameChar c :=
        nameChar_of_mem label.named (by rw [hcons]; exact List.mem_cons_self)
      simp only [Quoting.marks, List.nil_append, List.append_nil]
      rw [hcons] at hesac ⊢
      refine showsPattern_of_head ?_ (hc.ne (by decide)) (hc.ne (by decide)) hesac
      exact eq_false_of_ne_true fun hgap =>
        not_nameChar_of_isBlank (isBlank_of_isGapBlank hgap) hc
  | single =>
      exact showsPattern_of_head (by decide) (by decide) (by decide)
        (not_standsAt_of_head (by simp))
  | double =>
      exact showsPattern_of_head (by decide) (by decide) (by decide)
        (not_standsAt_of_head (by simp))

/-- A pattern starts with its first label, and a bar comes next if any. -/
theorem patternOf_eq_append (first : StrategyLabel) (others : List StrategyLabel) :
    ∃ rest, patternOf first others = first.text ++ rest ∧
      (rest = [] ∨ rest.head? = some '|') := by
  cases others with
  | nil =>
      refine ⟨[], ?_, .inl rfl⟩
      rw [patternOf, Text.join, List.map_singleton, List.intercalate_singleton,
        List.append_nil]
  | cons second others =>
      refine ⟨'|' :: patternOf second others, ?_, .inr rfl⟩
      rw [patternOf, Text.join, List.map_cons, List.map_cons,
        List.intercalate_cons_cons, List.append_assoc]
      rfl

theorem showsPattern_patternOf (first : StrategyLabel) (others : List StrategyLabel)
    (behind t : Text) :
    WrittenArm.ShowsPattern behind (patternOf first others ++ ')' :: t) := by
  obtain ⟨rest, hpattern, hrest⟩ := patternOf_eq_append first others
  rw [hpattern, List.append_assoc]
  refine showsPattern_label first (fun c hc => ?_) behind
  cases rest with
  | nil =>
      cases hc
      decide
  | cons d rest =>
      cases hrest.resolve_left (List.cons_ne_nil d rest)
      cases hc
      decide

theorem head?_patternOf (first : StrategyLabel) (others : List StrategyLabel)
    (t : Text) : (patternOf first others ++ t).head? ≠ some '&' := by
  obtain ⟨rest, hpattern, -⟩ := patternOf_eq_append first others
  have hne : first.text ≠ [] := by
    simp [StrategyLabel.text, strategyName_ne_nil first.named]
  obtain ⟨c, u, htext⟩ := List.exists_cons_of_ne_nil hne
  rw [hpattern, htext]
  intro heq
  have hc : c = '&' := Option.some.inj heq
  have hmem : c ∈ first.text := by rw [htext]; exact List.mem_cons_self
  have hmem := StrategyLabel.mem_text hmem
  rw [hc] at hmem
  revert hmem
  decide

end CaseTable.Shell
