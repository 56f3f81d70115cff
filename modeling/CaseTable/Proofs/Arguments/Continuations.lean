import CaseTable.Proofs.Text.Words

/-!
# Normalised arguments are words

A text falls into stretches without a line continuation and, between each two,
a continuation with all blanks behind it, in one way only
(`exists_parted`). Joining writes a space for each continuation. Normalising
leaves the words of that, with one space between each two, and so nothing that
is no blank is lost but the backslashes of the continuations
(`normalize_eq_join_words`).

The induction is that of `joinContinuations`. At a continuation the first
stretch is empty (`parted_continuation_iff`); before any other character the
first stretch has this character at its front (`parted_cons_iff`).
-/

namespace CaseTable.Arguments

/-- The end of a line, of one character or of two. -/
def IsLineEnd (t : Text) : Prop := t = ['\n'] ∨ t = ['\r', '\n']

/-- A backslash before the end of a line, with blanks behind it. -/
def IsContinuation (t : Text) : Prop :=
  ∃ lineEnd blanks, IsLineEnd lineEnd ∧ (∀ c ∈ blanks, isBlank c = true) ∧
    t = '\\' :: (lineEnd ++ blanks)

/-- No line of the text ends with a backslash. -/
def Unbroken (t : Text) : Prop := ∀ lineEnd, IsLineEnd lineEnd → ¬ '\\' :: lineEnd <:+: t

/-- The rows written behind each other. -/
def rowsText (rows : List (Text × Text)) : Text := rows.flatMap fun row => row.1 ++ row.2

/-- The text is a stretch without a continuation, and behind it for each row a
continuation, as long as can be, and another such stretch. -/
structure Parted (t first : Text) (rows : List (Text × Text)) : Prop where
    text_eq : t = first ++ rowsText rows
    unbroken : Unbroken first
    row : ∀ row ∈ rows, IsContinuation row.1 ∧ Unbroken row.2 ∧
      row.2.head?.all (!isBlank ·) = true

theorem IsLineEnd.backslash_notMem {t : Text} (h : IsLineEnd t) : '\\' ∉ t := by
  rcases h with rfl | rfl <;> decide

theorem IsLineEnd.append_inj {lineEnd lineEnd' t t' : Text} (h : IsLineEnd lineEnd)
    (h' : IsLineEnd lineEnd') (heq : lineEnd ++ t = lineEnd' ++ t') :
    lineEnd = lineEnd' ∧ t = t' := by
  rcases h with rfl | rfl <;> rcases h' with rfl | rfl <;> simp_all

theorem Unbroken.of_cons {c : Char} {t : Text} (h : Unbroken (c :: t)) : Unbroken t :=
  fun lineEnd hline hinfix => h lineEnd hline (List.infix_cons hinfix)

theorem rowsText_cons (row : Text × Text) (rows : List (Text × Text)) :
    rowsText (row :: rows) = row.1 ++ (row.2 ++ rowsText rows) := by
  simp [rowsText]

/-- What stands behind a stretch starts with a backslash. -/
theorem head?_rowsText {rows : List (Text × Text)} (h : ∀ row ∈ rows, IsContinuation row.1) :
    (rowsText rows).head?.all (· = '\\') = true := by
  cases rows with
  | nil => rfl
  | cons row rows =>
      obtain ⟨lineEnd, blanks, -, -, hrow⟩ := h row List.mem_cons_self
      rw [rowsText_cons, hrow]
      rfl

/-- Behind the blanks of a continuation stands no other blank. -/
theorem head?_append_rowsText {second : Text} {rows : List (Text × Text)}
    (hsecond : second.head?.all (!isBlank ·) = true) (h : ∀ row ∈ rows, IsContinuation row.1) :
    (second ++ rowsText rows).head?.all (!isBlank ·) = true := by
  cases second with
  | nil =>
      have hhead := head?_rowsText h
      rw [List.nil_append]
      cases hrows : (rowsText rows).head? with
      | none => rfl
      | some c =>
          rw [hrows] at hhead
          obtain rfl : c = '\\' := by simpa using hhead
          rfl
  | cons c second => exact hsecond

theorem parted_nil_iff {first : Text} {rows : List (Text × Text)} :
    Parted [] first rows ↔ first = [] ∧ rows = [] := by
  constructor
  · intro h
    obtain ⟨hfirst, hrows⟩ := List.append_eq_nil_iff.mp h.text_eq.symm
    refine ⟨hfirst, ?_⟩
    cases rows with
    | nil => rfl
    | cons row rows =>
        obtain ⟨⟨lineEnd, blanks, -, -, hrow⟩, -⟩ := h.row row List.mem_cons_self
        rw [rowsText_cons, hrow] at hrows
        cases hrows
  · rintro ⟨rfl, rfl⟩
    exact ⟨rfl, fun _ _ hinfix => by simp at hinfix, fun _ hrow => by cases hrow⟩

/-- Before any other character than the backslash of a continuation. -/
theorem parted_cons_iff {c : Char} {t first : Text} {rows : List (Text × Text)}
    (h : ∀ lineEnd, IsLineEnd lineEnd → ¬ '\\' :: lineEnd <+: c :: t) :
    Parted (c :: t) first rows ↔ ∃ later, first = c :: later ∧ Parted t later rows := by
  constructor
  · intro hparted
    cases first with
    | nil =>
        cases rows with
        | nil => cases hparted.text_eq
        | cons row rows =>
            obtain ⟨⟨lineEnd, blanks, hline, -, hrow⟩, -⟩ := hparted.row row List.mem_cons_self
            refine absurd ⟨blanks ++ (row.2 ++ rowsText rows), ?_⟩ (h lineEnd hline)
            rw [hparted.text_eq, rowsText_cons, hrow]
            simp
    | cons d later =>
        obtain ⟨rfl, htext⟩ := List.cons.inj hparted.text_eq
        exact ⟨later, rfl, htext, hparted.unbroken.of_cons, hparted.row⟩
  · rintro ⟨later, rfl, hparted⟩
    refine ⟨congrArg (c :: ·) hparted.text_eq, fun lineEnd hline hinfix => ?_, hparted.row⟩
    rcases List.infix_cons_iff.mp hinfix with hfront | hinfix
    · refine h lineEnd hline (hfront.trans ?_)
      rw [hparted.text_eq]
      exact List.prefix_append (c :: later) _
    · exact hparted.unbroken lineEnd hline hinfix

/-- Behind a backslash and a line end no stretch goes on. -/
theorem Parted.first_eq_nil {lineEnd t first : Text} {rows : List (Text × Text)}
    (hline : IsLineEnd lineEnd) (h : Parted ('\\' :: (lineEnd ++ t)) first rows) :
    first = [] := by
  cases first with
  | nil => rfl
  | cons d later =>
      obtain ⟨rfl, htext⟩ := List.cons.inj h.text_eq
      have hinside : ¬ lineEnd <+: later := fun hfront =>
        h.unbroken lineEnd hline (List.cons_prefix_cons.mpr ⟨rfl, hfront⟩).isInfix
      rcases List.append_eq_append_iff.mp htext with ⟨more, rfl, -⟩ | ⟨more, hmore, hrows⟩
      · exact absurd (List.prefix_append lineEnd more) hinside
      · cases more with
        | nil => exact absurd ⟨[], by rw [hmore, List.append_nil, List.append_nil]⟩ hinside
        | cons c more =>
            -- the next continuation would start in the line end
            have hc := head?_rowsText fun row hrow => (h.row row hrow).1
            rw [hrows] at hc
            refine absurd ?_ hline.backslash_notMem
            rw [hmore, show c = '\\' by simpa using hc]
            simp

/-- At a continuation. -/
theorem parted_continuation_iff {lineEnd t first : Text} {rows : List (Text × Text)}
    (hline : IsLineEnd lineEnd) :
    Parted ('\\' :: (lineEnd ++ t)) first rows ↔ first = [] ∧ ∃ second later,
      rows = ('\\' :: (lineEnd ++ t.takeWhile isBlank), second) :: later ∧
        Parted (t.dropWhile isBlank) second later := by
  constructor
  · intro h
    obtain rfl := h.first_eq_nil hline
    refine ⟨rfl, ?_⟩
    cases rows with
    | nil => cases h.text_eq
    | cons row later =>
        obtain ⟨hrow, hlater⟩ := List.forall_mem_cons.mp h.row
        obtain ⟨⟨lineEnd', blanks, hline', hblanks, hcontinuation⟩, hsecond, hhead⟩ := hrow
        have htext : lineEnd ++ t = lineEnd' ++ (blanks ++ (row.2 ++ rowsText later)) := by
          have htext := h.text_eq
          rw [rowsText_cons, hcontinuation] at htext
          simpa using htext
        obtain ⟨rfl, ht⟩ := hline.append_inj hline' htext
        have hstart : blanks ++ (row.2 ++ rowsText later) =
            t.takeWhile isBlank ++ t.dropWhile isBlank := by
          rw [List.takeWhile_append_dropWhile, ht]
        obtain ⟨rfl, hrest⟩ := Text.append_inj_of_forall hblanks
          (List.all_eq_true.mp List.all_takeWhile)
          (head?_append_rowsText hhead fun row hrow => (hlater row hrow).1)
          (Text.head?_trimStart t) hstart
        exact ⟨row.2, later, by rw [← hcontinuation], hrest.symm, hsecond, hlater⟩
  · rintro ⟨rfl, second, later, rfl, h⟩
    have hhead := Text.head?_trimStart t
    rw [Text.trimStart, h.text_eq] at hhead
    refine ⟨?_, fun _ _ hinfix => by simp at hinfix,
      List.forall_mem_cons.mpr ⟨⟨?_, h.unbroken, ?_⟩, h.row⟩⟩
    · rw [rowsText_cons, ← h.text_eq]
      simp
    · exact ⟨lineEnd, _, hline, List.all_eq_true.mp List.all_takeWhile, rfl⟩
    · cases second with
      | nil => rfl
      | cons c second => exact hhead

/-! ## Joining -/

theorem joinContinuations_continuation {lineEnd : Text} (h : IsLineEnd lineEnd) (t : Text) :
    joinContinuations ('\\' :: (lineEnd ++ t)) =
      ' ' :: joinContinuations (t.dropWhile isBlank) := by
  rcases h with rfl | rfl
  · rw [List.singleton_append, joinContinuations]
  · rw [List.cons_append, List.singleton_append, joinContinuations]

theorem joinContinuations_cons {c : Char} {t : Text}
    (h : ∀ lineEnd, IsLineEnd lineEnd → ¬ '\\' :: lineEnd <+: c :: t) :
    joinContinuations (c :: t) = c :: joinContinuations t := by
  rw [joinContinuations]
  · rintro u rfl rfl
    exact h ['\n'] (.inl rfl) ⟨u, rfl⟩
  · rintro u rfl rfl
    exact h ['\r', '\n'] (.inr rfl) ⟨u, rfl⟩

/-- A text is empty, or starts with a continuation or with another character. -/
@[elab_as_elim]
theorem induction_continuations {motive : Text → Prop} (nil : motive [])
    (continuation : ∀ lineEnd t, IsLineEnd lineEnd → motive (t.dropWhile isBlank) →
      motive ('\\' :: (lineEnd ++ t)))
    (cons : ∀ c t, (∀ lineEnd, IsLineEnd lineEnd → ¬ '\\' :: lineEnd <+: c :: t) → motive t →
      motive (c :: t)) (t : Text) : motive t := by
  fun_induction joinContinuations t with
  | case1 t ih => exact continuation ['\n'] t (.inl rfl) ih
  | case2 t ih => exact continuation ['\r', '\n'] t (.inr rfl) ih
  | case3 c t hfeed hreturn ih =>
      refine cons c t (fun lineEnd hline => ?_) ih
      rintro ⟨u, hu⟩
      obtain ⟨hc, rfl⟩ := List.cons.inj hu
      rcases hline with rfl | rfl
      · exact hfeed u hc.symm rfl
      · exact hreturn u hc.symm rfl
  | case4 => exact nil

/-- A text falls into stretches and continuations in one way, and joining writes a
space for each continuation. -/
theorem exists_parted (t : Text) : ∃ first rows, Parted t first rows ∧
    (∀ first' rows', Parted t first' rows' → first' = first ∧ rows' = rows) ∧
    joinContinuations t = first ++ rows.flatMap fun row => ' ' :: row.2 := by
  induction t using induction_continuations with
  | nil =>
      refine ⟨[], [], parted_nil_iff.mpr ⟨rfl, rfl⟩, fun _ _ => parted_nil_iff.mp, ?_⟩
      rw [joinContinuations]
      rfl
  | continuation lineEnd t hline ih =>
      obtain ⟨first, rows, hparted, hunique, hjoin⟩ := ih
      refine ⟨[], (_, first) :: rows,
        (parted_continuation_iff hline).mpr ⟨rfl, first, rows, rfl, hparted⟩, ?_, ?_⟩
      · intro first' rows' h
        obtain ⟨rfl, second, later, rfl, hlater⟩ := (parted_continuation_iff hline).mp h
        obtain ⟨rfl, rfl⟩ := hunique second later hlater
        exact ⟨rfl, rfl⟩
      · rw [joinContinuations_continuation hline, hjoin]
        rfl
  | cons c t h ih =>
      obtain ⟨first, rows, hparted, hunique, hjoin⟩ := ih
      refine ⟨c :: first, rows, (parted_cons_iff h).mpr ⟨first, rfl, hparted⟩, ?_, ?_⟩
      · intro first' rows' hother
        obtain ⟨later, rfl, hlater⟩ := (parted_cons_iff h).mp hother
        obtain ⟨rfl, rfl⟩ := hunique later rows' hlater
        exact ⟨rfl, rfl⟩
      · rw [joinContinuations_cons h, hjoin]
        rfl

/-! ## Normalising -/

theorem filter_normalize (t : Text) :
    (normalize t).filter (!isBlank ·) = (joinContinuations t).filter (!isBlank ·) := by
  rw [normalize, Text.filter_trim, Text.filter_collapseBlanks]

/-- The spaces of the continuations are blanks. -/
theorem filter_joined (first : Text) (rows : List (Text × Text)) :
    (first ++ rows.flatMap fun row => ' ' :: row.2).filter (!isBlank ·) =
      (first ++ rows.flatMap Prod.snd).filter (!isBlank ·) := by
  have hspace : (!isBlank ' ') = false := by decide
  rw [List.filter_append, List.filter_append]
  congr 1
  induction rows with
  | nil => rfl
  | cons row rows ih =>
      rw [List.flatMap_cons, List.flatMap_cons, List.cons_append,
        List.filter_cons_of_neg (by simp [hspace]), List.filter_append, List.filter_append, ih]

/-- The backslash is all of a continuation that is no blank. -/
theorem IsContinuation.filter_eq {t : Text} (h : IsContinuation t) :
    t.filter (!isBlank ·) = ['\\'] := by
  obtain ⟨lineEnd, blanks, hline, hblanks, rfl⟩ := h
  have hend : lineEnd.all isBlank = true := by
    rcases hline with rfl | rfl
    · decide
    · decide
  rw [List.filter_cons_of_pos (by decide), List.filter_append,
    Text.filter_of_blanks (List.all_eq_true.mp hend), Text.filter_of_blanks hblanks]
  rfl

/-- A normalised text is the words of the text with a space for each continuation, and
one space between each two. All that is lost are blanks and the backslashes of the
continuations. No blank is left but single spaces inside, so normalising again changes
nothing. -/
theorem normalize_eq_join_words (t : Text) : ∃ first rows,
    (Parted t first rows ∧
      ∀ first' rows', Parted t first' rows' → first' = first ∧ rows' = rows) ∧
    normalize t = Text.join [' '] (Text.words (first ++ rows.flatMap fun row => ' ' :: row.2)) ∧
    ((normalize t).filter (!isBlank ·) = (first ++ rows.flatMap Prod.snd).filter (!isBlank ·) ∧
      ∀ row ∈ rows, row.1.filter (!isBlank ·) = ['\\']) ∧
    Normal (normalize t) ∧ normalize (normalize t) = normalize t := by
  obtain ⟨first, rows, hparted, hunique, hjoin⟩ := exists_parted t
  refine ⟨first, rows, ⟨hparted, hunique⟩, ?_, ⟨?_, ?_⟩, normal_normalize t,
    normalize_normalize t⟩
  · rw [normalize, hjoin, Text.trim_collapseBlanks]
  · rw [filter_normalize, hjoin, filter_joined]
  · exact fun row hrow => (hparted.row row hrow).1.filter_eq

/-- The second backslash is the continuation. -/
example : normalize " --a=\\\\\r\n\t --b \\\n\\\n--c\n".toList = "--a=\\ --b --c".toList := by
  decide +kernel

end CaseTable.Arguments
