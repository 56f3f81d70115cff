import CaseTable.Proofs.Shell.EchoSearch

/-!
# A body that echoes a quoted string

The bodies of a table of strategies all look alike: blanks and comments, an
`echo` with some option words, a string in double quotes, and blanks up to
the ending. Such a body prints its string, taken as written
(`echoed?_text`), and it can stand in any table (`fits_pieces`).
-/

namespace CaseTable.Shell

/-- Blanks and comments, any number of them. -/
def Gap : Type := { pieces : List Piece // ∀ piece ∈ pieces, piece.Skipped }

/-- Spaces and tabs, at least one of them. -/
structure Spacing where
    text : Text
    nonempty : text ≠ []
    blank : text.all (fun c => c = ' ' || c = '\t') = true

/-- A minus and some of the letters `n`, `e` and `E`. -/
structure OptionWord where
    letters : Text
    nonempty : letters ≠ []
    known : letters.all (fun c => c = 'n' || c = 'e' || c = 'E') = true

theorem Spacing.of_mem {spacing : Spacing} {c : Char} (h : c ∈ spacing.text) :
    c = ' ' ∨ c = '\t' := by
  simpa using List.all_eq_true.mp spacing.blank c h

theorem OptionWord.of_mem {word : OptionWord} {c : Char} (h : c ∈ word.letters) :
    c = 'n' ∨ c = 'e' ∨ c = 'E' := by
  simpa [or_assoc] using List.all_eq_true.mp word.known c h

/-- What stands between `echo` and its string. -/
def echoArguments (options : List (Spacing × OptionWord)) (spacing : Spacing) :
    Text :=
  options.flatMap (fun (before, word) => before.text ++ '-' :: word.letters) ++
    spacing.text

/-- A body with one `echo`. -/
structure EchoBody where
    gap : Gap
    options : List (Spacing × OptionWord)
    spacing : Spacing
    quoted : Text
    escaped : isEscaped quoted = true
    tail : Text
    tail_blank : tail.all isGapBlank = true

def EchoBody.text (body : EchoBody) : Text :=
  textOf body.gap.val ++ (echoWord ++ (echoArguments body.options body.spacing ++
    '"' :: (body.quoted ++ '"' :: body.tail)))

theorem echoArguments_nil (spacing : Spacing) :
    echoArguments [] spacing = spacing.text := rfl

theorem echoArguments_cons (before : Spacing) (word : OptionWord)
    (options : List (Spacing × OptionWord)) (spacing : Spacing) :
    echoArguments ((before, word) :: options) spacing =
      before.text ++ ('-' :: (word.letters ++ echoArguments options spacing)) := by
  simp [echoArguments]

theorem Spacing.head?_append (spacing : Spacing) (t : Text) :
    (spacing.text ++ t).head? = some ' ' ∨ (spacing.text ++ t).head? = some '\t' := by
  obtain ⟨c, u, htext⟩ := List.exists_cons_of_ne_nil spacing.nonempty
  have hc : c = ' ' ∨ c = '\t' :=
    spacing.of_mem (by rw [htext]; exact List.mem_cons_self)
  rw [htext]
  exact hc.imp (fun h => by rw [h]; rfl) (fun h => by rw [h]; rfl)

theorem head?_echoArguments (options : List (Spacing × OptionWord))
    (spacing : Spacing) (t : Text) :
    (echoArguments options spacing ++ t).head? = some ' ' ∨
      (echoArguments options spacing ++ t).head? = some '\t' := by
  cases options with
  | nil => exact spacing.head?_append t
  | cons first rest =>
      obtain ⟨before, word⟩ := first
      rw [echoArguments_cons, List.append_assoc]
      exact before.head?_append _

/-! ## What the body prints -/

theorem skipOptions_blank {c : Char} (h : c = ' ' ∨ c = '\t') (behind t : Text) :
    skipOptions ⟨behind, c :: t⟩ = skipOptions ⟨c :: behind, t⟩ := by
  rw [skipOptions]
  rcases h with rfl | rfl
  · exact if_pos (by simp [optionLength])
  · exact if_pos (by simp [optionLength])

theorem skipOptions_blanks {blanks : Text}
    (h : ∀ c ∈ blanks, c = ' ' ∨ c = '\t') (behind t : Text) :
    skipOptions ⟨behind, blanks ++ t⟩ =
      skipOptions ⟨blanks.reverse ++ behind, t⟩ := by
  induction blanks generalizing behind with
  | nil => rfl
  | cons c blanks ih =>
      rw [List.cons_append, skipOptions_blank (h c List.mem_cons_self),
        ih fun d hd => h d (List.mem_cons_of_mem c hd), List.reverse_cons,
        List.append_assoc]
      rfl

theorem optionLength_word (word : OptionWord) {t : Text}
    (h : t.head? = some ' ' ∨ t.head? = some '\t') :
    optionLength ('-' :: (word.letters ++ t)) = word.letters.length + 1 := by
  have hkept : ∀ c ∈ '-' :: word.letters, (!endsOption c) = true := by
    intro c hc
    rcases List.mem_cons.mp hc with rfl | hc
    · decide
    · rcases word.of_mem hc with rfl | rfl | rfl <;> decide
  have hstop : t.takeWhile (fun c => !endsOption c) = [] := by
    cases t with
    | nil => rfl
    | cons c t =>
        have hc : endsOption c = true := by
          rcases h with h | h <;> cases h <;> decide
        exact List.takeWhile_cons_of_neg (by simp [hc])
  have hword : ('-' :: word.letters ++ t).takeWhile (fun c => !endsOption c) =
      '-' :: word.letters := by
    rw [List.takeWhile_append_of_pos hkept, hstop, List.append_nil]
  have hoption : isEchoOption ('-' :: word.letters) = true := by
    obtain ⟨c, letters, hletters⟩ := List.exists_cons_of_ne_nil word.nonempty
    rw [hletters, isEchoOption, ← hletters, List.all_eq_true]
    intro d hd
    simpa [or_assoc] using word.of_mem hd
  rw [List.cons_append] at hword
  rw [optionLength_of_word (by simp) (by simp) (by simp), hword, if_pos hoption, List.length_cons]

theorem skipOptions_word (word : OptionWord) {t : Text}
    (h : t.head? = some ' ' ∨ t.head? = some '\t') (behind : Text) :
    skipOptions ⟨behind, '-' :: (word.letters ++ t)⟩ =
      skipOptions ⟨('-' :: word.letters).reverse ++ behind, t⟩ := by
  have hlength := optionLength_word word h
  rw [skipOptions, hlength, if_pos (by omega), Place.advance,
    ← List.cons_append, ← List.length_cons, List.take_left, List.drop_left]

theorem skipOptions_quote (behind t : Text) :
    skipOptions ⟨behind, '"' :: t⟩ = ⟨behind, '"' :: t⟩ := by
  have hlength : optionLength ('"' :: t) = 0 := by
    rw [optionLength_of_word (by simp) (by simp) (by simp)]
    simp [isEchoOption, endsOption]
  rw [skipOptions, hlength, if_neg (by omega)]

theorem skipOptions_arguments (options : List (Spacing × OptionWord))
    (spacing : Spacing) (behind t : Text) :
    skipOptions ⟨behind, echoArguments options spacing ++ '"' :: t⟩ =
      ⟨(echoArguments options spacing).reverse ++ behind, '"' :: t⟩ := by
  induction options generalizing behind with
  | nil =>
      rw [echoArguments_nil, skipOptions_blanks fun c => spacing.of_mem,
        skipOptions_quote]
  | cons first options ih =>
      obtain ⟨before, word⟩ := first
      have hnext := head?_echoArguments options spacing ('"' :: t)
      rw [echoArguments_cons, List.append_assoc, List.cons_append,
        List.append_assoc, skipOptions_blanks fun c => before.of_mem,
        skipOptions_word word hnext, ih]
      simp

theorem findEcho?_gap {gap : List Piece} (h : ∀ piece ∈ gap, piece.Skipped)
    {behind : Text} (hstart : behind.head?.all endsBefore = true) (rest : Text) :
    (⟨behind, textOf gap ++ rest⟩ : Place).findEcho? =
      (⟨(textOf gap).reverse ++ behind, rest⟩ : Place).findEcho? := by
  induction gap generalizing behind with
  | nil => rfl
  | cons piece gap ih =>
      have hpiece := h piece List.mem_cons_self
      have hcomplete := complete_skipped hpiece
      rw [← hstart] at hcomplete
      have hecho : ¬ StandsAt echoWord behind (piece.text ++ (textOf gap ++ rest)) := by
        obtain ⟨c, t, htext, hc⟩ := head?_of_skipped hpiece
        refine not_standsAt_of_head ?_
        rw [htext]
        rintro heq
        cases heq
        rcases hc with hc | hc <;> cases hc
      rw [textOf_cons, List.append_assoc, Place.findEcho?_piece hcomplete hecho,
        ih (fun p hp => h p (List.mem_cons_of_mem piece hp)) (endsBefore_skipped hpiece behind),
        List.reverse_append, List.append_assoc]

/-- What is printed is the text between the quotes. -/
theorem echoed?_text (body : EchoBody) : echoed? body.text = some body.quoted := by
  have hstart : ((textOf body.gap.val).reverse ++ []).head?.all endsBefore = true :=
    endsBefore_gap body.gap.property rfl
  have hafter : (echoArguments body.options body.spacing ++
      '"' :: (body.quoted ++ '"' :: body.tail)).head?.all endsAfter = true := by
    rcases head?_echoArguments body.options body.spacing
      ('"' :: (body.quoted ++ '"' :: body.tail)) with h | h <;> rw [h] <;> rfl
  rw [echoed?, EchoBody.text, Place.start, findEcho?_gap body.gap.property rfl,
    Place.findEcho?_echo (standsAt_append_iff.mpr ⟨hstart, hafter⟩), Option.bind_some,
    skipOptions_arguments, operand?]
  simp only []
  rw [Piece.splitDouble?_closed body.escaped]
  rfl

/-! ## Where the body fits -/

theorem text_ofPieces (pieces : List Piece) :
    (Commands.ofPieces pieces).text = textOf pieces := by
  induction pieces with
  | nil => rfl
  | cons piece pieces ih => exact congrArg (piece.text ++ ·) ih

/-- A row of pieces fits if its two halves do, each beside the other. -/
theorem fits_ofPieces_append {nested : Bool} {first second : List Piece}
    {behind after : Text}
    (hfirst : (Commands.ofPieces first).Fits nested behind (textOf second ++ after))
    (hsecond : (Commands.ofPieces second).Fits nested
      ((textOf first).reverse ++ behind) after) :
    (Commands.ofPieces (first ++ second)).Fits nested behind after := by
  induction first generalizing behind with
  | nil => exact hsecond
  | cons piece first ih =>
      obtain ⟨hcomplete, hquiet, hrest⟩ := hfirst
      refine ⟨hcomplete, ?_, ih hrest ?_⟩
      · change Quiet nested behind
          (piece.text ++ ((Commands.ofPieces (first ++ second)).text ++ after))
        change Quiet nested behind (piece.text ++
          ((Commands.ofPieces first).text ++ (textOf second ++ after))) at hquiet
        rwa [text_ofPieces, textOf_append, List.append_assoc, ← text_ofPieces first]
      · rwa [textOf_cons, List.reverse_append, List.append_assoc] at hsecond

theorem quiet_of_head {c : Char} (h : c ∉ ['c', 'e', ';']) (nested : Bool)
    (behind t : Text) : Quiet nested behind (c :: t) := by
  simp only [List.mem_cons, List.not_mem_nil, or_false, not_or] at h
  refine ⟨not_standsAt_of_head ?_, not_standsAt_of_head ?_, fun _ hends => ?_⟩
  · simpa using h.1
  · simpa using h.2.1
  · rcases hends with ⟨u, hu⟩ | ⟨u, hu⟩ <;> exact h.2.2 (List.cons.inj hu).1.symm

/-- A plain character that starts nothing: no keyword, no ending, no quote, no
escape and no comment. -/
def isInert (c : Char) : Bool :=
  c ∉ ['c', 'e', ';', '\\', '\x27', '"', '#']

theorem fits_inert {nested : Bool} {word : Text} (h : word.all isInert = true)
    (behind after : Text) :
    (Commands.ofPieces (word.map .plain)).Fits nested behind after := by
  induction word generalizing behind with
  | nil => trivial
  | cons c word ih =>
      rw [List.all_cons, Bool.and_eq_true] at h
      obtain ⟨hc, hword⟩ := h
      simp only [isInert, List.mem_cons, List.not_mem_nil, or_false, not_or,
        decide_eq_true_eq] at hc
      obtain ⟨hcase, hesac, hend, hslash, hsingle, hdouble, hhash⟩ := hc
      exact ⟨⟨hslash, hsingle, hdouble, fun heq => absurd heq hhash⟩,
        quiet_of_head (by simp [hcase, hesac, hend]) nested behind _, ih hword _⟩

theorem isInert_of_isGapBlank {c : Char} (h : isGapBlank c = true) :
    isInert c = true := by
  rcases eq_of_isGapBlank h with rfl | rfl | rfl | rfl <;> decide

theorem isInert_spacing (spacing : Spacing) : spacing.text.all isInert = true := by
  rw [List.all_eq_true]
  intro c hc
  rcases spacing.of_mem hc with rfl | rfl <;> decide

theorem fits_gap {nested : Bool} {gap : List Piece}
    (h : ∀ piece ∈ gap, piece.Skipped) {behind : Text}
    (hstart : behind.head?.all endsBefore = true) (after : Text) :
    (Commands.ofPieces gap).Fits nested behind after := by
  induction gap generalizing behind with
  | nil => trivial
  | cons piece gap ih =>
      have hpiece := h piece List.mem_cons_self
      have hcomplete := complete_skipped hpiece
      rw [← hstart] at hcomplete
      refine ⟨hcomplete, ?_, ih (fun p hp => h p (List.mem_cons_of_mem piece hp))
        (endsBefore_skipped hpiece behind)⟩
      obtain ⟨c, t, htext, hc⟩ := head?_of_skipped hpiece
      rw [htext]
      refine quiet_of_head ?_ nested behind _
      rcases hc with hc | rfl
      · rcases eq_of_isGapBlank hc with rfl | rfl | rfl | rfl <;> decide
      · decide

theorem fits_echoWord (nested : Bool) (behind after : Text) :
    (Commands.ofPieces (echoWord.map .plain)).Fits nested behind after := by
  have hrest : (Commands.ofPieces (['h', 'o'].map .plain)).Fits nested
      ('c' :: 'e' :: behind) after := fits_inert (by decide) _ after
  -- neither keyword goes on as `echo` does after its first letter
  refine ⟨by simp [Piece.Complete], ⟨?_, ?_, ?_⟩,
    by simp [Piece.Complete], ⟨?_, ?_, ?_⟩, hrest⟩
  all_goals
    simp [Piece.text, Commands.text, StandsAt, Terminates, caseWord, esacWord]

/-- The letters of an option word follow a minus or each other, so that no
keyword can stand at them. -/
theorem fits_letters {nested : Bool} {letters : Text}
    (h : ∀ c ∈ letters, c = 'n' ∨ c = 'e' ∨ c = 'E') {behind : Text}
    (hinside : behind.head?.all endsBefore = false) (after : Text) :
    (Commands.ofPieces (letters.map .plain)).Fits nested behind after := by
  induction letters generalizing behind with
  | nil => trivial
  | cons c letters ih =>
      have hc := h c List.mem_cons_self
      have hnone (word ahead : Text) : ¬ StandsAt word behind ahead := by
        intro hstands
        exact absurd hstands.1 (by simp [hinside])
      refine ⟨?_, ⟨hnone _ _, hnone _ _, fun _ hends => ?_⟩,
        ih (fun d hd => h d (List.mem_cons_of_mem c hd)) ?_⟩
      · rcases hc with rfl | rfl | rfl <;> simp [Piece.Complete]
      · rcases hends with ⟨u, hu⟩ | ⟨u, hu⟩ <;>
          (have hsemi := (List.cons.inj hu).1; subst hsemi; simp at hc)
      · rcases hc with rfl | rfl | rfl <;> rfl

theorem fits_echoArguments {nested : Bool} (options : List (Spacing × OptionWord))
    (spacing : Spacing) (behind after : Text) :
    (Commands.ofPieces ((echoArguments options spacing).map .plain)).Fits nested
      behind after := by
  induction options generalizing behind with
  | nil => exact fits_inert (isInert_spacing spacing) _ _
  | cons first options ih =>
      obtain ⟨before, word⟩ := first
      have hminus : (Commands.ofPieces (['-'].map .plain)).Fits nested
          ((textOf (before.text.map .plain)).reverse ++ behind)
          (textOf ((word.letters ++ echoArguments options spacing).map .plain) ++
            after) :=
        fits_inert (by decide) _ _
      rw [echoArguments_cons, List.map_append]
      refine fits_ofPieces_append (fits_inert (isInert_spacing before) _ _) ?_
      refine fits_ofPieces_append hminus ?_
      rw [List.map_append]
      exact fits_ofPieces_append (fits_letters (fun c => word.of_mem) rfl _) (ih _)

namespace EchoBody

def pieces (body : EchoBody) : List Piece :=
  body.gap.val ++ (echoWord.map .plain ++
    ((echoArguments body.options body.spacing).map .plain ++
      .double body.quoted :: body.tail.map .plain))

theorem textOf_pieces (body : EchoBody) : textOf body.pieces = body.text := by
  simp [pieces, text, Piece.text]

theorem fits_pieces (body : EchoBody) {behind : Text}
    (hstart : behind.head?.all endsBefore = true) (after : Text) :
    (Commands.ofPieces body.pieces).Fits false behind after := by
  refine fits_ofPieces_append (fits_gap body.gap.property hstart _) ?_
  refine fits_ofPieces_append (fits_echoWord false _ _) ?_
  refine fits_ofPieces_append (fits_echoArguments _ _ _ _) ?_
  exact ⟨body.escaped, quiet_of_head (by decide) false _ _,
    fits_inert (List.all_eq_true.mpr fun c hc =>
      isInert_of_isGapBlank (List.all_eq_true.mp body.tail_blank c hc)) _ _⟩

end EchoBody

end CaseTable.Shell
