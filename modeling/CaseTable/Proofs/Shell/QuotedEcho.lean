import CaseTable.Proofs.Shell.Echo

/-!
# The echo of a quoted string

The first `echo` of a body is found behind a row of pieces in which none stands
(`EchoFront`), however many of them hide the word in a quote, a comment or an
escape. Behind it blanks, line continuations and option words are passed in any
order (`EchoOpening`). If a quotation mark comes next, what is printed is the
text up to the mark that closes it, taken as written; if none does, nothing is
printed (`echoed?_quoted`).

An `echo` that is looked for in the front alone is the same as one in the whole
body, because the front ends where a word may start and no letter of the word
does (`echoWord_prefix_of_standsAt`).
-/

namespace CaseTable.Shell

/-! ## The front -/

/-- Complete pieces, and no `echo` stands at any of them. -/
def Echoless : List Piece → Text → Prop
  | [], _ => True
  | piece :: rest, behind =>
      piece.Complete (behind.head?.all endsBefore) ∧
        ¬ StandsAt echoWord behind (piece.text ++ textOf rest) ∧
        Echoless rest (piece.text.reverse ++ behind)

instance decidableEcholess : (pieces : List Piece) → (behind : Text) →
    Decidable (Echoless pieces behind)
  | [], _ => .isTrue trivial
  | _ :: rest, _ =>
      have := fun behind => decidableEcholess rest behind
      inferInstanceAs (Decidable (_ ∧ ¬ _ ∧ _))

/-- What stands before the first `echo` of a body. -/
structure EchoFront where
    pieces : List Piece
    echoless : Echoless pieces []
    delimited : (textOf pieces).getLast?.all endsBefore = true

def EchoFront.text (front : EchoFront) : Text := textOf front.pieces

theorem findEcho?_echoless {pieces : List Piece} {behind : Text} (h : Echoless pieces behind)
    (hend : ((textOf pieces).reverse ++ behind).head?.all endsBefore = true) (rest : Text) :
    (⟨behind, textOf pieces ++ rest⟩ : Place).findEcho? =
      (⟨(textOf pieces).reverse ++ behind, rest⟩ : Place).findEcho? := by
  induction pieces generalizing behind with
  | nil => rfl
  | cons piece pieces ih =>
      obtain ⟨hcomplete, hnone, hrest⟩ := h
      have hecho : ¬ StandsAt echoWord behind (piece.text ++ (textOf pieces ++ rest)) := by
        rw [← List.append_assoc]
        intro hstands
        have hne : piece.text ++ textOf pieces ≠ [] :=
          List.append_ne_nil_of_left_ne_nil piece.text_ne_nil _
        exact hnone (hstands.of_append (echoWord_prefix_of_standsAt hstands hne hend))
      rw [textOf_cons, List.reverse_append, List.append_assoc] at hend ⊢
      rw [List.append_assoc, Place.findEcho?_piece hcomplete hecho, ih hrest hend]

/-- The search for an `echo` goes through the front. -/
theorem EchoFront.findEcho?_echo (front : EchoFront) {after : Text}
    (hafter : after.head?.all endsAfter = true) :
    (Place.start (front.text ++ (echoWord ++ after))).findEcho? =
      some ⟨echoWord.reverse ++ front.text.reverse, after⟩ := by
  have hend : ((textOf front.pieces).reverse ++ []).head?.all endsBefore = true := by
    rw [List.append_nil, List.head?_reverse]
    exact front.delimited
  rw [Place.start, EchoFront.text, findEcho?_echoless front.echoless hend,
    Place.findEcho?_echo (standsAt_append_iff.mpr ⟨hend, hafter⟩), List.append_nil]

/-! ## Blanks, continuations and options -/

/-- Spaces, tabs and line continuations, the first of them a space or a tab. -/
structure Separator where
    pieces : List Piece
    known : ∀ piece ∈ pieces, piece = .plain ' ' ∨ piece = .plain '\t' ∨ piece = .escape '\n'
    starts : pieces.head? = some (.plain ' ') ∨ pieces.head? = some (.plain '\t')

def Separator.text (separator : Separator) : Text := textOf separator.pieces

/-- What stands between an `echo` and its operand. -/
structure EchoOpening where
    separator : Separator
    options : List (OptionWord × Separator)

/-- Option words, each with what separates it from the next word. -/
def optionsText (options : List (OptionWord × Separator)) : Text :=
  options.flatMap fun (word, after) => '-' :: word.letters ++ after.text

def EchoOpening.text (opening : EchoOpening) : Text :=
  opening.separator.text ++ optionsText opening.options

theorem optionsText_cons (word : OptionWord) (after : Separator)
    (options : List (OptionWord × Separator)) :
    optionsText ((word, after) :: options) =
      '-' :: (word.letters ++ (after.text ++ optionsText options)) := by
  simp [optionsText]

theorem Separator.head?_append (separator : Separator) (t : Text) :
    (separator.text ++ t).head? = some ' ' ∨ (separator.text ++ t).head? = some '\t' := by
  rw [text]
  rcases separator.starts with h | h
  · obtain ⟨rest, hpieces⟩ := List.head?_eq_some_iff.mp h
    rw [hpieces]
    exact .inl rfl
  · obtain ⟨rest, hpieces⟩ := List.head?_eq_some_iff.mp h
    rw [hpieces]
    exact .inr rfl

theorem skipOptions_continuation (behind t : Text) :
    skipOptions ⟨behind, '\\' :: '\n' :: t⟩ = skipOptions ⟨'\n' :: '\\' :: behind, t⟩ := by
  rw [skipOptions]
  exact if_pos (by simp [optionLength])

theorem skipOptions_pieces {pieces : List Piece}
    (h : ∀ piece ∈ pieces, piece = .plain ' ' ∨ piece = .plain '\t' ∨ piece = .escape '\n')
    (behind t : Text) : skipOptions ⟨behind, textOf pieces ++ t⟩ =
      skipOptions ⟨(textOf pieces).reverse ++ behind, t⟩ := by
  induction pieces generalizing behind with
  | nil => rfl
  | cons piece pieces ih =>
      have hpiece : skipOptions ⟨behind, piece.text ++ (textOf pieces ++ t)⟩ =
          skipOptions ⟨piece.text.reverse ++ behind, textOf pieces ++ t⟩ := by
        rcases h piece List.mem_cons_self with rfl | rfl | rfl
        · exact skipOptions_blank (.inl rfl) _ _
        · exact skipOptions_blank (.inr rfl) _ _
        · exact skipOptions_continuation _ _
      rw [textOf_cons, List.append_assoc, hpiece,
        ih fun p hp => h p (List.mem_cons_of_mem piece hp), List.reverse_append,
        List.append_assoc]

theorem skipOptions_options (options : List (OptionWord × Separator)) (behind t : Text) :
    skipOptions ⟨behind, optionsText options ++ t⟩ =
      skipOptions ⟨(optionsText options).reverse ++ behind, t⟩ := by
  induction options generalizing behind with
  | nil => rfl
  | cons first options ih =>
      obtain ⟨word, after⟩ := first
      rw [optionsText_cons, List.cons_append, List.append_assoc, List.append_assoc,
        skipOptions_word word (after.head?_append _), Separator.text,
        skipOptions_pieces after.known, ih]
      simp

/-- All of it is passed, up to where no option is. -/
theorem EchoOpening.skipOptions_text (opening : EchoOpening) {t : Text}
    (h : optionLength t = 0) (behind : Text) :
    skipOptions ⟨behind, opening.text ++ t⟩ = ⟨opening.text.reverse ++ behind, t⟩ := by
  rw [text, List.append_assoc, Separator.text, skipOptions_pieces opening.separator.known,
    skipOptions_options, skipOptions, if_neg (by rw [h]; exact Nat.lt_irrefl 0),
    List.reverse_append, List.append_assoc]

/-- The operand is looked for behind the front, the `echo` and the opening. -/
theorem echoed?_opening (front : EchoFront) (opening : EchoOpening) {t : Text}
    (h : optionLength t = 0) :
    echoed? (front.text ++ (echoWord ++ (opening.text ++ t))) =
      operand? ⟨opening.text.reverse ++ (echoWord.reverse ++ front.text.reverse), t⟩ := by
  have hafter : (opening.text ++ t).head?.all endsAfter = true := by
    rw [EchoOpening.text, List.append_assoc]
    rcases opening.separator.head?_append (optionsText opening.options ++ t) with h | h <;>
      rw [h] <;> rfl
  rw [echoed?, front.findEcho?_echo hafter, Option.bind_some, opening.skipOptions_text h]

/-! ## The string -/

inductive Quote
    | single
    | double
    deriving DecidableEq

namespace Quote

def mark : Quote → Char
  | single => '\x27'
  | double => '"'

/-- What can stand between two marks. -/
def Holds : Quote → Text → Prop
  | single, content => '\x27' ∉ content
  | double, content => isEscaped content = true

instance : (quote : Quote) → (content : Text) → Decidable (quote.Holds content)
  | single, content => inferInstanceAs (Decidable ('\x27' ∉ content))
  | double, content => inferInstanceAs (Decidable (isEscaped content = true))

theorem optionLength_mark (quote : Quote) (t : Text) : optionLength (quote.mark :: t) = 0 := by
  cases quote with
  | single =>
      rw [mark, optionLength_of_word (by simp) (by simp) (by simp)]
      simp [isEchoOption, endsOption]
  | double =>
      rw [mark, optionLength_of_word (by simp) (by simp) (by simp)]
      simp [isEchoOption, endsOption]

theorem operand?_mark (quote : Quote) (behind t content : Text) :
    operand? ⟨behind, quote.mark :: t⟩ = some content ↔
      quote.Holds content ∧ ∃ tail, t = content ++ quote.mark :: tail := by
  cases quote with
  | single =>
      rw [mark, operand?_single, Option.map_eq_some_iff]
      constructor
      · rintro ⟨⟨content, tail⟩, hsplit, rfl⟩
        exact ⟨Piece.quote_notMem_of_splitSingle? hsplit, tail, Piece.eq_of_splitSingle? hsplit⟩
      · rintro ⟨hholds, tail, rfl⟩
        exact ⟨_, Piece.splitSingle?_closed hholds tail, rfl⟩
  | double =>
      rw [mark, operand?_double, Option.map_eq_some_iff]
      constructor
      · rintro ⟨⟨content, tail⟩, hsplit, rfl⟩
        exact ⟨Piece.isEscaped_of_splitDouble? hsplit, tail, Piece.eq_of_splitDouble? hsplit⟩
      · rintro ⟨hholds, tail, rfl⟩
        exact ⟨_, Piece.splitDouble?_closed hholds tail, rfl⟩

end Quote

/-- Whatever a string holds, it is printed as it is written, up to the mark that
closes it. A string that is never closed prints nothing. -/
theorem echoed?_quoted (front : EchoFront) (opening : EchoOpening) (quote : Quote) (t : Text) :
    (∀ content,
      echoed? (front.text ++ (echoWord ++ (opening.text ++ quote.mark :: t))) = some content ↔
        quote.Holds content ∧ ∃ tail, t = content ++ quote.mark :: tail) ∧
      (echoed? (front.text ++ (echoWord ++ (opening.text ++ quote.mark :: t))) = none ↔
        ∀ content tail, t = content ++ quote.mark :: tail → ¬ quote.Holds content) := by
  rw [echoed?_opening front opening (quote.optionLength_mark t)]
  refine ⟨quote.operand?_mark _ t, ?_⟩
  constructor
  · rintro hnone content tail ht hholds
    cases hnone.symm.trans ((quote.operand?_mark _ t content).mpr ⟨hholds, tail, ht⟩)
  · intro hopen
    refine Option.eq_none_iff_forall_ne_some.mpr fun content hsome => ?_
    obtain ⟨hholds, tail, ht⟩ := (quote.operand?_mark _ t content).mp hsome
    exact hopen content tail ht hholds

/-- The word in quotes, behind a backslash and in a comment is none, and a
continuation before or between the options is passed. -/
example : echoed? ("x=\x27echo\x27 \\echo # echo b\n" ++
      " echo \\\n -n\t\\\n -eE \"a;b # \\\" é\" ;;").toList =
    some "a;b # \\\" é".toList := by
  decide +kernel

end CaseTable.Shell
