import CaseTable.Proofs.Shell.Cuts
import CaseTable.Proofs.Shell.QuotedEcho
import CaseTable.Proofs.Text.Blank

/-!
# The whole command of an echo

The words of an `echo` reach to the end of its command: to the first line feed,
semicolon or comment that is a piece of its own, so that none in a string counts
(`Piece.endsCommand`). What is printed is not always all of them. An operand
that starts with a string ends with it, whatever words follow. Any other operand
is read without regard to strings, and ends in the middle of one in which such a
character stands (`Piece.hidesEnd`).

These are the only ways in which anything is lost (`echoed?_eq_argumentOf_iff`).
The reader passes every other piece (`commandEnd_go_piece`), and a text that is
cut off in a string, or behind the first one, is shorter than the words are,
because a closing mark is no blank and is not trimmed.
-/

namespace CaseTable.Shell

/-- Whether a line feed, a semicolon or a number sign at the start of a word
stands in a text behind no backslash. -/
def holdsEnd (previous : Char) : Text → Bool
  | [] => false
  | ['\\'] => false
  | '\\' :: c :: t => holdsEnd c t
  | c :: t => c = '\n' || c = ';' || (c = '#' && endsBefore previous) || holdsEnd c t

namespace Piece

/-- The marks of a string and what stands between them. -/
def quoted? : Piece → Option (Quote × Text)
  | single content => some (.single, content)
  | double content => some (.double, content)
  | _ => none

def endsCommand : Piece → Bool
  | plain c => c = '\n' || c = ';'
  | comment _ => true
  | _ => false

/-- A piece that goes on with the words, a string that is never closed not
among them. -/
def inCommand : Piece → Bool
  | unclosed _ _ => false
  | piece => !piece.endsCommand

/-- Whether the end of a command stands in a string, where it is none. -/
def hidesEnd (piece : Piece) : Bool :=
  piece.quoted?.any fun (quote, content) => holdsEnd quote.mark content

/-- A blank or a line continuation, which makes no word. -/
def isSpace : Piece → Bool
  | plain c => isGapBlank c
  | escape c => c = '\n'
  | _ => false

end Piece

/-- The inside of the string that is the only word. -/
def onlyString? : List Piece → Option Text
  | [] => none
  | piece :: rest => if rest.all Piece.isSpace then piece.quoted?.map Prod.snd else none

/-- All the words as they are written, or the inside of the only one if it is a
string. -/
def argumentOf (words : List Piece) : Text :=
  (onlyString? words).getD (textOf words).trimEnd

/-- No word is lost: the only one is a string, or the first is none and no
string hides an end. -/
def Kept (words : List Piece) : Prop :=
  onlyString? words ≠ none ∨
    words.head?.bind Piece.quoted? = none ∧ ∀ piece ∈ words, piece.hidesEnd = false

/-- A body whose first `echo` has words behind its options. The words and what
follows them are the pieces of one text, and every string is closed in the
words. -/
structure EchoCommand where
    front : EchoFront
    opening : EchoOpening
    words : List Piece
    rest : List Piece
    nonempty : words ≠ []
    bare : optionLength (textOf (words ++ rest)) = 0
    inside : ∀ piece ∈ words, piece.inCommand = true
    ended : rest.head?.all Piece.endsCommand = true
    cut : IsCut (words ++ rest)
      (opening.text.reverse ++ (echoWord.reverse ++ front.text.reverse))

def EchoCommand.text (command : EchoCommand) : Text :=
  command.front.text ++
    (echoWord ++ (command.opening.text ++ textOf (command.words ++ command.rest)))

/-! ## Through a string -/

theorem Quote.isBlank_mark (quote : Quote) : isBlank quote.mark = false := by
  cases quote <;> decide

theorem commandEnd_go_mark (quote : Quote) (behind t : Text) :
    commandEnd.go behind (quote.mark :: t) = commandEnd.go (quote.mark :: behind) t := by
  cases quote <;> exact commandEnd_go_of_ne (by decide) behind t

/-- A string without an end in it is passed. -/
theorem commandEnd_go_kept {previous : Char} {content : Text}
    (h : holdsEnd previous content = false) (quote : Quote) (behind t : Text) :
    commandEnd.go (previous :: behind) (content ++ quote.mark :: t) =
      commandEnd.go (quote.mark :: (content.reverse ++ previous :: behind)) t := by
  fun_induction holdsEnd previous content generalizing behind with
  | case1 previous => exact commandEnd_go_mark quote _ t
  | case2 previous => rfl
  | case3 previous c u ih =>
      rw [List.cons_append, List.cons_append, commandEnd.go, ih h]
      simp
  | case4 previous c u hlone hescape ih =>
      rw [Bool.or_eq_false_iff] at h
      have hslash : c ≠ '\\' := ne_backslash hlone hescape
      rw [List.cons_append, commandEnd_go_of_ne hslash, if_neg (by simpa using h.1), ih h.2]
      simp

/-- Any other stops the reader. -/
theorem commandEnd_go_hidden {previous : Char} {content : Text}
    (h : holdsEnd previous content = true) (behind t : Text) :
    ∃ s u, content = s ++ u ∧ commandEnd.go (previous :: behind) (content ++ t) =
      ⟨s.reverse ++ previous :: behind, u ++ t⟩ := by
  fun_induction holdsEnd previous content generalizing behind with
  | case1 => cases h
  | case2 => cases h
  | case3 previous c u ih =>
      obtain ⟨s, u, rfl, hgo⟩ := ih h ('\\' :: previous :: behind)
      refine ⟨'\\' :: c :: s, u, rfl, ?_⟩
      rw [List.cons_append, List.cons_append, commandEnd.go, hgo]
      simp
  | case4 previous c u hlone hescape ih =>
      have hslash : c ≠ '\\' := ne_backslash hlone hescape
      rw [List.cons_append, commandEnd_go_of_ne hslash]
      split
      · exact ⟨[], c :: u, rfl, rfl⟩
      · next hends =>
          rw [Bool.or_eq_true_iff] at h
          obtain ⟨s, u, rfl, hgo⟩ := ih (h.resolve_left hends) (previous :: behind)
          exact ⟨c :: s, u, rfl, by rw [hgo]; simp⟩

/-! ## Through the words -/

theorem Piece.text_of_quoted? {piece : Piece} {quote : Quote} {content : Text}
    (h : piece.quoted? = some (quote, content)) :
    piece.text = quote.mark :: (content ++ [quote.mark]) := by
  cases piece with
  | single | double =>
      cases h
      rfl
  | escape | backslash | unclosed | comment | plain => cases h

/-- The reader passes every piece of the words, unless it hides an end. -/
theorem commandEnd_go_piece {piece : Piece} {rest : List Piece} {behind : Text}
    (hcut : IsCut (piece :: rest) behind) (hin : piece.inCommand = true)
    (hhides : piece.hidesEnd = false) :
    commandEnd.go behind (textOf (piece :: rest)) =
      commandEnd.go (piece.text.reverse ++ behind) (textOf rest) := by
  cases hquoted : piece.quoted? with
  | some string =>
      obtain ⟨quote, content⟩ := string
      rw [Piece.hidesEnd, hquoted, Option.any_some] at hhides
      rw [textOf_cons, Piece.text_of_quoted? hquoted, List.cons_append, List.append_assoc,
        List.singleton_append, commandEnd_go_mark, commandEnd_go_kept hhides]
      simp
  | none =>
      cases piece with
      | escape c => exact commandEnd.go.eq_3 ..
      | backslash =>
          obtain rfl : rest = [] := (hcut.1.resolve_left id).1
          rfl
      | plain c =>
          obtain ⟨hslash, -, -, hhash⟩ := hcut.1.resolve_right fun hopen => hopen.2
          refine (commandEnd_go_of_ne hslash behind (textOf rest)).trans (if_neg fun hends => ?_)
          rw [Bool.or_eq_true_iff] at hends
          rcases hends with hends | hends
          · have hgoes : (c = '\n' || c = ';') = false := Bool.not_eq_true' _ |>.mp hin
            cases hgoes.symm.trans hends
          · rw [Bool.and_eq_true, decide_eq_true_eq] at hends
            cases (hhash hends.1).symm.trans hends.2
      | single | double => cases hquoted
      | unclosed | comment => cases hin

/-- The words end where the reader stops. -/
theorem commandEnd_go_ended {rest : List Piece} {behind : Text} (hcut : IsCut rest behind)
    (hended : rest.head?.all Piece.endsCommand = true) :
    commandEnd.go behind (textOf rest) = ⟨behind, textOf rest⟩ := by
  cases rest with
  | nil => rfl
  | cons piece rest =>
      cases piece with
      | plain c =>
          have hends : (c = '\n' || c = ';') = true := hended
          have hslash : c ≠ '\\' := by
            rintro rfl
            cases hends
          refine (commandEnd_go_of_ne hslash behind _).trans (if_pos ?_)
          rw [hends, Bool.true_or]
      | comment line =>
          have hword : behind.head?.all endsBefore = true := by
            rcases hcut.1 with hcomplete | ⟨-, hopen⟩
            · exact hcomplete.1
            · exact hopen.1
          refine (commandEnd_go_of_ne (by decide) behind _).trans (if_pos ?_)
          simp [hword]
      | escape | backslash | single | double | unclosed => cases hended

/-- If no string hides an end, the reader goes through to the end. -/
theorem commandEnd_go_words {words rest : List Piece} {behind : Text}
    (hcut : IsCut (words ++ rest) behind) (hinside : ∀ piece ∈ words, piece.inCommand = true)
    (hended : rest.head?.all Piece.endsCommand = true)
    (hkept : ∀ piece ∈ words, piece.hidesEnd = false) :
    commandEnd.go behind (textOf (words ++ rest)) =
      ⟨(textOf words).reverse ++ behind, textOf rest⟩ := by
  induction words generalizing behind with
  | nil => exact commandEnd_go_ended hcut hended
  | cons piece words ih =>
      rw [List.cons_append] at hcut ⊢
      rw [commandEnd_go_piece hcut (hinside piece List.mem_cons_self)
        (hkept piece List.mem_cons_self),
        ih hcut.2 (fun p hp => hinside p (List.mem_cons_of_mem piece hp))
          fun p hp => hkept p (List.mem_cons_of_mem piece hp)]
      simp

/-- If one does, it stops with a mark ahead. -/
theorem commandEnd_go_lost {words rest : List Piece} {behind : Text}
    (hcut : IsCut (words ++ rest) behind) (hinside : ∀ piece ∈ words, piece.inCommand = true)
    (hlost : ∃ piece ∈ words, piece.hidesEnd = true) :
    ∃ (s u : Text) (quote : Quote), textOf words = s ++ u ∧ quote.mark ∈ u ∧
      commandEnd.go behind (textOf (words ++ rest)) = ⟨s.reverse ++ behind, u ++ textOf rest⟩ := by
  induction words generalizing behind with
  | nil => simp at hlost
  | cons piece words ih =>
      rw [List.cons_append] at hcut ⊢
      by_cases hhides : piece.hidesEnd = true
      · rw [Piece.hidesEnd, Option.any_eq_true] at hhides
        obtain ⟨⟨quote, content⟩, hquoted, hholds⟩ := hhides
        have htext := Piece.text_of_quoted? hquoted
        obtain ⟨s, u, rfl, hgo⟩ := commandEnd_go_hidden hholds behind
          (quote.mark :: textOf (words ++ rest))
        refine ⟨quote.mark :: s, u ++ quote.mark :: textOf words, quote, ?_, by simp, ?_⟩
        · simp [htext]
        · rw [textOf_cons, htext, List.cons_append, List.append_assoc, List.singleton_append,
            commandEnd_go_mark, hgo]
          simp
      · rw [Bool.not_eq_true] at hhides
        have hlater : ∃ p ∈ words, p.hidesEnd = true := by
          obtain ⟨p, hp, hends⟩ := hlost
          rcases List.mem_cons.mp hp with rfl | hp
          · cases hhides.symm.trans hends
          · exact ⟨p, hp, hends⟩
        obtain ⟨s, u, quote, htext, hmark, hstop⟩ := ih hcut.2
          (fun p hp => hinside p (List.mem_cons_of_mem piece hp)) hlater
        refine ⟨piece.text ++ s, u, quote, ?_, hmark, ?_⟩
        · rw [textOf_cons, htext, List.append_assoc]
        · rw [commandEnd_go_piece hcut (hinside piece List.mem_cons_self) hhides, hstop]
          simp

/-! ## What is printed -/

/-- Where the first piece is no string the operand is a bare one. -/
theorem head?_of_bare {piece : Piece} {rest : List Piece} {behind : Text}
    (hcut : IsCut (piece :: rest) behind) (hin : piece.inCommand = true)
    (hbare : piece.quoted? = none) :
    ∃ c t, textOf (piece :: rest) = c :: t ∧ c ∉ ['"', '\x27', '\n', ';'] := by
  cases piece with
  | escape c => exact ⟨'\\', c :: textOf rest, rfl, by decide⟩
  | backslash => exact ⟨'\\', textOf rest, rfl, by decide⟩
  | plain c =>
      obtain ⟨-, hsingle, hdouble, -⟩ := hcut.1.resolve_right fun hopen => hopen.2
      have hgoes : (c = '\n' || c = ';') = false := Bool.not_eq_true' _ |>.mp hin
      exact ⟨c, textOf rest, rfl, by simp_all⟩
  | single | double => cases hbare
  | unclosed | comment => cases hin

theorem Piece.holds_of_quoted? {piece : Piece} {comments : Bool} {quote : Quote} {content : Text}
    (h : piece.quoted? = some (quote, content)) (hcomplete : piece.Complete comments) :
    quote.Holds content := by
  cases piece with
  | single | double =>
      cases h
      exact hcomplete
  | escape | backslash | unclosed | comment | plain => cases h

/-- An operand that starts with a string is the inside of it, which is shorter
than the words are unless it is the only one. -/
theorem exists_operand?_string {piece : Piece} {words rest : List Piece} {behind : Text}
    {quote : Quote} {content : Text} (hcut : IsCut (piece :: words ++ rest) behind)
    (hquoted : piece.quoted? = some (quote, content)) :
    ∃ printed, operand? ⟨behind, textOf (piece :: words ++ rest)⟩ = some printed ∧
      (printed = argumentOf (piece :: words) ↔ onlyString? (piece :: words) ≠ none) := by
  have htext := Piece.text_of_quoted? hquoted
  have hcomplete : piece.Complete (behind.head?.all endsBefore) := by
    refine hcut.1.resolve_right fun hopen => ?_
    cases piece with
    | single | double => exact hopen.2
    | escape | backslash | unclosed | comment | plain => cases hquoted
  refine ⟨content, ?_, ?_⟩
  · have hahead : textOf (piece :: words ++ rest) =
        quote.mark :: (content ++ quote.mark :: textOf (words ++ rest)) := by
      simp [htext]
    rw [hahead]
    exact (quote.operand?_mark _ _ _).mpr ⟨Piece.holds_of_quoted? hquoted hcomplete, _, rfl⟩
  · rw [argumentOf, onlyString?, hquoted]
    split
    · simp
    · have hlonger : (quote.mark :: content).length <
          (Text.trimEnd (quote.mark :: content ++ quote.mark :: textOf words)).length :=
        Text.length_lt_trimEnd_append List.mem_cons_self quote.isBlank_mark _
      have hwords : textOf (piece :: words) =
          quote.mark :: content ++ quote.mark :: textOf words := by
        simp [htext]
      rw [hwords]
      refine iff_of_false (fun heq => ?_) (by simp)
      rw [Option.getD_none] at heq
      rw [← heq, List.length_cons] at hlonger
      omega

/-- A bare operand has all the words if it is not cut off in a string. -/
theorem exists_operand?_bare {piece : Piece} {words rest : List Piece} {behind : Text}
    (hcut : IsCut (piece :: words ++ rest) behind)
    (hinside : ∀ p ∈ piece :: words, p.inCommand = true)
    (hended : rest.head?.all Piece.endsCommand = true) (hbare : piece.quoted? = none) :
    ∃ printed, operand? ⟨behind, textOf (piece :: words ++ rest)⟩ = some printed ∧
      (printed = argumentOf (piece :: words) ↔ ∀ p ∈ piece :: words, p.hidesEnd = false) := by
  obtain ⟨c, t, hahead, hc⟩ := head?_of_bare hcut (hinside piece List.mem_cons_self) hbare
  have hargument : argumentOf (piece :: words) = (textOf (piece :: words)).trimEnd := by
    simp [argumentOf, onlyString?, hbare]
  rw [hargument]
  by_cases hlost : ∃ p ∈ piece :: words, p.hidesEnd = true
  · have hnot : ¬ ∀ p ∈ piece :: words, p.hidesEnd = false := by
      obtain ⟨p, hp, hends⟩ := hlost
      exact fun hkept => absurd hends (ne_true_of_eq_false (hkept p hp))
    obtain ⟨s, u, quote, hwords, hmark, hstop⟩ := commandEnd_go_lost hcut hinside hlost
    refine ⟨s.trimEnd, operand?_bare hahead hc ?_, iff_of_false (fun heq => ?_) hnot⟩
    · rw [commandEnd, hstop]
      exact ⟨by rw [textOf_append, hwords, List.append_assoc], rfl⟩
    · have hshorter := (Text.trimEnd_prefix_self s).length_le
      have hlonger := Text.length_lt_trimEnd_append hmark quote.isBlank_mark s
      rw [heq, hwords] at hshorter
      omega
  · have hkept : ∀ p ∈ piece :: words, p.hidesEnd = false :=
      fun p hp => eq_false_of_ne_true fun hends => hlost ⟨p, hp, hends⟩
    refine ⟨_, operand?_bare hahead hc ?_, iff_of_true rfl hkept⟩
    rw [commandEnd, commandEnd_go_words hcut hinside hended hkept]
    exact ⟨textOf_append _ _, rfl⟩

/-- An `echo` with words prints something, and it is all the words, or the
inside of the only one, exactly if the first of several words is no string and
no string hides an end of the command. -/
theorem echoed?_eq_argumentOf_iff (command : EchoCommand) :
    ∃ printed, echoed? command.text = some printed ∧
      (printed = argumentOf command.words ↔ Kept command.words) := by
  obtain ⟨front, opening, words, rest, hne, hbare, hinside, hended, hcut⟩ := command
  rw [EchoCommand.text, echoed?_opening front opening hbare]
  obtain ⟨piece, words, rfl⟩ := List.exists_cons_of_ne_nil hne
  cases hquoted : piece.quoted? with
  | some string =>
      obtain ⟨printed, hprinted, hiff⟩ := exists_operand?_string hcut hquoted
      refine ⟨printed, hprinted, ?_⟩
      simp [hiff, Kept, hquoted]
  | none =>
      obtain ⟨printed, hprinted, hiff⟩ := exists_operand?_bare hcut hinside hended hquoted
      refine ⟨printed, hprinted, ?_⟩
      rw [hiff]
      simp [Kept, hquoted, onlyString?]

/-- `echo --a="x;y"`: the string is a part of the only word. -/
def echoWithSemicolon : EchoCommand where
    front := ⟨[], trivial, rfl⟩
    opening := ⟨⟨[.plain ' '], by simp, .inl rfl⟩, []⟩
    words := [.plain '-', .plain '-', .plain 'a', .plain '=', .double ['x', ';', 'y']]
    rest := []
    nonempty := by simp
    bare := by decide
    inside := by decide
    ended := rfl
    cut := ⟨.inl (by decide), .inl (by decide), .inl (by decide), .inl (by decide),
      .inl (by decide), trivial⟩

/-- A semicolon in a string cuts the argument short. -/
theorem not_echoed?_eq_argumentOf :
    ¬ ∀ command : EchoCommand, echoed? command.text = some (argumentOf command.words) := by
  intro h
  have hwhole : argumentOf echoWithSemicolon.words = "--a=\"x;y\"".toList := by decide
  have hcut : echoed? echoWithSemicolon.text = some "--a=\"x".toList := by decide +kernel
  have hsame := h echoWithSemicolon
  rw [hcut, hwhole] at hsame
  exact absurd hsame (by decide)

/-- Behind a string every further word is lost. -/
example : echoed? "echo \"--a\" --b".toList = some "--a".toList := by
  decide +kernel

end CaseTable.Shell
