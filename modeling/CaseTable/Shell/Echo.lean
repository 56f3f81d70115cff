import CaseTable.Shell.Piece
import CaseTable.Text.Blank

/-!
# What an echo prints

The output of an arm is the operand of the first `echo` in its body. Option words made of `n`, `e`
and `E` are passed over. A quoted operand is the text between its quotes, taken as written, and
one whose quote never closes is none at all. An unquoted operand reaches to the end of the command.
-/

namespace CaseTable.Place

open CaseTable.Shell

/-- The place after the first delimited `echo` that no quote or comment hides. -/
def findEcho? (p : Place) : Option Place :=
  match p.keyword? echoWord with
  | some q => some q
  | none =>
      match _ : p.piece? with
      | none => none
      | some (_, q) => findEcho? q
termination_by p.ahead.length
decreasing_by exact length_lt_of_take? (by assumption)

end CaseTable.Place

namespace CaseTable.Shell

/-- The characters that end an option word. -/
def endsOption (c : Char) : Bool := c = ' ' || c = '\t' || c = '\n' || c = ';'

/-- Whether a word is an option of `echo`: a minus and one or more of `n`, `e` and `E`. -/
def isEchoOption : Text → Bool
  | '-' :: c :: letters => (c :: letters).all fun c => c = 'n' || c = 'e' || c = 'E'
  | _ => false

/-- How many characters at the front of a text are passed over before the operand at once: a blank,
a line continuation or an option word. -/
def optionLength : Text → Nat
  | ' ' :: _ => 1
  | '\t' :: _ => 1
  | '\\' :: '\n' :: _ => 2
  | t =>
      let word := t.takeWhile fun c => !endsOption c
      if isEchoOption word then word.length else 0

/-- The place of the operand: past blanks, line continuations and option words. -/
def skipOptions (p : Place) : Place :=
  if 0 < optionLength p.ahead then skipOptions (p.advance (optionLength p.ahead)) else p
termination_by p.ahead.length
decreasing_by
  have nonempty : p.ahead ≠ [] := by
    intro empty
    simp_all [optionLength, isEchoOption]
  have := List.length_pos_iff.2 nonempty
  simp only [Place.advance, List.length_drop]
  omega

/-- The end of a command: a line feed, a semicolon or a comment that no backslash hides. Quotes hide
nothing here. -/
def commandEnd (p : Place) : Place := go p.behind p.ahead
where
  go (behind : Text) : Text → Place
    | [] => ⟨behind, []⟩
    | ['\\'] => ⟨'\\' :: behind, []⟩
    | '\\' :: c :: t => go (c :: '\\' :: behind) t
    | c :: t =>
        if c = '\n' || c = ';' || (c = '#' && behind.head?.all endsBefore) then
          ⟨behind, c :: t⟩
        else
          go (c :: behind) t

/-- The operand at a place where option words are over. -/
def operand? (p : Place) : Option Text :=
  match p.ahead with
  | [] => none
  | '"' :: t => (Piece.splitDouble? t).map Prod.fst
  | '\x27' :: t => (Piece.splitSingle? t).map Prod.fst
  | '\n' :: _ => none
  | ';' :: _ => none
  | _ => some (p.upTo (commandEnd p)).trimEnd

/-- What the first `echo` of a body prints. -/
def echoed? (body : Text) : Option Text :=
  (Place.start body).findEcho?.bind fun p => operand? (skipOptions p)

end CaseTable.Shell
