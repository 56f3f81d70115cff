import CaseTable.Shell.Block
import CaseTable.Text.Blank

/-!
# Function definitions

A definition of a function stands at the start of the text, or after a blank or a semicolon. It is
either the word `function`, blanks and the name, with or without a pair of parentheses, or the name
and a pair of parentheses; an opening brace ends the head. Blanks may stand before, inside and
after the pair.
-/

namespace CaseTable.Shell

/-- What follows a pair of parentheses, with blanks before and inside it. -/
def afterParens? (t : Text) : Option Text :=
  match t.dropWhile isBlank with
  | '(' :: t =>
      match t.dropWhile isBlank with
      | ')' :: t => some t
      | _ => none
  | _ => none

/-- What follows an opening brace, with blanks before it. -/
def afterBrace? (t : Text) : Option Text :=
  match t.dropWhile isBlank with
  | '\x7b' :: t => some t
  | _ => none

/-- What follows a head that starts with the name. -/
def afterPlainHead? (name t : Text) : Option Text :=
  ((Text.afterStart? name t).bind afterParens?).bind afterBrace?

/-- What follows the name, an optional pair of parentheses and a brace. -/
def afterNameAndBrace? (name t : Text) : Option Text :=
  (Text.afterStart? name t).bind fun rest => afterBrace? ((afterParens? rest).getD rest)

/-- The same with blanks before the name. -/
def afterBlanksAndName? (name : Text) : Text → Option Text
  | [] => none
  | c :: t =>
      match afterNameAndBrace? name (c :: t) with
      | some rest => some rest
      | none => if isBlank c then afterBlanksAndName? name t else none

/-- What follows a head that starts with the word `function`. -/
def afterKeywordHead? (name t : Text) : Option Text :=
  match Text.afterStart? "function".toList t with
  | some (c :: t) => if isBlank c then afterBlanksAndName? name t else none
  | _ => none

/-- What follows the head of a definition at the front of a text. -/
def afterHead? (name t : Text) : Option Text :=
  (afterKeywordHead? name t).or (afterPlainHead? name t)

/-- Whether a definition may start after a character, or at the start of the text. -/
def allowsDefinition (previous : Option Char) : Bool :=
  previous.all fun c => isBlank c || c = ';'

/-- The place after the opening brace of the first definition of a function. -/
def definition? (name source : Text) : Option Place := go [] source
where
  go (behind : Text) : Text → Option Place
    | [] => none
    | c :: t =>
        let here :=
          if allowsDefinition behind.head? then afterHead? name (c :: t) else none
        match here with
        | some rest =>
            some ((⟨behind, c :: t⟩ : Place).advance ((c :: t).length - rest.length))
        | none => go (c :: behind) t

/-- The inside of a function's braces, from `start`. A body that never closes runs to the end of
the text. -/
structure Body where
    start : Place
    text : Text

/-- The body of the first definition of a function. -/
def functionBody? (name source : Text) : Option Body :=
  (definition? name source).map fun start =>
    match start.blockEnd? 0 with
    | some e => ⟨start, start.upTo e⟩
    | none => ⟨start, start.ahead⟩

end CaseTable.Shell
