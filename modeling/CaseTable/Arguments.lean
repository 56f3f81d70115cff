import CaseTable.Text.Blank

/-!
# Argument strings

What a strategy's `echo` prints is turned into one line of arguments in two steps. First the
references to a placeholder variable go, `$name` and `${name}` alike. Then line continuations
become spaces, stretches of blanks become one space, and the ends are trimmed.
-/

namespace CaseTable.Arguments

/-- The characters that would make a variable's name longer. -/
def isNameChar (c : Char) : Bool := c.isAlphanum || c = '_'

/-- What follows a reference to the variable, where `t` is the text after a dollar sign. The name
stands in braces, or bare and then not before a character that would make it longer. -/
def afterReference? (name t : Text) : Option Text :=
  match Text.afterStart? ('\x7b' :: name ++ ['\x7d']) t with
  | some rest => some rest
  | none =>
      match Text.afterStart? name t with
      | some rest => if rest.head?.any isNameChar then none else some rest
      | none => none

theorem afterReference?_length_le {name t rest : Text} (h : afterReference? name t = some rest) :
    rest.length ≤ t.length := by
  unfold afterReference? at h
  split at h
  case _ r hr =>
      rw [Text.afterStart?_eq_some_iff] at hr
      simp_all
      omega
  case _ =>
      split at h
      case _ r hr =>
          rw [Text.afterStart?_eq_some_iff] at hr
          split at h <;> simp_all
      case _ => simp at h

/-- Deletes the references to the variable; with no name there is none. -/
def stripReferences (name : Text) : Text → Text
  | [] => []
  | c :: t =>
      if c = '$' ∧ name ≠ [] then
        match _ : afterReference? name t with
        | some rest => stripReferences name rest
        | none => c :: stripReferences name t
      else
        c :: stripReferences name t
termination_by t => t.length
decreasing_by
  · exact Nat.lt_succ_of_le (afterReference?_length_le (by assumption))
  · simp
  · simp

/-- Writes a space for each line continuation: a backslash before a line end, with all blanks that
follow. -/
def joinContinuations : Text → Text
  | '\\' :: '\n' :: t => ' ' :: joinContinuations (t.dropWhile isBlank)
  | '\\' :: '\r' :: '\n' :: t => ' ' :: joinContinuations (t.dropWhile isBlank)
  | c :: t => c :: joinContinuations t
  | [] => []
termination_by t => t.length
decreasing_by
  · have := (List.dropWhile_sublist (l := t) isBlank).length_le
    simp
    omega
  · have := (List.dropWhile_sublist (l := t) isBlank).length_le
    simp
    omega
  · simp

/-- The text on one line: continuations and stretches of blanks are one space each, and the ends
are trimmed. -/
def normalize (t : Text) : Text := (joinContinuations t).collapseBlanks.trim

/-- The arguments in what an `echo` prints: its text without the placeholder, on one line. -/
def clean (placeholder t : Text) : Text := normalize (stripReferences placeholder t)

end CaseTable.Arguments
