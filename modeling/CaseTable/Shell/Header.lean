import CaseTable.Shell.Arm
import CaseTable.Text.WordChar

/-!
# Heads of case statements

A case statement starts with `case`, a subject and `in`, with blanks between them, and the two
keywords are whole words. The subject is a quoted string on one line if that lets the head go on,
and otherwise a stretch without blanks and semicolons.
-/

namespace CaseTable.Shell

/-- What follows one or more blanks. -/
def afterBlanks? (t : Text) : Option Text :=
  match t with
  | c :: t => if isBlank c then some (t.dropWhile isBlank) else none
  | [] => none

/-- What follows blanks and the word `in`. -/
def afterIn? (t : Text) : Option Text :=
  match afterBlanks? t with
  | some ('i' :: 'n' :: t) => if isWordEdge (some 'n') t.head? then some t else none
  | _ => none

/-- What follows a string in the given quotes that stays on its line. -/
def afterQuoted? (mark : Char) (t : Text) : Option Text :=
  match t with
  | c :: t =>
      if c = mark then
        match t.dropWhile fun c => c ≠ mark && c ≠ '\n' with
        | d :: t => if d = mark then some t else none
        | [] => none
      else
        none
  | [] => none

/-- Whether a character may stand in an unquoted subject. -/
def isSubjectChar (c : Char) : Bool := !isBlank c && c ≠ ';'

/-- What follows an unquoted subject. -/
def afterBare? (t : Text) : Option Text :=
  match t with
  | c :: t => if isSubjectChar c then some (t.dropWhile isSubjectChar) else none
  | [] => none

/-- What follows a subject and `in`. -/
def afterSubject? (t : Text) : Option Text :=
  (((afterQuoted? '"' t).bind afterIn?).or ((afterQuoted? '\x27' t).bind afterIn?)).or
    ((afterBare? t).bind afterIn?)

/-- What follows the head of a case statement at the front of a text, `previous` being the
character before it. -/
def afterCaseHead? (previous : Option Char) (t : Text) : Option Text :=
  if isWordEdge previous t.head? then
    ((Text.afterStart? caseWord t).bind afterBlanks?).bind afterSubject?
  else
    none

/-- What follows the first head of a case statement in a text. -/
def afterFirstCase? (previous : Option Char) : Text → Option Text
  | [] => none
  | c :: t =>
      match afterCaseHead? previous (c :: t) with
      | some rest => some rest
      | none => afterFirstCase? (some c) t

theorem length_lt_of_afterBlanks? {t rest : Text} (h : afterBlanks? t = some rest) :
    rest.length < t.length := by
  unfold afterBlanks? at h
  split at h
  case h_1 c t =>
      split at h
      case isTrue =>
          injection h with h
          exact h ▸ Nat.lt_succ_of_le (List.dropWhile_sublist _).length_le
      case isFalse => simp at h
  case h_2 => simp at h

theorem length_lt_of_afterIn? {t rest : Text} (h : afterIn? t = some rest) :
    rest.length < t.length := by
  unfold afterIn? at h
  split at h
  case h_1 u hu =>
      have := length_lt_of_afterBlanks? hu
      split at h
      case isTrue =>
          injection h with h
          subst h
          simp only [List.length_cons] at this
          omega
      case isFalse => simp at h
  case h_2 => simp at h

theorem length_le_of_afterQuoted? {mark : Char} {t rest : Text}
    (h : afterQuoted? mark t = some rest) : rest.length ≤ t.length := by
  unfold afterQuoted? at h
  split at h
  case h_1 c t =>
      split at h
      case isTrue =>
          split at h
          case h_1 d u hu =>
              have shorter := congrArg List.length hu
              have := (List.dropWhile_sublist (l := t) fun c => c ≠ mark && c ≠ '\n').length_le
              split at h
              case isTrue =>
                  injection h with h
                  subst h
                  simp only [List.length_cons] at shorter ⊢
                  omega
              case isFalse => simp at h
          case h_2 => simp at h
      case isFalse => simp at h
  case h_2 => simp at h

theorem length_le_of_afterBare? {t rest : Text} (h : afterBare? t = some rest) :
    rest.length ≤ t.length := by
  unfold afterBare? at h
  split at h
  case h_1 c t =>
      split at h
      case isTrue =>
          injection h with h
          exact h ▸ Nat.le_succ_of_le (List.dropWhile_sublist _).length_le
      case isFalse => simp at h
  case h_2 => simp at h

theorem length_lt_of_afterSubject? {t rest : Text} (h : afterSubject? t = some rest) :
    rest.length < t.length := by
  simp only [afterSubject?, Option.or_eq_some_iff, Option.bind_eq_some_iff] at h
  have joined {read : Text → Option Text} (le : ∀ u, read t = some u → u.length ≤ t.length)
      (found : ∃ u, read t = some u ∧ afterIn? u = some rest) : rest.length < t.length := by
    obtain ⟨u, hu, hrest⟩ := found
    exact Nat.lt_of_lt_of_le (length_lt_of_afterIn? hrest) (le u hu)
  rcases h with (h | ⟨_, h⟩) | ⟨_, h⟩
  · exact joined (fun _ => length_le_of_afterQuoted?) h
  · exact joined (fun _ => length_le_of_afterQuoted?) h
  · exact joined (fun _ => length_le_of_afterBare?) h

theorem length_lt_of_afterCaseHead? {previous : Option Char} {t rest : Text}
    (h : afterCaseHead? previous t = some rest) : rest.length < t.length := by
  unfold afterCaseHead? at h
  split at h
  case isTrue =>
      simp only [Option.bind_eq_some_iff] at h
      obtain ⟨u, ⟨v, hv, hu⟩, hrest⟩ := h
      have := length_lt_of_afterBlanks? hu
      have := length_lt_of_afterSubject? hrest
      have := congrArg List.length (Text.afterStart?_eq_some_iff.1 hv)
      simp only [List.length_append] at this
      omega
  case isFalse => simp at h

theorem length_lt_of_afterFirstCase? {previous : Option Char} {t rest : Text}
    (h : afterFirstCase? previous t = some rest) : rest.length < t.length := by
  fun_induction afterFirstCase? previous t with
  | case1 => simp at h
  | case2 previous c t u hu =>
      injection h with h
      exact h ▸ length_lt_of_afterCaseHead? hu
  | case3 previous c t _ ih => exact Nat.lt_succ_of_lt (ih h)

end CaseTable.Shell

namespace CaseTable.Place

/-- The places just after the heads of all case statements ahead, inner ones included. -/
def caseStarts (p : Place) : List Place :=
  match _ : Shell.afterFirstCase? p.previous? p.ahead with
  | none => []
  | some rest =>
      let q := p.advance (p.ahead.length - rest.length)
      q :: caseStarts q
termination_by p.ahead.length
decreasing_by
  have := Shell.length_lt_of_afterFirstCase? (by assumption)
  simp only [advance, List.length_drop]
  omega

end CaseTable.Place
