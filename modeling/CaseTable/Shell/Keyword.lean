import CaseTable.Text.Place

/-!
# Words and keywords

Where a word may start decides two things in a shell script: whether a `#` opens a comment, and
whether `case`, `esac` or `echo` is the keyword or a part of a longer word. Only ASCII characters
delimit a keyword, and the two sides differ: an opening parenthesis, `|` and `&` may stand before
a keyword but not after it.
-/

namespace CaseTable

namespace Shell

/-- The characters that may stand before a word. -/
def endsBefore (c : Char) : Bool :=
  c = ' ' || c = '\t' || c = '\n' || c = '\r' || c = ';' || c = '(' || c = ')' || c = '|' ||
    c = '&'

/-- The characters that may stand after a keyword. -/
def endsAfter (c : Char) : Bool :=
  c = ' ' || c = '\t' || c = '\n' || c = '\r' || c = ';' || c = ')'

def caseWord : Text := ['c', 'a', 's', 'e']

def esacWord : Text := ['e', 's', 'a', 'c']

def echoWord : Text := ['e', 'c', 'h', 'o']

end Shell

namespace Place

/-- Whether a word may start at a place. -/
def atWordStart (p : Place) : Bool := p.previous?.all Shell.endsBefore

/-- The place after a keyword that stands delimited at `p`. -/
def keyword? (word : Text) (p : Place) : Option Place :=
  if p.atWordStart then
    match Text.afterStart? word p.ahead with
    | some rest => if rest.head?.all Shell.endsAfter then some (p.advance word.length) else none
    | none => none
  else
    none

theorem passes_of_keyword? {word : Text} {p q : Place} (h : p.keyword? word = some q) :
    p.Passes word q := by
  unfold keyword? at h
  split at h
  case isTrue =>
      split at h
      case _ rest hrest =>
          rw [Text.afterStart?_eq_some_iff] at hrest
          split at h
          case isTrue =>
              injection h with h
              subst h
              simpa [hrest] using p.passes_advance word.length
          case isFalse => simp at h
      case _ => simp at h
  case isFalse => simp at h

end Place

end CaseTable
