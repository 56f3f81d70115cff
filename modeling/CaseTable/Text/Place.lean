import CaseTable.Text

/-!
# Places in a text

A reader moves through a text from place to place. A place keeps what lies behind it, nearest
character first, and what lies ahead, so the whole text, the line number, the byte offset and the
character just passed can all be read off it.

`Place.Passes p s q` says that `q` lies just past the text `s` ahead of `p`. Every reader of this
library moves forward in this sense. The relation is what makes its loops end, and it says that the
text between two places is a part of the source.
-/

namespace CaseTable

/-- A place in a text: what lies behind it, nearest character first, and what lies ahead. -/
structure Place where
    behind : Text
    ahead : Text
    deriving DecidableEq, Repr

namespace Place

/-- The place before the first character. -/
def start (t : Text) : Place := ⟨[], t⟩

/-- The whole text around a place. -/
def text (p : Place) : Text := p.behind.reverse ++ p.ahead

def previous? (p : Place) : Option Char := p.behind.head?

def next? (p : Place) : Option Char := p.ahead.head?

/-- The distance from the start of the text, in UTF-8 bytes. -/
def offset (p : Place) : Nat := Text.byteSize p.behind

/-- The number of the line that a place lies on, counted from 1. -/
def line (p : Place) : Nat := p.behind.count '\n' + 1

/-- The place `n` characters further on, or the end of the text. -/
def advance (n : Nat) (p : Place) : Place :=
  ⟨(p.ahead.take n).reverse ++ p.behind, p.ahead.drop n⟩

/-- Moves past characters until `n` bytes are passed or the text ends. -/
def advanceBytes : Nat → Place → Place
  | n, ⟨behind, ahead⟩ => go n behind ahead
where
  go (n : Nat) (behind : Text) : Text → Place
    | [] => ⟨behind, []⟩
    | c :: t => if n = 0 then ⟨behind, c :: t⟩ else go (n - c.utf8Size) (c :: behind) t

/-- The text from one place up to a later one. -/
def upTo (p q : Place) : Text := p.ahead.take (p.ahead.length - q.ahead.length)

/-- `q` lies just past the text `s` ahead of `p`. -/
def Passes (p : Place) (s : Text) (q : Place) : Prop :=
  p.ahead = s ++ q.ahead ∧ q.behind = s.reverse ++ p.behind

namespace Passes

theorem refl (p : Place) : p.Passes [] p := ⟨rfl, rfl⟩

theorem trans {p q r : Place} {s u : Text} (h : p.Passes s q) (k : q.Passes u r) :
    p.Passes (s ++ u) r :=
  ⟨by rw [h.1, k.1, List.append_assoc], by simp [k.2, h.2]⟩

theorem text_eq {p q : Place} {s : Text} (h : p.Passes s q) : q.text = p.text := by
  simp [text, h.1, h.2]

theorem upTo_eq {p q : Place} {s : Text} (h : p.Passes s q) : p.upTo q = s := by
  simp [upTo, h.1]

theorem length_eq {p q : Place} {s : Text} (h : p.Passes s q) :
    p.ahead.length = s.length + q.ahead.length := by
  simp [h.1]

theorem offset_eq {p q : Place} {s : Text} (h : p.Passes s q) :
    q.offset = p.offset + Text.byteSize s := by
  simp [offset, h.2, Nat.add_comm]

end Passes

theorem passes_advance (p : Place) (n : Nat) : p.Passes (p.ahead.take n) (p.advance n) :=
  ⟨(List.take_append_drop n p.ahead).symm, rfl⟩

end Place

end CaseTable
