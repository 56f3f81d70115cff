import CaseTable.Shell.Piece

/-!
# Brace groups

The end of a function's body is the closing brace without a partner. Braces are counted as plain
characters, so a parameter expansion balances like any other group, and a brace inside quotes, a
comment or an escape does not count.
-/

namespace CaseTable.Place

/-- The closing brace of the group that a place lies in, `depth` inner groups being open. -/
def blockEnd? (depth : Nat) (p : Place) : Option Place :=
  match _ : p.piece? with
  | none => none
  | some (.plain '\x7b', q) => blockEnd? (depth + 1) q
  | some (.plain '\x7d', q) => if depth = 0 then some p else blockEnd? (depth - 1) q
  | some (_, q) => blockEnd? depth q
termination_by p.ahead.length
decreasing_by all_goals exact length_lt_of_take? (by assumption)

end CaseTable.Place

namespace CaseTable.Shell

/-- The byte offset of the brace that closes the group whose inside starts at a byte offset. -/
def blockEndAt? (source : Text) (start : Nat) : Option Nat :=
  (((Place.start source).advanceBytes start).blockEnd? 0).map Place.offset

end CaseTable.Shell
