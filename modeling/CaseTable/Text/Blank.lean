import CaseTable.Text

/-!
# White space

`isBlank` is the Unicode property `White_Space`: twenty-five characters, among them the no-break
space and the ideographic space, but neither the zero-width space nor the byte order mark. Words
and trimming follow this class everywhere; the shell readers use narrower ASCII classes of their
own, which are stated where they are used.
-/

namespace CaseTable

/-- Whether a character has the Unicode property `White_Space`. -/
def isBlank (c : Char) : Bool :=
  let n := c.toNat
  (9 ≤ n && n ≤ 13) || n = 0x20 || n = 0x85 || n = 0xA0 || n = 0x1680 ||
    (0x2000 ≤ n && n ≤ 0x200A) || n = 0x2028 || n = 0x2029 || n = 0x202F || n = 0x205F ||
    n = 0x3000

namespace Text

def trimStart (t : Text) : Text := t.dropWhile isBlank

def trimEnd (t : Text) : Text := (t.reverse.dropWhile isBlank).reverse

/-- The text without the blanks at its two ends. -/
def trim (t : Text) : Text := trimEnd (trimStart t)

/-- The words of a text: its longest stretches without a blank. -/
def words (t : Text) : List Text := (t.splitOnP isBlank).filter (fun word => word ≠ [])

/-- Writes every longest stretch of blanks as one space. -/
def collapseBlanks : Text → Text
  | [] => []
  | c :: t =>
      if isBlank c then
        ' ' :: collapseBlanks (t.dropWhile isBlank)
      else
        c :: collapseBlanks t
termination_by t => t.length
decreasing_by
  · exact Nat.lt_succ_of_le ((List.dropWhile_sublist _).length_le)
  · simp

end Text

end CaseTable
