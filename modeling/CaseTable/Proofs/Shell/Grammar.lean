import CaseTable.Proofs.Shell.Pieces
import CaseTable.Shell.Arm

/-!
# The grammar of a table

A table is described here from the side of its writer: a tree, the text it
is printed as, and what must hold of the text for the tree to be visible in
it. The readers take no part in any of this.

Commands are pieces and nested tables. Where they stand matters. A `#` opens
a comment or not, `case` is the keyword or a part of a word, two semicolons
end an arm or separate two commands of an inner one, and it depends on the
characters on both sides. So each condition is about a tree between a text
`behind`, nearest character first, and a text `after`, and follows the tree
as its text is passed. The conditions are decidable, so a table that is
written out can be checked.
-/

namespace CaseTable.Shell

/-- The text of a row of pieces. -/
def textOf (pieces : List Piece) : Text := pieces.flatMap Piece.text

@[simp] theorem textOf_nil : textOf [] = [] := rfl

@[simp] theorem textOf_cons (piece : Piece) (rest : List Piece) :
    textOf (piece :: rest) = piece.text ++ textOf rest := rfl

@[simp] theorem textOf_append (first second : List Piece) :
    textOf (first ++ second) = textOf first ++ textOf second :=
  List.flatMap_append

@[simp] theorem textOf_plain (t : Text) : textOf (t.map .plain) = t := by
  induction t with
  | nil => rfl
  | cons c t ih => exact congrArg (c :: ·) ih

/-- The commands of a body. -/
inductive Commands
    | nil
    | piece (first : Piece) (rest : Commands)
    /-- A table between its keywords: subject and arms, whatever they are. -/
    | table (inside rest : Commands)

/-- An arm ends here: two semicolons, or a semicolon and an ampersand. -/
def Terminates (ahead : Text) : Prop :=
  [';', ';'] <+: ahead ∨ [';', '&'] <+: ahead

instance (ahead : Text) : Decidable (Terminates ahead) :=
  inferInstanceAs (Decidable (_ ∨ _))

/-- No keyword of a table starts here, and outside the inner tables no arm
ends. Only a plain piece can break this. -/
def Quiet (nested : Bool) (behind ahead : Text) : Prop :=
  ¬ StandsAt caseWord behind ahead ∧ ¬ StandsAt esacWord behind ahead ∧
    (nested = false → ¬ Terminates ahead)

instance (nested : Bool) (behind ahead : Text) :
    Decidable (Quiet nested behind ahead) :=
  inferInstanceAs (Decidable (_ ∧ _ ∧ (_ → _)))

namespace Commands

def text : Commands → Text
  | nil => []
  | piece first rest => first.text ++ rest.text
  | table inside rest => caseWord ++ (inside.text ++ (esacWord ++ rest.text))

/-- The commands of a row of pieces. -/
def ofPieces (pieces : List Piece) : Commands := pieces.foldr piece nil

/-- Every piece is complete, no keyword and no end of an arm shows but those
of the tree, and the keywords of the tree are delimited. -/
def Fits (nested : Bool) : Commands → Text → Text → Prop
  | nil, _, _ => True
  | piece first rest, behind, after =>
      first.Complete (behind.head?.all endsBefore) ∧
        Quiet nested behind (first.text ++ (rest.text ++ after)) ∧
        rest.Fits nested (first.text.reverse ++ behind) after
  | table inside rest, behind, after =>
      let closed := esacWord ++ (rest.text ++ after)
      let opened := caseWord.reverse ++ behind
      let passed := inside.text.reverse ++ opened
      StandsAt caseWord behind (caseWord ++ (inside.text ++ closed)) ∧
        inside.Fits true opened closed ∧
        StandsAt esacWord passed closed ∧
        rest.Fits nested (esacWord.reverse ++ passed) after

instance decidableFits (nested : Bool) : (commands : Commands) →
    (behind after : Text) → Decidable (commands.Fits nested behind after)
  | nil, _, _ => .isTrue trivial
  | piece _ rest, _, after =>
      have := fun behind => decidableFits nested rest behind after
      inferInstanceAs (Decidable (_ ∧ _ ∧ _))
  | table inside rest, _, after =>
      have := decidableFits true inside
      have := fun behind => decidableFits nested rest behind after
      inferInstanceAs (Decidable (_ ∧ _ ∧ _ ∧ _))

end Commands

/-- What ends an arm. -/
inductive Ending
    | stop
    | fallThrough
    | resume
    deriving DecidableEq

def Ending.text : Ending → Text
  | stop => [';', ';']
  | fallThrough => [';', '&']
  | resume => [';', ';', '&']

/-- The blanks that may stand between two arms. -/
def isGapBlank (c : Char) : Bool :=
  c = ' ' || c = '\t' || c = '\n' || c = '\r'

theorem eq_of_isGapBlank {c : Char} (h : isGapBlank c = true) :
    c = ' ' ∨ c = '\t' ∨ c = '\n' ∨ c = '\r' := by
  simpa [isGapBlank, or_assoc] using h

theorem isBlank_of_isGapBlank {c : Char} (h : isGapBlank c = true) :
    isBlank c = true := by
  rcases eq_of_isGapBlank h with rfl | rfl | rfl | rfl <;> rfl

theorem endsBefore_of_isGapBlank {c : Char} (h : isGapBlank c = true) :
    endsBefore c = true := by
  rcases eq_of_isGapBlank h with rfl | rfl | rfl | rfl <;> rfl

/-- A piece that may stand between two arms: a blank or a whole comment. -/
def Piece.Skipped : Piece → Prop
  | plain c => isGapBlank c = true
  | comment line => (comment line).Complete true
  | _ => False

instance : (piece : Piece) → Decidable piece.Skipped
  | .plain c => inferInstanceAs (Decidable (isGapBlank c = true))
  | .comment line => inferInstanceAs (Decidable ((Piece.comment line).Complete true))
  | .escape _ => .isFalse id
  | .backslash => .isFalse id
  | .single _ => .isFalse id
  | .double _ => .isFalse id
  | .unclosed _ _ => .isFalse id

theorem head?_of_skipped {piece : Piece} (h : piece.Skipped) :
    ∃ c t, piece.text = c :: t ∧ (isGapBlank c = true ∨ c = '#') := by
  cases piece with
  | plain c => exact ⟨c, [], rfl, .inl h⟩
  | comment line => exact ⟨'#', line, rfl, .inr rfl⟩
  | escape | backslash | single | double | unclosed => exact False.elim h

theorem complete_skipped {piece : Piece} (h : piece.Skipped) :
    piece.Complete true := by
  cases piece with
  | plain c => rcases eq_of_isGapBlank h with rfl | rfl | rfl | rfl <;> decide
  | comment line => exact h
  | escape | backslash | single | double | unclosed => exact False.elim h

/-- A word may start after anything that stands in a gap. -/
theorem endsBefore_skipped {piece : Piece} (h : piece.Skipped) (behind : Text) :
    (piece.text.reverse ++ behind).head?.all endsBefore = true := by
  cases piece with
  | plain c => exact endsBefore_of_isGapBlank h
  | comment line =>
      obtain ⟨inner, rfl⟩ := List.getLast?_eq_some_iff.mp h.2.1
      simp [Piece.text, endsBefore]
  | escape | backslash | single | double | unclosed => exact False.elim h

theorem endsBefore_gap {gap : List Piece} (h : ∀ piece ∈ gap, piece.Skipped)
    {behind : Text} (hstart : behind.head?.all endsBefore = true) :
    ((textOf gap).reverse ++ behind).head?.all endsBefore = true := by
  induction gap generalizing behind with
  | nil => exact hstart
  | cons piece gap ih =>
      rw [textOf_cons, List.reverse_append, List.append_assoc]
      exact ih (fun p hp => h p (List.mem_cons_of_mem piece hp))
        (endsBefore_skipped (h piece List.mem_cons_self) behind)

/-- A piece that can stand in a pattern and does not close it. -/
def Piece.InPattern (piece : Piece) : Prop :=
  piece.Complete false ∧ piece ≠ .plain ')'

instance (piece : Piece) : Decidable piece.InPattern :=
  inferInstanceAs (Decidable (_ ∧ _))

/-- An arm as it is written, up to its ending. -/
structure WrittenArm where
    opened : Bool
    pattern : List Piece
    body : Commands

namespace WrittenArm

def opening (arm : WrittenArm) : Text := if arm.opened then ['('] else []

def text (arm : WrittenArm) : Text :=
  arm.opening ++ (textOf arm.pattern ++ ')' :: arm.body.text)

/-- The arm that is to be read. -/
def read (arm : WrittenArm) : Arm := ⟨labels (textOf arm.pattern), arm.body.text⟩

/-- A pattern without its parenthesis must show, past its blanks, that it is
one: no comment, no parenthesis and no end of the table. -/
def ShowsPattern : Text → Text → Prop
  | _, [] => True
  | behind, c :: t =>
      if isGapBlank c then ShowsPattern (c :: behind) t
      else c ≠ '(' ∧ c ≠ '#' ∧ ¬ StandsAt esacWord behind (c :: t)

instance decidableShowsPattern :
    (behind ahead : Text) → Decidable (ShowsPattern behind ahead)
  | _, [] => .isTrue trivial
  | behind, c :: t =>
      if hblank : isGapBlank c = true then
        have := decidableShowsPattern (c :: behind) t
        decidable_of_iff (ShowsPattern (c :: behind) t)
          (by rw [ShowsPattern, if_pos hblank])
      else
        decidable_of_iff
          (c ≠ '(' ∧ c ≠ '#' ∧ ¬ StandsAt esacWord behind (c :: t))
          (by rw [ShowsPattern, if_neg hblank])

/-- The pattern is closed by its own parenthesis, and the arm stands where an
arm is looked for. -/
def Fits (arm : WrittenArm) (behind after : Text) : Prop :=
  (∀ piece ∈ arm.pattern, piece.InPattern) ∧
    (arm.opened = false → ShowsPattern behind (arm.text ++ after)) ∧
    arm.body.Fits false
      (')' :: ((textOf arm.pattern).reverse ++ (arm.opening.reverse ++ behind)))
      after

instance (arm : WrittenArm) (behind after : Text) :
    Decidable (arm.Fits behind after) :=
  inferInstanceAs (Decidable (_ ∧ (_ → _) ∧ _))

end WrittenArm

/-- The arms of a table, with the gaps between them and the closing keyword.
The last arm may do without an ending. -/
inductive WrittenTable
    | close
    | last (arm : WrittenArm)
    | more (first : WrittenArm) (ending : Ending) (gap : List Piece)
        (rest : WrittenTable)

namespace WrittenTable

def text : WrittenTable → Text
  | close => esacWord
  | last arm => arm.text ++ esacWord
  | more first ending gap rest =>
      first.text ++ (ending.text ++ (textOf gap ++ rest.text))

/-- The arms that are to be read. -/
def arms : WrittenTable → List Arm
  | close => []
  | last arm => [arm.read]
  | more first _ _ rest => first.read :: rest.arms

/-- Every arm fits where it stands and the closing keyword is delimited. A
gap may be empty, but then no ampersand may follow the ending. -/
def Fits : WrittenTable → Text → Text → Prop
  | close, behind, after => StandsAt esacWord behind (esacWord ++ after)
  | last arm, behind, after =>
      arm.Fits behind (esacWord ++ after) ∧
        StandsAt esacWord (arm.text.reverse ++ behind) (esacWord ++ after)
  | more first ending gap rest, behind, after =>
      let follows := textOf gap ++ (rest.text ++ after)
      let passed := ending.text.reverse ++ (first.text.reverse ++ behind)
      first.Fits behind (ending.text ++ follows) ∧
        (∀ piece ∈ gap, piece.Skipped) ∧ follows.head? ≠ some '&' ∧
        rest.Fits ((textOf gap).reverse ++ passed) after

instance decidableFits : (table : WrittenTable) →
    (behind after : Text) → Decidable (table.Fits behind after)
  | close, _, _ => inferInstanceAs (Decidable (StandsAt _ _ _))
  | last _, _, _ => inferInstanceAs (Decidable (_ ∧ _))
  | more _ _ _ rest, _, after =>
      have := fun behind => decidableFits rest behind after
      inferInstanceAs (Decidable (_ ∧ _ ∧ _ ∧ _))

end WrittenTable

end CaseTable.Shell
