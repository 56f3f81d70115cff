import CaseTable.Shell.Piece
import CaseTable.Text.Blank

/-!
# The arms of a case statement

A table is a row of arms up to a delimited `esac`. An arm is a pattern closed by a parenthesis, a
body, and a terminator. Between arms stand blanks and comments. A body ends at the first `;;` or
`;&` outside every nested table, or before the `esac` that closes the table it belongs to; nested
tables are counted by their keywords.

Only the text is looked at, so a table is read the same way whatever its layout. Reading fails only
if the `esac` never comes.
-/

namespace CaseTable.Place

open CaseTable.Shell

/-- The place after the blanks and comments that may stand between arms. Here a `#` opens a
comment wherever it stands. -/
def skipGap (p : Place) : Place := go false p.behind p.ahead
where
  go (inComment : Bool) (behind : Text) : Text → Place
    | [] => ⟨behind, []⟩
    | c :: t =>
        if inComment then
          go (c ≠ '\n') (c :: behind) t
        else if c = ' ' || c = '\t' || c = '\n' || c = '\r' then
          go false (c :: behind) t
        else if c = '#' then
          go true (c :: behind) t
        else
          ⟨behind, c :: t⟩

theorem exists_passes_skipGap_go (inComment : Bool) (behind t : Text) :
    ∃ s, (⟨behind, t⟩ : Place).Passes s (skipGap.go inComment behind t) := by
  induction t generalizing inComment behind with
  | nil => exact ⟨[], Passes.refl _⟩
  | cons c t ih =>
      have step (b : Bool) :
          ∃ s, (⟨behind, c :: t⟩ : Place).Passes s (skipGap.go b (c :: behind) t) := by
        obtain ⟨s, hs⟩ := ih b (c :: behind)
        exact ⟨c :: s, Passes.trans (s := [c]) (q := ⟨c :: behind, t⟩) ⟨rfl, rfl⟩ hs⟩
      rw [skipGap.go]
      split
      · exact step _
      · split
        · exact step _
        · split
          · exact step _
          · exact ⟨[], Passes.refl _⟩

theorem exists_passes_skipGap (p : Place) : ∃ s, p.Passes s p.skipGap :=
  exists_passes_skipGap_go false p.behind p.ahead

/-- The closing parenthesis of a pattern: the first one that no backslash or quote hides. -/
def patternEnd? (p : Place) : Option Place :=
  match _ : p.take? false with
  | none => none
  | some (.plain ')', _) => some p
  | some (_, q) => patternEnd? q
termination_by p.ahead.length
decreasing_by exact length_lt_of_take? (by assumption)

/-- The terminator that stands at the front of a text: `;;` or `;&`, with one more `&` if it
follows. -/
def terminator : Text → Text
  | ';' :: ';' :: '&' :: _ => [';', ';', '&']
  | ';' :: '&' :: '&' :: _ => [';', '&', '&']
  | ';' :: ';' :: _ => [';', ';']
  | ';' :: '&' :: _ => [';', '&']
  | _ => []

/-- Where the body of an arm ends, `depth` nested tables being open. -/
def bodyEnd? (depth : Nat) (p : Place) : Option Place :=
  match _ : p.keyword? caseWord with
  | some q => bodyEnd? (depth + 1) q
  | none =>
      match _ : p.keyword? esacWord with
      | some q => if depth = 0 then some p else bodyEnd? (depth - 1) q
      | none =>
          if depth = 0 ∧ terminator p.ahead ≠ [] then
            some p
          else
            match _ : p.piece? with
            | none => none
            | some (_, q) => bodyEnd? depth q
termination_by p.ahead.length
decreasing_by
  · have := (passes_of_keyword? (by assumption)).length_eq
    simp only [caseWord, List.length_cons] at this
    omega
  · have := (passes_of_keyword? (by assumption)).length_eq
    simp only [esacWord, List.length_cons] at this
    omega
  · exact length_lt_of_take? (by assumption)

theorem exists_passes_patternEnd? {p q : Place} (h : p.patternEnd? = some q) :
    ∃ s, p.Passes s q := by
  fun_induction patternEnd? p with
  | case1 => simp at h
  | case2 p =>
      injection h with h
      exact ⟨[], h ▸ Passes.refl p⟩
  | case3 p piece r _ hr ih =>
      obtain ⟨s, hs⟩ := ih h
      exact ⟨piece.text ++ s, (passes_of_take? hr).trans hs⟩

theorem exists_passes_bodyEnd? {depth : Nat} {p q : Place} (h : p.bodyEnd? depth = some q) :
    ∃ s, p.Passes s q := by
  fun_induction bodyEnd? depth p with
  | case1 depth p r hr ih =>
      obtain ⟨s, hs⟩ := ih h
      exact ⟨caseWord ++ s, (passes_of_keyword? hr).trans hs⟩
  | case2 p =>
      injection h with h
      exact ⟨[], h ▸ Passes.refl p⟩
  | case3 depth p _ r hr _ ih =>
      obtain ⟨s, hs⟩ := ih h
      exact ⟨esacWord ++ s, (passes_of_keyword? hr).trans hs⟩
  | case4 depth p =>
      injection h with h
      exact ⟨[], h ▸ Passes.refl p⟩
  | case5 => simp at h
  | case6 depth p _ _ _ piece r hr ih =>
      obtain ⟨s, hs⟩ := ih h
      exact ⟨piece.text ++ s, (passes_of_take? hr).trans hs⟩

end CaseTable.Place

namespace CaseTable.Shell

/-- What stands between two marks at the two ends of a text. -/
def between? (mark : Char) (t : Text) : Option Text :=
  (Text.afterStart? [mark] t).bind (Text.beforeEnd? [mark])

/-- One alternative of a pattern, trimmed and without a pair of quotes around it. -/
def unquoteLabel (t : Text) : Text :=
  let label := t.trim
  ((between? '"' label).or (between? '\x27' label)).getD label

/-- The labels of a pattern: its alternatives, the empty ones left out. -/
def labels (pattern : Text) : List Text :=
  ((pattern.splitOn '|').map unquoteLabel).filter (fun label => label ≠ [])

/-- One arm of a table: its labels and its body as written. -/
structure Arm where
    labels : List Text
    body : Text
    deriving DecidableEq, Repr

/-- Reads a pattern, with or without an opening parenthesis, and moves past the closing one. -/
def readPattern? (p : Place) : Option (Text × Place) :=
  let q := if p.next? = some '(' then p.advance 1 else p
  q.patternEnd?.map fun e => (q.upTo e, e.advance 1)

/-- Reads a body and moves past its terminator; an `esac` is left where it is. -/
def readBody? (p : Place) : Option (Text × Place) :=
  (p.bodyEnd? 0).map fun e => (p.upTo e, e.advance (Place.terminator e.ahead).length)

def Arm.read? (p : Place) : Option (Arm × Place) :=
  match readPattern? p with
  | none => none
  | some (pattern, q) => (readBody? q).map fun (body, r) => (⟨Shell.labels pattern, body⟩, r)

theorem patternEnd?_ne_nil {p q : Place} (h : p.patternEnd? = some q) : q.ahead ≠ [] := by
  fun_induction Place.patternEnd? p with
  | case1 => simp at h
  | case2 p r hr =>
      injection h with h
      subst h
      rw [(Place.passes_of_take? hr).1]
      simp [Piece.text]
  | case3 p piece r _ hr ih => exact ih h

theorem length_lt_of_readPattern? {p q : Place} {pattern : Text}
    (h : readPattern? p = some (pattern, q)) : q.ahead.length < p.ahead.length := by
  unfold readPattern? at h
  obtain ⟨e, he, heq⟩ := Option.map_eq_some_iff.1 h
  obtain ⟨-, rfl⟩ := Prod.mk.inj heq
  have opened : (if p.next? = some '(' then p.advance 1 else p).ahead.length ≤ p.ahead.length := by
    split
    · simp [Place.advance]
    · exact Nat.le_refl _
  obtain ⟨s, hs⟩ := Place.exists_passes_patternEnd? he
  have passed := hs.length_eq
  have := List.length_pos_iff.2 (patternEnd?_ne_nil he)
  simp only [Place.advance, List.length_drop]
  omega

theorem length_le_of_readBody? {p q : Place} {body : Text}
    (h : readBody? p = some (body, q)) : q.ahead.length ≤ p.ahead.length := by
  obtain ⟨e, he, heq⟩ := Option.map_eq_some_iff.1 h
  obtain ⟨-, rfl⟩ := Prod.mk.inj heq
  obtain ⟨s, hs⟩ := Place.exists_passes_bodyEnd? he
  have passed := hs.length_eq
  simp only [Place.advance, List.length_drop]
  omega

theorem Arm.length_lt_of_read? {p q : Place} {arm : Arm} (h : Arm.read? p = some (arm, q)) :
    q.ahead.length < p.ahead.length := by
  unfold Arm.read? at h
  split at h
  case h_1 => simp at h
  case h_2 pattern r hr =>
      obtain ⟨⟨body, e⟩, he, heq⟩ := Option.map_eq_some_iff.1 h
      obtain ⟨-, rfl⟩ := Prod.mk.inj heq
      have := length_lt_of_readPattern? hr
      have := length_le_of_readBody? he
      omega

/-- Reads the arms of a table from just after its `in`, and moves past its `esac`. -/
def readArms? (p : Place) : Option (List Arm × Place) :=
  match p.skipGap.keyword? esacWord with
  | some q => some ([], q)
  | none =>
      match _ : Arm.read? p.skipGap with
      | none => none
      | some (arm, q) => (readArms? q).map fun (arms, r) => (arm :: arms, r)
termination_by p.ahead.length
decreasing_by
  obtain ⟨s, hs⟩ := p.exists_passes_skipGap
  have passed := hs.length_eq
  have := Arm.length_lt_of_read? (by assumption)
  omega

/-- Why the arms of a table cannot be read. -/
inductive ArmsError
    /-- No `esac` closes the table whose arms start at this byte offset. -/
    | unterminated (start : Nat)
    deriving DecidableEq, Repr

namespace ArmsError

def message : ArmsError → String
  | unterminated start => s!"case statement starting at byte {start} is not terminated by esac"

end ArmsError

/-- The arms of the table whose `in` ends at a byte offset. -/
def armsAt (source : Text) (start : Nat) : Except ArmsError (List Arm) :=
  match readArms? ((Place.start source).advanceBytes start) with
  | some (arms, _) => .ok arms
  | none => .error (.unterminated start)

end CaseTable.Shell
