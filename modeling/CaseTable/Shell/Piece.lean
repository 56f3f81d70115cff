import CaseTable.Shell.Keyword

/-!
# Pieces of a script

A script is read piece by piece, and a piece hides what stands inside it: the character after a
backslash, a quoted string and a comment end no word, open no block and close no arm. Everything
else is a piece of one plain character.

Inside single quotes nothing is special; inside double quotes a backslash hides one character. A
quote that never closes takes the rest of the text, and so does a backslash at the end. A `#` opens
a comment only where the caller says so; the comment runs through the end of its line.
-/

namespace CaseTable.Shell

inductive Piece
    /-- A backslash and the character it hides. -/
    | escape (c : Char)
    /-- A backslash at the end of the text. -/
    | backslash
    | single (content : Text)
    | double (content : Text)
    /-- A quotation mark that is never closed, with the rest of the text. -/
    | unclosed (mark : Char) (rest : Text)
    /-- A comment, with all that follows its `#` through the line feed. -/
    | comment (line : Text)
    | plain (c : Char)
    deriving DecidableEq, Repr

namespace Piece

def text : Piece → Text
  | escape c => ['\\', c]
  | backslash => ['\\']
  | single content => '\x27' :: content ++ ['\x27']
  | double content => '"' :: content ++ ['"']
  | unclosed mark rest => mark :: rest
  | comment line => '#' :: line
  | plain c => [c]

/-- What stands before the next single quote, and what follows it. -/
def splitSingle? : Text → Option (Text × Text)
  | [] => none
  | c :: t =>
      if c = '\x27' then some ([], t)
      else (splitSingle? t).map fun (content, rest) => (c :: content, rest)

/-- What stands before the next double quote that no backslash hides, and what follows it. -/
def splitDouble? : Text → Option (Text × Text)
  | [] => none
  | '"' :: t => some ([], t)
  | '\\' :: c :: t => (splitDouble? t).map fun (content, rest) => ('\\' :: c :: content, rest)
  | c :: t => (splitDouble? t).map fun (content, rest) => (c :: content, rest)

/-- The text through its first line feed, and what follows. -/
def splitLine : Text → Text × Text
  | [] => ([], [])
  | '\n' :: t => (['\n'], t)
  | c :: t => let (line, rest) := splitLine t; (c :: line, rest)

/-- The first piece of a text and what follows it; `comments` says whether a `#` opens a comment
here. -/
def first? (comments : Bool) : Text → Option (Piece × Text)
  | [] => none
  | ['\\'] => some (backslash, [])
  | '\\' :: c :: t => some (escape c, t)
  | c :: t =>
      if c = '\x27' then
        match splitSingle? t with
        | some (content, rest) => some (single content, rest)
        | none => some (unclosed c t, [])
      else if c = '"' then
        match splitDouble? t with
        | some (content, rest) => some (double content, rest)
        | none => some (unclosed c t, [])
      else if c = '#' && comments then
        some (comment (splitLine t).1, (splitLine t).2)
      else
        some (plain c, t)

theorem eq_of_splitSingle? {t content rest : Text} (h : splitSingle? t = some (content, rest)) :
    t = content ++ '\x27' :: rest := by
  induction t generalizing content with
  | nil => simp [splitSingle?] at h
  | cons c t ih =>
      rw [splitSingle?] at h
      split at h
      · simp_all
      · obtain ⟨⟨s, r⟩, hs, he⟩ := Option.map_eq_some_iff.1 h
        simp only [Prod.mk.injEq] at he
        obtain ⟨rfl, rfl⟩ := he
        simp [ih hs]

theorem eq_of_splitDouble? {t content rest : Text} (h : splitDouble? t = some (content, rest)) :
    t = content ++ '"' :: rest := by
  fun_induction splitDouble? t generalizing content with
  | case1 => simp at h
  | case2 t => simp_all
  | case3 c t ih =>
      obtain ⟨⟨s, r⟩, hs, he⟩ := Option.map_eq_some_iff.1 h
      simp only [Prod.mk.injEq] at he
      obtain ⟨rfl, rfl⟩ := he
      simp [ih hs]
  | case4 c t _ _ ih =>
      obtain ⟨⟨s, r⟩, hs, he⟩ := Option.map_eq_some_iff.1 h
      simp only [Prod.mk.injEq] at he
      obtain ⟨rfl, rfl⟩ := he
      simp [ih hs]

theorem splitLine_append (t : Text) : (splitLine t).1 ++ (splitLine t).2 = t := by
  fun_induction splitLine t <;> simp_all

/-- Nothing is lost: a text is its first piece followed by the rest. -/
theorem eq_of_first? {comments : Bool} {t rest : Text} {piece : Piece}
    (h : first? comments t = some (piece, rest)) : t = piece.text ++ rest := by
  unfold first? at h
  split at h
  case h_1 => simp at h
  case h_2 =>
      obtain ⟨rfl, rfl⟩ := by simpa using h
      rfl
  case h_3 =>
      obtain ⟨rfl, rfl⟩ := by simpa using h
      rfl
  case h_4 c t _ _ =>
      by_cases single : c = '\x27'
      · rw [if_pos single] at h
        split at h
        case h_1 heq =>
            obtain ⟨rfl, rfl⟩ := by simpa using h
            simp [text, single, eq_of_splitSingle? heq]
        case h_2 =>
            obtain ⟨rfl, rfl⟩ := by simpa using h
            simp [text]
      · rw [if_neg single] at h
        by_cases double : c = '"'
        · rw [if_pos double] at h
          split at h
          case h_1 heq =>
              obtain ⟨rfl, rfl⟩ := by simpa using h
              simp [text, double, eq_of_splitDouble? heq]
          case h_2 =>
              obtain ⟨rfl, rfl⟩ := by simpa using h
              simp [text]
        · rw [if_neg double] at h
          split at h
          case isTrue opens =>
              obtain ⟨rfl, rfl⟩ := by simpa using h
              have hash : c = '#' := by simp_all
              simp [text, hash, splitLine_append]
          case isFalse =>
              obtain ⟨rfl, rfl⟩ := by simpa using h
              simp [text]

theorem text_ne_nil (piece : Piece) : piece.text ≠ [] := by
  cases piece <;> simp [text]

end Piece

end CaseTable.Shell

namespace CaseTable.Place

open CaseTable.Shell

/-- The next piece and the place after it, with or without comments. -/
def take? (comments : Bool) (p : Place) : Option (Piece × Place) :=
  (Piece.first? comments p.ahead).map fun (piece, rest) =>
    (piece, ⟨piece.text.reverse ++ p.behind, rest⟩)

/-- The next piece and the place after it, where a `#` opens a comment if a word may start at it. -/
def piece? (p : Place) : Option (Piece × Place) := p.take? p.atWordStart

theorem passes_of_take? {comments : Bool} {p q : Place} {piece : Piece}
    (h : p.take? comments = some (piece, q)) : p.Passes piece.text q := by
  obtain ⟨⟨x, rest⟩, hx, he⟩ := Option.map_eq_some_iff.1 h
  simp only [Prod.mk.injEq] at he
  obtain ⟨rfl, rfl⟩ := he
  exact ⟨Piece.eq_of_first? hx, rfl⟩

theorem length_lt_of_take? {comments : Bool} {p q : Place} {piece : Piece}
    (h : p.take? comments = some (piece, q)) : q.ahead.length < p.ahead.length := by
  have passed := (passes_of_take? h).length_eq
  have := List.length_pos_iff.2 piece.text_ne_nil
  omega

end CaseTable.Place
