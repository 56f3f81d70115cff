import CaseTable.Shell.Piece

/-!
# Pieces read back from their text

A piece that is complete, a closed quote, a comment with its line feed, an
escape, is the first piece of any text that starts with it, whatever comes
after: `take?_complete`. The readers of arms, echoes and blocks all move
piece by piece, so this is what each of their proofs steps with. Any other
piece is open (`Piece.Open`), and then it is the last of its text.

A keyword is the other thing that is looked for. `StandsAt` says without the
reader that one stands at a place, delimited on both sides.
-/

namespace CaseTable.Shell

/-- Whether a text can stand between double quotes: every quote and every
backslash in it belongs to an escape. -/
def isEscaped : Text → Bool
  | [] => true
  | ['\\'] => false
  | '\\' :: _ :: t => isEscaped t
  | c :: t => c ≠ '"' && isEscaped t

/-- The readers take a backslash with the character it hides, or alone at the
end. In their last case there is none. -/
theorem ne_backslash {c : Char} {t : Text} (hlone : c = '\\' → t = [] → False)
    (hescape : ∀ d u, c = '\\' → t = d :: u → False) : c ≠ '\\' := by
  intro hc
  cases t with
  | nil => exact hlone hc rfl
  | cons d u => exact hescape d u hc rfl

namespace Piece

/-- Whether a piece is complete, so that what follows it cannot change it.
`comments` says whether a `#` opens a comment where the piece stands. -/
def Complete (comments : Bool) : Piece → Prop
  | escape _ => True
  | backslash => False
  | single content => '\x27' ∉ content
  | double content => isEscaped content = true
  | unclosed _ _ => False
  | comment line =>
      comments = true ∧ line.getLast? = some '\n' ∧ '\n' ∉ line.dropLast
  | plain c =>
      c ≠ '\\' ∧ c ≠ '\x27' ∧ c ≠ '"' ∧ (c = '#' → comments = false)

instance (comments : Bool) : (piece : Piece) → Decidable (piece.Complete comments)
  | escape _ => .isTrue trivial
  | backslash => .isFalse id
  | single content => inferInstanceAs (Decidable ('\x27' ∉ content))
  | double content => inferInstanceAs (Decidable (isEscaped content = true))
  | unclosed _ _ => .isFalse id
  | comment line => inferInstanceAs (Decidable (_ ∧ _ ∧ '\n' ∉ line.dropLast))
  | plain c => inferInstanceAs (Decidable (_ ∧ _ ∧ _ ∧ (c = '#' → _)))

/-- Whether only the end of the text has left a piece open. -/
def Open (comments : Bool) : Piece → Prop
  | backslash => True
  | unclosed mark rest =>
      mark = '\x27' ∧ '\x27' ∉ rest ∨
        mark = '"' ∧ ∀ content tail, rest = content ++ '"' :: tail → isEscaped content = false
  | comment line => comments = true ∧ '\n' ∉ line
  | _ => False

theorem splitSingle?_closed {content : Text} (h : '\x27' ∉ content)
    (rest : Text) :
    splitSingle? (content ++ '\x27' :: rest) = some (content, rest) := by
  induction content with
  | nil => rw [List.nil_append, splitSingle?, if_pos rfl]
  | cons c t ih =>
      have hc : c ≠ '\x27' := fun hc => h (by simp [hc])
      rw [List.cons_append, splitSingle?, if_neg hc,
        ih fun ht => h (List.mem_cons_of_mem c ht)]
      rfl

theorem splitDouble?_closed {content : Text} (h : isEscaped content = true)
    (rest : Text) :
    splitDouble? (content ++ '"' :: rest) = some (content, rest) := by
  fun_induction isEscaped content with
  | case1 => rw [List.nil_append, splitDouble?]
  | case2 => cases h
  | case3 c t ih =>
      rw [List.cons_append, List.cons_append, splitDouble?, ih h]
      rfl
  | case4 c t hlone hslash ih =>
      rw [Bool.and_eq_true, decide_eq_true_eq] at h
      have hc : c ≠ '\\' := ne_backslash hlone hslash
      rw [List.cons_append, splitDouble?, ih h.2]
      · rfl
      · exact h.1
      · exact fun d u hd _ => hc hd

theorem splitLine_closed {line : Text} (h : '\n' ∉ line) (rest : Text) :
    splitLine (line ++ '\n' :: rest) = (line ++ ['\n'], rest) := by
  induction line with
  | nil => rw [List.nil_append, splitLine, List.nil_append]
  | cons c t ih =>
      have hc : c ≠ '\n' := fun hc => h (by simp [hc])
      rw [List.cons_append, splitLine, ih fun ht => h (List.mem_cons_of_mem c ht)]
      · rfl
      · exact hc

theorem first?_complete {comments : Bool} {piece : Piece}
    (h : piece.Complete comments) (rest : Text) :
    first? comments (piece.text ++ rest) = some (piece, rest) := by
  cases piece with
  | escape c => simp [text, first?]
  | backslash => exact False.elim h
  | single content =>
      have hsplit := splitSingle?_closed h rest
      simp [text, first?, hsplit]
  | double content =>
      have hsplit := splitDouble?_closed h rest
      simp [text, first?, hsplit]
  | unclosed mark content => exact False.elim h
  | comment line =>
      obtain ⟨rfl, hlast, hinner⟩ := h
      obtain ⟨inner, rfl⟩ := List.getLast?_eq_some_iff.mp hlast
      rw [List.dropLast_concat] at hinner
      have hsplit := splitLine_closed hinner rest
      simp [text, first?, hsplit]
  | plain c =>
      obtain ⟨hslash, hsingle, hdouble, hhash⟩ := h
      have hcomment : (c = '#' && comments) = false := by
        by_cases hc : c = '#'
        · simp [hhash hc]
        · simp [hc]
      simp [text, first?, hslash, hsingle, hdouble, hcomment]

end Piece

/-- The keyword stands at the front of `ahead`, with `behind` before it: it
is delimited on both sides. -/
def StandsAt (word behind ahead : Text) : Prop :=
  behind.head?.all endsBefore = true ∧ word <+: ahead ∧
    (ahead.drop word.length).head?.all endsAfter = true

instance (word behind ahead : Text) : Decidable (StandsAt word behind ahead) :=
  inferInstanceAs (Decidable (_ ∧ _ ∧ _))

theorem StandsAt.head_eq {c : Char} {word behind ahead : Text}
    (h : StandsAt (c :: word) behind ahead) : ahead.head? = some c := by
  obtain ⟨rest, rfl⟩ := h.2.1
  rfl

theorem not_standsAt_of_head {c : Char} {word behind ahead : Text}
    (h : ahead.head? ≠ some c) : ¬ StandsAt (c :: word) behind ahead :=
  fun hstands => h hstands.head_eq

/-- What follows a word that stands somewhere does not matter beyond its
first character. -/
theorem standsAt_append_iff {word behind rest : Text} :
    StandsAt word behind (word ++ rest) ↔
      behind.head?.all endsBefore = true ∧
        rest.head?.all endsAfter = true := by
  rw [StandsAt, List.drop_left]
  exact ⟨fun h => ⟨h.1, h.2.2⟩, fun h => ⟨h.1, List.prefix_append _ _, h.2⟩⟩

/-- A word that lies in the front of a text stands there without the rest. -/
theorem StandsAt.of_append {word behind front rest : Text}
    (h : StandsAt word behind (front ++ rest)) (hfront : word <+: front) :
    StandsAt word behind front := by
  obtain ⟨after, rfl⟩ := hfront
  rw [List.append_assoc, standsAt_append_iff] at h
  refine standsAt_append_iff.mpr ⟨h.1, ?_⟩
  cases after with
  | nil => rfl
  | cons c after => exact h.2

end CaseTable.Shell

namespace CaseTable.Place

open CaseTable.Shell

theorem take?_complete {comments : Bool} {piece : Piece}
    (h : piece.Complete comments) (behind rest : Text) :
    (⟨behind, piece.text ++ rest⟩ : Place).take? comments =
      some (piece, ⟨piece.text.reverse ++ behind, rest⟩) := by
  rw [take?, Piece.first?_complete h]
  rfl

theorem piece?_complete {behind : Text} {piece : Piece}
    (h : piece.Complete (behind.head?.all endsBefore)) (rest : Text) :
    (⟨behind, piece.text ++ rest⟩ : Place).piece? =
      some (piece, ⟨piece.text.reverse ++ behind, rest⟩) :=
  take?_complete h behind rest

theorem keyword?_of_standsAt {word behind rest : Text}
    (h : StandsAt word behind (word ++ rest)) :
    (⟨behind, word ++ rest⟩ : Place).keyword? word =
      some ⟨word.reverse ++ behind, rest⟩ := by
  obtain ⟨hbefore, hafter⟩ := standsAt_append_iff.mp h
  have hstart : (⟨behind, word ++ rest⟩ : Place).atWordStart = true := hbefore
  rw [keyword?, if_pos hstart, Text.afterStart?_eq_some_iff.mpr rfl]
  simp only []
  rw [if_pos hafter, advance, List.take_left, List.drop_left]

theorem keyword?_eq_none {word behind ahead : Text}
    (h : ¬ StandsAt word behind ahead) :
    (⟨behind, ahead⟩ : Place).keyword? word = none := by
  rw [keyword?]
  split
  · next hbefore =>
      split
      · next rest hrest =>
          rw [Text.afterStart?_eq_some_iff] at hrest
          change ahead = word ++ rest at hrest
          subst hrest
          rw [if_neg fun hafter => h (standsAt_append_iff.mpr ⟨hbefore, hafter⟩)]
      · rfl
  · rfl

end CaseTable.Place
