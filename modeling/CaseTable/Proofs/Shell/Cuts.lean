import CaseTable.Proofs.Shell.Readings

/-!
# The pieces of a text

A text falls into pieces in exactly one way (`exists_isCut`, `IsCut.unique`):
what is hidden in a quote, a comment or an escape is part of a larger piece, and
only the last piece may be one that the end of the text leaves open.

`IsCut` is what the readers of blocks and of commands are measured against. They
look for a piece in this row, and what they count or pass over is pieces.
-/

namespace CaseTable.Shell

/-- A row of pieces as a text falls into them, with `behind` before it. -/
def IsCut : List Piece → Text → Prop
  | [], _ => True
  | piece :: rest, behind =>
      (piece.Complete (behind.head?.all endsBefore) ∨
          rest = [] ∧ piece.Open (behind.head?.all endsBefore)) ∧
        IsCut rest (piece.text.reverse ++ behind)

/-- The first piece of a row is the one that is read. -/
theorem IsCut.piece?_eq {piece : Piece} {rest : List Piece} {behind : Text}
    (h : IsCut (piece :: rest) behind) :
    (⟨behind, textOf (piece :: rest)⟩ : Place).piece? =
      some (piece, ⟨piece.text.reverse ++ behind, textOf rest⟩) := by
  rcases h.1 with hcomplete | ⟨rfl, hopen⟩
  · exact Place.piece?_complete hcomplete (textOf rest)
  · have hfirst := Piece.first?_open hopen
    rw [textOf_cons, textOf_nil, List.append_nil]
    exact congrArg (Option.map _) hfirst

theorem exists_isCut (behind t : Text) : ∃ pieces, textOf pieces = t ∧ IsCut pieces behind := by
  induction hlen : t.length using Nat.strongRecOn generalizing behind t with
  | _ n ih =>
      subst hlen
      cases hfirst : Piece.first? (behind.head?.all endsBefore) t with
      | none => exact ⟨[], (Piece.eq_nil_of_first? hfirst).symm, trivial⟩
      | some taken =>
          obtain ⟨piece, rest⟩ := taken
          have hshorter : rest.length < t.length := by
            have hpos := List.length_pos_iff.mpr piece.text_ne_nil
            rw [Piece.eq_of_first? hfirst, List.length_append]
            omega
          obtain ⟨pieces, rfl, hcut⟩ := ih _ hshorter (piece.text.reverse ++ behind) rest rfl
          refine ⟨piece :: pieces, (Piece.eq_of_first? hfirst).symm, ?_, hcut⟩
          refine (Piece.complete_or_open_of_first? hfirst).imp_right fun hopen => ⟨?_, hopen.2⟩
          cases pieces with
          | nil => rfl
          | cons next _ => exact absurd (List.append_eq_nil_iff.mp hopen.1).1 next.text_ne_nil

theorem IsCut.unique {pieces pieces' : List Piece} {behind : Text} (h : IsCut pieces behind)
    (h' : IsCut pieces' behind) (htext : textOf pieces' = textOf pieces) : pieces' = pieces := by
  induction pieces generalizing pieces' behind with
  | nil =>
      cases pieces' with
      | nil => rfl
      | cons piece rest =>
          exact absurd (List.append_eq_nil_iff.mp htext).1 piece.text_ne_nil
  | cons piece rest ih =>
      cases pieces' with
      | nil => exact absurd (List.append_eq_nil_iff.mp htext.symm).1 piece.text_ne_nil
      | cons piece' rest' =>
          have hread := h.piece?_eq
          rw [← htext, h'.piece?_eq] at hread
          obtain ⟨rfl, hplace⟩ := Prod.mk.inj (Option.some.inj hread)
          rw [ih h.2 h'.2 (congrArg Place.ahead hplace)]

end CaseTable.Shell
