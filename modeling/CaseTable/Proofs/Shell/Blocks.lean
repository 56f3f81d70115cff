import CaseTable.Proofs.Shell.Readings
import CaseTable.Shell.Block

/-!
# The closing brace

The search for the brace that closes a group moves piece by piece
(`blockEnd?_of_piece?`): each either closes the group or leaves it at a depth
(`blockEnd?_step`), and pieces that are no braces are passed over
(`blockEnd?_pieces`). What follows the closing brace does not matter
(`blockEnd?_append`), and what lies behind matters to the first piece only
(`blockEnd?_ahead_congr`): a word may start after it or not, and that decides
whether a `#` opens a comment.
-/

namespace CaseTable.Place

open CaseTable.Shell

theorem blockEnd?_of_piece? {depth : Nat} {p q : Place} {piece : Piece}
    (h : p.piece? = some (piece, q)) :
    p.blockEnd? depth =
      if piece = .plain '\x7b' then q.blockEnd? (depth + 1)
      else if piece = .plain '\x7d' then
        if depth = 0 then some p else q.blockEnd? (depth - 1)
      else q.blockEnd? depth := by
  rw [blockEnd?]
  split
  · next hnone => cases h.symm.trans hnone
  · next hopen =>
      cases h.symm.trans hopen
      rfl
  · next hclose =>
      cases h.symm.trans hclose
      rfl
  · next hopen hclose hother =>
      cases h.symm.trans hother
      rw [if_neg hopen, if_neg hclose]

theorem blockEnd?_of_piece?_none {p : Place} (h : p.piece? = none) (depth : Nat) :
    p.blockEnd? depth = none := by
  rw [blockEnd?]
  split
  · rfl
  all_goals next hsome => cases h.symm.trans hsome

theorem exists_passes_blockEnd? {depth : Nat} {p q : Place}
    (h : p.blockEnd? depth = some q) : ∃ s, p.Passes s q := by
  fun_induction blockEnd? depth p with
  | case1 => cases h
  | case2 depth p r hr ih =>
      obtain ⟨s, hs⟩ := ih h
      exact ⟨_, (passes_of_take? hr).trans hs⟩
  | case3 p =>
      cases h
      exact ⟨[], Passes.refl _⟩
  | case4 depth p r hr _ ih =>
      obtain ⟨s, hs⟩ := ih h
      exact ⟨_, (passes_of_take? hr).trans hs⟩
  | case5 depth p piece r _ _ hr ih =>
      obtain ⟨s, hs⟩ := ih h
      exact ⟨_, (passes_of_take? hr).trans hs⟩

/-- A closing brace ends the group that is open. -/
theorem blockEnd?_brace (behind t : Text) :
    (⟨behind, '\x7d' :: t⟩ : Place).blockEnd? 0 = some ⟨behind, '\x7d' :: t⟩ := by
  have hcomplete : (Piece.plain '\x7d').Complete (behind.head?.all endsBefore) := by
    simp [Piece.Complete]
  have hbrace := piece?_complete hcomplete t
  rw [Piece.text, List.singleton_append] at hbrace
  rw [blockEnd?_of_piece? hbrace, if_neg (by decide), if_pos rfl, if_pos rfl]

/-- Pieces that are no braces are passed over. -/
theorem blockEnd?_pieces {pieces : List Piece}
    (h : ∀ piece ∈ pieces, (∀ comments, piece.Complete comments) ∧
      piece ≠ .plain '\x7b' ∧ piece ≠ .plain '\x7d')
    (depth : Nat) (behind rest : Text) :
    (⟨behind, textOf pieces ++ rest⟩ : Place).blockEnd? depth =
      (⟨(textOf pieces).reverse ++ behind, rest⟩ : Place).blockEnd? depth := by
  induction pieces generalizing behind with
  | nil => rfl
  | cons piece pieces ih =>
      obtain ⟨hcomplete, hopen, hclose⟩ := h piece List.mem_cons_self
      have hpiece := piece?_complete (hcomplete (behind.head?.all endsBefore))
        (textOf pieces ++ rest)
      rw [textOf_cons, List.append_assoc, blockEnd?_of_piece? hpiece, if_neg hopen,
        if_neg hclose, ih fun p hp => h p (List.mem_cons_of_mem piece hp),
        List.reverse_append, List.append_assoc]

/-- How many groups are open behind a piece; none is behind the brace that
closes the first of them. -/
def depthAfter? (depth : Nat) (piece : Piece) : Option Nat :=
  if piece = .plain '\x7b' then some (depth + 1)
  else if piece = .plain '\x7d' then
    if depth = 0 then none else some (depth - 1)
  else some depth

theorem depthAfter?_eq_none_iff {depth : Nat} {piece : Piece} :
    depthAfter? depth piece = none ↔ depth = 0 ∧ piece = .plain '\x7d' := by
  by_cases hopen : piece = .plain '\x7b'
  · simp [depthAfter?, hopen]
  · by_cases hclose : piece = .plain '\x7d'
    · simp [depthAfter?, hclose]
    · simp [depthAfter?, hopen, hclose]

/-- The search ends at a piece, or it goes on behind it with another depth. -/
theorem blockEnd?_step {depth : Nat} {p q : Place} {piece : Piece}
    (h : p.piece? = some (piece, q)) :
    p.blockEnd? depth = (depthAfter? depth piece).elim (some p) fun d => q.blockEnd? d := by
  rw [blockEnd?_of_piece? h, depthAfter?]
  split
  · rfl
  · split
    · split <;> rfl
    · rfl

/-- What follows the closing brace of a group does not matter. -/
theorem blockEnd?_append {depth : Nat} {p e : Place} (h : p.blockEnd? depth = some e) :
    ∃ s t, p.Passes s e ∧ e.ahead = '\x7d' :: t ∧ ∀ t',
      (⟨p.behind, s ++ '\x7d' :: t'⟩ : Place).blockEnd? depth =
        some ⟨e.behind, '\x7d' :: t'⟩ := by
  induction hlen : p.ahead.length using Nat.strongRecOn generalizing depth p with
  | _ n ih =>
      subst hlen
      cases hpiece : p.piece? with
      | none => cases h.symm.trans (blockEnd?_of_piece?_none hpiece depth)
      | some taken =>
          obtain ⟨piece, q⟩ := taken
          have hpassed := passes_of_take? hpiece
          rw [blockEnd?_step hpiece] at h
          cases hdepth : depthAfter? depth piece with
          | none =>
              obtain ⟨rfl, rfl⟩ := depthAfter?_eq_none_iff.mp hdepth
              rw [hdepth] at h
              cases h
              exact ⟨[], q.ahead, Passes.refl _, hpassed.1, blockEnd?_brace _⟩
          | some d =>
              rw [hdepth] at h
              obtain ⟨s, t, hs, ht, hend⟩ := ih _ (length_lt_of_take? hpiece) h rfl
              refine ⟨piece.text ++ s, t, hpassed.trans hs, ht, fun t' => ?_⟩
              -- a piece before the brace is not the last of the text
              have hfollowed : q.ahead ≠ [] := by
                rw [hs.1, ht]
                simp
              have hmoved := take?_move hpiece hfollowed p.behind (s ++ '\x7d' :: t')
              rw [← hpassed.2] at hmoved
              rw [List.append_assoc, blockEnd?_step hmoved, hdepth]
              exact hend t'

/-- A first piece reaches the rest of a text, or it is the same with any
rest. -/
theorem piece?_past {behind passed rest' : Text} {piece : Piece} {q : Place}
    (h : (⟨behind, passed ++ rest'⟩ : Place).piece? = some (piece, q)) :
    q.ahead <:+ rest' ∨ ∃ v, v ≠ [] ∧ passed = piece.text ++ v ∧
      ∀ rest, (⟨behind, passed ++ rest⟩ : Place).piece? =
        some (piece, ⟨piece.text.reverse ++ behind, v ++ rest⟩) := by
  have hpassed := passes_of_take? h
  rcases List.append_eq_append_iff.mp hpassed.1 with ⟨v, -, hv⟩ | ⟨v, hv, hq⟩
  · exact .inl ⟨v, hv.symm⟩
  · by_cases hnil : v = []
    · rw [hnil, List.nil_append] at hq
      exact .inl (hq ▸ List.suffix_refl q.ahead)
    · have hfollowed : q.ahead ≠ [] := by
        rw [hq]
        exact List.append_ne_nil_of_left_ne_nil hnil rest'
      refine .inr ⟨v, hnil, hv, fun rest => ?_⟩
      rw [hv, List.append_assoc]
      exact take?_move h hfollowed behind (v ++ rest)

/-- Where a group does not close in a text, it does not close there with
another rest either. A piece that reaches into the rest hides what it passes,
whatever the rest is. -/
theorem blockEnd?_past {depth : Nat} {behind passed rest rest' : Text} {e : Place}
    (h : ∀ e, (⟨behind, passed ++ rest⟩ : Place).blockEnd? depth = some e → e.ahead <:+ rest)
    (he : (⟨behind, passed ++ rest'⟩ : Place).blockEnd? depth = some e) : e.ahead <:+ rest' := by
  have hleft {depth' : Nat} {q : Place} (hq : q.blockEnd? depth' = some e) :
      e.ahead <:+ q.ahead := by
    obtain ⟨s, hs⟩ := exists_passes_blockEnd? hq
    exact ⟨s, hs.1.symm⟩
  induction hlen : passed.length using Nat.strongRecOn generalizing behind passed depth with
  | _ n ih =>
      subst hlen
      by_cases hnil : passed = []
      · subst hnil
        exact hleft he
      · cases hpiece : (⟨behind, passed ++ rest'⟩ : Place).piece? with
        | none => cases he.symm.trans (blockEnd?_of_piece?_none hpiece depth)
        | some taken =>
            obtain ⟨piece, q⟩ := taken
            cases hdepth : depthAfter? depth piece with
            | none =>
                -- the brace would close the group with the other rest as well
                obtain ⟨rfl, rfl⟩ := depthAfter?_eq_none_iff.mp hdepth
                obtain ⟨c, u, rfl⟩ := List.exists_cons_of_ne_nil hnil
                obtain rfl : c = '\x7d' := (List.cons.inj (passes_of_take? hpiece).1).1
                have hle := (h _ (blockEnd?_brace behind (u ++ rest))).length_le
                simp only [List.length_cons, List.length_append] at hle
                omega
            | some d =>
                rw [blockEnd?_step hpiece, hdepth] at he
                rcases piece?_past hpiece with hsuffix | ⟨v, hne, rfl, hmove⟩
                · exact (hleft he).trans hsuffix
                · have hshorter : v.length < (piece.text ++ v).length := by
                    have hpos := List.length_pos_iff.mpr piece.text_ne_nil
                    rw [List.length_append]
                    omega
                  cases hpiece.symm.trans (hmove rest')
                  rw [blockEnd?_step (hmove rest), hdepth] at h
                  exact ih _ hshorter h he rfl

/-- What lies behind does not matter past the first piece. -/
theorem blockEnd?_ahead_congr {behind behind' t : Text}
    (h : behind.head?.all endsBefore = behind'.head?.all endsBefore ∨ t.head? ≠ some '#')
    (depth : Nat) : ((⟨behind, t⟩ : Place).blockEnd? depth).map ahead =
      ((⟨behind', t⟩ : Place).blockEnd? depth).map ahead := by
  have hfirst : Piece.first? (behind.head?.all endsBefore) t =
      Piece.first? (behind'.head?.all endsBefore) t := by
    rcases h with h | h
    · rw [h]
    · exact Piece.first?_of_head h _ _
  induction hlen : t.length using Nat.strongRecOn generalizing behind behind' t depth with
  | _ n ih =>
      subst hlen
      cases hpiece : Piece.first? (behind.head?.all endsBefore) t with
      | none =>
          have hnone {b : Text} (hb : Piece.first? (b.head?.all endsBefore) t = none) :
              (⟨b, t⟩ : Place).piece? = none :=
            congrArg (Option.map _) hb
          rw [blockEnd?_of_piece?_none (hnone hpiece),
            blockEnd?_of_piece?_none (hnone (hfirst.symm.trans hpiece))]
      | some taken =>
          obtain ⟨piece, rest⟩ := taken
          have htaken {b : Text}
              (hb : Piece.first? (b.head?.all endsBefore) t = some (piece, rest)) :
              (⟨b, t⟩ : Place).piece? = some (piece, ⟨piece.text.reverse ++ b, rest⟩) :=
            congrArg (Option.map _) hb
          have hsame (depth' : Nat) :
              ((⟨piece.text.reverse ++ behind, rest⟩ : Place).blockEnd? depth').map ahead =
                ((⟨piece.text.reverse ++ behind', rest⟩ : Place).blockEnd? depth').map
                  ahead := by
            have hshorter : rest.length < t.length := length_lt_of_take? (htaken hpiece)
            have hhead : (piece.text.reverse ++ behind).head? =
                (piece.text.reverse ++ behind').head? := by
              obtain ⟨c, u, hcons⟩ := List.exists_cons_of_ne_nil
                (List.reverse_ne_nil_iff.mpr piece.text_ne_nil)
              rw [hcons]
              rfl
            exact ih _ hshorter (.inl (by rw [hhead])) depth' (by rw [hhead]) rfl
          rw [blockEnd?_step (htaken hpiece), blockEnd?_step (htaken (hfirst.symm.trans hpiece))]
          cases depthAfter? depth piece with
          | none => rfl
          | some d => exact hsame d

end CaseTable.Place
