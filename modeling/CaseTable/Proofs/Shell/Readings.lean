import CaseTable.Proofs.Shell.Arms

/-!
# What a reader has passed

A reader that comes to an end has passed a text, and the text can be taken
apart again. A piece is complete, or it is open and nothing follows it
(`complete_or_open_of_first?`): only the end of the text leaves a quote, a
comment or an escape open. So what stands between two arms is a row of blanks and whole
comments (`exists_gap_skipGap`), and what is read as a pattern is a row of
pieces that can stand in one (`exists_pieces_readPattern?`).

These are the ways back from the readers to the grammar, which says how
written text is read.
-/

namespace CaseTable.Shell.Piece

theorem quote_notMem_of_splitSingle? {t content rest : Text}
    (h : splitSingle? t = some (content, rest)) : '\x27' ∉ content := by
  induction t generalizing content with
  | nil => cases h
  | cons c t ih =>
      rw [splitSingle?] at h
      split at h
      · cases h
        exact List.not_mem_nil
      · next hc =>
          obtain ⟨⟨content', rest'⟩, hsplit, heq⟩ := Option.map_eq_some_iff.mp h
          cases heq
          rw [List.mem_cons, not_or]
          exact ⟨Ne.symm hc, ih hsplit⟩

theorem isEscaped_cons {c : Char} {t : Text} (hslash : c ≠ '\\') (hquote : c ≠ '"')
    (h : isEscaped t = true) : isEscaped (c :: t) = true := by
  rw [isEscaped, h, Bool.and_true, decide_eq_true hquote]
  · exact fun hc _ => hslash hc
  · exact fun _ _ hc _ => hslash hc

theorem isEscaped_of_splitDouble? {t content rest : Text}
    (h : splitDouble? t = some (content, rest)) : isEscaped content = true := by
  fun_induction splitDouble? t generalizing content with
  | case1 => cases h
  | case2 =>
      cases h
      rfl
  | case3 c t ih =>
      obtain ⟨⟨content', rest'⟩, hsplit, heq⟩ := Option.map_eq_some_iff.mp h
      obtain ⟨rfl, rfl⟩ := Prod.mk.inj heq
      rw [isEscaped]
      exact ih hsplit
  | case4 c t hquote hescape ih =>
      obtain ⟨⟨content', rest'⟩, hsplit, heq⟩ := Option.map_eq_some_iff.mp h
      obtain ⟨rfl, rfl⟩ := Prod.mk.inj heq
      have hslash : c ≠ '\\' := by
        refine ne_backslash (fun _ hnil => ?_) hescape
        rw [hnil] at hsplit
        cases hsplit
      exact isEscaped_cons hslash (fun hc => hquote hc) (ih hsplit)

theorem splitSingle?_eq_none_iff {t : Text} : splitSingle? t = none ↔ '\x27' ∉ t := by
  constructor
  · intro h hmem
    obtain ⟨content, rest, rfl, hcontent⟩ := List.eq_append_cons_of_mem hmem
    cases h.symm.trans (splitSingle?_closed hcontent rest)
  · intro h
    refine Option.eq_none_iff_forall_ne_some.mpr fun split hsplit => h ?_
    rw [eq_of_splitSingle? hsplit]
    exact List.mem_append_right _ List.mem_cons_self

theorem splitDouble?_eq_none_iff {t : Text} : splitDouble? t = none ↔
    ∀ content rest, t = content ++ '"' :: rest → isEscaped content = false := by
  constructor
  · rintro h content rest rfl
    refine eq_false_of_ne_true fun hcontent => ?_
    cases h.symm.trans (splitDouble?_closed hcontent rest)
  · intro h
    refine Option.eq_none_iff_forall_ne_some.mpr fun split hsplit => ?_
    have hopen := h split.1 split.2 (eq_of_splitDouble? hsplit)
    cases hopen.symm.trans (isEscaped_of_splitDouble? hsplit)

theorem splitLine_open {line : Text} (h : '\n' ∉ line) : splitLine line = (line, []) := by
  induction line with
  | nil => rfl
  | cons c t ih =>
      rw [List.mem_cons, not_or] at h
      rw [splitLine, ih h.2]
      exact fun hc => h.1 hc.symm

/-- What is read is a complete piece, or an open one at the end of the text. -/
theorem complete_or_open_of_first? {comments : Bool} {t rest : Text} {piece : Piece}
    (h : first? comments t = some (piece, rest)) :
    piece.Complete comments ∨ rest = [] ∧ piece.Open comments := by
  unfold first? at h
  split at h
  · cases h
  · cases h
    exact .inr ⟨rfl, trivial⟩
  · cases h
    exact .inl trivial
  · next c t hlone hescape =>
      by_cases hsingle : c = '\x27'
      · rw [if_pos hsingle] at h
        split at h
        · next hsplit =>
            cases h
            exact .inl (quote_notMem_of_splitSingle? hsplit)
        · next hsplit =>
            cases h
            exact .inr ⟨rfl, .inl ⟨hsingle, splitSingle?_eq_none_iff.mp hsplit⟩⟩
      · rw [if_neg hsingle] at h
        by_cases hdouble : c = '"'
        · rw [if_pos hdouble] at h
          split at h
          · next hsplit =>
              cases h
              exact .inl (isEscaped_of_splitDouble? hsplit)
          · next hsplit =>
              cases h
              exact .inr ⟨rfl, .inr ⟨hdouble, splitDouble?_eq_none_iff.mp hsplit⟩⟩
        · rw [if_neg hdouble] at h
          split at h
          · next hcomment =>
              rw [Bool.and_eq_true] at hcomment
              by_cases hline : '\n' ∈ t
              · obtain ⟨line, after, rfl, hinner⟩ := List.eq_append_cons_of_mem hline
                rw [splitLine_closed hinner] at h
                cases h
                exact .inl ⟨hcomment.2, List.getLast?_concat, by rwa [List.dropLast_concat]⟩
              · rw [splitLine_open hline] at h
                cases h
                exact .inr ⟨rfl, hcomment.2, hline⟩
          · next hcomment =>
              cases h
              have hslash : c ≠ '\\' := ne_backslash hlone hescape
              exact .inl ⟨hslash, hsingle, hdouble, fun hc => by simpa [hc] using hcomment⟩

/-- A piece that something follows is complete. -/
theorem complete_of_first? {comments : Bool} {t rest : Text} {piece : Piece}
    (h : first? comments t = some (piece, rest)) (hrest : rest ≠ []) :
    piece.Complete comments :=
  (complete_or_open_of_first? h).resolve_right fun hopen => hrest hopen.1

/-- Only the end of the text has no piece. -/
theorem eq_nil_of_first? {comments : Bool} {t : Text} (h : first? comments t = none) :
    t = [] := by
  unfold first? at h
  split at h
  · rfl
  · cases h
  · cases h
  · split at h
    · split at h <;> cases h
    · split at h
      · split at h <;> cases h
      · split at h <;> cases h

theorem first?_open {comments : Bool} {piece : Piece} (h : piece.Open comments) :
    first? comments piece.text = some (piece, []) := by
  cases piece with
  | backslash => rfl
  | unclosed mark rest =>
      rcases h with ⟨rfl, h⟩ | ⟨rfl, h⟩
      · simp [text, first?, splitSingle?_eq_none_iff.mpr h]
      · simp [text, first?, splitDouble?_eq_none_iff.mpr h]
  | comment line =>
      obtain ⟨rfl, h⟩ := h
      simp [text, first?, splitLine_open h]
  | escape | single | double | plain => exact False.elim h

/-- Only a `#` is read differently where it opens a comment. -/
theorem first?_of_head {t : Text} (h : t.head? ≠ some '#') (comments comments' : Bool) :
    first? comments t = first? comments' t := by
  unfold first?
  split
  · rfl
  · rfl
  · rfl
  · next c t hlone hescape =>
      have hc : c ≠ '#' := fun hc => h (by rw [hc]; rfl)
      simp [hc]

end CaseTable.Shell.Piece

namespace CaseTable.Place

open CaseTable.Shell

theorem complete_of_take? {comments : Bool} {p q : Place} {piece : Piece}
    (h : p.take? comments = some (piece, q)) (hq : q.ahead ≠ []) : piece.Complete comments := by
  obtain ⟨⟨piece', rest'⟩, hfirst, heq⟩ := Option.map_eq_some_iff.mp h
  cases heq
  exact Piece.complete_of_first? hfirst hq

/-- A piece that something follows is taken the same way wherever its text
stands. -/
theorem take?_move {comments : Bool} {p q : Place} {piece : Piece}
    (h : p.take? comments = some (piece, q)) (hq : q.ahead ≠ [])
    (behind rest : Text) :
    (⟨behind, piece.text ++ rest⟩ : Place).take? comments =
      some (piece, ⟨piece.text.reverse ++ behind, rest⟩) :=
  take?_complete (complete_of_take? h hq) behind rest

/-! ## Gaps -/

theorem skipGap_go_true {behind t : Text} (h : (skipGap.go true behind t).ahead ≠ []) :
    ∃ line rest, t = line ++ '\n' :: rest ∧ '\n' ∉ line ∧
      skipGap.go true behind t =
        skipGap.go false ('\n' :: (line.reverse ++ behind)) rest := by
  induction t generalizing behind with
  | nil => exact absurd rfl h
  | cons c t ih =>
      rw [skipGap.go, if_pos rfl] at h ⊢
      by_cases hc : c = '\n'
      · subst hc
        exact ⟨[], t, rfl, List.not_mem_nil, rfl⟩
      · rw [decide_eq_true hc] at h ⊢
        obtain ⟨line, rest, rfl, hline, hgo⟩ := ih h
        refine ⟨c :: line, rest, rfl, ?_, ?_⟩
        · rw [List.mem_cons, not_or]
          exact ⟨Ne.symm hc, hline⟩
        · rw [hgo, List.reverse_cons, List.append_assoc]
          rfl

/-- What is passed between two arms is a row of blanks and whole comments,
and neither stands at the end of it. -/
theorem exists_gap_skipGap {p : Place} (h : p.skipGap.ahead ≠ []) :
    ∃ gap, (∀ piece ∈ gap, piece.Skipped) ∧ p.Passes (textOf gap) p.skipGap ∧
      ∀ c t, p.skipGap.ahead = c :: t → isGapBlank c = false ∧ c ≠ '#' := by
  obtain ⟨behind, t⟩ := p
  induction hlen : t.length using Nat.strongRecOn generalizing behind t with
  | _ n ih =>
      subst hlen
      cases t with
      | nil => exact absurd rfl h
      | cons c t =>
          by_cases hblank : isGapBlank c = true
          · rw [skipGap_blank hblank] at h ⊢
            obtain ⟨gap, hgap, hpassed, hstop⟩ := ih _ (by simp) _ _ h rfl
            refine ⟨.plain c :: gap, List.forall_mem_cons.mpr ⟨hblank, hgap⟩, ?_, hstop⟩
            exact Passes.trans (s := [c]) (q := ⟨c :: behind, t⟩) ⟨rfl, rfl⟩ hpassed
          · by_cases hhash : c = '#'
            · subst hhash
              have hopen : (⟨behind, '#' :: t⟩ : Place).skipGap =
                  skipGap.go true ('#' :: behind) t := by
                rw [skipGap, skipGap.go, if_neg (by decide), if_neg (by decide),
                  if_pos rfl]
              rw [hopen] at h ⊢
              obtain ⟨line, rest, rfl, hline, hclose⟩ := skipGap_go_true h
              have hrest : skipGap.go true ('#' :: behind) (line ++ '\n' :: rest) =
                  (⟨'\n' :: (line.reverse ++ '#' :: behind), rest⟩ : Place).skipGap :=
                hclose
              rw [hrest] at h ⊢
              obtain ⟨gap, hgap, hpassed, hstop⟩ := ih _ (by simp; omega) _ _ h rfl
              have hcomment : (Piece.comment (line ++ ['\n'])).Skipped :=
                ⟨rfl, by simp, by rwa [List.dropLast_concat]⟩
              refine ⟨.comment (line ++ ['\n']) :: gap,
                List.forall_mem_cons.mpr ⟨hcomment, hgap⟩, ?_, hstop⟩
              refine Passes.trans (s := '#' :: (line ++ ['\n'])) ?_ hpassed
              exact ⟨by simp, by simp⟩
            · rw [skipGap_of_head (by simpa using hblank) hhash]
              refine ⟨[], by simp, Passes.refl _, fun d u hd => ?_⟩
              cases hd
              exact ⟨by simpa using hblank, hhash⟩

/-! ## Patterns -/

/-- What stands before the closing parenthesis of a pattern. -/
theorem exists_pieces_patternEnd? {p q : Place} (h : p.patternEnd? = some q) :
    ∃ pieces, (∀ piece ∈ pieces, piece.InPattern) ∧ p.Passes (textOf pieces) q ∧
      ∃ rest, q.ahead = ')' :: rest := by
  fun_induction patternEnd? p with
  | case1 => cases h
  | case2 p r hr =>
      cases h
      exact ⟨[], by simp, Passes.refl _, r.ahead, (passes_of_take? hr).1⟩
  | case3 p piece r hclose hr ih =>
      obtain ⟨pieces, hpieces, hpassed, rest, hnext⟩ := ih h
      have hfollowed : r.ahead ≠ [] := by
        rw [hpassed.1, hnext]
        simp
      have hin : piece.InPattern :=
        ⟨complete_of_take? hr hfollowed, fun heq => hclose heq⟩
      exact ⟨piece :: pieces, List.forall_mem_cons.mpr ⟨hin, hpieces⟩,
        (passes_of_take? hr).trans hpassed, rest, hnext⟩

end CaseTable.Place

namespace CaseTable.Shell

/-- What is read as a pattern is a row of pieces between its parentheses. The
first parenthesis may be missing, and then no other stands in its place. -/
theorem exists_pieces_readPattern? {p q : Place} {pattern : Text}
    (h : readPattern? p = some (pattern, q)) :
    ∃ opened pieces, (∀ piece ∈ pieces, piece.InPattern) ∧ pattern = textOf pieces ∧
      p.Passes (WrittenArm.text ⟨opened, pieces, .nil⟩) q ∧
      (opened = false → p.next? ≠ some '(') := by
  obtain ⟨e, he, heq⟩ := Option.map_eq_some_iff.mp h
  obtain ⟨rfl, rfl⟩ := Prod.mk.inj heq
  obtain ⟨pieces, hpieces, hpassed, rest, hnext⟩ := Place.exists_pieces_patternEnd? he
  have hclosed : e.Passes [')'] (e.advance 1) := by
    have hpass := e.passes_advance 1
    rwa [hnext] at hpass
  rw [hpassed.upTo_eq]
  split at hpassed
  · next hopen =>
      obtain ⟨t, hahead⟩ := List.head?_eq_some_iff.mp hopen
      have hopened : p.Passes ['('] (p.advance 1) := by
        have hpass := p.passes_advance 1
        rwa [hahead] at hpass
      exact ⟨true, pieces, hpieces, rfl, hopened.trans (hpassed.trans hclosed), by simp⟩
  · next hopen => exact ⟨false, pieces, hpieces, rfl, hpassed.trans hclosed, fun _ => hopen⟩

/-- A pattern is read the same way wherever its text stands. -/
theorem readPattern?_move {p q : Place} {pattern : Text}
    (h : readPattern? p = some (pattern, q)) :
    ∃ s, p.Passes s q ∧ ∀ behind rest, readPattern? ⟨behind, s ++ rest⟩ =
      some (pattern, ⟨s.reverse ++ behind, rest⟩) := by
  obtain ⟨opened, pieces, hpieces, rfl, hpassed, hfront⟩ := exists_pieces_readPattern? h
  refine ⟨_, hpassed, fun behind rest => ?_⟩
  have hopen : opened = false →
      (WrittenArm.text ⟨opened, pieces, .nil⟩ ++ rest).head? ≠ some '(' := by
    obtain ⟨c, t, htext⟩ : ∃ c t, WrittenArm.text ⟨opened, pieces, .nil⟩ = c :: t :=
      List.exists_cons_of_ne_nil (by simp [WrittenArm.text])
    intro hopened
    have hnext := hfront hopened
    rw [Place.next?, hpassed.1, htext] at hnext
    rwa [htext]
  rw [WrittenArm.readPattern?_written hpieces hopen]
  simp [WrittenArm.text, Commands.text]

end CaseTable.Shell
