import CaseTable.Proofs.Shell.CaseHeads
import CaseTable.Proofs.Shell.Heads
import CaseTable.Proofs.Shell.LineEndings

/-!
# Heads across line ends of two characters

The heads of definitions and of case statements are found at the same places
with the new line ends. Blanks are skipped whatever they are, a carriage return
is no more a part of a word than a line feed is, and a quoted subject stays on
its line.

The search for a definition tries one place more in each new line end, between
the two characters. A head found there starts with a blank, so the name is the
empty text, and the same head starts after the blank: the search may as well
move on (`definition?_go_blank`).
-/

namespace CaseTable.Shell

open CaseTable.Text

/-- What is read behind a reading does not see the line ends either. -/
theorem bind_crlf {read read' : Option Text} {next : Text → Option Text}
    (hread : read' = read.map crlf) (hnext : ∀ t, next (crlf t) = (next t).map crlf) :
    read'.bind next = (read.bind next).map crlf :=
  bind_map hread fun t _ => hnext t

/-! ## Case statements -/

theorem isWordEdge_crlf (previous : Option Char) (t : Text) :
    isWordEdge previous (crlf t).head? = isWordEdge previous t.head? := by
  rcases crlf_cases t with rfl | ⟨u, rfl⟩ | ⟨c, u, rfl, h⟩
  · rfl
  · rfl
  · rw [h]
    rfl

theorem afterBlanks?_crlf (t : Text) : afterBlanks? (crlf t) = (afterBlanks? t).map crlf := by
  rcases crlf_cases t with rfl | ⟨u, rfl⟩ | ⟨c, u, rfl, h⟩
  · rfl
  · exact congrArg some (dropWhile_isBlank_crlf u)
  · rw [h, afterBlanks?, afterBlanks?, dropWhile_isBlank_crlf]
    split <;> rfl

theorem afterIn?_crlf (t : Text) : afterIn? (crlf t) = (afterIn? t).map crlf := by
  have hword : OneLine ['i', 'n'] := by decide
  rw [afterIn?_eq, afterIn?_eq]
  refine bind_crlf (bind_crlf (afterBlanks?_crlf t) (afterStart?_crlf hword)) fun rest => ?_
  rw [isWordEdge_crlf]
  split <;> rfl

theorem afterBare?_crlf (t : Text) : afterBare? (crlf t) = (afterBare? t).map crlf := by
  rcases crlf_cases t with rfl | ⟨u, rfl⟩ | ⟨c, u, rfl, h⟩
  · rfl
  · rfl
  · have hsame : (crlf u).dropWhile isSubjectChar = crlf (u.dropWhile isSubjectChar) :=
      dropWhile_crlf rfl u
    rw [h, afterBare?, afterBare?, hsame]
    split <;> rfl

theorem afterQuoted?_crlf {mark : Char} (h : OneLine [mark]) (t : Text) :
    afterQuoted? mark (crlf t) = (afterQuoted? mark t).map crlf := by
  obtain ⟨hline, hreturn, -⟩ := h.cons
  -- behind the opening quote
  have hopen (u : Text) :
      afterQuoted? mark (mark :: crlf u) = (afterQuoted? mark (mark :: u)).map crlf := by
    induction u with
    | nil => simp [afterQuoted?]
    | cons c u ih =>
        by_cases hc : c = '\n'
        · subst hc
          rw [crlf_newline, afterQuoted?_cons, afterQuoted?_cons, afterQuoted?_cons,
            if_neg (Ne.symm hreturn), if_neg (by decide), if_neg (Ne.symm hline),
            if_neg (Ne.symm hline), if_pos rfl, if_pos rfl]
          rfl
        · rw [crlf_cons_of_ne hc, afterQuoted?_cons, afterQuoted?_cons, ih, if_neg hc,
            if_neg hc]
          split <;> rfl
  rcases crlf_cases t with rfl | ⟨u, rfl⟩ | ⟨c, u, rfl, h⟩
  · rfl
  · rw [crlf_newline, afterQuoted?, afterQuoted?, if_neg (Ne.symm hreturn),
      if_neg (Ne.symm hline)]
    rfl
  · rw [h]
    by_cases hmark : c = mark
    · subst hmark
      exact hopen u
    · rw [afterQuoted?, afterQuoted?, if_neg hmark, if_neg hmark]
      rfl

theorem afterSubject?_crlf (t : Text) : afterSubject? (crlf t) = (afterSubject? t).map crlf := by
  rw [afterSubject?, afterSubject?, bind_crlf (afterQuoted?_crlf (by decide) t) afterIn?_crlf,
    bind_crlf (afterQuoted?_crlf (by decide) t) afterIn?_crlf,
    bind_crlf (afterBare?_crlf t) afterIn?_crlf, Option.map_or, Option.map_or]

theorem afterCaseHead?_crlf (previous : Option Char) (t : Text) :
    afterCaseHead? previous (crlf t) = (afterCaseHead? previous t).map crlf := by
  rw [afterCaseHead?, afterCaseHead?, isWordEdge_crlf]
  split
  · exact bind_crlf (bind_crlf (afterStart?_crlf Place.oneLine_caseWord t) afterBlanks?_crlf)
      afterSubject?_crlf
  · rfl

/-- No head starts with a blank. -/
theorem afterCaseHead?_of_ne {c : Char} (h : c ≠ 'c') (previous : Option Char) (t : Text) :
    afterCaseHead? previous (c :: t) = none := by
  rw [afterCaseHead?, caseWord, Text.afterStart?, if_neg (Ne.symm h)]
  split <;> rfl

theorem afterFirstCase?_crlf (previous : Option Char) (t : Text) :
    afterFirstCase? previous (crlf t) = (afterFirstCase? previous t).map crlf := by
  induction t generalizing previous with
  | nil => rfl
  | cons c t ih =>
      by_cases hc : c = '\n'
      · subst hc
        rw [crlf_newline, afterFirstCase?, afterCaseHead?_of_ne (by decide), afterFirstCase?,
          afterCaseHead?_of_ne (by decide), afterFirstCase?, afterCaseHead?_of_ne (by decide)]
        exact ih _
      · have hhead := afterCaseHead?_crlf previous (c :: t)
        rw [crlf_cons_of_ne hc] at hhead
        rw [crlf_cons_of_ne hc, afterFirstCase?, hhead, afterFirstCase?]
        cases afterCaseHead? previous (c :: t) with
        | none => exact ih _
        | some rest => rfl

end CaseTable.Shell

namespace CaseTable.Place

open CaseTable.Shell CaseTable.Text

theorem advance_past_crlf {p : Place} {passed rest : Text} (h : p.ahead = passed ++ rest) :
    p.crlf.advance (p.crlf.ahead.length - (Text.crlf rest).length) =
      (p.advance (p.ahead.length - rest.length)).crlf := by
  have hcrlf : p.crlf.ahead = Text.crlf passed ++ Text.crlf rest := by
    rw [crlf, h, crlf_append]
  have hold := advance_past p.behind passed rest
  have hnew := advance_past p.crlf.behind (Text.crlf passed) (Text.crlf rest)
  rw [← h] at hold
  rw [← hcrlf] at hnew
  rw [hnew, hold, crlf, crlf, crlfBehind_append, ← reverse_crlf]

theorem caseStarts_crlf (p : Place) : p.crlf.caseStarts = p.caseStarts.map crlf := by
  fun_induction caseStarts p with
  | case1 p hnone =>
      have hsearch : afterFirstCase? p.crlf.previous? p.crlf.ahead = none := by
        rw [previous?_crlf, crlf, afterFirstCase?_crlf, hnone]
        rfl
      rw [caseStarts]
      split
      · rfl
      · next hsome => cases hsearch.symm.trans hsome
  | case2 p rest hrest q ih =>
      have hsearch : afterFirstCase? p.crlf.previous? p.crlf.ahead = some (Text.crlf rest) := by
        rw [previous?_crlf, crlf, afterFirstCase?_crlf, hrest]
        rfl
      obtain ⟨passed, -, hpassed⟩ := exists_of_afterFirstCase? hrest
      rw [caseStarts]
      split
      · next hnone => cases hsearch.symm.trans hnone
      · next hsome =>
          cases hsearch.symm.trans hsome
          simp only []
          rw [advance_past_crlf hpassed, ih]
          rfl

end CaseTable.Place

namespace CaseTable.Shell

open CaseTable.Text

/-! ## Definitions -/

theorem afterBrace?_crlf (t : Text) : afterBrace? (crlf t) = (afterBrace? t).map crlf := by
  rw [afterBrace?, afterBrace?, dropWhile_isBlank_crlf]
  rcases crlf_cases (t.dropWhile isBlank) with h | ⟨u, h⟩ | ⟨c, u, h, hcrlf⟩
  · rw [h]
    rfl
  · rw [h]
    rfl
  · rw [hcrlf, h]
    by_cases hc : c = '\x7b'
    · subst hc
      rfl
    · simp [hc]

theorem afterParens?_crlf (t : Text) : afterParens? (crlf t) = (afterParens? t).map crlf := by
  rw [afterParens?, afterParens?, dropWhile_isBlank_crlf]
  rcases crlf_cases (t.dropWhile isBlank) with h | ⟨u, h⟩ | ⟨c, u, h, hcrlf⟩
  · rw [h]
    rfl
  · rw [h]
    rfl
  · rw [hcrlf, h]
    by_cases hc : c = '('
    · subst hc
      simp only [dropWhile_isBlank_crlf]
      rcases crlf_cases (u.dropWhile isBlank) with h | ⟨v, h⟩ | ⟨c, v, h, hcrlf⟩
      · rw [h]
        rfl
      · rw [h]
        rfl
      · rw [hcrlf, h]
        by_cases hc : c = ')'
        · subst hc
          rfl
        · simp [hc]
    · simp [hc]

section

variable {name : Text} (hname : OneLine name)
include hname

theorem afterPlainHead?_crlf (t : Text) :
    afterPlainHead? name (crlf t) = (afterPlainHead? name t).map crlf :=
  bind_crlf (bind_crlf (afterStart?_crlf hname t) afterParens?_crlf) afterBrace?_crlf

theorem afterNameAndBrace?_crlf (t : Text) :
    afterNameAndBrace? name (crlf t) = (afterNameAndBrace? name t).map crlf := by
  refine bind_crlf (afterStart?_crlf hname t) fun rest => ?_
  rw [afterParens?_crlf, Option.getD_map, afterBrace?_crlf]

end

/-- A blank in front of the blanks and parentheses of a head may go. -/
theorem exists_middle_of_cons {c : Char} {t middle rest : Text} (hc : isBlank c = true)
    (h : c :: t = middle ++ '\x7b' :: rest) : ∃ middle', (IsBlanks middle → IsBlanks middle') ∧
      (IsPair middle → IsPair middle') ∧ t = middle' ++ '\x7b' :: rest := by
  cases middle with
  | nil =>
      cases h
      exact absurd hc (by decide)
  | cons d middle =>
      obtain ⟨rfl, rfl⟩ := List.cons.inj h
      refine ⟨middle, fun hblanks => (List.forall_mem_cons.mp hblanks).2, ?_, rfl⟩
      rintro ⟨before, inside, after, hbefore, hinside, hafter, heq⟩
      cases before with
      | nil =>
          cases heq
          exact absurd hc (by decide)
      | cons e before =>
          obtain ⟨rfl, rfl⟩ := List.cons.inj heq
          exact ⟨before, inside, after, (List.forall_mem_cons.mp hbefore).2, hinside,
            hafter, rfl⟩

section

variable {c : Char} {name : Text} (hc : isBlank c = true) (hname : c ∉ name)
include hc hname

theorem afterNameAndBrace?_blank {t rest : Text}
    (h : afterNameAndBrace? name (c :: t) = some rest) :
    afterNameAndBrace? name t = some rest := by
  obtain ⟨middle, hmiddle, ht⟩ := afterNameAndBrace?_eq_some_iff.mp h
  cases name with
  | nil =>
      obtain ⟨middle', hblanks, hpair, ht'⟩ := exists_middle_of_cons hc ht
      exact afterNameAndBrace?_eq_some_iff.mpr ⟨middle', hmiddle.imp hblanks hpair, ht'⟩
  | cons d name =>
      rw [(List.cons.inj ht).1] at hname
      exact absurd List.mem_cons_self hname

theorem afterBlanksAndName?_blank (t : Text) :
    afterBlanksAndName? name (c :: t) = afterBlanksAndName? name t := by
  rw [afterBlanksAndName?]
  split
  · next rest hrest =>
      have hhere := afterNameAndBrace?_blank hc hname hrest
      cases t with
      | nil =>
          obtain ⟨middle, -, ht⟩ := afterNameAndBrace?_eq_some_iff.mp hhere
          simp at ht
      | cons d t => rw [afterBlanksAndName?, hhere]
  · rw [if_pos hc]

theorem afterHead?_blank {t rest : Text} (h : afterHead? name (c :: t) = some rest) :
    afterHead? name t = some rest := by
  obtain ⟨head, ⟨lead, middle, hframes, rfl⟩, ht⟩ := afterHead?_eq_some_iff.mp h
  rcases hframes with ⟨rfl, hpair⟩ | ⟨gap, -, -, rfl, -⟩
  · cases name with
    | nil =>
        have hfront : c :: t = middle ++ '\x7b' :: rest := by simpa using ht
        obtain ⟨middle', -, hpair', ht'⟩ := exists_middle_of_cons hc hfront
        exact afterHead?_eq_some_iff.mpr
          ⟨_, ⟨[], middle', .inl ⟨rfl, hpair' hpair⟩, rfl⟩, by simpa using ht'⟩
    | cons d name =>
        rw [(List.cons.inj ht).1] at hname
        exact absurd List.mem_cons_self hname
  · rw [(List.cons.inj ht).1] at hc
    exact absurd hc (by decide)

/-- The search may move past a blank: a head that starts with it starts
behind it as well. -/
theorem definition?_go_blank (b t : Text) :
    definition?.go name b (c :: t) = definition?.go name (c :: b) t := by
  have hallowed : allowsDefinition (c :: b).head? = true := by
    simp [allowsDefinition, hc]
  rw [definition?.go]
  split
  · next rest hrest =>
      split at hrest
      · have hhere := afterHead?_blank hc hname hrest
        obtain ⟨head, hhead, ht⟩ := afterHead?_eq_some_iff.mp hhere
        cases t with
        | nil => exact absurd (List.append_eq_nil_iff.mp ht.symm).1 hhead.ne_nil
        | cons d t =>
            have hold := advance_past b (c :: head) rest
            have hnew := advance_past (c :: b) head rest
            rw [List.cons_append, ← ht] at hold
            rw [← ht] at hnew
            rw [definition?.go, if_pos hallowed, hhere]
            refine congrArg some (hold.trans (Eq.trans ?_ hnew.symm))
            simp
      · cases hrest
  · rfl

end

section

variable {name : Text} (hname : OneLine name)
include hname

theorem afterBlanksAndName?_crlf (t : Text) :
    afterBlanksAndName? name (crlf t) = (afterBlanksAndName? name t).map crlf := by
  induction t with
  | nil => rfl
  | cons c t ih =>
      by_cases hc : c = '\n'
      · subst hc
        rw [crlf_newline, afterBlanksAndName?_blank isBlank_return hname.2,
          afterBlanksAndName?_blank isBlank_newline hname.1,
          afterBlanksAndName?_blank isBlank_newline hname.1, ih]
      · have hhere := afterNameAndBrace?_crlf hname (c :: t)
        rw [crlf_cons_of_ne hc] at hhere
        rw [crlf_cons_of_ne hc, afterBlanksAndName?, hhere, afterBlanksAndName?, ih]
        cases afterNameAndBrace? name (c :: t) with
        | none =>
            simp only [Option.map_none]
            split <;> rfl
        | some rest => rfl

theorem afterKeywordHead?_crlf (t : Text) :
    afterKeywordHead? name (crlf t) = (afterKeywordHead? name t).map crlf := by
  have hword : OneLine "function".toList := by decide
  rw [afterKeywordHead?, afterKeywordHead?, afterStart?_crlf hword]
  cases Text.afterStart? "function".toList t with
  | none => rfl
  | some rest =>
      rw [Option.map_some]
      rcases crlf_cases rest with rfl | ⟨u, rfl⟩ | ⟨c, u, rfl, h⟩
      · rfl
      · rw [crlf_newline]
        simp only []
        rw [if_pos isBlank_return, if_pos isBlank_newline,
          afterBlanksAndName?_blank isBlank_newline hname.1, afterBlanksAndName?_crlf hname]
      · rw [h]
        simp only [afterBlanksAndName?_crlf hname]
        split <;> rfl

theorem afterHead?_crlf (t : Text) :
    afterHead? name (crlf t) = (afterHead? name t).map crlf := by
  rw [afterHead?, afterHead?, afterKeywordHead?_crlf hname, afterPlainHead?_crlf hname,
    Option.map_or]

theorem definition?_go_crlf (b t : Text) :
    definition?.go name (crlfBehind b) (crlf t) =
      (definition?.go name b t).map Place.crlf := by
  induction t generalizing b with
  | nil => rfl
  | cons c t ih =>
      by_cases hc : c = '\n'
      · subst hc
        rw [crlf_newline, definition?_go_blank isBlank_return hname.2,
          definition?_go_blank isBlank_newline hname.1,
          definition?_go_blank isBlank_newline hname.1]
        exact ih ('\n' :: b)
      · have hhead := afterHead?_crlf hname (c :: t)
        rw [crlf_cons_of_ne hc] at hhead
        have hrest := ih (c :: b)
        rw [crlfBehind_cons_of_ne hc] at hrest
        rw [crlf_cons_of_ne hc, definition?.go, definition?.go, Place.head?_crlfBehind, hhead]
        by_cases hallowed : allowsDefinition b.head? = true
        · rw [if_pos hallowed, if_pos hallowed]
          cases hfound : afterHead? name (c :: t) with
          | none => exact hrest
          | some rest =>
              obtain ⟨head, -, ht⟩ := afterHead?_eq_some_iff.mp hfound
              have hplace := Place.advance_past_crlf (p := ⟨b, c :: t⟩) ht
              rw [Place.crlf, crlf_cons_of_ne hc] at hplace
              exact congrArg some hplace
        · rw [if_neg hallowed, if_neg hallowed]
          exact hrest

theorem definition?_crlf (source : Text) :
    definition? name (crlf source) = (definition? name source).map Place.crlf :=
  definition?_go_crlf hname [] source

end

end CaseTable.Shell
