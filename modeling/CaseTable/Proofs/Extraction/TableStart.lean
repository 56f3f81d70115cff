import CaseTable.Proofs.Extraction.Comments
import CaseTable.Proofs.Shell.HeadLocality

/-!
# Where the table starts

The table starts behind the first head of a case statement in the body of the
table function. Whatever is changed behind that head, it stays the first one
(`tableStart_move`): what the body has up to there belongs to the body still
(`functionBody?_move`), and the search passes it as before
(`afterFirstCase?_move`).

The exception is a head that stands in a quoted text. The search does not know
about quotes, except that the subject of a head may be quoted. If the quoted
text follows an earlier `case`, what closes it decides which of the two is
found (`HeadInSubject`).
-/

namespace CaseTable.Shell

/-- A head with a quoted subject starts in `passed`, the first head that is
found there or one before it, and the subject is open at the end. -/
def OpensSubject (mark : Char) (previous : Option Char) (passed rest : Text) : Prop :=
  ∃ before head, passed = before ++ head ∧
    startsIn caseAt previous (head ++ rest) before = false ∧
    isWordEdge (before.getLast?.or previous) (some 'c') = true ∧ OpenSubject mark head

/-- The character before a place, behind one more character. -/
theorem getLast?_cons_or (c : Char) (before : Text) (previous : Option Char) :
    (c :: before).getLast?.or previous = before.getLast?.or (some c) := by
  rw [List.getLast?_cons]
  cases before.getLast? <;> rfl

/-- The first head stays the first if none before it is closed by what is put
behind it. -/
theorem afterFirstCase?_move {previous : Option Char} {passed rest rest' : Text}
    (h : afterFirstCase? previous (passed ++ rest) = some rest)
    (hedge : isWordEdge (some 'n') rest'.head? = true)
    (hopen : ∀ mark, OpensSubject mark previous passed rest → ¬ ClosesHead mark rest') :
    afterFirstCase? previous (passed ++ rest') = some rest' := by
  induction passed generalizing previous with
  | nil => exact absurd (length_lt_of_afterFirstCase? h) (Nat.lt_irrefl _)
  | cons c passed ih =>
      have hhere : isWordEdge previous (some 'c') = true →
          ∀ mark, OpenSubject mark (c :: passed) → ¬ ClosesHead mark rest' :=
        fun hstart mark hsubject => hopen mark ⟨[], c :: passed, rfl, rfl, hstart, hsubject⟩
      rw [List.cons_append, afterFirstCase?] at h
      rw [List.cons_append, afterFirstCase?]
      cases hhead : afterCaseHead? previous (c :: (passed ++ rest)) with
      | some found =>
          rw [hhead] at h
          cases h
          have hmoved : afterCaseHead? previous (c :: passed ++ rest') = some rest' :=
            afterCaseHead?_move hhead hedge hhere
          rw [List.cons_append] at hmoved
          rw [hmoved]
      | none =>
          rw [hhead] at h
          rw [afterCaseHead?_move_none hhead h hedge hhere]
          refine ih h fun mark hopens => hopen mark ?_
          obtain ⟨before, head, rfl, hstarts, hstart, hsubject⟩ := hopens
          refine ⟨c :: before, head, rfl, ?_, ?_, hsubject⟩
          · rw [startsIn, caseAt, ← List.append_assoc, hhead, hstarts]
            rfl
          · rw [getLast?_cons_or]
            exact hstart

/-- What a body starts with stays in the body, whatever follows it. -/
theorem functionBody?_move {name source passed rest : Text} {body : Body}
    (h : functionBody? name source = some body) (htext : body.text = passed ++ rest) (t : Text) :
    ∃ rest', t = rest' ++ afterBody ⟨body.start.behind, passed ++ t⟩ ∧
      functionBody? name (body.start.behind.reverse ++ (passed ++ t)) =
        some ⟨⟨body.start.behind, passed ++ t⟩, passed ++ rest'⟩ := by
  obtain ⟨hstart, hahead⟩ := functionBody?_eq_some_iff.mp h
  rw [htext, List.append_assoc] at hahead
  have hinside : ∀ e, (⟨body.start.behind, passed ++ (rest ++ afterBody body.start)⟩ :
      Place).blockEnd? 0 = some e → e.ahead <:+ rest ++ afterBody body.start := by
    intro e hend
    rw [← hahead] at hend
    have hafter : afterBody body.start = e.ahead := by
      rw [afterBody, hend]
      rfl
    rw [← hafter]
    exact List.suffix_append _ _
  have hsuffix : afterBody ⟨body.start.behind, passed ++ t⟩ <:+ t := by
    rw [afterBody]
    cases hend : (⟨body.start.behind, passed ++ t⟩ : Place).blockEnd? 0 with
    | none => exact List.nil_suffix
    | some e => exact Place.blockEnd?_past hinside hend
  obtain ⟨rest', hrest'⟩ := hsuffix
  refine ⟨rest', hrest'.symm, functionBody?_eq_some_iff.mpr ⟨(definition?_move hstart).2 _, ?_⟩⟩
  change passed ++ t = passed ++ rest' ++ afterBody ⟨body.start.behind, passed ++ t⟩
  rw [List.append_assoc, hrest']

end CaseTable.Shell

namespace CaseTable.Extraction

open CaseTable.Shell

/-- The table's head stands in the quoted subject of an earlier `case`. -/
def HeadInSubject (function source : Text) : Prop :=
  ∃ body passed rest mark, functionBody? function source = some body ∧
    body.text = passed ++ rest ∧ afterFirstCase? none body.text = some rest ∧
    OpensSubject mark none passed rest

/-- Such a subject has a quotation mark. -/
theorem not_headInSubject_of_notMem {function source : Text} {body : Body}
    (h : functionBody? function source = some body) (hdouble : '"' ∉ body.text)
    (hsingle : '\x27' ∉ body.text) : ¬ HeadInSubject function source := by
  rintro ⟨body', passed, rest, mark, hbody, htext, -, before, head, rfl, -, -, hquote, gap, subject,
    -, -, ⟨content, rfl, -⟩, rfl⟩
  cases h.symm.trans hbody
  have hmem : mark ∈ body.text := by
    rw [htext]
    simp
  rcases hquote with rfl | rfl
  · exact hdouble hmem
  · exact hsingle hmem

/-- The table starts at the same place whatever is put there. -/
theorem tableStart_move {function source t : Text} {start : Place}
    (h : tableStart function source = .ok start) (hsubject : ¬ HeadInSubject function source)
    (ht : isWordEdge (some 'n') t.head? = true) :
    tableStart function (start.behind.reverse ++ t) = .ok ⟨start.behind, t⟩ := by
  obtain ⟨body, passed, rest, hbody, hcase, hne, htext, rfl⟩ := tableStart_eq_ok_iff.mp h
  obtain ⟨rest', hrest', hbody'⟩ := functionBody?_move hbody htext t
  have hedge : isWordEdge (some 'n') rest'.head? = true := by
    cases rest' with
    | nil => decide
    | cons c rest' =>
        rw [hrest'] at ht
        exact ht
  have hcase' : afterFirstCase? none (passed ++ rest') = some rest' := by
    refine afterFirstCase?_move (htext ▸ hcase) hedge fun mark hopens => ?_
    exact absurd ⟨body, passed, rest, mark, hbody, htext, hcase, hopens⟩ hsubject
  rw [List.reverse_append, List.reverse_reverse, List.append_assoc]
  refine tableStart_eq_ok_iff.mpr ⟨_, passed, rest', hbody', hcase', hne, rfl, ?_⟩
  rw [← hrest']

end CaseTable.Extraction
