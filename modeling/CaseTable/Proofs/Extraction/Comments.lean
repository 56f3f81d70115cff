import CaseTable.Proofs.Extraction.TableFunction
import CaseTable.Proofs.Shell.Locality

/-!
# Comments

A comment line is added to a script, at its start or behind the opening brace
of the table function. The brace matcher and the reader of arms pass over
comments. The two searches do not: they look for the head of a definition and
for the head of a case statement wherever it stands, in a comment too.

So a comment changes nothing if no head starts in it
(`extract_direct_comment`). Behind the brace one more thing matters. A `#`
directly after the brace opens no comment, and it would open one on a line of
its own.
-/

namespace CaseTable.Shell

/-- A comment on a line of its own. -/
def commentLine (comment : Text) : Text := '#' :: ' ' :: comment ++ ['\n']

/-- A text without a line feed at its front. -/
def dropNewline : Text → Text
  | '\n' :: t => t
  | t => t

theorem dropNewline_suffix (t : Text) : dropNewline t <:+ t := by
  unfold dropNewline
  split
  · exact List.suffix_cons _ _
  · exact List.suffix_refl t

theorem dropNewline_append {t after : Text} (h : after.head? ≠ some '\n') :
    dropNewline (t ++ after) = dropNewline t ++ after := by
  cases t with
  | nil =>
      rw [List.nil_append, dropNewline]
      · rfl
      · rintro u rfl
        exact h rfl
  | cons c t =>
      by_cases hc : c = '\n'
      · rw [hc]
        rfl
      · rw [List.cons_append, dropNewline, dropNewline]
        · rfl
        · exact fun u hu => hc (List.cons.inj hu).1
        · exact fun u hu => hc (List.cons.inj hu).1

/-- A text after a comment on a line of its own. The text stands on the rest of
a line. -/
def afterComment (comment t : Text) : Text := '\n' :: (commentLine comment ++ dropNewline t)

/-- Something that is looked for starts in a text, between a character and
the rest. -/
def startsIn (found : Option Char → Text → Bool) (previous : Option Char) (rest : Text) :
    Text → Bool
  | [] => false
  | c :: t => found previous (c :: (t ++ rest)) || startsIn found (some c) rest t

/-- A definition of the function starts here. -/
def definitionAt (name : Text) (previous : Option Char) (t : Text) : Bool :=
  allowsDefinition previous && (afterHead? name t).isSome

/-- A case statement starts here. -/
def caseAt (previous : Option Char) (t : Text) : Bool := (afterCaseHead? previous t).isSome

/-! ## The searches -/

theorem definition?_go_pass {name behind rest passed : Text}
    (h : startsIn (definitionAt name) behind.head? rest passed = false) :
    definition?.go name behind (passed ++ rest) =
      definition?.go name (passed.reverse ++ behind) rest := by
  induction passed generalizing behind with
  | nil => rfl
  | cons c passed ih =>
      obtain ⟨hhere, hlater⟩ := Bool.or_eq_false_iff.mp h
      have hnone : allowsDefinition behind.head? = true →
          afterHead? name (c :: (passed ++ rest)) = none := by
        intro hallowed
        rw [definitionAt, Bool.and_eq_false_iff] at hhere
        rcases hhere with hallowed' | hhead
        · cases hallowed.symm.trans hallowed'
        · exact Option.isNone_iff_eq_none.mp (Option.isSome_eq_false_iff.mp hhead)
      have hrest : definition?.go name (c :: behind) (passed ++ rest) =
          definition?.go name (passed.reverse ++ c :: behind) rest := ih hlater
      rw [List.cons_append, definition?_go_of_none hnone]
      simpa using hrest

theorem afterFirstCase?_pass {previous : Option Char} {rest passed : Text}
    (h : startsIn caseAt previous rest passed = false) :
    afterFirstCase? previous (passed ++ rest) =
      afterFirstCase? (passed.getLast?.or previous) rest := by
  induction passed generalizing previous with
  | nil => rfl
  | cons c passed ih =>
      obtain ⟨hhere, hlater⟩ := Bool.or_eq_false_iff.mp h
      have hnone : afterCaseHead? previous (c :: (passed ++ rest)) = none :=
        Option.isNone_iff_eq_none.mp (Option.isSome_eq_false_iff.mp hhere)
      rw [List.cons_append, afterFirstCase?, hnone]
      simp only []
      rw [ih hlater, List.getLast?_cons]
      cases passed.getLast? <;> rfl

/-- A line feed at the front of a text holds no head. -/
theorem afterFirstCase?_dropNewline (t : Text) :
    afterFirstCase? (some '\n') (dropNewline t) = afterFirstCase? none t := by
  unfold dropNewline
  split
  · next u =>
      have hnone : afterCaseHead? none ('\n' :: u) = none := by
        rw [afterCaseHead?]
        split <;> rfl
      rw [afterFirstCase?, hnone]
  · exact afterFirstCase?_newline t

theorem afterFirstCase?_afterComment {comment t : Text}
    (h : startsIn caseAt (some '\n') (dropNewline t) (commentLine comment) = false) :
    afterFirstCase? none (afterComment comment t) = afterFirstCase? none t := by
  have hlast : (commentLine comment).getLast? = some '\n' := List.getLast?_concat
  rw [← afterFirstCase?_dropNewline (afterComment comment t), afterComment, dropNewline,
    afterFirstCase?_pass h, hlast, Option.some_or, afterFirstCase?_dropNewline]

/-! ## The body -/

theorem blockEnd?_commentLine {comment : Text} (hcomment : '\n' ∉ comment) (behind t : Text) :
    (⟨behind, '\n' :: (commentLine comment ++ t)⟩ : Place).blockEnd? 0 =
      (⟨(commentLine comment).reverse ++ '\n' :: behind, t⟩ : Place).blockEnd? 0 := by
  have hline : (Piece.comment (' ' :: comment ++ ['\n'])).Complete true := by
    refine ⟨rfl, List.getLast?_concat, ?_⟩
    rw [List.dropLast_concat, List.mem_cons, not_or]
    exact ⟨by decide, hcomment⟩
  have hfeed : (Piece.plain '\n').Complete (behind.head?.all endsBefore) := by
    simp [Piece.Complete]
  have hfirst := Place.piece?_complete hfeed (commentLine comment ++ t)
  have hsecond := Place.take?_complete hline ('\n' :: behind) t
  exact (Place.blockEnd?_of_piece? hfirst).trans (Place.blockEnd?_of_piece? hsecond)

theorem afterBody_congr {behind behind' t : Text}
    (h : behind.head?.all endsBefore = behind'.head?.all endsBefore ∨ t.head? ≠ some '#') :
    afterBody ⟨behind, t⟩ = afterBody ⟨behind', t⟩ := by
  rw [afterBody, afterBody, Place.blockEnd?_ahead_congr h]

/-- A line feed at the front of the text is passed on the way to the end of
the body. A `#` there must not become a comment. -/
theorem afterBody_dropNewline {behind t : Text} (h : t.head? ≠ some '#') (front : Text) :
    afterBody ⟨'\n' :: front, dropNewline t⟩ = afterBody ⟨behind, t⟩ := by
  unfold dropNewline
  split
  · next u =>
      have hfeed : (Piece.plain '\n').Complete (behind.head?.all endsBefore) := by
        simp [Piece.Complete]
      have hpassed : (⟨behind, '\n' :: u⟩ : Place).blockEnd? 0 =
          (⟨'\n' :: behind, u⟩ : Place).blockEnd? 0 :=
        Place.blockEnd?_of_piece? (Place.piece?_complete hfeed u)
      have hfed : afterBody ⟨behind, '\n' :: u⟩ = afterBody ⟨'\n' :: behind, u⟩ := by
        rw [afterBody, afterBody, hpassed]
      rw [hfed]
      exact afterBody_congr (.inl rfl)
  · exact afterBody_congr (.inr h)

theorem afterBody_afterComment {comment behind t : Text} (hcomment : '\n' ∉ comment)
    (h : t.head? ≠ some '#') :
    afterBody ⟨behind, afterComment comment t⟩ = afterBody ⟨behind, t⟩ := by
  have hpassed : afterBody ⟨behind, afterComment comment t⟩ =
      afterBody ⟨(commentLine comment).reverse ++ '\n' :: behind, dropNewline t⟩ := by
    rw [afterBody, afterBody, afterComment, blockEnd?_commentLine hcomment]
  have hline : (commentLine comment).reverse = '\n' :: ('#' :: ' ' :: comment).reverse :=
    List.reverse_concat
  rw [hpassed, hline, List.cons_append, afterBody_dropNewline h]

theorem functionBody?_after_commentLine {name source comment : Text} {body : Body}
    (h : functionBody? name source = some body)
    (hquiet : startsIn (definitionAt name) none source (commentLine comment) = false) :
    ∃ behind, behind.head? = body.start.behind.head? ∧
      afterBody ⟨behind, body.start.ahead⟩ = afterBody body.start ∧
      functionBody? name (commentLine comment ++ source) =
        some ⟨⟨behind, body.start.ahead⟩, body.text⟩ := by
  obtain ⟨hstart, hahead⟩ := functionBody?_eq_some_iff.mp h
  obtain ⟨before, head, hhead, hpassed, hmove⟩ := definition?_go_move hstart
  have hsource : source = before ++ head ++ body.start.ahead := hpassed.1
  have hbehind : ((before ++ head).reverse ++ (commentLine comment).reverse).head? =
      body.start.behind.head? := by
    rw [hpassed.2, List.append_nil, List.head?_append]
    cases hlast : (before ++ head).reverse.head? with
    | none => simp [hhead.ne_nil] at hlast
    | some c => rfl
  have hfollows : afterBody ⟨(before ++ head).reverse ++ (commentLine comment).reverse,
      body.start.ahead⟩ = afterBody body.start :=
    afterBody_congr (.inl (by rw [hbehind]))
  refine ⟨_, hbehind, hfollows, functionBody?_eq_some_iff.mpr ⟨?_, ?_⟩⟩
  · have hline : (commentLine comment).reverse =
        '\n' :: ('#' :: ' ' :: comment).reverse := List.reverse_concat
    rw [definition?, definition?_go_pass hquiet, List.append_nil]
    conv => lhs; rw [hsource]
    exact hmove _ _ (by rw [hline]; rfl)
  · rw [hfollows]
    exact hahead

theorem functionBody?_afterComment {name source comment : Text} {body : Body}
    (h : functionBody? name source = some body) (hcomment : '\n' ∉ comment)
    (hhash : body.start.next? ≠ some '#') :
    functionBody? name (body.start.behind.reverse ++ afterComment comment body.start.ahead) =
      some ⟨⟨body.start.behind, afterComment comment body.start.ahead⟩,
        afterComment comment body.text⟩ := by
  obtain ⟨hstart, hahead⟩ := functionBody?_eq_some_iff.mp h
  refine functionBody?_eq_some_iff.mpr ⟨(definition?_move hstart).2 _, ?_⟩
  rw [afterBody_afterComment hcomment hhash]
  have hbrace : (afterBody body.start).head? ≠ some '\n' := fun hhead => by
    have hclose := head?_afterBody body.start
    rw [hhead] at hclose
    exact absurd hclose (by decide)
  have hdropped := dropNewline_append (t := body.text) hbrace
  rw [← hahead] at hdropped
  change '\n' :: (commentLine comment ++ dropNewline body.start.ahead) =
    '\n' :: (commentLine comment ++ dropNewline body.text) ++ afterBody body.start
  rw [hdropped, List.cons_append, List.append_assoc]

end CaseTable.Shell

namespace CaseTable

open Extraction Shell

/-- What is read at a place stays the same if only the text behind it changes,
and ends in the same character. -/
theorem extract_direct_of_tableStart {script : ScriptNames} {source source' : Text}
    {x : Extraction} {start : Place} {behind : Text}
    (hx : extract .direct script source = .ok x)
    (hstart : tableStart script.tableFunction source = .ok start)
    (hstart' : tableStart script.tableFunction source' = .ok ⟨behind, start.ahead⟩)
    (hbehind : behind.head? = start.behind.head?) :
    extract .direct script source' = .ok x := by
  obtain ⟨start', arms, stop, hsame, hread, rfl⟩ := extract_direct_eq_ok_iff.mp hx
  cases hstart.symm.trans hsame
  obtain ⟨s, hs, -, hdelimited, hmove⟩ := readArms?_move hread
  have hmoved := hmove behind stop.ahead (by rw [hbehind]) hdelimited
  rw [← hs.1] at hmoved
  exact extract_direct_of_readArms? hstart' hmoved

/-- A comment line at the start of the script, or on a line of its own behind
the opening brace of the table function, changes nothing if nothing that is
looked for starts in it. -/
theorem extract_direct_comment {script : ScriptNames} {source comment : Text}
    {x : Extraction} (hx : extract .direct script source = .ok x)
    (hcomment : '\n' ∉ comment) :
    (startsIn (definitionAt script.tableFunction) none source (commentLine comment) = false →
      extract .direct script (commentLine comment ++ source) = .ok x) ∧
    ∃ body, functionBody? script.tableFunction source = some body ∧
      (startsIn caseAt (some '\n') (dropNewline body.text) (commentLine comment) = false →
        body.start.next? ≠ some '#' →
        extract .direct script
          (body.start.behind.reverse ++ afterComment comment body.start.ahead) = .ok x) := by
  obtain ⟨start, -, -, hstart, -⟩ := extract_direct_eq_ok_iff.mp hx
  obtain ⟨body, passed, rest, hbody, hcase, hne, htext, rfl⟩ :=
    tableStart_eq_ok_iff.mp hstart
  refine ⟨fun hquiet => ?_, body, hbody, fun hquiet hhash => ?_⟩
  · obtain ⟨behind, hbehind, hfollows, hbody'⟩ := functionBody?_after_commentLine hbody hquiet
    have hstart' := tableStart_eq_ok_iff.mpr
      ⟨_, passed, rest, hbody', hcase, hne, htext, rfl⟩
    rw [hfollows] at hstart'
    refine extract_direct_of_tableStart hx hstart hstart' ?_
    rw [List.head?_append, List.head?_append, hbehind]
  · -- both searches for the case statement stop behind the same text
    have hbare : afterFirstCase? (some '\n') (dropNewline body.text) = some rest := by
      rw [afterFirstCase?_dropNewline, hcase]
    obtain ⟨inside, hinside, hbareText⟩ := exists_of_afterFirstCase? hbare
    obtain ⟨front, hfront⟩ := dropNewline_suffix body.text
    have hpassed : passed = front ++ inside := by
      rw [hbareText, htext, ← List.append_assoc] at hfront
      exact (List.append_cancel_right hfront).symm
    have htext' : afterComment comment body.text =
        '\n' :: (commentLine comment ++ inside) ++ rest := by
      rw [afterComment, hbareText, List.cons_append, List.append_assoc]
    have hcase' : afterFirstCase? none (afterComment comment body.text) = some rest := by
      rw [afterFirstCase?_afterComment hquiet, hcase]
    have hstart' := tableStart_eq_ok_iff.mpr ⟨_, _, rest,
      functionBody?_afterComment hbody hcomment hhash, hcase', List.cons_ne_nil _ _,
      htext', rfl⟩
    rw [afterBody_afterComment hcomment hhash] at hstart'
    refine extract_direct_of_tableStart hx hstart hstart' ?_
    obtain ⟨last, init, hlast⟩ := List.exists_cons_of_ne_nil
      (List.reverse_ne_nil_iff.mpr hinside)
    simp [hpassed, hlast]

/-- Two arms. -/
def plainScript : Text :=
  ("get_tcp_strategy_options() \x7b\n case $1 in\n  a) echo \"--a\" ;;\n" ++
    "  b) echo \"--b\" ;;\n esac\n\x7d\n").toList

/-- Keywords, a brace and a quote in a comment are not seen. -/
theorem extract_direct_comment_odd_text :
    let comment := "esac \x7d ;; don't case".toList
    ∃ x, extract .direct .stock plainScript = .ok x ∧
      extract .direct .stock (commentLine comment ++ plainScript) = .ok x ∧
      ∃ body, functionBody? ScriptNames.stock.tableFunction plainScript = some body ∧
        extract .direct .stock
          (body.start.behind.reverse ++ afterComment comment body.start.ahead) = .ok x := by
  intro comment
  have hok : (extract .direct .stock plainScript).toOption.isSome = true := by
    decide +kernel
  have hquiet : startsIn (definitionAt ScriptNames.stock.tableFunction) none plainScript
      (commentLine comment) = false := by
    decide +kernel
  have hinside : (functionBody? ScriptNames.stock.tableFunction plainScript).map
      (fun body => (startsIn caseAt (some '\n') (dropNewline body.text) (commentLine comment),
        decide (body.start.next? ≠ some '#'))) = some (false, true) := by
    decide +kernel
  cases hx : extract .direct .stock plainScript with
  | error cause =>
      rw [hx] at hok
      cases hok
  | ok x =>
      obtain ⟨hfront, body, hbody, hbehind⟩ :=
        extract_direct_comment hx (show '\n' ∉ comment by decide)
      rw [hbody] at hinside
      obtain ⟨hcase, hhash⟩ := Prod.mk.inj (Option.some.inj hinside)
      exact ⟨x, rfl, hfront hquiet, body, hbody, hbehind hcase (of_decide_eq_true hhash)⟩

/-- A comment behind the opening brace is not inert if its words are the head of
a case statement: the first arm is lost. -/
theorem not_extract_direct_comment :
    ¬ ∀ (script : ScriptNames) (source comment : Text) (x : Extraction) (body : Body),
      extract .direct script source = .ok x → '\n' ∉ comment →
        functionBody? script.tableFunction source = some body →
        extract .direct script
          (body.start.behind.reverse ++ afterComment comment body.start.ahead) = .ok x := by
  intro hall
  let comment := "the case statement in question".toList
  have hbefore : (extract .direct .stock plainScript).toOption.map
      (fun x => x.table.names) = some ["a".toList, "b".toList] := by
    decide +kernel
  have hafter : (functionBody? ScriptNames.stock.tableFunction plainScript).bind (fun body =>
      (extract .direct .stock
        (body.start.behind.reverse ++ afterComment comment body.start.ahead)).toOption.map
          fun x => x.table.names) = some ["b".toList] := by
    decide +kernel
  cases hx : extract .direct .stock plainScript with
  | error cause =>
      rw [hx] at hbefore
      cases hbefore
  | ok x =>
      obtain ⟨start, -, -, hstart, -⟩ := extract_direct_eq_ok_iff.mp hx
      obtain ⟨body, -, -, hbody, -⟩ := tableStart_eq_ok_iff.mp hstart
      have hsame := hall .stock plainScript comment x body hx (by decide) hbody
      rw [hbody] at hafter
      change (extract .direct .stock
        (body.start.behind.reverse ++ afterComment comment body.start.ahead)).toOption.map
          (fun x => x.table.names) = some ["b".toList] at hafter
      rw [hsame] at hafter
      rw [hx] at hbefore
      exact absurd (hbefore.symm.trans hafter) (by decide)

end CaseTable
