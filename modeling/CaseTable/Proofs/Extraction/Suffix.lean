import CaseTable.Proofs.Extraction.TableStart

/-!
# Text behind the script

A direct extraction that succeeds is not changed by further lines, whether the
table function is closed in the script, in those lines or never — with one
exception (`extract_direct_suffix_iff`). If the brace of the table function is
open, the further lines belong to its body, where the head of the case
statement is looked for. A `case` with a quoted subject at the very end of the
script then lacks nothing but an `in` to be a head (`EndsInHead`), and if no
head starts before it, it becomes the first one: its subject is the text in
which the table was found.

So there are two halves. Without such an end the search stops where it did,
and the arms are read as before, because a line feed may follow their `esac`.
With it, a line that holds `in` leaves a table without arms and without an
`esac`.
-/

namespace CaseTable.Shell

/-- The text ends in a quoted subject and blanks. Its `case` may start a head,
and no head starts before. -/
def EndsInHead (text : Text) : Prop :=
  ∃ passed mark blanks, text = passed ++ mark :: blanks ∧ IsBlanks blanks ∧
    OpensSubject mark none passed (mark :: blanks)

theorem OpenSubject.append {mark : Char} {head content : Text} (h : OpenSubject mark head)
    (hmark : mark ∉ content) (hline : '\n' ∉ content) : OpenSubject mark (head ++ content) := by
  obtain ⟨hquote, gap, subject, hne, hgap, ⟨inner, rfl, hinner, hnewline⟩, rfl⟩ := h
  refine ⟨hquote, gap, mark :: (inner ++ content), hne, hgap, ⟨inner ++ content, rfl, ?_, ?_⟩, ?_⟩
  · exact List.not_mem_append hinner hmark
  · exact List.not_mem_append hnewline hline
  · rw [List.append_assoc, List.append_assoc, List.cons_append]

theorem OpensSubject.append {mark : Char} {previous : Option Char} {passed content rest : Text}
    (h : OpensSubject mark previous passed (content ++ rest)) (hmark : mark ∉ content)
    (hline : '\n' ∉ content) : OpensSubject mark previous (passed ++ content) rest := by
  obtain ⟨before, head, rfl, hstarts, hstart, hsubject⟩ := h
  refine ⟨before, head ++ content, List.append_assoc _ _ _, ?_, hstart,
    hsubject.append hmark hline⟩
  rw [List.append_assoc]
  exact hstarts

/-- A subject that is closed and followed by `in` makes the head the first
one. -/
theorem afterFirstCase?_of_opensSubject {mark : Char} {previous : Option Char}
    {passed rest rest' : Text} (h : OpensSubject mark previous passed rest)
    (hcloses : (afterQuoted? mark (mark :: rest)).bind afterIn? = some rest') :
    afterFirstCase? previous (passed ++ rest) = some rest' := by
  obtain ⟨before, head, rfl, hstarts, hstart, hquote, gap, subject, hne, hgap,
    ⟨content, rfl, hmark, hline⟩, rfl⟩ := h
  have hsubject : afterSubject? (mark :: (content ++ rest)) = some rest' := by
    refine afterSubject?_of_quoted hquote ?_
    rw [afterQuoted?_append_open hmark hline]
    exact hcloses
  have hsolid : (mark :: (content ++ rest)).head?.all (!isBlank ·) = true := by
    rcases hquote with rfl | rfl <;> rfl
  have hhead := afterCaseHead?_eq_some_iff.mpr
    ⟨hstart, gap, mark :: (content ++ rest), hne, hgap, hsolid, rfl, hsubject⟩
  rw [List.append_assoc, afterFirstCase?_pass hstarts, List.append_assoc, List.append_assoc,
    List.cons_append]
  change afterFirstCase? _ ('c' :: (['a', 's', 'e'] ++ (gap ++ mark :: (content ++ rest)))) = _
  rw [afterFirstCase?]
  change afterCaseHead? _ ('c' :: (['a', 's', 'e'] ++ (gap ++ mark :: (content ++ rest)))) = _
    at hhead
  rw [hhead]

/-- Only an open head at the end of the text can be closed by a further
line. -/
theorem endsInHead_of_closesHead {mark : Char} {passed rest v : Text}
    (h : afterFirstCase? none (passed ++ rest) = some rest)
    (hopens : OpensSubject mark none passed rest) (hcloses : ClosesHead mark (rest ++ '\n' :: v)) :
    EndsInHead (passed ++ rest) := by
  obtain ⟨r, hr⟩ := Option.ne_none_iff_exists'.mp hcloses
  obtain ⟨u, hu, hin⟩ := Option.bind_eq_some_iff.mp hr
  have hline : mark ≠ '\n' := by
    obtain ⟨-, -, -, -, -, hquote, -⟩ := hopens
    rcases hquote with rfl | rfl <;> decide
  -- the subject is closed before the line feed
  have hclosed : ¬ OpenQuote mark (mark :: rest) := by
    rintro ⟨content, heq, hmark, hnewline⟩
    obtain ⟨-, rfl⟩ := List.cons.inj heq
    rw [afterQuoted?_append_open hmark hnewline, afterQuoted?_cons, if_neg (Ne.symm hline),
      if_pos rfl] at hu
    cases hu
  rw [← List.cons_append, afterQuoted?_append (List.cons_ne_nil _ _) hclosed] at hu
  obtain ⟨u, hu', rfl⟩ := Option.map_eq_some_iff.mp hu
  obtain ⟨content, heq, hmark, hnewline⟩ := afterQuoted?_eq_some_iff.mp hu'
  obtain ⟨-, rfl⟩ := List.cons.inj heq
  obtain ⟨hedge, gap, hne, hgap, hgapIn⟩ := afterIn?_eq_some_iff.mp hin
  rcases List.append_eq_append_iff.mp hgapIn with ⟨w, rfl, -⟩ | ⟨w, rfl, hafter⟩
  · -- nothing but blanks follows it
    refine ⟨passed ++ content, mark, u, (List.append_assoc _ _ _).symm, ?_,
      hopens.append hmark hnewline⟩
    exact fun c hc => hgap c (List.mem_append_left w hc)
  · -- an `in` before the line feed would have made the head the first one
    have hbefore : ∃ rest', w = 'i' :: 'n' :: rest' ∧ r = rest' ++ '\n' :: v := by
      match w, hafter with
      | [], hafter => cases hafter
      | [c], hafter => cases (List.cons.inj hafter).2
      | c :: d :: rest', hafter =>
          simp only [List.cons_append, List.cons.injEq] at hafter
          obtain ⟨rfl, rfl, rfl⟩ := hafter
          exact ⟨rest', rfl, rfl⟩
    obtain ⟨rest', rfl, rfl⟩ := hbefore
    have hedge' : isWordEdge (some 'n') rest'.head? = true := by
      cases rest' with
      | nil => decide
      | cons c rest' => exact hedge
    have hfirst := afterFirstCase?_of_opensSubject hopens
      (Option.bind_eq_some_iff.mpr ⟨_, hu', afterIn?_eq_some_iff.mpr
        ⟨hedge', gap, hne, hgap, rfl⟩⟩)
    have hlen := congrArg List.length (Option.some.inj (h.symm.trans hfirst))
    simp only [List.length_append, List.length_cons] at hlen
    omega

/-- An open head has a quotation mark. -/
theorem not_endsInHead_of_notMem {text : Text} (hdouble : '"' ∉ text) (hsingle : '\x27' ∉ text) :
    ¬ EndsInHead text := by
  rintro ⟨passed, mark, blanks, rfl, -, -, -, -, -, -, rfl | rfl, -⟩
  · exact hdouble (List.mem_append_right passed List.mem_cons_self)
  · exact hsingle (List.mem_append_right passed List.mem_cons_self)

/-! ## The line that closes an open head -/

/-- A line that holds `in`. -/
def closingLine : Text := ['\n', 'i', 'n']

/-- Whatever is left of `a ++ t` in between, a head is there. -/
theorem afterSubject?_ne_none {a t : Text} (ha : EndsLikeHead a)
    (ht : isWordEdge (some 'n') t.head? = true) (h : afterSubject? a ≠ none) :
    afterSubject? (a ++ t) ≠ none := by
  by_cases hopen : ∃ mark, (mark = '"' ∨ mark = '\x27') ∧ OpenQuote mark a ∧ ClosesHead mark t
  · obtain ⟨mark, hmark, ⟨content, rfl, hcontent, hline⟩, hcloses⟩ := hopen
    obtain ⟨r, hr⟩ := Option.ne_none_iff_exists'.mp hcloses
    rw [← afterQuoted?_append_open hcontent hline] at hr
    rw [List.cons_append, afterSubject?_of_quoted hmark hr]
    exact Option.some_ne_none r
  · have hkeep := afterSubject?_append ha ht fun mark hmark hquote hcloses =>
      hopen ⟨mark, hmark, hquote, hcloses⟩
    rw [hkeep]
    exact mt Option.map_eq_none_iff.mp h

/-- A text that ends like a head ends inside a text with the line, or with
all of the line. -/
theorem EndsLikeHead.cut_closingLine {t head rest : Text} (h : EndsLikeHead head)
    (heq : t ++ closingLine = head ++ rest) :
    rest = [] ∨ ∃ v, t = head ++ v ∧ rest = v ++ closingLine := by
  obtain ⟨s, b, -, rfl⟩ := h
  rcases List.append_eq_append_iff.mp heq with ⟨w, hhead, hline⟩ | ⟨v, ht, hrest⟩
  · have hlast : (t ++ w).getLast? = some 'n' := by
      rw [← hhead, List.getLast?_append]
      rfl
    match w with
    | [] => exact .inr ⟨[], by simpa using hhead.symm, hline.symm⟩
    | [c] =>
        obtain rfl : '\n' = c := (List.cons.inj hline).1
        simp at hlast
    | [c, d] =>
        obtain rfl : 'i' = d := (List.cons.inj (List.cons.inj hline).2).1
        simp at hlast
    | c :: d :: e :: w =>
        have hrest := (List.cons.inj (List.cons.inj (List.cons.inj hline).2).2).2
        exact .inl (List.append_eq_nil_iff.mp hrest.symm).2
  · exact .inr ⟨v, ht, hrest⟩

/-- A head that is not there without the line takes all of the line. -/
theorem afterCaseHead?_of_closingLine {previous : Option Char} {t rest : Text}
    (h : afterCaseHead? previous (t ++ closingLine) = some rest)
    (hnone : afterCaseHead? previous t = none) : rest = [] := by
  obtain ⟨hstart, gap, subject, hne, hgap, hsolid, hword, hsubject⟩ :=
    afterCaseHead?_eq_some_iff.mp h
  obtain ⟨hedge, a, hends, rfl⟩ := exists_of_afterSubject? hsubject
  rw [← List.append_assoc gap, ← List.append_assoc caseWord] at hword
  refine (((hends.append gap).append caseWord).cut_closingLine hword).resolve_right ?_
  rintro ⟨v, rfl, rfl⟩
  have hedge' : isWordEdge (some 'n') v.head? = true := by
    cases v with
    | nil => decide
    | cons c v => exact hedge
  have hfound : afterSubject? (a ++ v) ≠ none := by
    refine afterSubject?_ne_none hends hedge' ?_
    rw [(afterSubject?_of_append hends hedge).2 hsubject]
    exact Option.some_ne_none []
  obtain ⟨r, hr⟩ := Option.ne_none_iff_exists'.mp hfound
  have hhead := afterCaseHead?_eq_some_iff.mpr
    ⟨hstart, gap, a ++ v, hne, hgap, hends.head?_append _ v ▸ hsolid, rfl, hr⟩
  rw [List.append_assoc, List.append_assoc] at hnone
  cases hhead.symm.trans hnone

/-- Where a head takes all of the line, one before it does. -/
theorem afterFirstCase?_append_closingLine {previous : Option Char} {before rest : Text}
    (hstarts : startsIn caseAt previous rest before = false)
    (h : afterFirstCase? (before.getLast?.or previous) (rest ++ closingLine) = some []) :
    afterFirstCase? previous (before ++ (rest ++ closingLine)) = some [] := by
  induction before generalizing previous with
  | nil => exact h
  | cons c before ih =>
      obtain ⟨hnone, hstarts⟩ := Bool.or_eq_false_iff.mp hstarts
      rw [caseAt, Option.isSome_eq_false_iff, Option.isNone_iff_eq_none] at hnone
      rw [getLast?_cons_or] at h
      rw [List.cons_append, afterFirstCase?]
      cases hfound : afterCaseHead? previous (c :: (before ++ (rest ++ closingLine))) with
      | some r =>
          rw [← List.append_assoc, ← List.cons_append] at hfound
          rw [afterCaseHead?_of_closingLine hfound hnone]
      | none => exact ih hstarts h

/-- The line closes an open head, and nothing is left for a table. -/
theorem afterFirstCase?_closingLine {text : Text} (h : EndsInHead text) :
    afterFirstCase? none (text ++ closingLine) = some [] := by
  obtain ⟨passed, mark, blanks, rfl, hblanks, before, head, rfl, hstarts, hstart, hsubject⟩ := h
  have hcloses : (afterQuoted? mark (mark :: (mark :: blanks ++ closingLine))).bind afterIn? =
      some [] := by
    rw [List.cons_append, afterQuoted?_cons, if_pos rfl, Option.bind_some]
    refine afterIn?_eq_some_iff.mpr ⟨by decide, blanks ++ ['\n'], by simp, ?_, ?_⟩
    · exact List.forall_mem_append.mpr ⟨hblanks, List.forall_mem_singleton.mpr (by decide)⟩
    · rw [List.append_assoc]
      rfl
  rw [List.append_assoc, List.append_assoc, ← List.append_assoc head]
  refine afterFirstCase?_append_closingLine hstarts ?_
  rw [List.append_assoc]
  exact afterFirstCase?_of_opensSubject ⟨[], head, rfl, rfl, hstart, hsubject⟩ hcloses

/-! ## The body and the arms -/

/-- A closed body stays as it is. -/
theorem functionBody?_append_of_closed {name source : Text} {body : Body}
    (h : functionBody? name source = some body) (hclosed : afterBody body.start ≠ [])
    (suffix : Text) :
    functionBody? name (source ++ suffix) =
        some ⟨⟨body.start.behind, body.start.ahead ++ suffix⟩, body.text⟩ ∧
      afterBody ⟨body.start.behind, body.start.ahead ++ suffix⟩ =
        afterBody body.start ++ suffix := by
  obtain ⟨hstart, hahead⟩ := functionBody?_eq_some_iff.mp h
  obtain ⟨hsource, hmove⟩ := definition?_move hstart
  have hafter : afterBody ⟨body.start.behind, body.start.ahead ++ suffix⟩ =
      afterBody body.start ++ suffix := by
    cases hend : body.start.blockEnd? 0 with
    | none => exact absurd (by rw [afterBody, hend]; rfl) hclosed
    | some e =>
        obtain ⟨s, t, hs, ht, hmoved⟩ := Place.blockEnd?_append hend
        have hsame := hmoved (t ++ suffix)
        rw [← List.cons_append, ← List.append_assoc, ← ht, ← hs.1] at hsame
        rw [afterBody, afterBody, hsame, hend, Option.map_some, Option.map_some,
          Option.getD_some, Option.getD_some, ht, List.cons_append]
  refine ⟨?_, hafter⟩
  rw [hsource, List.append_assoc]
  refine functionBody?_eq_some_iff.mpr ⟨hmove _, ?_⟩
  rw [hafter, ← List.append_assoc, ← hahead]

/-- An open body goes on, past the line feed at least. -/
theorem exists_functionBody?_append_of_open {name source suffix : Text} {body : Body}
    (h : functionBody? name source = some body) (hopen : afterBody body.start = [])
    (hsuffix : suffix.head? = some '\n') :
    ∃ v, suffix = '\n' :: v ++ afterBody ⟨body.start.behind, body.text ++ suffix⟩ ∧
      functionBody? name (source ++ suffix) =
        some ⟨⟨body.start.behind, body.text ++ suffix⟩, body.text ++ '\n' :: v⟩ := by
  obtain ⟨hstart, hahead⟩ := functionBody?_eq_some_iff.mp h
  rw [hopen, List.append_nil] at hahead
  obtain ⟨rest, hrest, hbody⟩ := functionBody?_move h (List.append_nil body.text).symm suffix
  have hsource := (definition?_move hstart).1
  rw [hahead] at hsource
  rw [← List.append_assoc, ← hsource] at hbody
  cases rest with
  | nil =>
      have hbrace := head?_afterBody ⟨body.start.behind, body.text ++ suffix⟩
      rw [List.nil_append] at hrest
      rw [← hrest, hsuffix] at hbrace
      exact absurd hbrace (by decide)
  | cons c rest =>
      rw [hrest] at hsuffix
      obtain rfl : c = '\n' := Option.some.inj hsuffix
      exact ⟨rest, hrest, hbody⟩

end CaseTable.Shell

namespace CaseTable

open Extraction Shell

/-- The table starts where it did. -/
theorem tableStart_append {function source suffix : Text} {body : Body} {start : Place}
    (hstart : tableStart function source = .ok start)
    (hbody : functionBody? function source = some body)
    (hend : ¬ (afterBody body.start = [] ∧ EndsInHead body.text))
    (hsuffix : suffix.head? = some '\n') :
    tableStart function (source ++ suffix) = .ok ⟨start.behind, start.ahead ++ suffix⟩ := by
  obtain ⟨body', passed, rest, hbody', hcase, hne, htext, rfl⟩ := tableStart_eq_ok_iff.mp hstart
  cases hbody.symm.trans hbody'
  by_cases hopen : afterBody body.start = []
  · obtain ⟨v, hv, hmoved⟩ := exists_functionBody?_append_of_open hbody hopen hsuffix
    rw [htext] at hcase
    have hedge := (endsLikeHead_of_afterFirstCase? hcase).2
    have hedge' : isWordEdge (some 'n') (rest ++ '\n' :: v).head? = true := by
      cases rest with
      | nil => rfl
      | cons c rest => exact hedge
    have hcase' : afterFirstCase? none (passed ++ (rest ++ '\n' :: v)) =
        some (rest ++ '\n' :: v) := by
      refine afterFirstCase?_move hcase hedge' fun mark hopens hcloses => hend ⟨hopen, ?_⟩
      rw [htext]
      exact endsInHead_of_closesHead hcase hopens hcloses
    rw [← List.append_assoc, ← htext] at hcase'
    refine tableStart_eq_ok_iff.mpr ⟨_, passed, _, hmoved, hcase', hne, ?_, ?_⟩
    · change body.text ++ '\n' :: v = _
      rw [htext, List.append_assoc]
    · rw [hopen, List.append_nil, List.append_assoc, ← hv]
  · obtain ⟨hmoved, hafter⟩ := functionBody?_append_of_closed hbody hopen suffix
    refine tableStart_eq_ok_iff.mpr ⟨_, passed, rest, hmoved, hcase, hne, htext, ?_⟩
    rw [hafter, List.append_assoc]

/-- There are no arms at the end of a text. -/
theorem readArms?_nil (behind : Text) : readArms? ⟨behind, []⟩ = none := by
  refine Option.eq_none_iff_forall_ne_some.mpr fun read hread => ?_
  obtain ⟨arms, stop⟩ := read
  obtain ⟨s, hs, hesac, -⟩ := readArms?_move hread
  rw [(List.append_eq_nil_iff.mp hs.1.symm).1] at hesac
  exact absurd (List.suffix_nil.mp hesac) (by decide)

/-- With the line that closes an open head there is no table. -/
theorem extract_direct_closingLine {script : ScriptNames} {source : Text} {body : Body}
    (hbody : functionBody? script.tableFunction source = some body)
    (hopen : afterBody body.start = []) (hend : EndsInHead body.text) :
    ∃ cause, extract .direct script (source ++ closingLine) = .error cause := by
  have hfeed : closingLine.head? = some '\n' := rfl
  obtain ⟨v, hv, hmoved⟩ := exists_functionBody?_append_of_open hbody hopen hfeed
  have hline : '\n' :: v = closingLine := by
    have hbrace := head?_afterBody ⟨body.start.behind, body.text ++ closingLine⟩
    cases hafter : afterBody ⟨body.start.behind, body.text ++ closingLine⟩ with
    | nil => rw [hv, hafter, List.append_nil]
    | cons c t =>
        rw [hafter] at hbrace hv
        obtain rfl : c = '\x7d' := by simpa using hbrace
        have hmem : '\x7d' ∈ closingLine := by
          rw [hv]
          simp
        exact absurd hmem (by decide)
  rw [hline] at hmoved hv
  have hstart := tableStart_eq_ok_iff.mpr ⟨_, body.text ++ closingLine, [], hmoved,
    afterFirstCase?_closingLine hend, by simp [closingLine], (List.append_nil _).symm, rfl⟩
  rw [List.append_right_eq_self.mp hv.symm] at hstart
  exact ⟨_, extract_direct_unterminated hstart (readArms?_nil _)⟩

/-- A direct extraction that succeeds does so with any further lines, and with
the same table and warnings, unless the table function is open at the end of
the script and ends in a `case` that lacks its `in`. -/
theorem extract_direct_suffix_iff {script : ScriptNames} {source : Text} {x : Extraction}
    (h : extract .direct script source = .ok x) :
    ∃ body, functionBody? script.tableFunction source = some body ∧
      ((∀ suffix : Text, suffix.head? = some '\n' →
          extract .direct script (source ++ suffix) = .ok x) ↔
        ¬ (afterBody body.start = [] ∧ EndsInHead body.text)) := by
  obtain ⟨start, arms, stop, hstart, hread, rfl⟩ := extract_direct_eq_ok_iff.mp h
  obtain ⟨body, -, -, hbody, -⟩ := tableStart_eq_ok_iff.mp hstart
  refine ⟨body, hbody, ?_, ?_⟩
  · rintro hall ⟨hopen, hend⟩
    obtain ⟨cause, hcause⟩ := extract_direct_closingLine hbody hopen hend
    cases (hall closingLine rfl).symm.trans hcause
  · intro hend suffix hsuffix
    obtain ⟨s, hs, -, hdelimited, hmove⟩ := readArms?_move hread
    have hnext : (stop.ahead ++ suffix).head?.all endsAfter = true := by
      cases hahead : stop.ahead with
      | nil =>
          rw [List.nil_append, hsuffix]
          decide
      | cons c t =>
          rw [hahead] at hdelimited
          exact hdelimited
    have hmoved := hmove start.behind (stop.ahead ++ suffix) rfl hnext
    rw [← List.append_assoc, ← hs.1] at hmoved
    exact extract_direct_of_readArms? (tableStart_append hstart hbody hend hsuffix) hmoved

/-- The script ends with its `esac`, and the brace is open. Anything may
follow. -/
theorem extract_direct_suffix_open :
    let source := "get_tcp_strategy_options() \x7b\n case $1 in\n  a) echo --a ;;\n esac".toList
    ∃ x, extract .direct .stock source = .ok x ∧ x.table.names = ["a".toList] ∧
      ∀ suffix : Text, suffix.head? = some '\n' →
        extract .direct .stock (source ++ suffix) = .ok x := by
  intro source
  have hnames : (extract .direct .stock source).toOption.map (fun x => x.table.names) =
      some ["a".toList] := by
    decide +kernel
  have hquotes : (functionBody? ScriptNames.stock.tableFunction source).map (fun body =>
      (decide ('"' ∉ body.text), decide ('\x27' ∉ body.text))) = some (true, true) := by
    decide +kernel
  cases hx : extract .direct .stock source with
  | error cause =>
      rw [hx] at hnames
      cases hnames
  | ok x =>
      rw [hx] at hnames
      obtain ⟨body, hbody, hiff⟩ := extract_direct_suffix_iff hx
      rw [hbody] at hquotes
      obtain ⟨hdouble, hsingle⟩ := Prod.mk.inj (Option.some.inj hquotes)
      have hend := not_endsInHead_of_notMem (of_decide_eq_true hdouble) (of_decide_eq_true hsingle)
      exact ⟨x, rfl, Option.some.inj hnames, hiff.mpr fun hopen => hend hopen.2⟩

/-- The subject of the outer `case` is closed at the end of the script. Its
`in` follows in the next line, with another table. -/
theorem not_extract_direct_suffix :
    ¬ ∀ (script : ScriptNames) (source suffix : Text) (x : Extraction),
      suffix.head? = some '\n' → extract .direct script source = .ok x →
        ∃ y, extract .direct script (source ++ suffix) = .ok y ∧ y.table = x.table ∧
          y.warnings = x.warnings := by
  intro hall
  let source := "get_tcp_strategy_options() \x7b case \"case $1 in a) echo --a ;; esac \"".toList
  let suffix := "\n in b) echo --b ;; esac \x7d".toList
  have hbefore : (extract .direct .stock source).toOption.map (fun x => x.table.names) =
      some ["a".toList] := by
    decide +kernel
  have hafter : (extract .direct .stock (source ++ suffix)).toOption.map
      (fun x => x.table.names) = some ["b".toList] := by
    decide +kernel
  cases hx : extract .direct .stock source with
  | error cause =>
      rw [hx] at hbefore
      cases hbefore
  | ok x =>
      obtain ⟨y, hy, htable, -⟩ := hall .stock source suffix x rfl hx
      rw [hx] at hbefore
      rw [hy] at hafter
      have hnames : x.table.names = ["a".toList] := Option.some.inj hbefore
      have hnames' : y.table.names = ["b".toList] := Option.some.inj hafter
      rw [htable, hnames] at hnames'
      exact absurd hnames' (by decide)

end CaseTable
