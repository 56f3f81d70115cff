import CaseTable.Proofs.Extraction.TableStart
import CaseTable.Proofs.Shell.NestedTables

/-!
# Another inside for a nested table

A table in the body of an arm may have any other inside: the arms of the
script are the same, but for the text of that one body
(`extract_direct_nested`). What the arm prints is another matter. The search
for its `echo` looks into the table, so the table of the script stays the same
if the arm prints in front of the nested table, or if there is no `echo`
before its end, with the one inside and with the other.

As behind any change after the head of the case statement, that head must not
stand in the quoted subject of an earlier one.
-/

namespace CaseTable.Shell

/-- The script with another inside of a nested table. -/
def NestedTable.script {body : Place} (nested : NestedTable body) (inside : Commands) : Text :=
  body.behind.reverse ++ nested.withInside inside

end CaseTable.Shell

namespace CaseTable.Extraction

open CaseTable.Shell

/-- The word that ends a head ends in front of the arms. -/
theorem isWordEdge_tableStart {function source : Text} {start : Place}
    (h : tableStart function source = .ok start) :
    isWordEdge (some 'n') start.next? = true := by
  obtain ⟨body, passed, rest, hbody, hcase, -, htext, rfl⟩ := tableStart_eq_ok_iff.mp h
  rw [htext] at hcase
  have hedge := (endsLikeHead_of_afterFirstCase? hcase).2
  rw [Place.next?]
  cases rest with
  | nil =>
      have hbrace := head?_afterBody body.start
      cases hafter : (afterBody body.start).head? with
      | none =>
          rw [List.nil_append, hafter]
          decide
      | some c =>
          rw [hafter] at hbrace
          obtain rfl : c = '\x7d' := by simpa using hbrace
          rw [List.nil_append, hafter]
          decide
  | cons c rest => exact hedge

/-- An arm offers what it did if it prints what it did. -/
theorem ofArms_congr {placeholder text text' : Text} (h : echoed? text' = echoed? text)
    (before after : List Arm) (names : List Text) :
    ofArms placeholder (before ++ ⟨names, text'⟩ :: after) =
      ofArms placeholder (before ++ ⟨names, text⟩ :: after) := by
  have hoffers : offers placeholder ⟨names, text'⟩ = offers placeholder ⟨names, text⟩ := by
    rw [offers, offers, argsOf?, argsOf?, h]
  simp only [ofArms, List.flatMap_append, List.flatMap_cons, hoffers]

end CaseTable.Extraction

namespace CaseTable

open Extraction Shell

/-- With another inside the script has the same arms, but for the text of one
body. -/
theorem readArms?_withInside {start stop body q : Place} {before after : List Arm}
    {names : List Text} {text : Text} (hreach : ReachesBody start before names body)
    (hbody : readBody? body = some (text, q)) (hafter : readArms? q = some (after, stop))
    (nested : NestedTable body) :
    ∃ s, start.Passes s body ∧ s ≠ [] ∧
      ∃ tail, text = nested.bodyWith nested.inside tail ∧ tail <+: nested.rest ∧
        ∀ inside, nested.Admits inside → ∃ stop',
          readArms? ⟨start.behind, s ++ nested.withInside inside⟩ =
            some (before ++ ⟨names, nested.bodyWith inside tail⟩ :: after, stop') := by
  obtain ⟨s, hs, hne, hmove⟩ := hreach.readArms?_move
  obtain ⟨tail, htext, htail, hbodyMove⟩ := nested.readBody?_withInside hbody
  refine ⟨s, hs, hne, tail, htext, htail, fun inside hinside => ?_⟩
  obtain ⟨behind, hbehind, hbody'⟩ := hbodyMove inside hinside
  obtain ⟨u, hu, -, hdelimited, hafterMove⟩ := readArms?_move hafter
  have hafter' := hafterMove behind stop.ahead (by rw [hbehind]) hdelimited
  rw [← hu.1] at hafter'
  refine ⟨⟨u.reverse ++ behind, stop.ahead⟩, ?_⟩
  rw [hmove _ _ _ (NestedTable.alike_withInside hinside) hbody', hafter']
  rfl

/-- Whatever the inside of a nested table is, a direct extraction finds the
same arms around it. It gives the same if the arm prints before the table, or
behind it with the old inside and with the new one. -/
theorem extract_direct_nested {script : ScriptNames} {source : Text} {start stop : Place}
    {before after : List Arm} {arm : Arm}
    (hstart : tableStart script.tableFunction source = .ok start)
    (hread : readArms? start = some (before ++ arm :: after, stop))
    (hsubject : ¬ HeadInSubject script.tableFunction source) :
    ∃ body, ReachesBody start before arm.labels body ∧ ∀ nested : NestedTable body,
      nested.script nested.inside = source ∧
      ∃ tail, arm.body = nested.bodyWith nested.inside tail ∧
        ∀ inside, nested.Admits inside →
          extract .direct script (nested.script inside) =
            .ok (ofArms script.placeholder
              (before ++ ⟨arm.labels, nested.bodyWith inside tail⟩ :: after)) ∧
          (EchoBefore arm.body ((Commands.block nested.inside).text ++ tail) ∨
              EchoBehind arm.body tail ∧ EchoBehind (nested.bodyWith inside tail) tail →
            extract .direct script (nested.script inside) = extract .direct script source) := by
  obtain ⟨body, q, hreach, hbody, hafter⟩ := exists_reachesBody hread
  refine ⟨body, hreach, fun nested => ?_⟩
  obtain ⟨s, hs, hne, tail, htext, htail, hmove⟩ :=
    readArms?_withInside hreach hbody hafter nested
  refine ⟨?_, tail, htext, fun inside hinside => ?_⟩
  · rw [NestedTable.script, nested.withInside_inside, ← text_tableStart hstart]
    exact hs.text_eq
  · obtain ⟨stop', hread'⟩ := hmove inside hinside
    have hscript : nested.script inside =
        start.behind.reverse ++ (s ++ nested.withInside inside) := by
      rw [NestedTable.script, hs.2]
      simp
    have hedge : isWordEdge (some 'n') (s ++ nested.withInside inside).head? = true := by
      have hnext := isWordEdge_tableStart hstart
      obtain ⟨c, s, rfl⟩ := List.exists_cons_of_ne_nil hne
      rw [Place.next?, hs.1] at hnext
      exact hnext
    have hmoved := tableStart_move hstart hsubject hedge
    rw [← hscript] at hmoved
    have hnew := extract_direct_of_readArms? hmoved hread'
    refine ⟨hnew, fun hecho => ?_⟩
    rw [htext] at hecho
    have hprinted := nested.echoed?_bodyWith hinside htail (by rw [hreach.head?_behind]; rfl) hecho
    rw [hnew, extract_direct_of_readArms? hstart hread, ofArms_congr hprinted, ← htext]

/-- The first arm has printed before its table. -/
theorem extract_direct_nested_printed :
    let source := ("get_tcp_strategy_options() \x7b\n case $1 in\n" ++
      "  a) echo --a\n   case $2 in b) ;; esac ;;\n  c) echo --c ;;\n esac\n\x7d\n").toList
    ∃ (x : Extraction) (body : Place) (nested : NestedTable body),
      extract .direct .stock source = .ok x ∧ x.table.names = ["a".toList, "c".toList] ∧
      nested.script nested.inside = source ∧ nested.inside.text = " $2 in b) ;; ".toList ∧
      ∀ inside, nested.Admits inside → extract .direct .stock (nested.script inside) = .ok x := by
  intro source
  let front := "get_tcp_strategy_options() \x7b\n case $1 in".toList
  let arms := "\n  a) echo --a\n   case $2 in b) ;; esac ;;\n  c) echo --c ;;\n esac\n\x7d\n".toList
  let rest := " ;;\n  c) echo --c ;;\n esac\n\x7d\n".toList
  let body : Place := ⟨(front ++ "\n  a)".toList).reverse, arms.drop 5⟩
  let plains (t : String) : Commands := .ofPieces (t.toList.map .plain)
  let nested : NestedTable body := ⟨.commands (plains " echo --a\n   "), plains " $2 in b) ;; ", rest,
    by decide, by decide, by decide⟩
  let start : Place := ⟨front.reverse, arms⟩
  let first : Arm := ⟨["a".toList], " echo --a\n   case $2 in b) ;; esac ".toList⟩
  let second : Arm := ⟨["c".toList], " echo --c ".toList⟩
  have hfound : (tableStart ScriptNames.stock.tableFunction source).toOption = some start := by
    decide +kernel
  have harms : (readArms? start).map Prod.fst = some ([] ++ first :: [second]) := by
    decide +kernel
  have hpattern : (readPattern? start.skipGap).map Prod.snd = some body := by
    decide +kernel
  have hquotes : (functionBody? ScriptNames.stock.tableFunction source).map (fun body =>
      (decide ('"' ∉ body.text), decide ('\x27' ∉ body.text))) = some (true, true) := by
    decide +kernel
  have hnames : (ofArms ScriptNames.stock.placeholder [first, second]).table.names =
      ["a".toList, "c".toList] := by
    decide +kernel
  have hstart := eq_ok_of_toOption hfound
  obtain ⟨⟨-, stop⟩, hread, rfl⟩ := Option.map_eq_some_iff.mp harms
  obtain ⟨functionBody, hfunction, hquotes⟩ := Option.map_eq_some_iff.mp hquotes
  obtain ⟨hdouble, hsingle⟩ := Prod.mk.inj hquotes
  have hsubject := not_headInSubject_of_notMem hfunction (of_decide_eq_true hdouble)
    (of_decide_eq_true hsingle)
  obtain ⟨body', hreach, hnested⟩ := extract_direct_nested hstart hread hsubject
  obtain ⟨pattern, hread'⟩ := hreach.exists_readPattern?
  rw [hread'] at hpattern
  obtain rfl : body' = body := Option.some.inj hpattern
  obtain ⟨hscript, tail, htext, hinside⟩ := hnested nested
  have hecho : EchoBefore first.body ((Commands.block nested.inside).text ++ tail) := by
    have hfront : first.body = nested.lead.text ++ "case $2 in b) ;; esac ".toList := by decide
    rw [← List.append_cancel_left (hfront.symm.trans htext)]
    exact ⟨⟨" echo".toList.reverse, first.body.drop 5⟩, by decide +kernel, by decide +kernel⟩
  refine ⟨_, body, nested, extract_direct_of_readArms? hstart hread, hnames, hscript, by decide,
    fun inside hadmits => ?_⟩
  rw [(hinside inside hadmits).2 (.inl hecho)]
  exact extract_direct_of_readArms? hstart hread

/-- The first arm prints behind its table. An `echo` in the table comes before
that one. -/
theorem not_extract_direct_nested :
    ¬ ∀ (script : ScriptNames) (source : Text) (x : Extraction) (start stop body : Place)
      (before after : List Arm) (arm : Arm) (nested : NestedTable body) (inside : Commands),
      extract .direct script source = .ok x →
        tableStart script.tableFunction source = .ok start →
        readArms? start = some (before ++ arm :: after, stop) →
        ReachesBody start before arm.labels body → nested.script nested.inside = source →
        nested.Admits inside →
        ∃ y, extract .direct script (nested.script inside) = .ok y ∧ y.table = x.table := by
  intro hall
  let front := "get_tcp_strategy_options() \x7b\n case $1 in".toList
  let arms := "\n  a) case $2 in b) ;; esac\n   echo --a ;;\n  c) echo --c ;;\n esac\n\x7d\n".toList
  let rest := "\n   echo --a ;;\n  c) echo --c ;;\n esac\n\x7d\n".toList
  let start : Place := ⟨front.reverse, arms⟩
  let body : Place := ⟨(front ++ "\n  a)".toList).reverse, arms.drop 5⟩
  let plains (t : String) : Commands := .ofPieces (t.toList.map .plain)
  let nested : NestedTable body := ⟨.commands (plains " "), plains " $2 in b) ;; ", rest,
    by decide, by decide, by decide⟩
  let inside := plains " $2 in b) echo --b ;; "
  let first : Arm := ⟨["a".toList], " case $2 in b) ;; esac\n   echo --a ".toList⟩
  let second : Arm := ⟨["c".toList], " echo --c ".toList⟩
  have hfound : (tableStart ScriptNames.stock.tableFunction (front ++ arms)).toOption =
      some start := by
    decide +kernel
  have harms : (readArms? start).map Prod.fst = some ([] ++ first :: [second]) := by
    decide +kernel
  have hreach : ReachesBody start [] (labels "a".toList) body :=
    .pattern (by decide +kernel) (by decide +kernel)
  have hold : (ofArms ScriptNames.stock.placeholder [first, second]).table.get? "a".toList =
      some "--a".toList := by
    decide +kernel
  have hnew : (extract .direct .stock (nested.script inside)).toOption.bind
      (fun y => y.table.get? "a".toList) = some "--b".toList := by
    decide +kernel
  have hstart := eq_ok_of_toOption hfound
  obtain ⟨⟨-, stop⟩, hread, rfl⟩ := Option.map_eq_some_iff.mp harms
  obtain ⟨y, hy, htable⟩ := hall .stock (front ++ arms) _ start stop body [] [second] first nested
    inside (extract_direct_of_readArms? hstart hread) hstart hread hreach (by decide) (by decide)
  rw [hy] at hnew
  change y.table.get? "a".toList = some "--b".toList at hnew
  rw [htable] at hnew
  exact absurd (hold.symm.trans hnew) (by decide)

end CaseTable
