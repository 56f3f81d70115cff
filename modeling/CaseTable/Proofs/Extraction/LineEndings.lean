import Mathlib.Data.List.Basic
import CaseTable.Extraction.Extract
import CaseTable.Proofs.Extraction.TableFunction
import CaseTable.Proofs.Shell.ArmLineEndings
import CaseTable.Proofs.Shell.EchoLine
import CaseTable.Proofs.Shell.HeadLineEndings

/-!
# Line ends of two characters

A script with a carriage return before each line feed gives the same
extraction, by every policy, with the same warnings and the same errors. The
places are moved, but they lie on the same lines, and the arms are the same up
to the line ends in them.

The one exception is what an `echo` prints. Wherever the outcome depends on an
echo, the operand must stand on the line of its `echo` (`extract_crlf`);
otherwise a backslash that continues the line is lost on the new line end. An
arm that offers no strategy, or that no listed name is looked up in, may print
what it likes.
-/

namespace CaseTable.Shell

open CaseTable.Text

/-- The same body with the new line ends. -/
def Body.crlf (body : Body) : Body := ⟨body.start.crlf, Text.crlf body.text⟩

theorem functionBody?_crlf {name : Text} (hname : OneLine name) (source : Text) :
    functionBody? name (Text.crlf source) = (functionBody? name source).map Body.crlf := by
  rw [functionBody?, functionBody?, definition?_crlf hname, Option.map_map, Option.map_map]
  refine congrArg (Option.map · _) (funext fun start => ?_)
  simp only [Function.comp_apply, Place.blockEnd?_crlf]
  cases hend : start.blockEnd? 0 with
  | none => rfl
  | some e =>
      obtain ⟨s, hs⟩ := Place.exists_passes_blockEnd? hend
      rw [Option.map_some]
      simp only [Body.crlf, Place.upTo_crlf hs]

theorem afterBody_crlf (start : Place) : afterBody start.crlf = Text.crlf (afterBody start) := by
  rw [afterBody, afterBody, Place.blockEnd?_crlf]
  cases start.blockEnd? 0 <;> rfl

/-! ## The text of the arms -/

theorem mem_of_mem_readBody? {p q : Place} {body : Text} (h : readBody? p = some (body, q))
    {c : Char} (hc : c ∈ body) : c ∈ p.ahead := by
  obtain ⟨e, he, heq⟩ := Option.map_eq_some_iff.mp h
  obtain ⟨rfl, -⟩ := Prod.mk.inj heq
  exact List.mem_of_mem_take hc

theorem Arm.mem_of_read? {p q : Place} {arm : Arm} (h : Arm.read? p = some (arm, q)) :
    (∃ s, p.Passes s q) ∧ ∀ c ∈ arm.body, c ∈ p.ahead := by
  obtain ⟨s, hs, -⟩ := Arm.read?_move h
  refine ⟨⟨s, hs⟩, fun c hc => ?_⟩
  obtain ⟨pattern, r, hpattern, -, hbody⟩ := Arm.read?_eq_some_iff.mp h
  obtain ⟨u, hu, -⟩ := readPattern?_move hpattern
  exact mem_of_passes hu (mem_of_mem_readBody? hbody hc)

theorem mem_of_mem_body {p q : Place} {arms : List Arm} (h : readArms? p = some (arms, q))
    {arm : Arm} (harm : arm ∈ arms) {c : Char} (hc : c ∈ arm.body) : c ∈ p.ahead := by
  fun_induction readArms? p generalizing arms q with
  | case1 p r hr =>
      cases h
      cases harm
  | case2 => cases h
  | case3 p hesac first r hr ih =>
      obtain ⟨⟨rest, q'⟩, hrest, heq⟩ := Option.map_eq_some_iff.mp h
      cases heq
      obtain ⟨gap, hgap⟩ := p.exists_passes_skipGap
      obtain ⟨⟨s, hs⟩, hbody⟩ := Arm.mem_of_read? hr
      rcases List.mem_cons.mp harm with rfl | hlater
      · exact mem_of_passes hgap (hbody c hc)
      · exact mem_of_passes hgap (mem_of_passes hs (ih hrest hlater))

end CaseTable.Shell

namespace CaseTable.Extraction

open CaseTable.Shell CaseTable.Text

/-! ## What is read is a part of the script -/

theorem mem_of_mem_bodyText {name source : Text} {body : Body}
    (h : functionBody? name source = some body) {c : Char} (hc : c ∈ body.text) :
    c ∈ source := by
  obtain ⟨hstart, hahead⟩ := functionBody?_eq_some_iff.mp h
  rw [(definition?_move hstart).1, hahead]
  exact List.mem_append_right _ (List.mem_append_left _ hc)

theorem mem_of_tableStart {function source : Text} {start : Place}
    (h : tableStart function source = .ok start) {c : Char} (hc : c ∈ start.ahead) :
    c ∈ source := by
  obtain ⟨body, passed, rest, hbody, -, -, htext, rfl⟩ := tableStart_eq_ok_iff.mp h
  obtain ⟨hstart, hahead⟩ := functionBody?_eq_some_iff.mp hbody
  rw [(definition?_move hstart).1, hahead, htext, List.append_assoc]
  exact List.mem_append_right _ (List.mem_append_right _ hc)

theorem mem_of_mem_caseStarts {p start : Place} (h : start ∈ p.caseStarts) {c : Char}
    (hc : c ∈ start.ahead) : c ∈ p.ahead := by
  fun_induction Place.caseStarts p with
  | case1 => cases h
  | case2 p rest hrest q ih =>
      rcases List.mem_cons.mp h with rfl | hlater
      · exact List.mem_of_mem_drop hc
      · exact List.mem_of_mem_drop (ih hlater)

theorem mem_of_mem_allArms {source : Text} {arm : Arm} (h : arm ∈ (allArms source).1)
    {c : Char} (hc : c ∈ arm.body) : c ∈ source := by
  simp only [allArms, List.mem_flatMap, List.mem_map] at h
  obtain ⟨⟨start, read⟩, ⟨start', hstart, heq⟩, harm⟩ := h
  cases heq
  cases hread : readArms? start with
  | none =>
      rw [hread] at harm
      cases harm
  | some read =>
      rw [hread] at harm
      exact mem_of_mem_caseStarts hstart (mem_of_mem_body hread harm hc)

/-! ## The table function -/

theorem tableStart_crlf {function : Text} (hname : OneLine function) (source : Text) :
    tableStart function (Text.crlf source) =
      (tableStart function source).map Place.crlf := by
  cases hbody : functionBody? function source with
  | none =>
      rw [tableStart, tableStart, functionBody?_crlf hname, hbody]
      rfl
  | some body =>
      have hbody' : functionBody? function (Text.crlf source) = some body.crlf := by
        rw [functionBody?_crlf hname, hbody]
        rfl
      have hcase' := afterFirstCase?_crlf none body.text
      cases hcase : afterFirstCase? none body.text with
      | none =>
          rw [hcase] at hcase'
          rw [tableStart, tableStart, hbody', hbody]
          simp only [Body.crlf, hcase', hcase]
          rfl
      | some rest =>
          rw [hcase] at hcase'
          obtain ⟨passed, hne, htext⟩ := exists_of_afterFirstCase? hcase
          rw [tableStart_eq_ok_iff.mpr ⟨body, passed, rest, hbody, hcase, hne, htext, rfl⟩]
          refine tableStart_eq_ok_iff.mpr ⟨body.crlf, Text.crlf passed, Text.crlf rest, hbody',
            hcase', fun hnil => hne (crlf_eq_nil_iff.mp hnil), ?_, ?_⟩
          · rw [Body.crlf, htext, crlf_append]
          · simp only [Place.crlf, Body.crlf, crlf_append, crlfBehind_append, ← reverse_crlf]
            rw [← afterBody_crlf]
            rfl

theorem oneLine_of_isStrategyName {name : Text} (h : isStrategyName name = true) :
    OneLine name := by
  rw [isStrategyName, Bool.and_eq_true, List.all_eq_true] at h
  exact ⟨fun hmem => absurd (h.2 _ hmem) (by decide),
    fun hmem => absurd (h.2 _ hmem) (by decide)⟩

/-- A label with a line end in it is no name, with either line end. -/
theorem isStrategyName_crlf (label : Text) :
    isStrategyName (Text.crlf label) = isStrategyName label := by
  by_cases hline : '\n' ∈ label
  · have hold : isStrategyName label ≠ true := fun h =>
      (oneLine_of_isStrategyName h).1 hline
    have hnew : isStrategyName (Text.crlf label) ≠ true := fun h =>
      (oneLine_of_isStrategyName h).1 (List.mem_flatMap.mpr ⟨_, hline, by simp⟩)
    rw [Bool.eq_false_iff.mpr hold, Bool.eq_false_iff.mpr hnew]
  · rw [crlf_of_notMem hline]

theorem filter_isStrategyName_crlf (labels : List Text) :
    (labels.map Text.crlf).filter isStrategyName = labels.filter isStrategyName := by
  have hsame : isStrategyName ∘ Text.crlf = isStrategyName := funext isStrategyName_crlf
  rw [List.filter_map, hsame, List.map_congr_left (g := id), List.map_id]
  intro label hlabel
  exact crlf_of_notMem (oneLine_of_isStrategyName (List.mem_filter.mp hlabel).2).1

/-- Whether an arm has a strategy to offer. -/
def hasName (arm : Arm) : Bool := arm.labels.any isStrategyName

theorem offers_of_not_hasName {arm : Arm} (h : hasName arm = false) (placeholder : Text) :
    offers placeholder arm = [] := by
  have hnone : arm.labels.filter isStrategyName = [] :=
    List.filter_eq_nil_iff.mpr fun label hlabel => by
      simpa using List.any_eq_false.mp h label hlabel
  rw [offers]
  split
  · rfl
  · rfl
  · rw [hnone, List.map_nil]

theorem hasName_crlf (arm : Arm) : hasName arm.crlf = hasName arm := by
  have hsame : isStrategyName ∘ Text.crlf = isStrategyName := funext isStrategyName_crlf
  rw [hasName, Arm.crlf, List.any_map, hsame, hasName]

theorem offers_crlf {placeholder : Text} (hname : OneLine placeholder) {arm : Arm}
    (hreturn : '\r' ∉ arm.body) (hline : hasName arm = true → EchoOnLine arm.body) :
    offers placeholder arm.crlf = offers placeholder arm := by
  cases hnamed : hasName arm with
  | false =>
      rw [offers_of_not_hasName hnamed, offers_of_not_hasName ((hasName_crlf arm).trans hnamed)]
  | true =>
      rw [offers, offers, Arm.crlf, argsOf?_crlf hname hreturn (hline hnamed)]
      simp only [filter_isStrategyName_crlf]

theorem ofArms_crlf {placeholder : Text} (hname : OneLine placeholder) {arms : List Arm}
    (hreturn : ∀ arm ∈ arms, '\r' ∉ arm.body)
    (hline : ∀ arm ∈ arms, hasName arm = true → EchoOnLine arm.body) :
    ofArms placeholder (arms.map Arm.crlf) = ofArms placeholder arms := by
  have hoffers : (arms.map Arm.crlf).flatMap (offers placeholder) =
      arms.flatMap (offers placeholder) := by
    rw [List.flatMap_map, List.flatMap_def, List.flatMap_def]
    exact congrArg List.flatten (List.map_congr_left fun arm harm =>
      offers_crlf hname (hreturn arm harm) (hline arm harm))
  rw [ofArms, ofArms, hoffers]

/-! ## Looking up names -/

theorem contains_crlf {name : Text} (h : isStrategyName name = true) (labels : List Text) :
    (labels.map Text.crlf).contains name = labels.contains name := by
  induction labels with
  | nil => rfl
  | cons label labels ih =>
      have hsame : (name == Text.crlf label) = (name == label) := by
        by_cases hline : '\n' ∈ label
        · have hfeed := (oneLine_of_isStrategyName h).1
          have hold : name ≠ label := fun heq => hfeed (by rw [heq]; exact hline)
          have hnew : name ≠ Text.crlf label := fun heq =>
            hfeed (by rw [heq]; exact List.mem_flatMap.mpr ⟨_, hline, by simp⟩)
          rw [beq_eq_false_iff_ne.mpr hold, beq_eq_false_iff_ne.mpr hnew]
        · rw [crlf_of_notMem hline]
      rw [List.map_cons, List.contains_cons, List.contains_cons, hsame, ih]

/-- The arm that a name is looked up in. -/
def carrier? (arms : List Arm) (name : Text) : Option Arm :=
  arms.find? fun arm => arm.labels.contains name

theorem lookUp_crlf {placeholder : Text} (hplaceholder : OneLine placeholder) {arms : List Arm}
    {name : Text} (hname : isStrategyName name = true)
    (hreturn : ∀ arm ∈ arms, '\r' ∉ arm.body)
    (hline : ∀ arm ∈ carrier? arms name, EchoOnLine arm.body) :
    lookUp placeholder (arms.map Arm.crlf) name = lookUp placeholder arms name := by
  have hcarries : (fun arm : Arm => arm.labels.contains name) ∘ Arm.crlf =
      fun arm => arm.labels.contains name :=
    funext fun arm => contains_crlf hname arm.labels
  rw [lookUp, lookUp, List.find?_map, hcarries]
  cases hfind : arms.find? fun arm => arm.labels.contains name with
  | none => rfl
  | some arm =>
      have harm := List.mem_of_find?_eq_some hfind
      simp only [Option.map_some, Arm.crlf,
        argsOf?_crlf hplaceholder (hreturn arm harm) (hline arm hfind)]

theorem takeWord_crlf {script : ScriptNames} (hplaceholder : OneLine script.placeholder)
    {arms : List Arm} {word : Text} (hreturn : ∀ arm ∈ arms, '\r' ∉ arm.body)
    (hline : isStrategyName word = true → ∀ arm ∈ carrier? arms word, EchoOnLine arm.body)
    (state : Table × List ExtractionWarning) :
    takeWord script (arms.map Arm.crlf) state word = takeWord script arms state word := by
  rw [takeWord, takeWord]
  split
  · next hname => rw [lookUp_crlf hplaceholder hname hreturn (hline hname)]
  · rfl

theorem allArms_crlf (source : Text) : allArms (Text.crlf source) =
    ((allArms source).1.map Arm.crlf, (allArms source).2) := by
  have hstarts : (Place.start (Text.crlf source)).caseStarts =
      (Place.start source).caseStarts.map Place.crlf :=
    Place.caseStarts_crlf (Place.start source)
  simp only [allArms, hstarts]
  generalize (Place.start source).caseStarts = starts
  induction starts with
  | nil => rfl
  | cons start starts ih =>
      obtain ⟨harms, hwarnings⟩ := Prod.mk.inj ih
      simp only [List.map_cons, List.flatMap_cons, List.filterMap_cons, List.map_append,
        readArms?_crlf, Place.line_crlf, harms, hwarnings]
      cases readArms? start <;> rfl

theorem listedWords_crlf {function : Text} (hname : OneLine function) {source : Text}
    (hreturn : '\r' ∉ source)
    (hline : ∀ body, functionBody? function source = some body → EchoOnLine body.text) :
    listedWords function (Text.crlf source) = listedWords function source := by
  rw [listedWords, listedWords, functionBody?_crlf hname]
  cases hbody : functionBody? function source with
  | none => rfl
  | some body =>
      have hinside : '\r' ∉ body.text := fun hmem => hreturn (mem_of_mem_bodyText hbody hmem)
      simp only [Option.map_some, Body.crlf, echoed?_crlf hinside (hline body hbody)]
      cases echoed? body.text with
      | none => rfl
      | some list => simp only [Option.map_some, words_crlf]

end CaseTable.Extraction

namespace CaseTable

open CaseTable.Extraction CaseTable.Shell CaseTable.Text

/-- The names hold no part of a line end. -/
def ScriptNames.OneLine (script : ScriptNames) : Prop :=
  script.tableFunction.OneLine ∧ script.listFunction.OneLine ∧ script.placeholder.OneLine

/-- The bodies of the arms of the table function that offer something. -/
def tableBodies (script : ScriptNames) (source : Text) : List Text :=
  match tableStart script.tableFunction source with
  | .ok start => ((((readArms? start).map Prod.fst).getD []).filter hasName).map Arm.body
  | .error _ => []

/-- The body of the list function, and those of the arms that its names are
looked up in. -/
def listedBodies (script : ScriptNames) (source : Text) : List Text :=
  ((functionBody? script.listFunction source).map Body.text).toList ++
    match listedWords script.listFunction source with
    | .ok words => ((words.filter isStrategyName).filterMap
        (carrier? (allArms source).1)).map Arm.body
    | .error _ => []

/-- Whether the arms of the table function leave it to the list of names. -/
def armsGiveNothing (script : ScriptNames) (source : Text) : Bool :=
  match direct script source with
  | .ok arms => arms.table.isEmpty
  | .error _ => true

/-- The bodies whose echo the outcome depends on. -/
def bodiesRead (policy : Policy) (script : ScriptNames) (source : Text) : List Text :=
  match policy with
  | .direct => tableBodies script source
  | .names => listedBodies script source
  | .auto => tableBodies script source ++
      if armsGiveNothing script source then listedBodies script source else []

section

variable {script : ScriptNames} (hscript : script.OneLine) {source : Text}
  (hreturn : '\r' ∉ source)
include hscript hreturn

theorem direct_crlf (hline : ∀ body ∈ tableBodies script source, EchoOnLine body) :
    direct script (Text.crlf source) = direct script source := by
  obtain ⟨htable, -, hplaceholder⟩ := hscript
  have hmoved := tableStart_crlf htable source
  cases hstart : tableStart script.tableFunction source with
  | error cause =>
      rw [hstart] at hmoved
      rw [direct, direct, hstart, hmoved]
      rfl
  | ok start =>
      rw [hstart] at hmoved
      have hmoved : tableStart script.tableFunction (Text.crlf source) = .ok start.crlf := hmoved
      have harms := readArms?_crlf start
      cases hread : readArms? start with
      | none =>
          rw [hread] at harms
          have hsame := extract_direct_unterminated hmoved harms
          rw [Place.line_crlf] at hsame
          exact hsame.trans (extract_direct_unterminated hstart hread).symm
      | some read =>
          obtain ⟨arms, stop⟩ := read
          rw [hread] at harms
          have hbodies : tableBodies script source = (arms.filter hasName).map Arm.body := by
            rw [tableBodies, hstart]
            simp only [hread, Option.map_some, Option.getD_some]
          have hsame := ofArms_crlf hplaceholder
            (fun arm harm hmem => hreturn
              (mem_of_tableStart hstart (mem_of_mem_body hread harm hmem)))
            (fun arm harm hnamed => hline _ (by
              rw [hbodies]
              exact List.mem_map_of_mem (List.mem_filter.mpr ⟨harm, hnamed⟩)))
          exact (extract_direct_of_readArms? hmoved harms).trans
            ((congrArg Except.ok hsame).trans (extract_direct_of_readArms? hstart hread).symm)

theorem byNames_crlf (hline : ∀ body ∈ listedBodies script source, EchoOnLine body) :
    byNames script (Text.crlf source) = byNames script source := by
  obtain ⟨-, hlist, hplaceholder⟩ := hscript
  have hwords : listedWords script.listFunction (Text.crlf source) =
      listedWords script.listFunction source :=
    listedWords_crlf hlist hreturn fun body hbody => hline _ (by simp [listedBodies, hbody])
  rw [byNames, byNames, hwords]
  cases hlisted : listedWords script.listFunction source with
  | error cause => rfl
  | ok words =>
      have htake (state : Table × List ExtractionWarning) :
          ∀ word ∈ words, takeWord script ((allArms source).1.map Arm.crlf) state word =
            takeWord script (allArms source).1 state word := fun word hword =>
        takeWord_crlf hplaceholder
          (fun arm harm hmem => hreturn (mem_of_mem_allArms harm hmem))
          (fun hname arm hcarrier => hline _ (by
            rw [listedBodies, hlisted, List.mem_append]
            exact .inr (List.mem_map_of_mem (List.mem_filterMap.mpr
              ⟨word, List.mem_filter.mpr ⟨hword, hname⟩, hcarrier⟩)))) state
      simp only [allArms_crlf, List.foldl_ext _ _ _ htake]

end

/-- The outcome does not depend on the line ends, if the operand of every echo
that it depends on stands on the line of its echo. -/
theorem extract_crlf {policy : Policy} {script : ScriptNames} {source : Text}
    (hscript : script.OneLine) (hreturn : '\r' ∉ source)
    (hline : ∀ body ∈ bodiesRead policy script source, EchoOnLine body) :
    extract policy script (Text.crlf source) = extract policy script source := by
  cases policy with
  | direct => exact direct_crlf hscript hreturn hline
  | names => exact byNames_crlf hscript hreturn hline
  | auto =>
      rw [bodiesRead] at hline
      have hdirect := direct_crlf hscript hreturn fun body hbody =>
        hline body (List.mem_append_left _ hbody)
      -- the list of names is read only if the arms give nothing
      have hnames (hnothing : armsGiveNothing script source = true) :
          byNames script (Text.crlf source) = byNames script source :=
        byNames_crlf hscript hreturn fun body hbody => hline body (by
          rw [if_pos hnothing]
          exact List.mem_append_right _ hbody)
      rw [extract, extract, auto, auto, hdirect]
      cases harms : direct script source with
      | error cause =>
          have hnothing : armsGiveNothing script source = true := by
            rw [armsGiveNothing, harms]
          simp only [afterFailedArms, hnames hnothing]
      | ok arms =>
          by_cases hempty : arms.table.isEmpty = true
          · have hnothing : armsGiveNothing script source = true := by
              rw [armsGiveNothing, harms]
              exact hempty
            simp only [afterEmptyArms, hnames hnothing]
          · simp only [if_neg hempty]

instance (script : ScriptNames) : Decidable script.OneLine :=
  inferInstanceAs (Decidable (_ ∧ _ ∧ _))

/-- A quoted operand may go on over the end of the line. -/
theorem extract_crlf_quoted_operand :
    let source := ("list_tcp_strategies() \x7b\n echo \"fast slow \\\n safe\"\n\x7d\n" ++
      "# two of three\nget_tcp_strategy_options() \x7b\n case $1 in\n" ++
      "  fast|'slow') echo -n \"--x \\\n --y\" ;;\n  safe)\n   echo --z # plain\n   ;;\n" ++
      " esac\n\x7d\n").toList
    (extract .names .stock source).toOption.map (fun x => x.table.names) =
        some ["fast".toList, "slow".toList, "safe".toList] ∧
      '\r' ∉ source ∧ (∀ body ∈ bodiesRead .names .stock source, EchoOnLine body) ∧
      extract .names .stock (Text.crlf source) = extract .names .stock source := by
  intro source
  have hnames : (extract .names .stock source).toOption.map (fun x => x.table.names) =
      some ["fast".toList, "slow".toList, "safe".toList] := by
    decide +kernel
  have hreturn : '\r' ∉ source := by decide +kernel
  have hline : ∀ body ∈ bodiesRead .names .stock source, EchoOnLine body := by
    decide +kernel
  exact ⟨hnames, hreturn, hline, extract_crlf (by decide +kernel) hreturn hline⟩

/-- An operand without quotes that goes on over the end of the line is cut off
there, and keeps its backslash. -/
theorem not_extract_crlf :
    ¬ ∀ (policy : Policy) (script : ScriptNames) (source : Text), '\r' ∉ source →
      extract policy script (Text.crlf source) = extract policy script source := by
  intro hall
  let source := ("get_tcp_strategy_options() \x7b\n case $1 in\n" ++
    "  a) echo --x \\\n --y ;;\n esac\n\x7d\n").toList
  have hold : (extract .direct .stock source).toOption.map
      (fun x => x.table.get? "a".toList) = some (some "--x --y".toList) := by
    decide +kernel
  have hnew : (extract .direct .stock (Text.crlf source)).toOption.map
      (fun x => x.table.get? "a".toList) = some (some "--x \\".toList) := by
    decide +kernel
  rw [hall .direct .stock source (by decide +kernel), hold] at hnew
  exact absurd hnew (by decide)

end CaseTable
