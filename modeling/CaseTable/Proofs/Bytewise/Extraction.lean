import CaseTable.Proofs.Bytewise.Arms
import CaseTable.Proofs.Bytewise.Echo
import CaseTable.Proofs.Extraction.TableFunction

/-!
# Extractions, byte by byte

An extraction that scans bytes and slices the script by offsets. It may fail in
more ways than the one that reads characters, since every index and every slice
is checked, but it never does: it gives what the other one gives
(`extract_eq`).

What carries this is that an offset at which something is sliced belongs to a
place: the bounds of a function's body (`functionRange_eq`), the end of a head
(`headEnd_offset`), a dollar sign in the arguments (`nextDollar_of_dollar`), and
whatever the scanners hand out. In between they may stand inside a character
(`not_isBoundary_escape`).
-/

namespace CaseTable.Bytewise

open Shell Extraction

/-! ## Arguments -/

/-- What is kept in front of the next dollar sign, or with it, and what is left to
read behind it, or behind the reference that it opens. -/
def nextDollar (name rest : Text) : Except BadAccess (Option (Text × Text)) := do
  if '$' ∈ rest then
    let idx := Text.byteSize (rest.takeWhile fun c => c ≠ '$')
    let front ← rest.slice 0 idx
    let tail ← rest.slice idx rest.byteSize
    match (Text.afterStart? ['$'] tail).bind (Arguments.afterReference? name) with
    | some left => return some (front, left)
    | none => return some (front ++ ['$'], ← tail.slice 1 tail.byteSize)
  else
    return none

theorem nextDollar_of_dollar {front : Text} (h : '$' ∉ front) (name t : Text) :
    nextDollar name (front ++ '$' :: t) =
      .ok (some (match Arguments.afterReference? name t with
        | some left => (front, left)
        | none => (front ++ ['$'], t))) := by
  have hmem : '$' ∈ front ++ '$' :: t := List.mem_append_right _ List.mem_cons_self
  have hkept : ∀ c ∈ front, decide (c ≠ '$') = true := fun c hc =>
    decide_eq_true fun heq => h (heq ▸ hc)
  have htake : (front ++ '$' :: t).takeWhile (fun c => decide (c ≠ '$')) = front := by
    rw [List.takeWhile_append_of_pos hkept, List.takeWhile_cons_of_neg (by decide),
      List.append_nil]
  have hone : Text.slice ('$' :: t) 1 (Text.byteSize ('$' :: t)) = .ok t :=
    Text.slice_back ['$'] t
  have hdollar : Text.afterStart? ['$'] ('$' :: t) = some t :=
    Text.afterStart?_eq_some_iff.mpr rfl
  rw [nextDollar, if_pos hmem]
  simp only [htake, Text.slice_front, Text.slice_back, bind, Except.bind, hdollar, Option.bind]
  cases Arguments.afterReference? name t with
  | none => simp only [hone]; rfl
  | some left => rfl

theorem nextDollar_of_notMem {rest : Text} (h : '$' ∉ rest) (name : Text) :
    nextDollar name rest = .ok none := if_neg h

theorem length_lt_of_nextDollar {name rest kept left : Text}
    (h : nextDollar name rest = .ok (some (kept, left))) : left.length < rest.length := by
  by_cases hmem : '$' ∈ rest
  · obtain ⟨front, t, rfl, hfront⟩ := List.eq_append_cons_of_mem hmem
    rw [nextDollar_of_dollar hfront, Except.ok.injEq, Option.some.injEq] at h
    have hle : left.length ≤ t.length := by
      split at h
      · next hafter =>
          cases h
          exact Arguments.afterReference?_length_le hafter
      · cases h
        exact Nat.le_refl _
    rw [List.length_append, List.length_cons]
    omega
  · rw [nextDollar_of_notMem hmem] at h
    cases h

/-- Deletes the references to the variable from one dollar sign to the next. -/
def stripFrom (name rest : Text) : Except BadAccess Text :=
  match _ : nextDollar name rest with
  | .error cause => .error cause
  | .ok none => .ok rest
  | .ok (some (kept, left)) => (stripFrom name left).map (kept ++ ·)
termination_by rest.length
decreasing_by exact length_lt_of_nextDollar (by assumption)

def stripReferences (name raw : Text) : Except BadAccess Text :=
  if name = [] then .ok raw else stripFrom name raw

theorem stripReferences_append {front : Text} (h : '$' ∉ front) (name t : Text) :
    Arguments.stripReferences name (front ++ t) = front ++ Arguments.stripReferences name t := by
  induction front with
  | nil => rfl
  | cons c front ih =>
      rw [List.mem_cons, not_or] at h
      rw [List.cons_append, Arguments.stripReferences, if_neg fun hc => h.1 hc.1.symm, ih h.2]
      rfl

theorem stripReferences_dollar {name : Text} (h : name ≠ []) (t : Text) :
    Arguments.stripReferences name ('$' :: t) =
      match Arguments.afterReference? name t with
      | some left => Arguments.stripReferences name left
      | none => '$' :: Arguments.stripReferences name t := by
  rw [Arguments.stripReferences, if_pos ⟨rfl, h⟩]
  split <;> next h => rw [h]

theorem stripFrom_eq {name : Text} (hname : name ≠ []) (rest : Text) :
    stripFrom name rest = .ok (Arguments.stripReferences name rest) := by
  induction hlen : rest.length using Nat.strongRecOn generalizing rest with
  | ind n ih =>
    by_cases hmem : '$' ∈ rest
    · obtain ⟨front, t, rfl, hfront⟩ := List.eq_append_cons_of_mem hmem
      have hnext := nextDollar_of_dollar hfront name t
      rw [stripReferences_append hfront, stripReferences_dollar hname, stripFrom]
      split
      · next hfault => cases hnext.symm.trans hfault
      · next hnone => cases hnext.symm.trans hnone
      · next kept left hsome =>
          rw [ih _ (hlen ▸ length_lt_of_nextDollar hsome) left rfl]
          have hpair := Option.some.inj (Except.ok.inj (hnext.symm.trans hsome))
          split at hpair <;> cases hpair
          · rfl
          · exact congrArg Except.ok (List.append_assoc front ['$'] _)
    · have hkept := stripReferences_append hmem name []
      rw [List.append_nil, Arguments.stripReferences, List.append_nil] at hkept
      rw [hkept, stripFrom]
      split
      · next hfault => cases (nextDollar_of_notMem hmem name).symm.trans hfault
      · rfl
      · next hsome => cases (nextDollar_of_notMem hmem name).symm.trans hsome

theorem stripReferences_nil (raw : Text) : Arguments.stripReferences [] raw = raw := by
  induction raw with
  | nil => rw [Arguments.stripReferences]
  | cons c raw ih => rw [Arguments.stripReferences, if_neg fun h => h.2 rfl, ih]

theorem stripReferences_eq (name raw : Text) :
    stripReferences name raw = .ok (Arguments.stripReferences name raw) := by
  rw [stripReferences]
  split
  · next hname => rw [hname, stripReferences_nil]
  · next hname => exact stripFrom_eq hname raw

/-- The arguments that the body of an arm prints. -/
def argsOf? (placeholder body : Text) : Except BadAccess (Option Text) := do
  match ← echoArgument body with
  | none => return none
  | some raw => return some (Arguments.normalize (← stripReferences placeholder raw))

theorem argsOf?_eq (placeholder body : Text) :
    argsOf? placeholder body = .ok (Extraction.argsOf? placeholder body) := by
  rw [argsOf?, echoArgument_eq, Extraction.argsOf?]
  cases echoed? body with
  | none => rfl
  | some raw =>
      simp only [bind, Except.bind, stripReferences_eq]
      rfl

/-! ## Places of a script -/

/-- The ends of the body of a function. A body that never closes runs to the end. -/
def functionRange (name source : Text) : Except BadAccess (Option (Nat × Nat)) := do
  match definition? name source with
  | none => return none
  | some start =>
      return some (start.offset, (← blockEnd source start.offset).getD source.byteSize)

/-- The number of the line that an offset lies on. -/
def lineOf (source : Text) (offset : Nat) : Except BadAccess Nat := do
  return (← source.slice 0 (min offset source.byteSize)).count '\n' + 1

/-- At a place the arms are those that are read there. -/
theorem caseArms_offset (p : Place) : caseArms p.text p.offset =
    .ok (match readArms? p with
      | some (arms, _) => .ok arms
      | none => .error (.unterminated p.offset)) := by
  refine (caseArms_eq (.inl p.isBoundary_offset)).trans (congrArg Except.ok ?_)
  change (match readArms? ((Place.start p.text).advanceBytes p.offset) with
    | some (arms, _) => Except.ok arms
    | none => Except.error (ArmsError.unterminated p.offset)) = _
  rw [Place.advanceBytes_offset]

theorem functionRange_eq (name source : Text) :
    functionRange name source = .ok ((functionBody? name source).map fun body =>
      (body.start.offset, body.start.offset + body.text.byteSize)) := by
  rw [functionRange, functionBody?]
  cases hstart : definition? name source with
  | none => rfl
  | some start =>
      have htext : start.text = source := (definition?_move hstart).1.symm
      have hend := blockEnd_eq (.inl start.isBoundary_offset)
      rw [blockEndAt?, Place.advanceBytes_offset] at hend
      rw [← htext]
      simp only [hend, bind, Except.bind, Option.map_some]
      cases hblock : start.blockEnd? 0 with
      | none =>
          rw [Option.map_none, Option.getD_none, ← Text.length_toBytes]
          exact congrArg (fun stop => Except.ok (some (start.offset, stop))) start.length_bytes
      | some e =>
          obtain ⟨s, hs⟩ := Place.exists_passes_blockEnd? hblock
          rw [Option.map_some, Option.getD_some, hs.offset_eq, ← hs.upTo_eq]
          rfl

/-- A body is the text between two places of the script. -/
theorem exists_passes_body {name source : Text} {body : Body}
    (h : functionBody? name source = some body) :
    body.start.text = source ∧ ∃ e, body.start.Passes body.text e := by
  obtain ⟨hstart, hahead⟩ := functionBody?_eq_some_iff.mp h
  exact ⟨(definition?_move hstart).1.symm,
    ⟨body.text.reverse ++ body.start.behind, afterBody body.start⟩, hahead, rfl⟩

theorem slice_body {name source : Text} {body : Body}
    (h : functionBody? name source = some body) :
    source.slice body.start.offset (body.start.offset + body.text.byteSize) = .ok body.text := by
  obtain ⟨htext, e, he⟩ := exists_passes_body h
  rw [← htext, ← he.offset_eq, he.slice_eq]

theorem lineOf_offset (p : Place) : lineOf p.text p.offset = .ok p.line := by
  have hle : p.offset ≤ p.text.byteSize := by
    rw [← Text.length_toBytes]
    exact p.length_bytes ▸ Nat.le_add_right _ _
  rw [lineOf, Nat.min_eq_left hle, p.slice_behind]
  exact congrArg (fun n => Except.ok (n + 1)) List.count_reverse

/-! ## Reading the arms -/

/-- The strategies that an arm offers. -/
def offers (placeholder : Text) (arm : Arm) : Except BadAccess (List Entry) := do
  match ← argsOf? placeholder arm.body with
  | none => return []
  | some [] => return []
  | some args => return (arm.labels.filter isStrategyName).map fun label => ⟨label, args⟩

def takeArm (placeholder : Text) (state : Table × List ExtractionWarning) (arm : Arm) :
    Except BadAccess (Table × List ExtractionWarning) := do
  return (← offers placeholder arm).foldl takeOffer state

/-- Where the arms of the first case statement in the table function start. -/
def tableStart (function source : Text) : Except BadAccess (Except ExtractionError Nat) := do
  match ← functionRange function source with
  | none => return .error (.noFunction function)
  | some (start, stop) =>
      let body ← source.slice start stop
      match afterFirstCase? none body with
      | none => return .error (.noCase function)
      | some rest => return .ok (start + (body.byteSize - rest.byteSize))

def direct (script : ScriptNames) (source : Text) :
    Except BadAccess (Except ExtractionError Extraction) := do
  match ← tableStart script.tableFunction source with
  | .error cause => return .error cause
  | .ok start =>
      match ← caseArms source start with
      | .error (.unterminated opened) =>
          return .error (.unterminated script.tableFunction (← lineOf source opened))
      | .ok arms =>
          let (table, warnings) ← arms.foldlM (takeArm script.placeholder) (∅, [])
          return .ok ⟨table, .direct, warnings⟩

theorem takeArm_eq (placeholder : Text) (state : Table × List ExtractionWarning) (arm : Arm) :
    takeArm placeholder state arm =
      .ok ((Extraction.offers placeholder arm).foldl takeOffer state) := by
  rw [takeArm, offers, argsOf?_eq, Extraction.offers]
  rcases Extraction.argsOf? placeholder arm.body with _ | _ | _ <;> rfl

theorem tableStart_eq (function source : Text) :
    tableStart function source = .ok ((Extraction.tableStart function source).map Place.offset) := by
  rw [tableStart, functionRange_eq, Extraction.tableStart]
  cases hbody : functionBody? function source with
  | none => rfl
  | some body =>
      obtain ⟨-, e, he⟩ := exists_passes_body hbody
      simp only [Option.map_some, bind, Except.bind, slice_body hbody]
      cases hcase : afterFirstCase? none body.text with
      | none => rfl
      | some rest =>
          -- the bytes before the arms are those of the body less those of its rest
          obtain ⟨passed, -, hrest⟩ := exists_of_afterFirstCase? hcase
          have hpassed := body.start.passes_advance passed.length
          rw [he.1, hrest, List.append_assoc, List.take_left] at hpassed
          simp only [hrest, List.length_append, Text.byteSize_append, Nat.add_sub_cancel,
            ← hpassed.offset_eq]
          rfl

theorem direct_eq (script : ScriptNames) (source : Text) :
    direct script source = .ok (Extraction.direct script source) := by
  rw [direct, tableStart_eq, Extraction.direct]
  cases hstart : Extraction.tableStart script.tableFunction source with
  | error cause => rfl
  | ok start =>
      have harms := caseArms_offset start
      have hline := lineOf_offset start
      rw [text_tableStart hstart] at harms hline
      simp only [Except.map, bind, Except.bind, harms]
      cases readArms? start with
      | none =>
          simp only [hline]
          rfl
      | some read =>
          have hfold := Checked.foldlM_eq (takeArm_eq script.placeholder) read.1 (∅, [])
          simp only [hfold, ofArms, List.foldl_flatMap]
          rfl

/-! ## Looking up the names -/

/-- The words that the list function echoes. -/
def listedWords (function source : Text) :
    Except BadAccess (Except ExtractionError (List Text)) := do
  match ← functionRange function source with
  | none => return .error (.noFunction function)
  | some (start, stop) =>
      match ← echoArgument (← source.slice start stop) with
      | none => return .error (.noList function)
      | some list => return .ok (list.words.filter fun word => word ≠ ['\\'])

/-- The offset behind the first head of a case statement from an offset on. -/
def headEnd (source : Text) (pos : Nat) : Except BadAccess (Option Nat) := do
  let before ← source.slice 0 pos
  let ahead ← source.slice pos source.byteSize
  return (afterFirstCase? before.getLast? ahead).map fun rest => source.byteSize - rest.byteSize

theorem lt_of_headEnd {source : Text} {pos next : Nat}
    (h : headEnd source pos = .ok (some next)) : pos < next ∧ next ≤ source.byteSize := by
  obtain ⟨before, -, h⟩ := Checked.exists_of_bind_eq_ok h
  obtain ⟨ahead, hahead, h⟩ := Checked.exists_of_bind_eq_ok h
  obtain ⟨rest, hcase, rfl⟩ := Option.map_eq_some_iff.mp (Except.ok.inj h)
  obtain ⟨passed, hne, rfl⟩ := exists_of_afterFirstCase? hcase
  obtain ⟨front, back, -, rfl, hstop⟩ := Text.slice_eq_ok_iff.mp hahead
  have hpos : 0 < Text.byteSize passed :=
    Nat.pos_of_ne_zero (mt Text.byteSize_eq_zero_iff.mp hne)
  rw [Text.byteSize_append] at hstop
  omega

/-- The arms of a statement, or a warning that it has no `esac`. -/
def readStatement (source : Text) (start : Nat) :
    Except BadAccess (List Arm × List ExtractionWarning) := do
  match ← caseArms source start with
  | .ok arms => return (arms, [])
  | .error (.unterminated opened) => return ([], [.unterminatedCase (← lineOf source opened)])

/-- The arms of every case statement from an offset on. -/
def armsFrom (source : Text) (pos : Nat) :
    Except BadAccess (List Arm × List ExtractionWarning) :=
  match _ : headEnd source pos with
  | .error cause => .error cause
  | .ok none => .ok ([], [])
  | .ok (some next) => do
      let (arms, warnings) ← readStatement source next
      let (laterArms, laterWarnings) ← armsFrom source next
      return (arms ++ laterArms, warnings ++ laterWarnings)
termination_by source.byteSize - pos
decreasing_by
  have := lt_of_headEnd (by assumption)
  omega

/-- The arguments of a listed name. -/
def lookUp (placeholder : Text) (arms : List Arm) (name : Text) :
    Except BadAccess (Text × List ExtractionWarning) := do
  match arms.find? fun arm => arm.labels.contains name with
  | none => return ([], [.noArm name])
  | some arm =>
      match ← argsOf? placeholder arm.body with
      | none => return ([], [.noEcho name])
      | some args => return (args, [])

def takeWord (script : ScriptNames) (arms : List Arm) (state : Table × List ExtractionWarning)
    (word : Text) : Except BadAccess (Table × List ExtractionWarning) := do
  if isStrategyName word then
    let (args, missing) ← lookUp script.placeholder arms word
    let (table, isNew) := state.1.insert word args
    return (table, state.2 ++ missing ++ if isNew then [] else [.listedTwice word])
  else
    return (state.1, state.2 ++ [.notAName word script.listFunction])

def byNames (script : ScriptNames) (source : Text) :
    Except BadAccess (Except ExtractionError Extraction) := do
  match ← listedWords script.listFunction source with
  | .error cause => return .error cause
  | .ok words =>
      let (arms, skipped) ← armsFrom source 0
      let (table, warnings) ← words.foldlM (takeWord script arms) (∅, skipped)
      return .ok ⟨table, .names, warnings⟩

theorem listedWords_eq (function source : Text) :
    listedWords function source = .ok (Extraction.listedWords function source) := by
  rw [listedWords, functionRange_eq, Extraction.listedWords]
  cases hbody : functionBody? function source with
  | none => rfl
  | some body =>
      simp only [Option.map_some, bind, Except.bind, slice_body hbody, echoArgument_eq]
      cases echoed? body.text <;> rfl

theorem headEnd_offset (p : Place) : headEnd p.text p.offset =
    .ok ((afterFirstCase? p.previous? p.ahead).map fun rest =>
      (p.advance (p.ahead.length - rest.length)).offset) := by
  rw [headEnd, p.slice_behind, p.slice_ahead]
  simp only [bind, Except.bind, List.getLast?_reverse]
  change Except.ok ((afterFirstCase? p.previous? p.ahead).map _) = _
  cases hcase : afterFirstCase? p.previous? p.ahead with
  | none => rfl
  | some rest =>
      obtain ⟨passed, -, hrest⟩ := exists_of_afterFirstCase? hcase
      have hpassed := p.passes_advance passed.length
      rw [hrest, List.take_left] at hpassed
      have hsize : p.text.byteSize = p.offset + Text.byteSize passed + rest.byteSize := by
        rw [← Text.length_toBytes, Nat.add_assoc, ← Text.byteSize_append, ← hrest]
        exact p.length_bytes
      rw [Option.map_some, Option.map_some, hsize, Nat.add_sub_cancel, hrest, List.length_append,
        Nat.add_sub_cancel, hpassed.offset_eq]

/-- What a statement gives whose arms start at a place. -/
def statementAt (start : Place) : List Arm × List ExtractionWarning :=
  match readArms? start with
  | some (arms, _) => (arms, [])
  | none => ([], [.unterminatedCase start.line])

theorem readStatement_offset (p : Place) :
    readStatement p.text p.offset = .ok (statementAt p) := by
  rw [readStatement, caseArms_offset, statementAt]
  cases readArms? p with
  | none =>
      simp only [bind, Except.bind, lineOf_offset]
      rfl
  | some read => rfl

theorem allArms_eq (source : Text) : allArms source =
    ((Place.start source).caseStarts.flatMap fun start => (statementAt start).1,
      (Place.start source).caseStarts.flatMap fun start => (statementAt start).2) := by
  rw [allArms]
  generalize (Place.start source).caseStarts = starts
  induction starts with
  | nil => rfl
  | cons start starts ih =>
      obtain ⟨harms, hwarnings⟩ := Prod.mk.inj ih
      rw [List.map_cons, List.flatMap_cons, List.filterMap_cons, harms, hwarnings,
        List.flatMap_cons, List.flatMap_cons, statementAt]
      cases readArms? start <;> rfl

theorem armsFrom_offset (p : Place) : armsFrom p.text p.offset =
    .ok (p.caseStarts.flatMap fun start => (statementAt start).1,
      p.caseStarts.flatMap fun start => (statementAt start).2) := by
  have hhead := headEnd_offset p
  fun_induction Place.caseStarts p with
  | case1 p hnone =>
      rw [hnone] at hhead
      rw [armsFrom]
      split
      · next hfault => cases hhead.symm.trans hfault
      · rfl
      · next hsome => cases hhead.symm.trans hsome
  | case2 p rest hcase q ih =>
      have hq := p.passes_advance (p.ahead.length - rest.length)
      have hstatement := readStatement_offset q
      have hlater := ih (headEnd_offset q)
      rw [hq.text_eq] at hstatement hlater
      rw [hcase] at hhead
      rw [armsFrom]
      split
      · next hfault => cases hhead.symm.trans hfault
      · next hnone => cases hhead.symm.trans hnone
      · next hsome =>
          cases hhead.symm.trans hsome
          change (readStatement p.text q.offset).bind _ = _
          rw [hstatement]
          change (armsFrom p.text q.offset).bind _ = _
          rw [hlater]
          rfl

theorem takeWord_eq (script : ScriptNames) (arms : List Arm)
    (state : Table × List ExtractionWarning) (word : Text) :
    takeWord script arms state word = .ok (Extraction.takeWord script arms state word) := by
  have hlookUp : lookUp script.placeholder arms word =
      .ok (Extraction.lookUp script.placeholder arms word) := by
    rw [lookUp, Extraction.lookUp]
    cases arms.find? fun arm => arm.labels.contains word with
    | none => rfl
    | some arm =>
        simp only [argsOf?_eq]
        cases Extraction.argsOf? script.placeholder arm.body <;> rfl
  rw [takeWord, Extraction.takeWord, hlookUp]
  split <;> rfl

theorem byNames_eq (script : ScriptNames) (source : Text) :
    byNames script source = .ok (Extraction.byNames script source) := by
  have harms : armsFrom source 0 = .ok (allArms source) := by
    rw [allArms_eq]
    exact armsFrom_offset (.start source)
  rw [byNames, listedWords_eq, Extraction.byNames]
  cases Extraction.listedWords script.listFunction source with
  | error cause => rfl
  | ok words =>
      have hfold := Checked.foldlM_eq (takeWord_eq script (allArms source).1) words
        (∅, (allArms source).2)
      simp only [bind, Except.bind, harms, hfold]
      rfl

/-! ## Policies -/

def auto (script : ScriptNames) (source : Text) :
    Except BadAccess (Except ExtractionError Extraction) := do
  match ← direct script source with
  | .ok arms =>
      if arms.table.isEmpty then
        match ← byNames script source with
        | .ok names =>
            let fellBack := .armsEmpty script.tableFunction script.listFunction
            return .ok { names with warnings := fellBack :: arms.warnings ++ names.warnings }
        | .error cause =>
            return .ok { arms with warnings := arms.warnings ++ [.listFailed cause] }
      else
        return .ok arms
  | .error cause =>
      match ← byNames script source with
      | .ok names =>
          let fellBack := .armsFailed cause script.listFunction
          return .ok { names with warnings := fellBack :: names.warnings }
      | .error _ => return .error cause

def extract (policy : Policy) (script : ScriptNames) (source : Text) :
    Except BadAccess (Except ExtractionError Extraction) :=
  match policy with
  | .direct => direct script source
  | .names => byNames script source
  | .auto => auto script source

theorem auto_eq (script : ScriptNames) (source : Text) :
    auto script source = .ok (Extraction.auto script source) := by
  rw [auto, direct_eq, Extraction.auto]
  cases Extraction.direct script source with
  | error cause =>
      simp only [bind, Except.bind, byNames_eq, afterFailedArms]
      cases Extraction.byNames script source <;> rfl
  | ok arms =>
      simp only [bind, Except.bind, byNames_eq, afterEmptyArms]
      split
      · cases Extraction.byNames script source <;> rfl
      · rfl

theorem extract_eq (policy : Policy) (script : ScriptNames) (source : Text) :
    extract policy script source = .ok (CaseTable.extract policy script source) := by
  cases policy with
  | auto => exact auto_eq script source
  | direct => exact direct_eq script source
  | names => exact byNames_eq script source

/-! ## Boundaries -/

/-- Where a group ends is the offset of a place. -/
theorem isBoundary_blockEndAt? {source : Text} {start stop : Nat}
    (h : source.isBoundary start = true ∨ source.byteSize ≤ start)
    (hstop : blockEndAt? source start = some stop) : source.isBoundary stop = true := by
  obtain ⟨p, rfl, -, hplace⟩ := exists_place h
  rw [blockEndAt?, hplace] at hstop
  obtain ⟨e, he, rfl⟩ := Option.map_eq_some_iff.mp hstop
  obtain ⟨s, hs⟩ := Place.exists_passes_blockEnd? he
  rw [← hs.text_eq]
  exact e.isBoundary_offset

theorem two_le_utf8Size {c : Char} (h : IsHigh c) : 2 ≤ c.utf8Size := by
  have hlarge : ¬ c.val.toNat ≤ 127 := Nat.not_le.mpr h
  refine Nat.le_trans ?_ (Nat.le_of_eq (if_neg hlarge).symm)
  split
  · exact Nat.le_refl _
  · split <;> decide

/-- Behind a backslash before a character outside ASCII the cursor is inside the
character. -/
theorem not_isBoundary_escape (behind ahead : Text) {c : Char} (h : IsHigh c) :
    (behind ++ '\\' :: c :: ahead).isBoundary
      (advance (Text.toBytes (behind ++ '\\' :: c :: ahead)) behind.byteSize 2) = false := by
  have hsize := two_le_utf8Size h
  have hslash : ('\\' : Char).utf8Size = 1 := rfl
  have hle : behind.byteSize + 2 ≤
      (Text.toBytes (behind ++ '\\' :: c :: ahead)).length := by
    rw [Text.length_toBytes, Text.byteSize_append, Text.byteSize_cons, Text.byteSize_cons, hslash]
    omega
  have hinside : Text.isBoundary 1 (c :: ahead) = false := by
    rw [Text.isBoundary, decide_eq_false (show ¬ c.utf8Size ≤ 1 by omega)]
    rfl
  rw [advance_of_le hle, Text.isBoundary_append_add]
  exact hinside

/-- Every index and every slice is good, of a scan that starts at a boundary or
behind the end and of every extraction: they give what reading the characters
gives. A group ends at a boundary. Yet the cursor does not stay on boundaries. -/
theorem slices_at_boundaries {source : Text} {start : Nat}
    (h : source.isBoundary start = true ∨ source.byteSize ≤ start) :
    caseArms source start = .ok (armsAt source start) ∧
      blockEnd source start = .ok (blockEndAt? source start) ∧
      (∀ stop, blockEnd source start = .ok (some stop) → source.isBoundary stop = true) ∧
      (∀ body, echoArgument body = .ok (echoed? body)) ∧
      (∀ policy script,
        extract policy script source = .ok (CaseTable.extract policy script source)) ∧
      ∀ behind c ahead, source = behind ++ '\\' :: c :: ahead → IsHigh c →
        source.isBoundary (advance (Text.toBytes source) behind.byteSize 2) = false := by
  refine ⟨caseArms_eq h, blockEnd_eq h, fun stop hstop => ?_, echoArgument_eq,
    fun policy script => extract_eq policy script source, ?_⟩
  · rw [blockEnd_eq h] at hstop
    exact isBoundary_blockEndAt? h (Except.ok.inj hstop)
  · rintro behind c ahead rfl hc
    exact not_isBoundary_escape behind ahead hc

/-- An escape is cut off in the middle of its character, in the label of an arm
and in what the arm prints. -/
theorem slices_at_boundaries_escape :
    let source : Text := "\\\u00e9) echo \\\u00e9 ;; esac".toList
    source.isBoundary 0 = true ∧
      source.isBoundary (advance (Text.toBytes source) 0 2) = false ∧
      caseArms source 0 = .ok (.ok [⟨["\\\u00e9".toList], " echo \\\u00e9 ".toList⟩]) ∧
      echoArgument " echo \\\u00e9 ".toList = .ok (some "\\\u00e9".toList) := by
  intro source
  have hstart : source.isBoundary 0 = true := by decide +kernel
  have harms : (armsAt source 0).toOption =
      some [⟨["\\\u00e9".toList], " echo \\\u00e9 ".toList⟩] := by
    decide +kernel
  have hprinted : echoed? " echo \\\u00e9 ".toList = some "\\\u00e9".toList := by
    decide +kernel
  obtain ⟨hcaseArms, -, -, hecho, -, hinside⟩ := slices_at_boundaries (.inl hstart)
  refine ⟨hstart, hinside [] '\u00e9' _ rfl (by decide), ?_, ?_⟩
  · rw [hcaseArms, eq_ok_of_toOption harms]
  · rw [hecho, hprinted]

/-- From inside a character on a slice is bad. -/
example : (caseArms "\u00e9) ;; esac".toList 1).toOption = none := by
  decide +kernel

end CaseTable.Bytewise
