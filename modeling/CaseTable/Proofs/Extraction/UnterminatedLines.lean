import CaseTable.Proofs.Extraction.Comments
import CaseTable.Proofs.Extraction.Names
import CaseTable.Proofs.Extraction.TableFunction

/-!
# The line of a statement without its end

A case statement without its `esac` is reported with a line, and the line is
that on which its head ends. So it is too high by the line feeds in the head:
the subject may stand on a later line than `case`, and `in` on a later one than
the subject (`unterminated_line`).

The direct policy searches the body of the table function and reports the first
head in it. The names policy goes through the heads of the whole script and
warns of each that has no end; the listed names add no such warning
(`filterMap_takeWords`).
-/

namespace CaseTable

theorem Place.Passes.line_eq {p q : Place} {s : Text} (h : p.Passes s q) :
    q.line = p.line + s.count '\n' := by
  rw [line, line, h.2, List.count_append, List.count_reverse]
  omega

/-- The line in a warning about a statement without its end. -/
def ExtractionWarning.unterminatedLine? : ExtractionWarning → Option Nat
  | .unterminatedCase line => some line
  | _ => none

namespace Extraction

open Shell

/-- The first head of a case statement in the body of a function, by the places
in the script where it starts and where it ends. Nothing behind the body is
looked at. -/
def IsTableHead (function source : Text) (p q : Place) : Prop :=
  ∃ body gap head rest, functionBody? function source = some body ∧
    body.text = gap ++ (head ++ rest) ∧
    Place.IsCaseHead ⟨gap.reverse, head ++ rest⟩ ⟨head.reverse ++ gap.reverse, rest⟩ ∧
    (∀ f e, (Place.start body.text).Leads f → Place.IsCaseHead f e →
      (⟨gap.reverse, head ++ rest⟩ : Place).Leads f) ∧
    body.start.Passes gap p ∧ p.Passes head q

/-- No head starts in a text that is passed, so those ahead of it are ahead of what
follows. -/
theorem leads_of_startsIn {behind passed rest : Text} {f e : Place}
    (h : startsIn caseAt behind.head? rest passed = false)
    (hf : (⟨behind, passed ++ rest⟩ : Place).Leads f) (hhead : Place.IsCaseHead f e) :
    (⟨passed.reverse ++ behind, rest⟩ : Place).Leads f := by
  induction passed generalizing behind with
  | nil => exact hf
  | cons c passed ih =>
      obtain ⟨hhere, hlater⟩ := Bool.or_eq_false_iff.mp h
      rcases Place.leads_cons_iff.mp hf with rfl | hbehind
      · have hsome : caseAt behind.head? (c :: (passed ++ rest)) = true :=
          Option.isSome_of_eq_some hhead.2
        cases hsome.symm.trans hhere
      · rw [List.reverse_cons, List.append_assoc]
        exact ih hlater hbehind

/-- The table starts behind the first head in the body. -/
theorem exists_isTableHead {function source : Text} {q : Place}
    (h : tableStart function source = .ok q) :
    ∃ p, (Place.start source).Leads p ∧ p.Leads q ∧ IsTableHead function source p q := by
  obtain ⟨body, passed, rest, hbody, hcase, -, htext, rfl⟩ := tableStart_eq_ok_iff.mp h
  obtain ⟨hstart, hahead⟩ := functionBody?_eq_some_iff.mp hbody
  obtain ⟨f, e, ⟨gap, hgap⟩, ⟨⟨head, hhead⟩, hfound⟩, hrest, hfirst⟩ :=
    @Place.exists_isCaseHead_of_afterFirstCase? [] _ _ hcase
  obtain ⟨behind, ahead⟩ := f
  obtain ⟨behind', ahead'⟩ := e
  obtain ⟨hgapText, hgapBehind⟩ := hgap
  obtain ⟨hheadText, hheadBehind⟩ := hhead
  simp only [List.append_nil] at hgapText hgapBehind hheadText hheadBehind hrest
  subst hgapBehind hheadBehind hrest hheadText
  have hpassed : passed = gap ++ head := by
    rw [htext, ← List.append_assoc] at hgapText
    exact List.append_cancel_right hgapText
  have hbegin : (Place.start source).Passes body.start.behind.reverse body.start :=
    ⟨(definition?_move hstart).1, by rw [Place.start]; simp⟩
  have hgapPasses : body.start.Passes gap
      ⟨gap.reverse ++ body.start.behind, head ++ (ahead' ++ afterBody body.start)⟩ :=
    ⟨by rw [hahead, hgapText, List.append_assoc, List.append_assoc], rfl⟩
  have hheadPasses : (⟨gap.reverse ++ body.start.behind,
        head ++ (ahead' ++ afterBody body.start)⟩ : Place).Passes head
      ⟨passed.reverse ++ body.start.behind, ahead' ++ afterBody body.start⟩ :=
    ⟨rfl, by rw [hpassed, List.reverse_append, List.append_assoc]⟩
  exact ⟨_, ⟨_, hbegin.trans hgapPasses⟩, ⟨_, hheadPasses⟩, body, gap, head, ahead', hbody,
    hgapText, ⟨⟨head, rfl, rfl⟩, hfound⟩, hfirst, hgapPasses, hheadPasses⟩

/-- A listed word gives no warning about a statement. -/
theorem filterMap_takeWord (script : ScriptNames) (arms : List Arm)
    (state : Table × List ExtractionWarning) (word : Text) :
    (takeWord script arms state word).2.filterMap ExtractionWarning.unterminatedLine? =
      state.2.filterMap ExtractionWarning.unterminatedLine? := by
  have hlookUp : (lookUp script.placeholder arms word).2.filterMap
      ExtractionWarning.unterminatedLine? = [] := by
    unfold lookUp
    split
    · rfl
    · split <;> rfl
  rw [takeWord]
  split
  · rw [List.filterMap_append, List.filterMap_append, hlookUp]
    split <;> simp [ExtractionWarning.unterminatedLine?]
  · simp [ExtractionWarning.unterminatedLine?]

theorem filterMap_takeWords (script : ScriptNames) (arms : List Arm) (words : List Text) :
    ∀ state : Table × List ExtractionWarning,
      (words.foldl (takeWord script arms) state).2.filterMap
          ExtractionWarning.unterminatedLine? =
        state.2.filterMap ExtractionWarning.unterminatedLine? := by
  induction words with
  | nil => exact fun state => rfl
  | cons word words ih =>
      intro state
      rw [List.foldl_cons, ih, filterMap_takeWord]

/-- The heads, each with its start and its end, of the statements that have no
`esac`. -/
def unterminatedHeads (heads : List (Place × Place)) : List (Place × Place) :=
  heads.filter fun head => (readArms? head.2).isNone

/-- Every statement without its end is warned of with the line on which its head
ends. -/
theorem filterMap_allArms {source : Text} {heads : List (Place × Place)}
    (h : heads.map Prod.snd = (Place.start source).caseStarts) :
    (allArms source).2.filterMap ExtractionWarning.unterminatedLine? =
      (unterminatedHeads heads).map fun head => head.2.line := by
  rw [allArms, ← h, unterminatedHeads]
  simp only [List.filterMap_map, List.filterMap_filterMap]
  clear h
  induction heads with
  | nil => rfl
  | cons head heads ih =>
      rw [List.filterMap_cons, ih, List.filter_cons]
      cases hread : readArms? head.2 <;> simp [hread, ExtractionWarning.unterminatedLine?]

end Extraction

open Extraction Shell

/-- The line that is given for a statement without its `esac`, by the direct
policy in its error and by the names policy in a warning for each such
statement, is the line of the `case` and the line feeds in the head besides. So
it is the line of the `case` just for a head that stands on one line. -/
theorem unterminated_line (script : ScriptNames) (source : Text) :
    (∀ function line, extract .direct script source = .error (.unterminated function line) →
      function = script.tableFunction ∧
      ∃ p q, (Place.start source).Leads p ∧ IsTableHead function source p q ∧
        readArms? q = none ∧ line = p.line + (p.upTo q).count '\n' ∧
        (line = p.line ↔ '\n' ∉ p.upTo q)) ∧
    (∀ x, extract .names script source = .ok x →
      ∃ heads, ((Place.start source).CaseHeads heads ∧
          ∀ others, (Place.start source).CaseHeads others → others = heads) ∧
        x.warnings.filterMap ExtractionWarning.unterminatedLine? =
          (unterminatedHeads heads).map (fun h => h.1.line + (h.1.upTo h.2).count '\n') ∧
        (x.warnings.filterMap ExtractionWarning.unterminatedLine? =
            (unterminatedHeads heads).map (fun h => h.1.line) ↔
          ∀ h ∈ unterminatedHeads heads, '\n' ∉ h.1.upTo h.2)) := by
  have hline {p q : Place} (hpq : p.Leads q) : q.line = p.line + (p.upTo q).count '\n' := by
    obtain ⟨s, hs⟩ := hpq
    rw [hs.line_eq, hs.upTo_eq]
  have hone (p q : Place) :
      p.line + (p.upTo q).count '\n' = p.line ↔ '\n' ∉ p.upTo q := by
    rw [Nat.add_eq_left, List.count_eq_zero]
  constructor
  · intro function line h
    cases hstart : tableStart script.tableFunction source with
    | error cause =>
        rw [extract, direct, hstart] at h
        cases h
        unfold tableStart at hstart
        split at hstart
        · cases hstart
        · split at hstart <;> cases hstart
    | ok q =>
        cases hread : readArms? q with
        | some read =>
            obtain ⟨arms, stop⟩ := read
            cases (extract_direct_of_readArms? hstart hread).symm.trans h
        | none =>
            cases (extract_direct_unterminated hstart hread).symm.trans h
            obtain ⟨p, hp, hpq, htable⟩ := exists_isTableHead hstart
            refine ⟨rfl, p, q, hp, htable, hread, hline hpq, ?_⟩
            rw [hline hpq]
            exact hone p q
  · intro x h
    obtain ⟨body, list, -, -, hfold⟩ := exists_takeWords_of_byNames h
    obtain ⟨heads, hheads, hstarts⟩ := (Place.start source).exists_caseHeads
    have hwarnings : x.warnings.filterMap ExtractionWarning.unterminatedLine? =
        (unterminatedHeads heads).map fun h => h.1.line + (h.1.upTo h.2).count '\n' := by
      rw [(Prod.mk.inj hfold).2, filterMap_takeWords, filterMap_allArms hstarts]
      refine List.map_congr_left fun head hhead => hline ?_
      exact (hheads.isHead head (List.mem_filter.mp hhead).1).2.1
    refine ⟨heads, ⟨hheads, fun others hother => hother.unique hheads⟩, hwarnings, ?_⟩
    rw [hwarnings, List.map_inj_left]
    exact forall₂_congr fun head _ => hone head.1 head.2

/-- Here `in` stands on the line behind that of `case`. -/
theorem unterminated_line_two_lines :
    let source := ("get_tcp_strategy_options() \x7b\n case $1\n in\n  a) echo \"--a\" ;;\n" ++
      "\x7d\nlist_tcp_strategies() \x7b\n echo \"a\"\n\x7d\n").toList
    let function := ScriptNames.stock.tableFunction
    extract .direct .stock source = .error (.unterminated function 3) ∧
      (∃ p q, IsTableHead function source p q ∧ 3 = p.line + (p.upTo q).count '\n') ∧
      ∃ x heads, extract .names .stock source = .ok x ∧
        (Place.start source).CaseHeads heads ∧ [3] =
          (unterminatedHeads heads).map fun h => h.1.line + (h.1.upTo h.2).count '\n' := by
  intro source function
  let front := "get_tcp_strategy_options() \x7b\n case $1\n in".toList
  let start : Place := ⟨front.reverse, source.drop front.length⟩
  have hfound : (tableStart function source).toOption = some start := by
    decide +kernel
  have hread : readArms? start = none := by
    decide +kernel
  have hwarned : (extract .names .stock source).toOption.map
      (fun x => x.warnings.filterMap ExtractionWarning.unterminatedLine?) = some [3] := by
    decide +kernel
  have hdirect : extract .direct .stock source = .error (.unterminated function 3) :=
    extract_direct_unterminated (eq_ok_of_toOption hfound) hread
  obtain ⟨hlines, hwarnings⟩ := unterminated_line .stock source
  obtain ⟨-, p, q, -, htable, -, hline, -⟩ := hlines _ _ hdirect
  obtain ⟨x, hx, hlisted⟩ := Option.map_eq_some_iff.mp hwarned
  obtain ⟨heads, ⟨hheads, -⟩, hmap, -⟩ := hwarnings x (eq_ok_of_toOption hx)
  exact ⟨hdirect, ⟨p, q, htable, hline⟩, x, heads, eq_ok_of_toOption hx, hheads,
    hlisted.symm.trans hmap⟩

/-- The `case` stands on the second line, and the third one is given. -/
theorem not_unterminated_line :
    let source :=
      "get_tcp_strategy_options() \x7b\n case\n $1 in\n  a) echo \"--a\" ;;\n\x7d\n".toList
    let function := ScriptNames.stock.tableFunction
    extract .direct .stock source = .error (.unterminated function 3) ∧
      ∃ p q, IsTableHead function source p q ∧ p.line = 2 := by
  intro source function
  let front := "get_tcp_strategy_options() \x7b".toList
  let gap := "\n ".toList
  let head := "case\n $1 in".toList
  let rest := "\n  a) echo \"--a\" ;;\n".toList
  let ending := "\x7d\n".toList
  let body : Body := ⟨⟨front.reverse, gap ++ (head ++ (rest ++ ending))⟩, gap ++ (head ++ rest)⟩
  have hbody : functionBody? function source = some body :=
    functionBody?_eq_some_iff.mpr (by decide +kernel)
  have hfound : (tableStart function source).toOption =
      some ⟨(front ++ gap ++ head).reverse, rest ++ ending⟩ := by
    decide +kernel
  have hread : readArms? ⟨(front ++ gap ++ head).reverse, rest ++ ending⟩ = none := by
    decide +kernel
  have hquiet : startsIn caseAt none (head ++ rest) gap = false := by
    decide +kernel
  have hhead : afterCaseHead? (some ' ') (head ++ rest) = some rest := by
    decide +kernel
  refine ⟨extract_direct_unterminated (eq_ok_of_toOption hfound) hread,
    ⟨(front ++ gap).reverse, head ++ (rest ++ ending)⟩,
    ⟨(front ++ gap ++ head).reverse, rest ++ ending⟩,
    ⟨body, gap, head, rest, hbody, rfl, ⟨⟨head, rfl, rfl⟩, hhead⟩, ?_, ⟨rfl, rfl⟩, ⟨rfl, rfl⟩⟩, rfl⟩
  intro f e hf hfirst
  exact @leads_of_startsIn [] gap (head ++ rest) f e hquiet hf hfirst

end CaseTable
