import CaseTable.Proofs.Extraction.Labels
import CaseTable.Proofs.Extraction.TableFunction
import CaseTable.Proofs.Shell.Header

/-!
# A table of strategies read back

A script that defines its table function by a case statement over labels,
each arm echoing one quoted string, gives exactly the strategies that are
written in it: as many, in the same order, every label of an arm with the
arguments of that arm, and without a warning. How the table is laid out does
not matter, nor what precedes and follows the function.

The parts are shown elsewhere. The definition is found (`Definitions`), the
arms start after its head (`Header`), they are read as they were written
(`Arms`), and a body prints its string (`Echo`). Here the arms of strategies
are shown to be arms of that grammar, and what they offer is collected. An
offer is refused only if its name is taken, so pairwise different names are
all inserted, each at the end.
-/

namespace CaseTable.Shell

/-- An arm of strategies as it is written, up to its ending. -/
structure StrategyArm where
    opened : Bool
    first : StrategyLabel
    others : List StrategyLabel
    body : EchoBody

namespace StrategyArm

def text (arm : StrategyArm) : Text :=
  (if arm.opened then ['('] else []) ++
    (patternOf arm.first arm.others ++ ')' :: arm.body.text)

/-- The strategies of an arm: its labels, with what its body prints. -/
def entries (placeholder : Text) (arm : StrategyArm) : List Entry :=
  (arm.first :: arm.others).map fun label =>
    ⟨label.name, Arguments.clean placeholder arm.body.quoted⟩

def written (arm : StrategyArm) : WrittenArm :=
  ⟨arm.opened, patternPieces arm.first arm.others, .ofPieces arm.body.pieces⟩

theorem text_written (arm : StrategyArm) : arm.written.text = arm.text := by
  rw [WrittenArm.text, written, textOf_patternPieces, text_ofPieces,
    arm.body.textOf_pieces]
  rfl

theorem fits_written (arm : StrategyArm) (behind after : Text) :
    arm.written.Fits behind after := by
  refine ⟨inPattern_patternPieces arm.first arm.others, fun hopened => ?_,
    arm.body.fits_pieces rfl after⟩
  have hopened : arm.opened = false := hopened
  rw [text_written, text, hopened, if_neg (by decide), List.nil_append,
    List.append_assoc]
  exact showsPattern_patternOf arm.first arm.others behind _

theorem head?_text (arm : StrategyArm) (t : Text) :
    (arm.text ++ t).head? ≠ some '&' := by
  cases hopened : arm.opened with
  | true => simp [text, hopened]
  | false =>
      rw [text, hopened, if_neg (by decide), List.nil_append, List.append_assoc]
      exact head?_patternOf arm.first arm.others _

theorem exists_text_eq (arm : StrategyArm) :
    ∃ before, arm.text = before ++ arm.body.tail :=
  ⟨(if arm.opened then ['('] else []) ++ (patternOf arm.first arm.others ++
      ')' :: (textOf arm.body.gap.val ++ (echoWord ++
        (echoArguments arm.body.options arm.body.spacing ++
          '"' :: (arm.body.quoted ++ ['"']))))),
    by simp [text, EchoBody.text]⟩

end StrategyArm

/-- A table of strategies. The last arm may do without an ending, if a blank
stands before the closing keyword. -/
inductive StrategyTable
    | close
    | last (arm : StrategyArm) (separated : arm.body.tail ≠ [])
    | more (first : StrategyArm) (ending : Ending) (gap : Gap) (rest : StrategyTable)

namespace StrategyTable

def text : StrategyTable → Text
  | close => esacWord
  | last arm _ => arm.text ++ esacWord
  | more first ending gap rest =>
      first.text ++ (ending.text ++ (textOf gap.val ++ rest.text))

/-- The strategies of the table in the order in which they are written. -/
def entries (placeholder : Text) : StrategyTable → List Entry
  | close => []
  | last arm _ => arm.entries placeholder
  | more first _ _ rest => first.entries placeholder ++ rest.entries placeholder

def written : StrategyTable → WrittenTable
  | close => .close
  | last arm _ => .last arm.written
  | more first ending gap rest => .more first.written ending gap.val rest.written

theorem text_written (table : StrategyTable) : table.written.text = table.text := by
  induction table with
  | close => rfl
  | last arm separated =>
      rw [written, WrittenTable.text, arm.text_written]
      rfl
  | more first ending gap rest ih =>
      rw [written, WrittenTable.text, first.text_written, ih]
      rfl

theorem head?_text (table : StrategyTable) (t : Text) :
    (table.text ++ t).head? ≠ some '&' := by
  cases table with
  | close => simp [text, esacWord]
  | last arm separated =>
      rw [text, List.append_assoc]
      exact arm.head?_text _
  | more first ending gap rest =>
      rw [text, List.append_assoc]
      exact first.head?_text _

/-- No ampersand comes after an ending, with or without a gap. -/
theorem head?_gap (gap : Gap) {t : Text} (ht : t.head? ≠ some '&') :
    (textOf gap.val ++ t).head? ≠ some '&' := by
  obtain ⟨pieces, hskipped⟩ := gap
  cases pieces with
  | nil => exact ht
  | cons piece pieces =>
      obtain ⟨c, u, htext, hc⟩ := head?_of_skipped (hskipped piece List.mem_cons_self)
      simp only [textOf_cons, htext]
      intro heq
      cases heq
      rcases hc with hc | hc <;> cases hc

theorem endsBefore_ending (ending : Ending) (behind : Text) :
    (ending.text.reverse ++ behind).head?.all endsBefore = true := by
  cases ending with
  | stop | fallThrough | resume => rfl

/-- A body with a tail ends where a keyword may start. -/
theorem endsBefore_arm (arm : StrategyArm) (h : arm.body.tail ≠ []) (behind : Text) :
    (arm.text.reverse ++ behind).head?.all endsBefore = true := by
  obtain ⟨c, rest, htail⟩ :=
    List.exists_cons_of_ne_nil (mt List.reverse_eq_nil_iff.mp h)
  have hc : c ∈ arm.body.tail := by
    rw [← List.mem_reverse, htail]
    exact List.mem_cons_self
  obtain ⟨before, htext⟩ := arm.exists_text_eq
  rw [htext, List.reverse_append, htail]
  exact endsBefore_of_isGapBlank
    (List.all_eq_true.mp arm.body.tail_blank c hc)

theorem fits_written {table : StrategyTable} {behind after : Text}
    (hbehind : behind.head?.all endsBefore = true)
    (hafter : after.head?.all endsAfter = true) :
    table.written.Fits behind after := by
  induction table generalizing behind with
  | close => exact standsAt_append_iff.mpr ⟨hbehind, hafter⟩
  | last arm separated =>
      refine ⟨arm.fits_written behind _, standsAt_append_iff.mpr ⟨?_, hafter⟩⟩
      rw [arm.text_written]
      exact endsBefore_arm arm separated behind
  | more first ending gap rest ih =>
      refine ⟨first.fits_written behind _, gap.property, ?_,
        ih (endsBefore_gap gap.property (endsBefore_ending ending _))⟩
      rw [text_written]
      exact head?_gap gap (rest.head?_text after)

/-- The function that holds the table, from its name to its closing brace. -/
def function (name : Text) (gap : Gap) (table : StrategyTable) : Text :=
  opening name ++ (tableHead ++ '\n' :: (textOf gap.val ++
    (table.text ++ "\n\x7d".toList)))

end StrategyTable

end CaseTable.Shell

namespace CaseTable.Extraction

open CaseTable.Shell

/-- What an arm offers is what is written in it, unless that is nothing. -/
theorem offers_read (placeholder : Text) (arm : StrategyArm)
    (h : Arguments.clean placeholder arm.body.quoted ≠ []) :
    offers placeholder arm.written.read = arm.entries placeholder := by
  have hargs : argsOf? placeholder arm.written.read.body =
      some (Arguments.clean placeholder arm.body.quoted) := by
    rw [argsOf?, WrittenArm.read, StrategyArm.written, text_ofPieces,
      arm.body.textOf_pieces, echoed?_text, Option.map_some]
  have hlabels : arm.written.read.labels =
      (arm.first :: arm.others).map StrategyLabel.name := by
    rw [WrittenArm.read, StrategyArm.written, textOf_patternPieces, labels_patternOf]
  have hnamed : ∀ name ∈ (arm.first :: arm.others).map StrategyLabel.name,
      isStrategyName name = true := by
    intro name hname
    obtain ⟨label, -, rfl⟩ := List.mem_map.mp hname
    exact label.named
  rw [offers, hargs]
  split
  · next hnone => cases hnone
  · next hnil => exact absurd (Option.some.inj hnil) h
  · next args _ hsome =>
      cases hsome
      rw [hlabels, List.filter_eq_self.mpr hnamed, List.map_map]
      rfl

theorem flatMap_offers (placeholder : Text) (table : StrategyTable)
    (h : ∀ e ∈ table.entries placeholder, e.args ≠ []) :
    table.written.arms.flatMap (offers placeholder) = table.entries placeholder := by
  have harm (arm : StrategyArm) (h : ∀ e ∈ arm.entries placeholder, e.args ≠ []) :
      offers placeholder arm.written.read = arm.entries placeholder :=
    offers_read placeholder arm (h _ List.mem_cons_self)
  induction table with
  | close => rfl
  | last arm separated =>
      rw [StrategyTable.written, WrittenTable.arms, List.flatMap_singleton]
      exact harm arm h
  | more first ending gap rest ih =>
      rw [StrategyTable.written, WrittenTable.arms, List.flatMap_cons,
        StrategyTable.entries]
      rw [StrategyTable.entries] at h
      rw [harm first fun e he => h e (List.mem_append_left _ he),
        ih fun e he => h e (List.mem_append_right _ he)]

/-- Offers of new, pairwise different names are all taken, in order. -/
theorem foldl_takeOffer {offered : List Entry} {t : Table}
    (h : (t.names ++ offered.map Entry.name).Nodup)
    (warnings : List ExtractionWarning) :
    (offered.foldl takeOffer (t, warnings)).1.entries = t.entries ++ offered ∧
      (offered.foldl takeOffer (t, warnings)).2 = warnings := by
  induction offered generalizing t with
  | nil => exact ⟨(List.append_nil _).symm, rfl⟩
  | cons e offered ih =>
      have hnew : e.name ∉ t.names := fun hmem =>
        (List.nodup_append.mp h).2.2 _ hmem _ List.mem_cons_self rfl
      have hstep : takeOffer (t, warnings) e =
          (t.append e.name e.args hnew, warnings) := by
        rw [takeOffer, Table.insert_of_notMem hnew]
        rfl
      have hnames : ((t.append e.name e.args hnew).names ++
          offered.map Entry.name).Nodup := by
        rw [Table.names_append, List.append_assoc]
        exact h
      obtain ⟨hentries, hwarnings⟩ := ih hnames
      rw [List.foldl_cons, hstep]
      refine ⟨hentries.trans ?_, hwarnings⟩
      rw [Table.append, List.append_assoc]
      rfl

theorem ofArms_written (placeholder : Text) (table : StrategyTable)
    (hnames : ((table.entries placeholder).map Entry.name).Nodup)
    (hargs : ∀ e ∈ table.entries placeholder, e.args ≠ []) :
    (ofArms placeholder table.written.arms).table.entries =
        table.entries placeholder ∧
      (ofArms placeholder table.written.arms).policy = .direct ∧
      (ofArms placeholder table.written.arms).warnings = [] := by
  have hempty : ((∅ : Table).names ++
      (table.entries placeholder).map Entry.name).Nodup := hnames
  have hfold := foldl_takeOffer hempty []
  rw [ofArms, flatMap_offers placeholder table hargs]
  exact ⟨hfold.1, rfl, hfold.2⟩

/-- The arms of a written table are read where its function says they start. -/
theorem direct_written (script : ScriptNames)
    (hname : CommandLine.isIdentifier script.tableFunction = true)
    {before : Text} (hend : before.getLast?.all (· = '\n') = true)
    (hnone : definition? script.tableFunction before = none)
    (gap : Gap) (table : StrategyTable) (after : Text) :
    direct script (before ++ (table.function script.tableFunction gap ++ after)) =
      .ok (ofArms script.placeholder table.written.arms) := by
  have hsource : table.function script.tableFunction gap ++ after =
      opening script.tableFunction ++ (tableHead ++ '\n' ::
        (textOf gap.val ++ (table.written.text ++ ("\n\x7d".toList ++ after)))) := by
    rw [StrategyTable.function, table.text_written]
    simp
  have hall : ∀ piece ∈ Piece.plain '\n' :: gap.val, piece.Skipped :=
    List.forall_mem_cons.mpr ⟨by decide, gap.property⟩
  have hread (behind : Text) :
      readArms? ⟨behind, textOf (.plain '\n' :: gap.val) ++
        (table.written.text ++ ("\n\x7d".toList ++ after))⟩ =
      some (table.written.arms, ⟨table.written.text.reverse ++
        ((textOf (.plain '\n' :: gap.val)).reverse ++ behind),
        "\n\x7d".toList ++ after⟩) := by
    have hstart : ((textOf (.plain '\n' :: gap.val)).reverse ++ behind).head?.all
        endsBefore = true := by
      rw [textOf_cons, List.reverse_append, List.append_assoc]
      exact endsBefore_gap gap.property rfl
    rw [readArms?_gap hall,
      readArms?_table (StrategyTable.fits_written hstart rfl)]
  rw [hsource]
  exact extract_direct_of_readArms? (tableStart_append hname hend hnone _) (hread _)

end CaseTable.Extraction

namespace CaseTable

open Shell

/-- Direct extraction finds exactly the strategies that are written in the
table. -/
theorem extract_written (script : ScriptNames) (before after : Text) (gap : Gap)
    (table : StrategyTable)
    (hname : CommandLine.isIdentifier script.tableFunction = true)
    (hbefore : before = [] ∨ before.getLast? = some '\n')
    (hnone : definition? script.tableFunction before = none)
    (hnames : ((table.entries script.placeholder).map Entry.name).Nodup)
    (hargs : ∀ e ∈ table.entries script.placeholder, e.args ≠ []) :
    ∃ x, extract .direct script
        (before ++ (table.function script.tableFunction gap ++ after)) = .ok x ∧
      x.table.entries = table.entries script.placeholder ∧
      x.policy = .direct ∧ x.warnings = [] := by
  have hend : before.getLast?.all (· = '\n') = true := by
    rcases hbefore with rfl | hlast
    · rfl
    · simp [hlast]
  exact ⟨_, Extraction.direct_written script hname hend hnone gap table after,
    Extraction.ofArms_written script.placeholder table hnames hargs⟩

/-- Two labels on one arm, a comment, option words and an escaped quote; the
second arm has its parenthesis, stands close and has no ending. -/
theorem extract_written_two_arms :
    ∃ x, extract .direct ⟨"tbl".toList, [], "filter".toList⟩
        ("# tbl\ntbl() \x7b\ncase \"$1\" in\n fast|\"fake-2\"\t) # two\n echo -n" ++
          " -eE \"$filter --a \\\"b\\\"\" ;;&(\x27x\x27)echo\t\"--c\"\nesac\n\x7d;").toList =
        .ok x ∧
      x.table.entries = [⟨"fast".toList, "--a \\\"b\\\"".toList⟩,
        ⟨"fake-2".toList, "--a \\\"b\\\"".toList⟩, ⟨"x".toList, "--c".toList⟩] ∧
      x.policy = .direct ∧ x.warnings = [] := by
  let space : Spacing := ⟨[' '], by decide, by decide⟩
  let fast : StrategyLabel :=
    ⟨[' '], by decide, .bare, "fast".toList, by decide, by decide, [], by decide⟩
  let fake : StrategyLabel := ⟨[], by decide, .double, "fake-2".toList, by decide,
    by decide, ['\t'], by decide⟩
  let x : StrategyLabel :=
    ⟨[], by decide, .single, "x".toList, by decide, by decide, [], by decide⟩
  let two : EchoBody :=
    ⟨⟨[.plain ' ', .comment " two\n".toList, .plain ' '], by decide⟩,
      [(space, ⟨['n'], by decide, by decide⟩),
        (space, ⟨['e', 'E'], by decide, by decide⟩)], space,
      "$filter --a \\\"b\\\"".toList, by decide, [' '], by decide⟩
  let one : EchoBody := ⟨⟨[], by decide⟩, [], ⟨['\t'], by decide, by decide⟩,
    "--c".toList, by decide, ['\n'], by decide⟩
  let table : StrategyTable := .more ⟨false, fast, [fake], two⟩ .resume
    ⟨[], by decide⟩ (.last ⟨true, x, [], one⟩ (by decide))
  have htext : "# tbl\n".toList ++
      (table.function "tbl".toList ⟨[], by decide⟩ ++ [';']) =
    ("# tbl\ntbl() \x7b\ncase \"$1\" in\n fast|\"fake-2\"\t) # two\n echo -n" ++
      " -eE \"$filter --a \\\"b\\\"\" ;;&(\x27x\x27)echo\t\"--c\"\nesac\n\x7d;").toList := by
    decide +kernel
  have hentries : table.entries "filter".toList =
      [⟨"fast".toList, "--a \\\"b\\\"".toList⟩,
        ⟨"fake-2".toList, "--a \\\"b\\\"".toList⟩, ⟨"x".toList, "--c".toList⟩] := by
    decide +kernel
  have h := extract_written ⟨"tbl".toList, [], "filter".toList⟩ "# tbl\n".toList
    [';'] ⟨[], by decide⟩ table (by decide) (.inr (by decide)) (by decide +kernel)
    (by rw [hentries]; decide) (by rw [hentries]; decide)
  rw [htext, hentries] at h
  exact h

end CaseTable
