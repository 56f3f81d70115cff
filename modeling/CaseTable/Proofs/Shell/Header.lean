import CaseTable.Extraction.Direct
import CaseTable.Proofs.Shell.Blocks
import CaseTable.Proofs.Shell.Definitions

/-!
# From the definition to the arms

The table function opens with the case statement over its first argument, so
the arms start right after that head: `tableStart_append`. The head holds no
brace, whatever follows it, so it lies inside the body even where the body's
closing brace is found too early or not at all.
-/

namespace CaseTable.Shell

/-- The head of the case statement, on a line of its own. -/
def tableHead : Text := "\ncase \"$1\" in".toList

/-- The pieces of the head and of the line feed after it. -/
def tableHeadPieces : List Piece :=
  "\ncase ".toList.map .plain ++ .double "$1".toList :: " in\n".toList.map .plain

theorem afterFirstCase?_tableHead (rest : Text) :
    afterFirstCase? none (tableHead ++ '\n' :: rest) = some ('\n' :: rest) := by
  have hedge : isWordEdge (some '\n') (some 'c') = true := by decide
  have hline (t : Text) : afterCaseHead? none ('\n' :: 'c' :: t) = none := by
    rw [afterCaseHead?]
    split <;> rfl
  have hcase : afterCaseHead? (some '\n')
      ('c' :: ("ase \"$1\" in".toList ++ '\n' :: rest)) = some ('\n' :: rest) := by
    rw [afterCaseHead?, List.head?_cons, if_pos hedge]
    rfl
  show afterFirstCase? none
    ('\n' :: 'c' :: ("ase \"$1\" in".toList ++ '\n' :: rest)) = _
  rw [afterFirstCase?, hline, afterFirstCase?, hcase]

theorem functionBody?_append {name : Text}
    (hname : CommandLine.isIdentifier name = true) {before : Text}
    (hend : before.getLast?.all (· = '\n') = true)
    (hnone : definition? name before = none) (rest : Text) :
    ∃ inside, functionBody? name
        (before ++ (opening name ++ (tableHead ++ '\n' :: rest))) =
      some ⟨⟨(before ++ opening name).reverse, tableHead ++ '\n' :: rest⟩,
        tableHead ++ '\n' :: inside⟩ := by
  have hinert : ∀ piece ∈ tableHeadPieces, (∀ comments, piece.Complete comments) ∧
      piece ≠ .plain '\x7b' ∧ piece ≠ .plain '\x7d' := by decide
  have hpassed (behind : Text) :
      (⟨behind, tableHead ++ '\n' :: rest⟩ : Place).blockEnd? 0 =
        (⟨'\n' :: (tableHead.reverse ++ behind), rest⟩ : Place).blockEnd? 0 :=
    Place.blockEnd?_pieces hinert 0 behind rest
  rw [functionBody?, definition?_append hname _ hend hnone, Option.map_some]
  split
  · next e he =>
      rw [hpassed] at he
      obtain ⟨s, hs⟩ := Place.exists_passes_blockEnd? he
      have hhead : (⟨(before ++ opening name).reverse, tableHead ++ '\n' :: rest⟩ :
          Place).Passes (tableHead ++ ['\n'])
          ⟨'\n' :: (tableHead.reverse ++ (before ++ opening name).reverse), rest⟩ :=
        ⟨by simp, by simp⟩
      refine ⟨s, ?_⟩
      rw [(hhead.trans hs).upTo_eq, List.append_assoc]
      rfl
  · exact ⟨rest, rfl⟩

end CaseTable.Shell

namespace CaseTable.Extraction

open CaseTable.Shell

/-- The arms start after the head of the case statement. -/
theorem tableStart_append {name : Text}
    (hname : CommandLine.isIdentifier name = true) {before : Text}
    (hend : before.getLast?.all (· = '\n') = true)
    (hnone : definition? name before = none) (rest : Text) :
    tableStart name
        (before ++ (opening name ++ (tableHead ++ '\n' :: rest))) =
      .ok ⟨(before ++ (opening name ++ tableHead)).reverse, '\n' :: rest⟩ := by
  obtain ⟨inside, hbody⟩ := functionBody?_append hname hend hnone rest
  rw [tableStart, hbody]
  simp only []
  rw [afterFirstCase?_tableHead]
  simp only []
  rw [List.length_append, Nat.add_sub_cancel, advance_length]
  simp

end CaseTable.Extraction
