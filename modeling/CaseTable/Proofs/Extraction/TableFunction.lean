import CaseTable.Extraction.Extract
import CaseTable.Proofs.Shell.Blocks
import CaseTable.Proofs.Shell.CaseHeads
import CaseTable.Proofs.Shell.Heads

/-!
# The table function

What a direct extraction does, step by step, as facts that its later proofs
start from. The body of the table function and what follows it make up the
text behind the opening brace (`functionBody?_eq_some_iff`); the first head of
a case statement is looked for in the body, and the arms are read from there
(`tableStart_eq_ok_iff`). The arms decide the outcome
(`extract_direct_eq_ok_iff`).
-/

namespace CaseTable.Shell

/-- What follows the body that starts at a place: its closing brace, if there
is one, with the rest of the script. -/
def afterBody (start : Place) : Text := ((start.blockEnd? 0).map Place.ahead).getD []

/-- A closing brace is all that a body can be followed by. -/
theorem head?_afterBody (start : Place) :
    (afterBody start).head?.all (· = '\x7d') = true := by
  rw [afterBody]
  cases hend : start.blockEnd? 0 with
  | none => rfl
  | some e =>
      obtain ⟨s, t, -, ht, -⟩ := Place.blockEnd?_append hend
      rw [Option.map_some, Option.getD_some, ht]
      rfl

theorem exists_functionBody? {name source : Text} {start : Place}
    (h : definition? name source = some start) :
    ∃ text, functionBody? name source = some ⟨start, text⟩ ∧
      start.ahead = text ++ afterBody start := by
  rw [functionBody?, h, Option.map_some, afterBody]
  split
  · next e hend =>
      obtain ⟨s, hs⟩ := Place.exists_passes_blockEnd? hend
      refine ⟨s, by rw [hs.upTo_eq], ?_⟩
      rw [hend]
      exact hs.1
  · next hend =>
      refine ⟨start.ahead, rfl, ?_⟩
      rw [hend]
      exact (List.append_nil _).symm

theorem functionBody?_eq_some_iff {name source : Text} {body : Body} :
    functionBody? name source = some body ↔ definition? name source = some body.start ∧
      body.start.ahead = body.text ++ afterBody body.start := by
  constructor
  · intro h
    obtain ⟨start, hstart, -⟩ := Option.map_eq_some_iff.mp h
    obtain ⟨text, hbody, hahead⟩ := exists_functionBody? hstart
    cases h.symm.trans hbody
    exact ⟨hstart, hahead⟩
  · rintro ⟨hstart, hahead⟩
    obtain ⟨text, hbody, hahead'⟩ := exists_functionBody? hstart
    rw [hbody, List.append_cancel_right (hahead'.symm.trans hahead)]

end CaseTable.Shell

namespace CaseTable.Extraction

open CaseTable.Shell

/-- The arms start behind the first head of a case statement in the body. -/
theorem tableStart_eq_ok_iff {function source : Text} {start : Place} :
    tableStart function source = .ok start ↔
      ∃ body passed rest, functionBody? function source = some body ∧
        afterFirstCase? none body.text = some rest ∧ passed ≠ [] ∧
        body.text = passed ++ rest ∧
        start = ⟨passed.reverse ++ body.start.behind, rest ++ afterBody body.start⟩ := by
  -- the search moves on from the opening brace
  have hmoved {body : Body} {passed rest : Text}
      (hbody : functionBody? function source = some body)
      (htext : body.text = passed ++ rest) :
      body.start.advance (body.text.length - rest.length) =
        ⟨passed.reverse ++ body.start.behind, rest ++ afterBody body.start⟩ := by
    have hahead := (functionBody?_eq_some_iff.mp hbody).2
    rw [htext, List.append_assoc] at hahead
    rw [htext, List.length_append, Nat.add_sub_cancel, Place.advance, hahead,
      List.take_left, List.drop_left]
  constructor
  · intro h
    unfold tableStart at h
    split at h
    · cases h
    · next body hbody =>
        split at h
        · cases h
        · next rest hcase =>
            cases h
            obtain ⟨passed, hne, htext⟩ := exists_of_afterFirstCase? hcase
            exact ⟨body, passed, rest, hbody, hcase, hne, htext, hmoved hbody htext⟩
  · rintro ⟨body, passed, rest, hbody, hcase, -, htext, rfl⟩
    rw [tableStart, hbody]
    simp only []
    rw [hcase, ← hmoved hbody htext]

theorem text_tableStart {function source : Text} {start : Place}
    (h : tableStart function source = .ok start) : start.text = source := by
  obtain ⟨body, passed, rest, hbody, -, -, htext, rfl⟩ := tableStart_eq_ok_iff.mp h
  obtain ⟨hstart, hahead⟩ := functionBody?_eq_some_iff.mp hbody
  rw [(definition?_move hstart).1, hahead, htext, Place.text]
  simp

theorem eq_ok_of_toOption {ε α : Type} {result : Except ε α} {a : α}
    (h : result.toOption = some a) : result = .ok a := by
  cases result with
  | error cause => cases h
  | ok b => exact congrArg Except.ok (Option.some.inj h)

end CaseTable.Extraction

namespace CaseTable

open Extraction Shell

theorem extract_direct_of_readArms? {script : ScriptNames} {source : Text}
    {start stop : Place} {arms : List Arm}
    (hstart : tableStart script.tableFunction source = .ok start)
    (hread : readArms? start = some (arms, stop)) :
    extract .direct script source = .ok (ofArms script.placeholder arms) := by
  rw [extract, direct, hstart]
  simp only []
  rw [hread]

theorem extract_direct_unterminated {script : ScriptNames} {source : Text} {start : Place}
    (hstart : tableStart script.tableFunction source = .ok start)
    (hread : readArms? start = none) : extract .direct script source =
      .error (.unterminated script.tableFunction start.line) := by
  rw [extract, direct, hstart]
  simp only []
  rw [hread]

theorem extract_direct_eq_ok_iff {script : ScriptNames} {source : Text} {x : Extraction} :
    extract .direct script source = .ok x ↔
      ∃ start arms stop, tableStart script.tableFunction source = .ok start ∧
        readArms? start = some (arms, stop) ∧ x = ofArms script.placeholder arms := by
  constructor
  · intro h
    cases hstart : tableStart script.tableFunction source with
    | error cause =>
        rw [extract, direct, hstart] at h
        cases h
    | ok start =>
        cases hread : readArms? start with
        | none => cases (extract_direct_unterminated hstart hread).symm.trans h
        | some read =>
            obtain ⟨arms, stop⟩ := read
            have hok := (extract_direct_of_readArms? hstart hread).symm.trans h
            exact ⟨start, arms, stop, rfl, hread, (Except.ok.inj hok).symm⟩
  · rintro ⟨start, arms, stop, hstart, hread, rfl⟩
    exact extract_direct_of_readArms? hstart hread

end CaseTable
