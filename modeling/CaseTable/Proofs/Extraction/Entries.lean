import CaseTable.Extraction.Extract
import CaseTable.Proofs.Text.Blank

/-!
# What extraction puts into a table

Whatever the script and the policy, an extracted strategy has a name made of
ASCII letters, digits, underscores and hyphens, and its arguments are a
normalised text: `extracted_of_extract`. The table is only ever changed by
`Table.insert`, so it is enough to look at what is inserted. An arm offers
its labels only if they are names, with arguments that were cleaned; a listed
word is inserted only if it is a name, with arguments that were cleaned or
are empty.
-/

namespace CaseTable

/-- An entry as extraction makes it. -/
def Entry.Extracted (e : Entry) : Prop :=
  isStrategyName e.name = true ∧ ∃ t, e.args = Arguments.normalize t

/-- A table of such entries. -/
def Table.Extracted (t : Table) : Prop := ∀ e ∈ t.entries, e.Extracted

theorem Table.extracted_empty : Table.Extracted ∅ := by
  intro e he
  cases he

theorem Table.mem_insert {t : Table} {name args : Text} {e : Entry}
    (h : e ∈ (t.insert name args).1.entries) :
    e ∈ t.entries ∨ e = ⟨name, args⟩ := by
  rw [insert] at h
  split at h
  · exact Or.inl h
  · rw [append, List.mem_append] at h
    exact h.imp_right List.mem_singleton.mp

/-- A new name is inserted at the end. -/
theorem Table.insert_of_notMem {t : Table} {name args : Text}
    (h : name ∉ t.names) : t.insert name args = (t.append name args h, true) := by
  rw [insert, dif_neg (mt (t.contains_iff_mem name).mp h)]

theorem Table.names_append {t : Table} {name args : Text} (h : name ∉ t.names) :
    (t.append name args h).names = t.names ++ [name] := by
  rw [names, append, List.map_append]
  rfl

theorem Table.Extracted.insert {t : Table} (ht : t.Extracted)
    {name args : Text} (h : Entry.Extracted ⟨name, args⟩) :
    (t.insert name args).1.Extracted := by
  intro e he
  rcases Table.mem_insert he with he | rfl
  · exact ht e he
  · exact h

/-- The characters of a strategy's name are not blank. -/
theorem isBlank_of_mem_strategyName {name : Text}
    (h : isStrategyName name = true) {c : Char} (hc : c ∈ name) :
    isBlank c = false := by
  rw [isStrategyName, Bool.and_eq_true, List.all_eq_true] at h
  have hchar := h.2 c hc
  simp only [Bool.or_eq_true, decide_eq_true_eq] at hchar
  rcases hchar with (hchar | rfl) | rfl
  · exact isBlank_of_isAlphanum hchar
  · decide
  · decide

theorem strategyName_ne_nil {name : Text} (h : isStrategyName name = true) :
    name ≠ [] := by
  rintro rfl
  cases h

namespace Extraction

open Shell

theorem extracted_of_mem_offers {placeholder : Text} {arm : Arm} {e : Entry}
    (h : e ∈ offers placeholder arm) : e.Extracted := by
  rw [offers] at h
  split at h
  · cases h
  · cases h
  · next args _ hargs =>
      obtain ⟨label, hlabel, rfl⟩ := List.mem_map.mp h
      obtain ⟨raw, -, rfl⟩ := Option.map_eq_some_iff.mp hargs
      exact ⟨(List.mem_filter.mp hlabel).2, _, rfl⟩

/-- What holds of the table and of every offer holds of the table that takes
the offers. -/
theorem forall_takeOffers {P : Entry → Prop} {offered : List Entry}
    (h : ∀ e ∈ offered, P e) :
    ∀ {state : Table × List ExtractionWarning}, (∀ e ∈ state.1.entries, P e) →
      ∀ e ∈ (offered.foldl takeOffer state).1.entries, P e := by
  induction offered with
  | nil => exact fun hstate => hstate
  | cons e rest ih =>
      intro state hstate
      rw [List.foldl_cons]
      refine ih (fun e' he' => h e' (by simp [he'])) fun e' he' => ?_
      rcases Table.mem_insert he' with he' | rfl
      · exact hstate e' he'
      · exact h e (by simp)

/-- What holds of every offer of an arm holds of what a direct extraction
finds. -/
theorem forall_direct {P : Entry → Prop} {script : ScriptNames} {source : Text}
    {x : Extraction} (h : direct script source = .ok x)
    (hoffers : ∀ arm, ∀ e ∈ offers script.placeholder arm, P e) :
    ∀ e ∈ x.table.entries, P e := by
  rw [direct] at h
  split at h
  · cases h
  · split at h
    · cases h
    · cases h
      refine forall_takeOffers (fun e he => ?_) fun e he => by cases he
      obtain ⟨arm, -, he⟩ := List.mem_flatMap.mp he
      exact hoffers arm e he

theorem extracted_direct {script : ScriptNames} {source : Text}
    {x : Extraction} (h : direct script source = .ok x) :
    x.table.Extracted :=
  forall_direct h fun _ _ => extracted_of_mem_offers

theorem normalized_lookUp (placeholder : Text) (arms : List Arm)
    (name : Text) :
    ∃ t, (lookUp placeholder arms name).1 = Arguments.normalize t := by
  have hempty : ([] : Text) = Arguments.normalize [] := by decide +kernel
  rw [lookUp]
  split
  · exact ⟨[], hempty⟩
  · split
    · exact ⟨[], hempty⟩
    · next args hargs =>
        obtain ⟨raw, -, rfl⟩ := Option.map_eq_some_iff.mp hargs
        exact ⟨_, rfl⟩

theorem extracted_takeWords {script : ScriptNames} {arms : List Arm}
    {words : List Text} :
    ∀ {state : Table × List ExtractionWarning}, state.1.Extracted →
      (words.foldl (takeWord script arms) state).1.Extracted := by
  induction words with
  | nil => exact fun hstate => hstate
  | cons word rest ih =>
      intro state hstate
      rw [List.foldl_cons]
      refine ih ?_
      rw [takeWord]
      split
      · next hname =>
          exact hstate.insert
            ⟨hname, normalized_lookUp script.placeholder arms word⟩
      · exact hstate

theorem extracted_byNames {script : ScriptNames} {source : Text}
    {x : Extraction} (h : byNames script source = .ok x) :
    x.table.Extracted := by
  rw [byNames] at h
  split at h
  · cases h
  · cases h
    exact extracted_takeWords Table.extracted_empty

/-- What `auto` reports is what a single pass found, with more warnings. -/
theorem exists_pass_of_auto {script : ScriptNames} {source : Text}
    {x : Extraction} (h : auto script source = .ok x) :
    ∃ pass, (direct script source = .ok pass ∨ byNames script source = .ok pass) ∧
      x.table = pass.table ∧ x.policy = pass.policy := by
  rw [auto] at h
  split at h
  · next arms harms =>
      split at h
      · cases h
        rw [afterEmptyArms]
        split
        · next names hnames => exact ⟨names, Or.inr hnames, rfl, rfl⟩
        · exact ⟨arms, Or.inl harms, rfl, rfl⟩
      · cases h
        exact ⟨x, Or.inl harms, rfl, rfl⟩
  · rw [afterFailedArms] at h
    split at h
    · next names hnames =>
        cases h
        exact ⟨names, Or.inr hnames, rfl, rfl⟩
    · cases h

end Extraction

open Extraction

theorem exists_pass_of_extract {policy : Policy} {script : ScriptNames}
    {source : Text} {x : Extraction} (h : extract policy script source = .ok x) :
    ∃ pass, (direct script source = .ok pass ∨ byNames script source = .ok pass) ∧
      x.table = pass.table ∧ x.policy = pass.policy := by
  cases policy with
  | auto => exact exists_pass_of_auto h
  | direct => exact ⟨x, Or.inl h, rfl, rfl⟩
  | names => exact ⟨x, Or.inr h, rfl, rfl⟩

theorem extracted_of_extract {policy : Policy} {script : ScriptNames}
    {source : Text} {x : Extraction}
    (h : extract policy script source = .ok x) : x.table.Extracted := by
  obtain ⟨pass, hdirect | hnames, htable, -⟩ := exists_pass_of_extract h
  · exact htable ▸ extracted_direct hdirect
  · exact htable ▸ extracted_byNames hnames

end CaseTable
