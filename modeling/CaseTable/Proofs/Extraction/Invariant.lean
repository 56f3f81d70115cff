import CaseTable.Proofs.Arguments
import CaseTable.Proofs.Extraction.Entries

/-!
# What every extraction is like

Everything downstream of extraction rests on a few facts that hold for every
script, policy and choice of names: `extract_invariant`. The policy that is
reported is the one whose pass made the table, never `auto`; the names can
stand in a section header, the arguments on one line.

That the entries are of this form is `extracted_of_extract`. What is added
here is which pass the table comes from: an arm that would give no arguments
offers nothing, so only the list of names leaves empty arguments behind.
-/

namespace CaseTable

theorem isStrategyName_iff {word : Text} :
    isStrategyName word = true ↔
      word ≠ [] ∧ ∀ c ∈ word, c.isAlphanum = true ∨ c = '_' ∨ c = '-' := by
  rw [isStrategyName, Bool.and_eq_true, List.all_eq_true]
  simp [or_assoc]

namespace Extraction

theorem args_ne_nil_of_mem_offers {placeholder : Text} {arm : Shell.Arm} {e : Entry}
    (h : e ∈ offers placeholder arm) : e.args ≠ [] := by
  rw [offers] at h
  split at h
  · cases h
  · cases h
  · next args hne _ =>
      obtain ⟨label, -, rfl⟩ := List.mem_map.mp h
      exact hne

theorem policy_direct {script : ScriptNames} {source : Text} {x : Extraction}
    (h : direct script source = .ok x) : x.policy = .direct := by
  rw [direct] at h
  split at h
  · cases h
  · split at h
    · cases h
    · cases h
      rfl

theorem policy_byNames {script : ScriptNames} {source : Text} {x : Extraction}
    (h : byNames script source = .ok x) : x.policy = .names := by
  rw [byNames] at h
  split at h
  · cases h
  · cases h
    rfl

end Extraction

open Extraction

/-- The reported policy is `direct` or `names`. The names are different words
over the letters, digits, underscore and hyphen, and the arguments are
normalised; under `direct` they are not empty either. -/
theorem extract_invariant {policy : Policy} {script : ScriptNames} {source : Text}
    {x : Extraction} (h : extract policy script source = .ok x) :
    (x.policy = .direct ∨ x.policy = .names) ∧ x.table.names.Nodup ∧
      ∀ e ∈ x.table.entries,
        (e.name ≠ [] ∧ ∀ c ∈ e.name, c.isAlphanum = true ∨ c = '_' ∨ c = '-') ∧
        (Arguments.normalize e.args = e.args ∧ Arguments.Normal e.args ∧
          '\r' ∉ e.args ∧ '\n' ∉ e.args) ∧
        (x.policy = .direct → e.args ≠ []) := by
  obtain ⟨pass, hpass, htable, hpolicy⟩ := exists_pass_of_extract h
  refine ⟨?_, x.table.nodup, fun e he => ?_⟩
  · rw [hpolicy]
    exact hpass.imp policy_direct policy_byNames
  · obtain ⟨hname, raw, hargs⟩ := extracted_of_extract h e he
    have hnormal : Arguments.Normal e.args := hargs ▸ Arguments.normal_normalize raw
    refine ⟨isStrategyName_iff.mp hname, ⟨Arguments.normalize_of_normal hnormal, hnormal,
      hnormal.notMem (by decide) (by decide), hnormal.notMem (by decide) (by decide)⟩,
      fun hdirect => ?_⟩
    rcases hpass with hpass | hpass
    · exact forall_direct hpass (fun _ _ => args_ne_nil_of_mem_offers) e (htable ▸ he)
    · cases hdirect.symm.trans (hpolicy.trans (policy_byNames hpass))

/-- The arms give nothing but the placeholder, so the listed names are looked
up among all arms; the one without an arm keeps empty arguments. -/
theorem extract_invariant_fallback :
    let source := ("get_tcp_strategy_options() \x7b\n case $1 in\n" ++
      "  a) echo \"$filter\" ;;\n esac\n\x7d\nlist_tcp_strategies() \x7b\n echo \"b c\"\n\x7d\n" ++
      "case $1 in b) echo \" --x  \\\n\t--y \" ;; esac\n").toList
    ∃ x, extract .auto .stock source = .ok x ∧ x.policy = .names ∧
      x.table.entries = [⟨"b".toList, "--x --y".toList⟩, ⟨"c".toList, []⟩] ∧
      x.table.names.Nodup ∧ Arguments.normalize "--x --y".toList = "--x --y".toList := by
  intro source
  have hfound : (extract .auto .stock source).toOption.map
      (fun x => (x.policy, x.table.entries)) =
      some (.names, [⟨"b".toList, "--x --y".toList⟩, ⟨"c".toList, []⟩]) := by
    decide +kernel
  cases hx : extract .auto .stock source with
  | error cause =>
      rw [hx] at hfound
      cases hfound
  | ok x =>
      rw [hx] at hfound
      obtain ⟨hpolicy, hentries⟩ := Prod.mk.inj (Option.some.inj hfound)
      obtain ⟨-, hnodup, hall⟩ := extract_invariant hx
      have hheld : ⟨"b".toList, "--x --y".toList⟩ ∈ x.table.entries := by
        rw [hentries]
        exact List.mem_cons_self
      exact ⟨x, rfl, hpolicy, hentries, hnodup, (hall _ hheld).2.1.1⟩

end CaseTable
