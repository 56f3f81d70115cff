import CaseTable.Verification
import Mathlib.Data.List.Nodup
import Mathlib.Data.List.Perm.Subperm

/-!
# When a file passes verification

The verifier is a loop with three ways to stop early. `verify_eq_ok_iff`
says what is left when it does not stop: the text parses, the number of
sections is right, and the first section under each written name has both
written values.

It counts sections and looks names up, and does not compare the two lists.
For written names that differ pairwise that is enough
(`verify_eq_ok_iff_perm`): the names are found among as many as they are, so
there is no room for a section of another name, or for a second one of the
same name in front of or behind the first.
-/

namespace CaseTable

namespace Ini.Document

/-- The section has the two values that were written. -/
def Holds (found : Ini.Section) (s : StrategySection) : Prop :=
  ∀ key : SectionKey, found.get? key.name = some (key.valueIn s)

theorem holds_iff {found : Ini.Section} {s : StrategySection} :
    Holds found s ↔ found.get? SectionKey.desc.name = some (SectionKey.desc.valueIn s) ∧
      found.get? SectionKey.args.name = some (SectionKey.args.valueIn s) := by
  constructor
  · exact fun h => ⟨h .desc, h .args⟩
  · rintro ⟨hdesc, hargs⟩ (_ | _)
    · exact hdesc
    · exact hargs

theorem checkKey_eq_ok_iff {found : Ini.Section} {s : StrategySection}
    {key : SectionKey} : checkKey found s key = .ok () ↔
      found.get? key.name = some (key.valueIn s) := by
  rw [checkKey]
  split
  · next h => exact ⟨fun _ => h, fun _ => rfl⟩
  · next h => exact ⟨nofun, fun hk => absurd hk h⟩

theorem checkSection_eq_ok_iff {d : Document} {s : StrategySection} :
    d.checkSection s = .ok () ↔
      ∃ found, d.find? s.name = some found ∧ Holds found s := by
  rw [checkSection]
  cases hfind : d.find? s.name with
  | none => simp
  | some found =>
      simp only [Option.some.injEq, exists_eq_left', holds_iff,
        ← checkKey_eq_ok_iff]
      cases hdesc : checkKey found s .desc with
      | error cause => simp
      | ok u => simp

theorem checkSections_eq_ok_iff {d : Document} {ss : List StrategySection} :
    d.checkSections ss = .ok () ↔ ∀ s ∈ ss, d.checkSection s = .ok () := by
  induction ss with
  | nil => simp [checkSections]
  | cons s rest ih =>
      rw [checkSections, List.forall_mem_cons, ← ih]
      cases hs : d.checkSection s with
      | error cause => simp
      | ok u => simp

theorem checkKey_ne_malformed {found : Ini.Section} {s : StrategySection} {key : SectionKey}
    {e : Ini.Error} : checkKey found s key ≠ .error (.malformed e) := by
  rw [checkKey]
  split
  · exact nofun
  · exact nofun

theorem checkSections_ne_malformed {d : Document} {ss : List StrategySection} {e : Ini.Error} :
    d.checkSections ss ≠ .error (.malformed e) := by
  induction ss with
  | nil => exact nofun
  | cons s rest ih =>
      rw [checkSections]
      split
      · exact ih
      · next cause hsection =>
          rintro ⟨⟩
          rw [checkSection] at hsection
          split at hsection
          · cases hsection
          · next found hfind =>
              split at hsection
              · exact checkKey_ne_malformed hsection
              · next cause hdesc =>
                  cases hsection
                  exact checkKey_ne_malformed hdesc

/-- Where no name is repeated, a look-up finds the section of the name. -/
theorem find?_eq_some_iff {d : Document} (h : (d.sections.map Ini.Section.name).Nodup)
    {name : Text} {found : Ini.Section} :
    d.find? name = some found ↔ found ∈ d.sections ∧ found.name = name := by
  constructor
  · intro hfind
    exact ⟨List.mem_of_find?_eq_some hfind, by simpa using List.find?_some hfind⟩
  · rintro ⟨hmem, rfl⟩
    cases hfind : d.find? found.name with
    | none =>
        have hother := List.find?_eq_none.mp hfind found hmem
        exact absurd (decide_eq_true rfl) hother
    | some first =>
        have hfirst := List.mem_of_find?_eq_some hfind
        have hname : first.name = found.name := by simpa using List.find?_some hfind
        rw [List.inj_on_of_nodup_map h hfirst hmem hname]

/-- As many sections as names, and every name found: the names of the document
are those, in some order. -/
theorem names_perm {d : Document} {names : List Text} (hnames : names.Nodup)
    (hlength : d.sections.length = names.length)
    (hfound : ∀ name ∈ names, (d.find? name).isSome = true) :
    (d.sections.map Ini.Section.name).Perm names := by
  have hsubset : names ⊆ d.sections.map Ini.Section.name := by
    intro name hname
    obtain ⟨found, hfind⟩ := Option.isSome_iff_exists.mp (hfound name hname)
    refine List.mem_map.mpr ⟨found, List.mem_of_find?_eq_some hfind, ?_⟩
    simpa using List.find?_some hfind
  have hle : (d.sections.map Ini.Section.name).length ≤ names.length := by
    rw [List.length_map]
    exact Nat.le_of_eq hlength
  exact ((List.subperm_of_subset hnames hsubset).perm_of_length_le hle).symm

end Ini.Document

/-- A text counts only by what the reader makes of it. -/
theorem verify_congr {sections : List StrategySection} {t t' : Text}
    (h : Ini.Document.parse t = Ini.Document.parse t') :
    verify sections t = verify sections t' := by
  rw [verify, verify, h]

/-- Only what the reader refuses is reported as malformed. -/
theorem verify_eq_malformed_iff {sections : List StrategySection} {t : Text} {e : Ini.Error} :
    verify sections t = .error (.malformed e) ↔ Ini.Document.parse t = .error e := by
  rw [verify]
  cases Ini.Document.parse t with
  | error cause => simp
  | ok d =>
      refine iff_of_false ?_ nofun
      simp only
      split
      · exact Ini.Document.checkSections_ne_malformed
      · exact nofun

theorem verify_eq_ok_iff {sections : List StrategySection} {t : Text} :
    verify sections t = .ok () ↔ ∃ d, Ini.Document.parse t = .ok d ∧
      d.sections.length = sections.length ∧
      ∀ s ∈ sections, ∃ found, d.find? s.name = some found ∧
        Ini.Document.Holds found s := by
  rw [verify]
  cases hparse : Ini.Document.parse t with
  | error cause => simp
  | ok d =>
      simp only [Except.ok.injEq, exists_eq_left',
        ← Ini.Document.checkSection_eq_ok_iff,
        ← Ini.Document.checkSections_eq_ok_iff]
      split
      · next hlen => simp [hlen]
      · next hlen => simp [hlen]

/-- Verification passes exactly the texts whose sections have the written
names, each once and in any order, with the written values. -/
theorem verify_eq_ok_iff_perm {sections : List StrategySection}
    (hnames : (sections.map StrategySection.name).Nodup) (t : Text) :
    verify sections t = .ok () ↔ ∃ d, Ini.Document.parse t = .ok d ∧
      (d.sections.map Ini.Section.name).Perm (sections.map StrategySection.name) ∧
      ∀ s ∈ sections, ∃ found ∈ d.sections, found.name = s.name ∧
        found.get? "desc".toList = some s.desc ∧ found.get? "args".toList = some s.args := by
  rw [verify_eq_ok_iff]
  refine exists_congr fun d => and_congr_right fun _ => ?_
  constructor
  · rintro ⟨hlength, hfound⟩
    have hperm : (d.sections.map Ini.Section.name).Perm (sections.map StrategySection.name) := by
      refine Ini.Document.names_perm hnames (by rw [hlength, List.length_map]) ?_
      intro name hname
      obtain ⟨s, hs, rfl⟩ := List.mem_map.mp hname
      obtain ⟨found, hfind, -⟩ := hfound s hs
      exact Option.isSome_iff_exists.mpr ⟨found, hfind⟩
    refine ⟨hperm, fun s hs => ?_⟩
    obtain ⟨found, hfind, hholds⟩ := hfound s hs
    obtain ⟨hmem, hname⟩ :=
      (Ini.Document.find?_eq_some_iff (hperm.nodup_iff.mpr hnames)).mp hfind
    exact ⟨found, hmem, hname, Ini.Document.holds_iff.mp hholds⟩
  · rintro ⟨hperm, hfound⟩
    refine ⟨by simpa using hperm.length_eq, fun s hs => ?_⟩
    obtain ⟨found, hmem, hname, hvalues⟩ := hfound s hs
    exact ⟨found, (Ini.Document.find?_eq_some_iff (hperm.nodup_iff.mpr hnames)).mpr
      ⟨hmem, hname⟩, Ini.Document.holds_iff.mpr hvalues⟩

/-- The order does not matter, and more keys do no harm. A second section of a
name in the place of another name is noticed, although the count is right. -/
theorem verify_eq_ok_iff_perm_repeated :
    let sections : List StrategySection :=
      [⟨"a".toList, "A".toList, "--a".toList⟩, ⟨"b".toList, "B".toList, []⟩]
    verify sections "[b]\nargs=\ndesc=B\nmore=\n[a]\ndesc=A\nargs=--a\n".toList = .ok () ∧
    verify sections "[a]\ndesc=A\nargs=--a\n[a]\ndesc=B\nargs=\n".toList ≠ .ok () := by
  intro sections
  have hnames : (sections.map StrategySection.name).Nodup := by decide
  constructor
  · refine (verify_eq_ok_iff_perm hnames _).mpr
      ⟨⟨[⟨"b".toList, [("args".toList, []), ("desc".toList, "B".toList), ("more".toList, [])]⟩,
        ⟨"a".toList, [("desc".toList, "A".toList), ("args".toList, "--a".toList)]⟩]⟩,
        by decide +kernel, by decide, by decide⟩
  · refine mt (verify_eq_ok_iff_perm hnames _).mp ?_
    rintro ⟨d, hparse, hperm, -⟩
    have hread : Ini.Document.parse "[a]\ndesc=A\nargs=--a\n[a]\ndesc=B\nargs=\n".toList =
        .ok ⟨[⟨"a".toList, [("desc".toList, "A".toList), ("args".toList, "--a".toList)]⟩,
          ⟨"a".toList, [("desc".toList, "B".toList), ("args".toList, [])]⟩]⟩ := by
      decide +kernel
    cases hread.symm.trans hparse
    exact absurd hperm (by decide)

end CaseTable
