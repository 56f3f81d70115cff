import CaseTable.Ini.Document
import CaseTable.Proofs.Ini.Lines
import Mathlib.Data.List.Forall2
import Mathlib.Data.List.Induction

/-!
# How documents are written

`WellFormed` is the grammar of a document, over what its lines say: the first
line that is not blank and no comment is a header, and between two pairs of
one key stands a header. `Accepted` is the same of the lines themselves, and
`Spells` adds the sections that the lines hold, which they determine
(`Spells.unique`).

A rule that a line breaks is a rule about what stands before it. For a pair
that is a header at all (`find?_isSome_iff`), and its key among the open ones,
those that were used since the last header. Both can be told from the sections
before the line: the open keys are those of the last one (`keyOpen_iff`).
-/

namespace CaseTable.Ini

open Line

/-- What the lines of a section say: its header, and then its pairs. -/
def Section.spelled (s : Section) : List Line :=
  .header s.name :: s.pairs.map fun p => .pair p.1 p.2

namespace Document

/-- The rules for what lines say one after the other. -/
structure WellFormed (said : List Line) : Prop where
  header_first : ∀ l ∈ said.find? (· ≠ .silent), ∃ name, l = .header name
  keys_differ : ∀ before between after key value value',
    said = before ++ .pair key value :: (between ++ .pair key value' :: after) →
      ∃ name, .header name ∈ between

/-- Lines that keep to the grammar. -/
def Accepted (ls : List Text) : Prop := ∃ said, List.Forall₂ Means ls said ∧ WellFormed said

/-- Lines that keep to the grammar, with the sections that they hold. -/
def Spells (ls : List Text) (sections : List Section) : Prop :=
  ∃ said, List.Forall₂ Means ls said ∧ WellFormed said ∧
    said.filter (· ≠ .silent) = sections.flatMap Section.spelled

/-! ## One more line -/

/-- A key that was used since the last header. -/
def KeyOpen (said : List Line) (key : Text) : Prop :=
  ∃ before value between, said = before ++ .pair key value :: between ∧
    ∀ name, .header name ∉ between

theorem wellFormed_nil : WellFormed [] where
  header_first l hl := by cases hl
  keys_differ before between after key value value' h := by simp at h

/-- What starts a well-formed list is well-formed. -/
theorem WellFormed.of_append {said later : List Line} (h : WellFormed (said ++ later)) :
    WellFormed said where
  header_first l hl := by
    refine h.header_first l ?_
    rw [List.find?_append, Option.mem_def.mp hl]
    rfl
  keys_differ before between after key value value' hsaid := by
    refine h.keys_differ before between (after ++ later) key value value' ?_
    simp [hsaid]

/-- Only a pair can break a rule for what stands before it. -/
theorem WellFormed.concat {said : List Line} (h : WellFormed said) {l : Line}
    (hpair : ∀ key value, l = .pair key value →
      (said.find? (· ≠ .silent)).isSome = true ∧ ¬ KeyOpen said key) :
    WellFormed (said ++ [l]) where
  header_first l' hl' := by
    rw [List.find?_append, Option.mem_def, Option.or_eq_some_iff] at hl'
    rcases hl' with hl' | ⟨hnone, hl'⟩
    · exact h.header_first l' hl'
    · rw [List.find?_singleton, Option.ite_none_right_eq_some] at hl'
      obtain ⟨hl, heq⟩ := hl'
      cases heq
      cases l with
      | silent => cases hl
      | header name => exact ⟨name, rfl⟩
      | pair key value =>
          have hsome := (hpair key value rfl).1
          rw [hnone] at hsome
          cases hsome
  keys_differ before between after key value value' hsaid := by
    rcases List.eq_nil_or_concat' after with rfl | ⟨after, last, rfl⟩
    · -- the new line is the second of the two pairs
      have hsplit : said ++ [l] = (before ++ .pair key value :: between) ++ [.pair key value'] := by
        rw [hsaid, List.append_assoc, List.cons_append]
      obtain ⟨rfl, hl⟩ := List.append_inj' hsplit rfl
      by_contra hnone
      refine (hpair key value' (List.singleton_inj.mp hl)).2 ⟨before, value, between, rfl, ?_⟩
      exact fun name hname => hnone ⟨name, hname⟩
    · have hsplit : said ++ [l] =
          (before ++ .pair key value :: (between ++ .pair key value' :: after)) ++ [last] := by
        rw [hsaid]
        simp
      obtain ⟨rfl, -⟩ := List.append_inj' hsplit rfl
      exact h.keys_differ before between after key value value' rfl

theorem WellFormed.of_concat_pair {said : List Line} {key value : Text}
    (h : WellFormed (said ++ [.pair key value])) :
    (said.find? (· ≠ .silent)).isSome = true ∧ ¬ KeyOpen said key := by
  constructor
  · cases hfirst : said.find? (· ≠ .silent) with
    | some l => rfl
    | none =>
        obtain ⟨name, hname⟩ := h.header_first (.pair key value) (by
          rw [List.find?_append, hfirst]
          rfl)
        cases hname
  · rintro ⟨before, value', between, rfl, hbetween⟩
    obtain ⟨name, hname⟩ := h.keys_differ before between [] key value' value (by simp)
    exact hbetween name hname

/-! ## What was read tells what is open -/

/-- Nothing that was read means nothing that was said. -/
theorem find?_isSome_iff {said : List Line} {sections : List Section}
    (h : said.filter (· ≠ .silent) = sections.flatMap Section.spelled) :
    (said.find? (· ≠ .silent)).isSome = true ↔ sections ≠ [] := by
  rw [← List.head?_filter, h]
  cases sections with
  | nil => simp
  | cons s sections => simp [Section.spelled]

theorem get?_isSome_iff {s : Section} {key : Text} :
    (s.get? key).isSome = true ↔ ∃ value, (key, value) ∈ s.pairs := by
  rw [Section.get?, List.lookup_isSome_iff]
  constructor
  · rintro ⟨⟨key', value⟩, hmem, hkey⟩
    obtain rfl := beq_iff_eq.mp hkey
    exact ⟨value, hmem⟩
  · rintro ⟨value, hmem⟩
    exact ⟨_, hmem, beq_self_eq_true key⟩

/-- The open keys are those of the last section. -/
theorem keyOpen_iff {said : List Line} {front : List Section} {s : Section} {key : Text}
    (h : said.filter (· ≠ .silent) = (front ++ [s]).flatMap Section.spelled) :
    KeyOpen said key ↔ (s.get? key).isSome = true := by
  rw [List.flatMap_append, List.flatMap_singleton, Section.spelled] at h
  rw [get?_isSome_iff]
  constructor
  · rintro ⟨before, value, between, rfl, hbetween⟩
    refine ⟨value, ?_⟩
    rw [List.filter_append, List.filter_cons_of_pos (by simp), List.append_eq_append_iff] at h
    rcases h with ⟨rest, -, hrest⟩ | ⟨rest, -, hrest⟩
    · -- the last header would stand behind the pair
      have hheader : Line.header s.name ∈ .pair key value :: between.filter (· ≠ .silent) := by
        rw [hrest]
        simp
      have hlater := (List.mem_cons.mp hheader).resolve_left (by simp)
      exact absurd (List.mem_of_mem_filter hlater) (hbetween s.name)
    · have hpair : Line.pair key value ∈
          .header s.name :: s.pairs.map fun p => .pair p.1 p.2 := by
        rw [hrest]
        simp
      obtain ⟨p, hp, heq⟩ :=
        List.mem_map.mp ((List.mem_cons.mp hpair).resolve_left (by simp))
      cases heq
      exact hp
  · rintro ⟨value, hmem⟩
    obtain ⟨ps, qs, hpairs⟩ := List.append_of_mem hmem
    rw [hpairs, List.map_append, List.map_cons, ← List.cons_append, ← List.append_assoc,
      List.filter_eq_append_iff] at h
    obtain ⟨before, rest, rfl, -, hrest⟩ := h
    obtain ⟨gap, between, rfl, -, -, hbetween⟩ := List.filter_eq_cons_iff.mp hrest
    refine ⟨before ++ gap, value, between, by rw [List.append_assoc], fun name hname => ?_⟩
    have hheader : Line.header name ∈ between.filter (· ≠ .silent) :=
      List.mem_filter.mpr ⟨hname, by simp⟩
    rw [hbetween] at hheader
    obtain ⟨p, -, heq⟩ := List.mem_map.mp hheader
    cases heq

/-! ## Lines and what they say -/

theorem forall₂_means_unique {ls : List Text} {said said' : List Line}
    (h : List.Forall₂ Means ls said) (h' : List.Forall₂ Means ls said') : said = said' := by
  have hunique : Relator.RightUnique Means := fun _ _ _ => Means.unique
  exact List.right_unique_forall₂' hunique h h'

theorem forall₂_means_concat_iff {ls : List Text} {raw : Text} {said : List Line} :
    List.Forall₂ Means (ls ++ [raw]) said ↔
      ∃ before l, said = before ++ [l] ∧ List.Forall₂ Means ls before ∧ Means raw l := by
  rw [← List.forall₂_reverse_iff, List.reverse_append, List.reverse_singleton,
    List.singleton_append, List.forall₂_cons_left_iff]
  constructor
  · rintro ⟨l, before, hl, hbefore, hsaid⟩
    refine ⟨before.reverse, l, ?_, ?_, hl⟩
    · rw [← List.reverse_cons, ← hsaid, List.reverse_reverse]
    · rw [← List.forall₂_reverse_iff, List.reverse_reverse]
      exact hbefore
  · rintro ⟨before, l, rfl, hbefore, hl⟩
    exact ⟨l, before.reverse, hl, List.forall₂_reverse_iff.mpr hbefore, List.reverse_concat⟩

theorem Accepted.of_append {ls later : List Text} (h : Accepted (ls ++ later)) :
    Accepted ls := by
  induction later using List.reverseRecOn with
  | nil => rwa [List.append_nil] at h
  | append_singleton later raw ih =>
      rw [← List.append_assoc] at h
      obtain ⟨said, hsaid, hwell⟩ := h
      obtain ⟨before, l, rfl, hbefore, -⟩ := forall₂_means_concat_iff.mp hsaid
      exact ih ⟨before, hbefore, hwell.of_append⟩

theorem Spells.accepted {ls : List Text} {sections : List Section} (h : Spells ls sections) :
    Accepted ls := by
  obtain ⟨said, hsaid, hwell, -⟩ := h
  exact ⟨said, hsaid, hwell⟩

/-! ## The sections are determined -/

theorem map_pair_append_inj {ps ps' : List (Text × Text)} {rest rest' : List Section}
    (h : (ps.map fun p => Line.pair p.1 p.2) ++ rest.flatMap Section.spelled =
      (ps'.map fun p => Line.pair p.1 p.2) ++ rest'.flatMap Section.spelled) :
    ps = ps' ∧ rest.flatMap Section.spelled = rest'.flatMap Section.spelled := by
  induction ps generalizing ps' with
  | nil =>
      cases ps' with
      | nil => exact ⟨rfl, h⟩
      | cons p' ps' =>
          cases rest with
          | nil => cases h
          | cons s rest => cases h
  | cons p ps ih =>
      cases ps' with
      | nil =>
          cases rest' with
          | nil => cases h
          | cons s rest' => cases h
      | cons p' ps' =>
          obtain ⟨hp, htail⟩ := List.cons.inj h
          obtain ⟨rfl, hrest⟩ := ih htail
          obtain ⟨hkey, hvalue⟩ := Line.pair.inj hp
          exact ⟨by rw [Prod.ext hkey hvalue], hrest⟩

theorem flatMap_spelled_inj {sections sections' : List Section}
    (h : sections.flatMap Section.spelled = sections'.flatMap Section.spelled) :
    sections = sections' := by
  induction sections generalizing sections' with
  | nil =>
      cases sections' with
      | nil => rfl
      | cons s sections' => cases h
  | cons s sections ih =>
      cases sections' with
      | nil => cases h
      | cons s' sections' =>
          obtain ⟨hname, hrest⟩ := List.cons.inj h
          obtain ⟨hpairs, hlater⟩ := map_pair_append_inj hrest
          obtain ⟨name, pairs⟩ := s
          obtain ⟨name', pairs'⟩ := s'
          cases hname
          cases hpairs
          rw [ih hlater]

theorem Spells.unique {ls : List Text} {sections sections' : List Section}
    (h : Spells ls sections) (h' : Spells ls sections') : sections = sections' := by
  obtain ⟨said, hsaid, -, hspelled⟩ := h
  obtain ⟨said', hsaid', -, hspelled'⟩ := h'
  obtain rfl := forall₂_means_unique hsaid hsaid'
  exact flatMap_spelled_inj (hspelled.symm.trans hspelled')

end Document

end CaseTable.Ini
