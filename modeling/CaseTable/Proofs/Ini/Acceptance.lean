import CaseTable.Proofs.Ini.Grammar

/-!
# Which documents are read

`parse_accepts_iff` holds the reader of documents to their grammar. It accepts
exactly the lines that keep to it, it returns the sections that they spell,
and it refuses at the first line with which they stop keeping to it.

The reader goes down the list of lines, with the sections so far on the way
back. The grammar is about what stands before a line, so the argument goes the
other way, a line at a time at the end (`readLines_concat`). One line either
adds to the sections what it says (`Spells.concat`) or breaks a rule
(`Spells.not_accepted`); a run is an induction over the lines.
-/

namespace CaseTable.Ini.Document

open Line

/-! ## One more line for the reader -/

/-- What one more line makes of the sections before it. -/
def addLine (n : Nat) (sections : List Section) (raw : Text) : Except Error (List Section) :=
  match Line.read raw with
  | .error cause => .error ⟨n, cause⟩
  | .ok .silent => .ok sections
  | .ok (.header name) => .ok (sections ++ [⟨name, []⟩])
  | .ok (.pair key value) =>
      match sections.getLast? with
      | none => .error ⟨n, .strayKey⟩
      | some s =>
          if (s.get? key).isSome then
            .error ⟨n, .duplicateKey key s.name⟩
          else
            .ok (sections.dropLast ++ [s.add key value])

/-- Only the last section matters to a line. -/
theorem addLine_append (n : Nat) (front : List Section) {later : List Section}
    (hlater : later ≠ []) (raw : Text) :
    addLine n (front ++ later) raw = (addLine n later raw).map fun ss => front ++ ss := by
  have hlast : (front ++ later).getLast? = later.getLast? := by
    rw [List.getLast?_append, List.getLast?_eq_some_getLast hlater, Option.some_or]
  rw [addLine, addLine, hlast, List.dropLast_append_of_ne_nil hlater]
  split
  · rfl
  · rfl
  · rw [List.append_assoc]
    rfl
  · split
    · rfl
    · split
      · rfl
      · rw [List.append_assoc]
        rfl

/-- A section that was opened is among those that are read. -/
theorem ne_nil_of_readLines {n : Nat} {s : Section} {ls : List Text} {sections : List Section}
    (h : readLines n (some s) ls = .ok sections) : sections ≠ [] := by
  induction ls generalizing n s sections with
  | nil =>
      cases h
      exact List.cons_ne_nil s []
  | cons raw ls ih =>
      rw [readLines] at h
      split at h
      · cases h
      · exact ih h
      · next name hread =>
          cases hrest : readLines (n + 1) (some ⟨name, []⟩) ls with
          | error cause =>
              rw [hrest] at h
              cases h
          | ok later =>
              rw [hrest] at h
              cases h
              exact List.cons_ne_nil s later
      · simp only [] at h
        split at h
        · cases h
        · exact ih h

/-- The last line of a text is read after the others. -/
theorem readLines_concat (raw : Text) (ls : List Text) : ∀ (n : Nat) (current : Option Section),
    readLines n current (ls ++ [raw]) =
      (readLines n current ls).bind fun sections => addLine (n + ls.length) sections raw := by
  induction ls with
  | nil =>
      intro n current
      rw [List.nil_append, readLines, readLines, Except.bind, addLine]
      cases current with
      | none => cases Line.read raw with
        | error cause => rfl
        | ok l => cases l <;> rfl
      | some s => cases Line.read raw with
        | error cause => rfl
        | ok l => cases l <;> rfl
  | cons first ls ih =>
      intro n current
      have hlength : n + 1 + ls.length = n + (first :: ls).length := by
        rw [List.length_cons]
        omega
      rw [List.cons_append, readLines, readLines, ← hlength]
      cases Line.read first with
      | error cause => rfl
      | ok l =>
          cases l with
          | silent => exact ih (n + 1) current
          | header name =>
              simp only [ih]
              cases hrest : readLines (n + 1) (some ⟨name, []⟩) ls with
              | error cause => rfl
              | ok later =>
                  exact (addLine_append _ current.toList (ne_nil_of_readLines hrest) raw).symm
          | pair key value =>
              cases current with
              | none => rfl
              | some s =>
                  simp only []
                  split
                  · rfl
                  · exact ih (n + 1) (some (s.add key value))

/-! ## The run -/

/-- A line that is read adds to the sections what it says. -/
theorem Spells.concat {n : Nat} {ls : List Text} {raw : Text}
    {sections sections' : List Section} (h : Spells ls sections)
    (hadd : addLine n sections raw = .ok sections') : Spells (ls ++ [raw]) sections' := by
  obtain ⟨said, hsaid, hwell, hspelled⟩ := h
  have hconcat {l : Line} (hread : Line.read raw = .ok l) :
      List.Forall₂ Means (ls ++ [raw]) (said ++ [l]) :=
    forall₂_means_concat_iff.mpr ⟨said, l, rfl, hsaid, means_of_read hread⟩
  unfold Document.addLine at hadd
  split at hadd
  · cases hadd
  · next hread =>
      cases hadd
      refine ⟨_, hconcat hread, hwell.concat nofun, ?_⟩
      rw [List.filter_append, hspelled]
      exact List.append_nil _
  · next name hread =>
      cases hadd
      refine ⟨_, hconcat hread, hwell.concat nofun, ?_⟩
      rw [List.filter_append, hspelled, List.flatMap_append]
      rfl
  · next key value hread =>
      split at hadd
      · cases hadd
      · next s hlast =>
          obtain ⟨front, rfl⟩ := List.getLast?_eq_some_iff.mp hlast
          split at hadd
          · cases hadd
          · next hnew =>
              cases hadd
              refine ⟨_, hconcat hread, hwell.concat fun key' value' hl => ?_, ?_⟩
              · cases hl
                exact ⟨(find?_isSome_iff hspelled).mpr (by simp),
                  mt (keyOpen_iff hspelled).mp hnew⟩
              · rw [List.filter_append, hspelled, List.dropLast_concat, List.flatMap_append,
                  List.flatMap_append]
                simp [Section.spelled, Section.add]

/-- A line that is refused breaks a rule, and the lines before it do not. -/
theorem Spells.not_accepted {n : Nat} {ls : List Text} {raw : Text} {sections : List Section}
    {e : Error} (h : Spells ls sections) (hadd : Document.addLine n sections raw = .error e) :
    e.line = n ∧ ¬ Accepted (ls ++ [raw]) := by
  obtain ⟨said, hsaid, -, hspelled⟩ := h
  -- what an accepted last line would have to be
  have hconcat (haccepted : Accepted (ls ++ [raw])) :
      ∃ l, Line.read raw = .ok l ∧ WellFormed (said ++ [l]) := by
    obtain ⟨said', hsaid', hwell⟩ := haccepted
    obtain ⟨before, l, rfl, hbefore, hl⟩ := forall₂_means_concat_iff.mp hsaid'
    rw [forall₂_means_unique hsaid hbefore]
    exact ⟨l, read_of_means hl, hwell⟩
  unfold Document.addLine at hadd
  split at hadd
  · next cause hread =>
      cases hadd
      refine ⟨rfl, fun haccepted => ?_⟩
      obtain ⟨l, hl, -⟩ := hconcat haccepted
      cases hread.symm.trans hl
  · cases hadd
  · cases hadd
  · next key value hread =>
      split at hadd
      · next hnone =>
          cases hadd
          refine ⟨rfl, fun haccepted => ?_⟩
          obtain ⟨l, hl, hwell⟩ := hconcat haccepted
          cases hread.symm.trans hl
          exact (find?_isSome_iff hspelled).mp hwell.of_concat_pair.1
            (List.getLast?_eq_none_iff.mp hnone)
      · next s hlast =>
          obtain ⟨front, rfl⟩ := List.getLast?_eq_some_iff.mp hlast
          split at hadd
          · next hold =>
              cases hadd
              refine ⟨rfl, fun haccepted => ?_⟩
              obtain ⟨l, hl, hwell⟩ := hconcat haccepted
              cases hread.symm.trans hl
              exact hwell.of_concat_pair.2 ((keyOpen_iff hspelled).mpr hold)
          · cases hadd

theorem spells_of_readLines {ls : List Text} {sections : List Section}
    (h : readLines 1 none ls = .ok sections) : Spells ls sections := by
  induction ls using List.reverseRecOn generalizing sections with
  | nil =>
      cases h
      exact ⟨[], .nil, wellFormed_nil, rfl⟩
  | append_singleton ls raw ih =>
      rw [readLines_concat] at h
      cases hread : readLines 1 none ls with
      | error e =>
          rw [hread] at h
          cases h
      | ok before =>
          rw [hread] at h
          exact (ih hread).concat h

theorem breaks_of_readLines {ls : List Text} {e : Error}
    (h : readLines 1 none ls = .error e) :
    e.line ≤ ls.length ∧ Accepted (ls.take (e.line - 1)) ∧ ¬ Accepted (ls.take e.line) := by
  induction ls using List.reverseRecOn with
  | nil => cases h
  | append_singleton ls raw ih =>
      rw [readLines_concat] at h
      cases hread : readLines 1 none ls with
      | error e' =>
          rw [hread] at h
          cases h
          obtain ⟨hle, haccepted, hbroken⟩ := ih hread
          rw [List.length_append, List.take_append_of_le_length (by omega),
            List.take_append_of_le_length hle]
          exact ⟨by omega, haccepted, hbroken⟩
      | ok before =>
          rw [hread] at h
          have hspells := spells_of_readLines hread
          obtain ⟨hline, hbroken⟩ := hspells.not_accepted h
          have hlength : e.line = (ls ++ [raw]).length := by
            rw [hline, List.length_append, List.length_singleton, Nat.add_comm]
          rw [hlength, List.take_length, List.length_append, List.length_singleton,
            Nat.add_sub_cancel, List.take_left]
          exact ⟨Nat.le_refl _, hspells.accepted, hbroken⟩

/-! ## The document -/

theorem Accepted.take {ls : List Text} (h : Accepted ls) (n : Nat) : Accepted (ls.take n) := by
  rw [← List.take_append_drop n ls] at h
  exact h.of_append

theorem Accepted.take_of_le {ls : List Text} {m n : Nat} (h : Accepted (ls.take n))
    (hle : m ≤ n) : Accepted (ls.take m) := by
  have htake := h.take m
  rwa [List.take_take, Nat.min_eq_left hle] at htake

theorem readLines_eq_ok_iff {ls : List Text} {sections : List Section} :
    readLines 1 none ls = .ok sections ↔ Spells ls sections := by
  refine ⟨spells_of_readLines, fun h => ?_⟩
  cases hread : readLines 1 none ls with
  | ok read => rw [(spells_of_readLines hread).unique h]
  | error e => exact absurd (h.accepted.take e.line) (breaks_of_readLines hread).2.2

/-- Only one line is the first that breaks a rule. -/
theorem readLines_eq_error_iff {ls : List Text} {n : Nat} :
    (∃ cause, readLines 1 none ls = .error ⟨n, cause⟩) ↔
      Accepted (ls.take (n - 1)) ∧ ¬ Accepted (ls.take n) := by
  constructor
  · rintro ⟨cause, hread⟩
    exact (breaks_of_readLines hread).2
  · rintro ⟨haccepted, hbroken⟩
    cases hread : readLines 1 none ls with
    | ok sections =>
        exact absurd ((spells_of_readLines hread).accepted.take n) hbroken
    | error e =>
        obtain ⟨-, haccepted', hbroken'⟩ := breaks_of_readLines hread
        rcases Nat.lt_trichotomy n e.line with hlt | rfl | hlt
        · exact absurd (haccepted'.take_of_le (by omega)) hbroken
        · exact ⟨e.cause, rfl⟩
        · exact absurd (haccepted.take_of_le (by omega)) hbroken'

/-- The reader accepts exactly the lines that keep to the grammar, and returns
the sections that they spell. Otherwise it reports the first line, counted from
1, with which the lines no longer keep to it. -/
theorem parse_accepts_iff (t : Text) :
    ((∃ d, parse t = .ok d) ↔ Accepted t.lines) ∧
    (∀ d, parse t = .ok d ↔ Spells t.lines d.sections) ∧
    ∀ n, (∃ cause, parse t = .error ⟨n, cause⟩) ↔
      Accepted (t.lines.take (n - 1)) ∧ ¬ Accepted (t.lines.take n) := by
  have hok (d : Document) : parse t = .ok d ↔ Spells t.lines d.sections := by
    rw [← readLines_eq_ok_iff, parse]
    cases readLines 1 none t.lines with
    | ok sections =>
        constructor
        · rintro ⟨⟩
          rfl
        · rintro ⟨⟩
          rfl
    | error e => exact ⟨nofun, nofun⟩
  have herror (n : Nat) : (∃ cause, parse t = .error ⟨n, cause⟩) ↔
      Accepted (t.lines.take (n - 1)) ∧ ¬ Accepted (t.lines.take n) := by
    rw [← readLines_eq_error_iff, parse]
    cases readLines 1 none t.lines with
    | ok sections => exact ⟨nofun, nofun⟩
    | error e =>
        constructor
        · rintro ⟨cause, ⟨⟩⟩
          exact ⟨cause, rfl⟩
        · rintro ⟨cause, ⟨⟩⟩
          exact ⟨cause, rfl⟩
  refine ⟨⟨?_, fun haccepted => ?_⟩, hok, herror⟩
  · rintro ⟨d, hd⟩
    exact ((hok d).mp hd).accepted
  · cases hparse : parse t with
    | ok d => exact ⟨d, rfl⟩
    | error e =>
        exact absurd (haccepted.take e.line) ((herror e.line).mp ⟨e.cause, hparse⟩).2

/-- Blanks around a name or a key go, those of a value stay. -/
example : parse "; head\n\n [ a] ]\nk = v=1 \n".toList =
    .ok ⟨[⟨"a]".toList, [("k".toList, " v=1 ".toList)]⟩]⟩ := by
  decide +kernel

end CaseTable.Ini.Document
