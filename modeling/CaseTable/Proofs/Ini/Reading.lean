import CaseTable.Proofs.Ini.Lines
import CaseTable.Proofs.Text.Lines
import CaseTable.Verification

/-!
# What the reader makes of a section's lines

Two statements, one for each direction of a round trip.

Forward, `readLines_section`: the four lines of a section are read back as
that section, under conditions that `Readable` collects, and with the one
loss that lines know, a carriage return at the end of the arguments. The
statement carries what was read before and what comes after, so a file is
read section by section.

Backward, `section_of_parse`: whatever the text was, a section that comes
out of the reader has a trimmed name that is not empty, and neither its name
nor a value of it holds a line feed. A value that cannot be written therefore
cannot be matched by anything that was written instead.
-/

namespace CaseTable

open Text

/-- A section whose lines are read back as lines of that section. The
arguments may still end with a carriage return. -/
structure StrategySection.Readable (s : StrategySection) : Prop where
  name_ne_nil : s.name ≠ []
  name_trim : s.name.trim = s.name
  newline_name : '\n' ∉ s.name
  newline_desc : '\n' ∉ s.desc
  newline_args : '\n' ∉ s.args
  desc_last : s.desc.getLast? ≠ some '\r'

/-- The section of an INI file with the name and the two values of a written
section, and nothing else. -/
def StrategySection.toIni (s : StrategySection) : Ini.Section :=
  ⟨s.name, [(SectionKey.desc.name, s.desc), (SectionKey.args.name, s.args)]⟩

/-- The section that the reader returns: the end of the arguments is the end
of a line. -/
def StrategySection.readBack (s : StrategySection) : Ini.Section :=
  { s with args := dropReturn s.args : StrategySection }.toIni

theorem StrategySection.readBack_eq_toIni {s : StrategySection}
    (h : s.args.getLast? ≠ some '\r') : s.readBack = s.toIni := by
  rw [readBack, dropReturn_of_getLast? h]

/-- The lines of a section hold no line feed. -/
theorem StrategySection.Readable.newline_lines {s : StrategySection}
    (h : s.Readable) : ∀ line ∈ s.lines, '\n' ∉ line := by
  simp [lines, h.newline_name, h.newline_desc, h.newline_args]

namespace Ini

/-! ## Single lines -/

namespace Line

theorem read_header {name : Text} (hne : name ≠ [])
    (htrim : name.trim = name) :
    Line.read (['['] ++ name ++ [']']) = .ok (header name) := by
  have hname : name.trim ≠ [] := by rwa [htrim]
  have hmeans := @Means.header [] name [] (by simp) (by simp) hname
  rw [htrim] at hmeans
  exact read_eq_ok_iff.mpr hmeans

theorem read_pair (key : SectionKey) (value : Text) :
    Line.read (key.name ++ '=' :: value) = .ok (pair key.name value) := by
  cases key with
  | desc => simp [Line.read, SectionKey.name, trimStart, splitEquals?,
      trim, trimEnd, isBlank]
  | args => simp [Line.read, SectionKey.name, trimStart, splitEquals?,
      trim, trimEnd, isBlank]

theorem read_comment (t : Text) : Line.read ('#' :: t) = .ok silent :=
  read_eq_ok_iff.mpr (@Means.comment [] t '#' (by simp) (.inl rfl))

theorem read_nil : Line.read [] = .ok silent := rfl

/-- What a header says was on its line, trimmed and not empty. -/
theorem of_read_header {line name : Text}
    (h : Line.read line = .ok (header name)) :
    name ≠ [] ∧ name.trim = name ∧ ∀ c ∈ name, c ∈ line := by
  cases read_eq_ok_iff.mp h with
  | header _ _ hname =>
      exact ⟨hname, trim_trim _, fun c hc => by simp [mem_of_mem_trim hc]⟩

/-- The value of a pair was on its line. -/
theorem of_read_pair {line key value : Text}
    (h : Line.read line = .ok (pair key value)) : ∀ c ∈ value, c ∈ line := by
  cases read_eq_ok_iff.mp h with
  | pair => exact fun c hc => by simp [hc]

end Line

namespace Document

/-! ## Lines in a row -/

theorem readLines_silent {line : Text} (h : Line.read line = .ok .silent)
    (n : Nat) (current : Option Section) (rest : List Text) :
    readLines n current (line :: rest) = readLines (n + 1) current rest := by
  rw [readLines, h]

theorem readLines_header {name : Text} (hne : name ≠ [])
    (htrim : name.trim = name) (n : Nat) (current : Option Section)
    (rest : List Text) :
    readLines n current ((['['] ++ name ++ [']']) :: rest) =
      (readLines (n + 1) (some ⟨name, []⟩) rest).map
        fun later => current.toList ++ later := by
  rw [readLines, Line.read_header hne htrim]

theorem readLines_pair {s : Section} {key : SectionKey}
    (h : s.get? key.name = none) (value : Text) (n : Nat)
    (rest : List Text) :
    readLines n (some s) ((key.name ++ '=' :: value) :: rest) =
      readLines (n + 1) (some (s.add key.name value)) rest := by
  rw [readLines, Line.read_pair]
  simp only [h, Option.isSome_none, Bool.false_eq_true, if_false]

/-- The lines of a section close what was open and open that section. -/
theorem readLines_section {s : StrategySection} (h : s.Readable) (n : Nat)
    (current : Option Section) (rest : List Text) :
    readLines n current (s.lines.map dropReturn ++ rest) =
      (readLines (n + 4) (some s.readBack) rest).map
        fun later => current.toList ++ later := by
  have hheader : dropReturn (['['] ++ s.name ++ [']'])
      = ['['] ++ s.name ++ [']'] := by
    refine dropReturn_of_getLast? ?_
    rw [List.getLast?_concat]
    simp
  have hdesc : dropReturn ("desc=".toList ++ s.desc)
      = SectionKey.desc.name ++ '=' :: s.desc := by
    rw [dropReturn_append (by decide), dropReturn_of_getLast? h.desc_last]
    rfl
  have hargs : dropReturn ("args=".toList ++ s.args)
      = SectionKey.args.name ++ '=' :: dropReturn s.args := by
    rw [dropReturn_append (by decide)]
    rfl
  simp only [StrategySection.lines, List.map_cons, List.map_nil,
    List.cons_append, List.nil_append, dropReturn_nil]
  rw [show dropReturn ('[' :: (s.name ++ [']'])) = _ from hheader, hdesc,
    hargs, readLines_header h.name_ne_nil h.name_trim, readLines_pair rfl,
    readLines_pair rfl, readLines_silent Line.read_nil]
  rfl

/-- A silent line at the end of a file changes nothing. -/
theorem readLines_append_silent {line : Text}
    (h : Line.read line = .ok .silent) (ls : List Text) :
    ∀ (n : Nat) (current : Option Section),
      readLines n current (ls ++ [line]) = readLines n current ls := by
  induction ls with
  | nil =>
      intro n current
      rw [List.nil_append, readLines_silent h, readLines, readLines]
  | cons first ls ih =>
      intro n current
      rw [List.cons_append, readLines, readLines]
      simp only [ih]

/-- What is true of a section that was read from lines. -/
structure FromLines (s : Section) : Prop where
  name_ne_nil : s.name ≠ []
  name_trim : s.name.trim = s.name
  newline_name : '\n' ∉ s.name
  newline_value : ∀ p ∈ s.pairs, '\n' ∉ p.2

theorem FromLines.add {s : Section} (h : FromLines s) {value : Text}
    (hvalue : '\n' ∉ value) (key : Text) : FromLines (s.add key value) where
  name_ne_nil := h.name_ne_nil
  name_trim := h.name_trim
  newline_name := h.newline_name
  newline_value p hp := by
    rcases List.mem_append.mp hp with hp | hp
    · exact h.newline_value p hp
    · obtain rfl := List.mem_singleton.mp hp
      exact hvalue

theorem fromLines_of_readLines {ls : List Text}
    (hls : ∀ line ∈ ls, '\n' ∉ line) :
    ∀ {n : Nat} {current : Option Section} {sections : List Section},
      (∀ s ∈ current, FromLines s) →
      readLines n current ls = .ok sections → ∀ s ∈ sections, FromLines s := by
  induction ls with
  | nil =>
      intro n current sections hcur h s hs
      rw [readLines] at h
      cases h
      exact hcur s (Option.mem_toList.mp hs)
  | cons line ls ih =>
      have hline := hls line (by simp)
      have ih := @ih fun l hl => hls l (by simp [hl])
      intro n current sections hcur h
      rw [readLines] at h
      split at h
      · cases h
      · exact ih hcur h
      · next name hread =>
          cases hrest : readLines (n + 1) (some ⟨name, []⟩) ls with
          | error cause =>
              rw [hrest] at h
              cases h
          | ok later =>
              rw [hrest] at h
              cases h
              obtain ⟨hne, htrim, hmem⟩ := Line.of_read_header hread
              have hopen : ∀ s ∈ some (Section.mk name []), FromLines s := by
                rintro s ⟨⟩
                exact ⟨hne, htrim, fun hn => hline (hmem _ hn), by simp⟩
              intro s hs
              rcases List.mem_append.mp hs with hs | hs
              · exact hcur s (Option.mem_toList.mp hs)
              · exact ih hopen hrest s hs
      · next key value hread =>
          split at h
          · cases h
          · next s =>
              split at h
              · cases h
              · refine ih ?_ h
                rintro t ⟨⟩
                exact (hcur s rfl).add
                  (fun hn => hline (Line.of_read_pair hread _ hn)) key

/-- Whatever the text, nothing with a line feed and no name with a blank edge
comes out of the reader. -/
theorem fromLines_of_parse {t : Text} {d : Document} (h : parse t = .ok d) :
    ∀ s ∈ d.sections, FromLines s := by
  rw [parse] at h
  cases hread : readLines 1 none t.lines with
  | error cause =>
      rw [hread] at h
      cases h
  | ok sections =>
      rw [hread] at h
      cases h
      exact fromLines_of_readLines
        (fun _ hl => newline_notMem_of_mem_lines hl) (by simp) hread

theorem FromLines.newline_get? {s : Section} (h : FromLines s)
    {key value : Text} (hget : s.get? key = some value) : '\n' ∉ value := by
  obtain ⟨l₁, l₂, hsplit, -⟩ := List.lookup_eq_some_iff.mp hget
  exact h.newline_value (key, value) (by simp [hsplit])

end Document

end Ini

end CaseTable
