import CaseTable.Ini.Line
import CaseTable.Proofs.Text.Blank

/-!
# How lines are written

`Means` is the grammar of a single line, told without the reader: what a line
says is decided by the first character that is not a blank, and a pair is cut
at its first equals sign. `read_eq_ok_iff` holds the reader to it. A line that
says nothing by this grammar is refused, and no line says two things.
-/

namespace CaseTable.Ini.Line

open Text

/-- A character that the key of a pair may start with. The others make the
line blank, a comment or a header. -/
def startsKey (c : Char) : Bool := !isBlank c && c ≠ '#' && c ≠ ';' && c ≠ '['

/-- What a line says, by the way it is written. -/
inductive Means : Text → Line → Prop
    | blank {line : Text} (hline : ∀ c ∈ line, isBlank c = true) : Means line silent
    | comment {before rest : Text} {mark : Char} (hbefore : ∀ c ∈ before, isBlank c = true)
        (hmark : mark = '#' ∨ mark = ';') : Means (before ++ mark :: rest) silent
    | header {before inside after : Text} (hbefore : ∀ c ∈ before, isBlank c = true)
        (hafter : ∀ c ∈ after, isBlank c = true) (hname : inside.trim ≠ []) :
        Means (before ++ '[' :: (inside ++ ']' :: after)) (.header inside.trim)
    | pair {before key value : Text} (hbefore : ∀ c ∈ before, isBlank c = true)
        (hstart : key.head?.all startsKey = true) (hequals : '=' ∉ key)
        (hkey : key.trim ≠ []) :
        Means (before ++ (key ++ '=' :: value)) (.pair key.trim value)

theorem headerName?_eq_some_iff {t name : Text} :
    headerName? t = some name ↔ ∃ inside after, (∀ c ∈ after, isBlank c = true) ∧
      t = inside ++ ']' :: after ∧ inside.trim ≠ [] ∧ name = inside.trim := by
  constructor
  · intro h
    rw [headerName?] at h
    split at h
    · cases h
    · next inside hinside =>
        split at h
        · cases h
        · next hname =>
            obtain ⟨after, hafter, ht⟩ := exists_trimEnd t
            rw [beforeEnd?_eq_some_iff.mp hinside, List.append_assoc] at ht
            exact ⟨inside, after, hafter, ht, hname, (Option.some.inj h).symm⟩
  · rintro ⟨inside, after, hafter, rfl, hname, rfl⟩
    have hend : trimEnd (inside ++ ']' :: after) = inside ++ [']'] := by
      rw [← List.singleton_append, ← List.append_assoc, trimEnd_append hafter]
      refine trimEnd_of_getLast ?_
      rw [List.getLast?_concat]
      rfl
    rw [headerName?, hend, beforeEnd?_eq_some_iff.mpr rfl]
    simp only [if_neg hname]

theorem splitEquals?_eq_some_iff {t key value : Text} :
    splitEquals? t = some (key, value) ↔ t = key ++ '=' :: value ∧ '=' ∉ key := by
  induction t generalizing key with
  | nil => simp [splitEquals?]
  | cons c t ih =>
      rw [splitEquals?]
      cases key with
      | nil =>
          by_cases hc : c = '='
          · simp [hc]
          · simp [hc]
      | cons d key =>
          by_cases hc : c = '='
          · rw [if_pos hc]
            constructor
            · rintro ⟨⟩
            · rintro ⟨heq, hequals⟩
              obtain ⟨rfl, -⟩ := List.cons.inj heq
              exact absurd (hc ▸ List.mem_cons_self) hequals
          · rw [if_neg hc, Option.map_eq_some_iff]
            constructor
            · rintro ⟨⟨key', value'⟩, hsplit, heq⟩
              cases heq
              obtain ⟨rfl, hequals⟩ := ih.mp hsplit
              exact ⟨rfl, by simp [Ne.symm hc, hequals]⟩
            · rintro ⟨heq, hequals⟩
              obtain ⟨rfl, rfl⟩ := List.cons.inj heq
              exact ⟨(key, value), ih.mpr ⟨rfl, fun h => hequals (List.mem_cons_of_mem _ h)⟩, rfl⟩

theorem means_of_read {line : Text} {said : Line} (h : Line.read line = .ok said) :
    Means line said := by
  obtain ⟨before, hbefore, hline⟩ := exists_trimStart line
  have hedge := head?_trimStart line
  rw [Line.read] at h
  split at h
  · next hrest =>
      cases h
      rw [hrest, List.append_nil] at hline
      exact .blank (hline ▸ hbefore)
  · next t hrest =>
      cases h
      rw [hline, hrest]
      exact .comment hbefore (.inl rfl)
  · next t hrest =>
      cases h
      rw [hline, hrest]
      exact .comment hbefore (.inr rfl)
  · next t hrest =>
      split at h
      · next name hname =>
          cases h
          obtain ⟨inside, after, hafter, rfl, hne, rfl⟩ := headerName?_eq_some_iff.mp hname
          rw [hline, hrest]
          exact .header hbefore hafter hne
      · cases h
  · next hnil hhash hsemicolon hbracket =>
      split at h
      · cases h
      · next key value hsplit =>
          split at h
          · cases h
          · next hkey =>
              cases h
              obtain ⟨hrest, hequals⟩ := splitEquals?_eq_some_iff.mp hsplit
              rw [hline, hrest]
              refine .pair hbefore ?_ hequals hkey
              cases key with
              | nil => rfl
              | cons c key =>
                  rw [hrest] at hedge hhash hsemicolon hbracket
                  have hc : isBlank c = false := by simpa using hedge
                  have hc₁ : c ≠ '#' := by
                    rintro rfl
                    exact hhash _ rfl
                  have hc₂ : c ≠ ';' := by
                    rintro rfl
                    exact hsemicolon _ rfl
                  have hc₃ : c ≠ '[' := by
                    rintro rfl
                    exact hbracket _ rfl
                  simp [startsKey, hc, hc₁, hc₂, hc₃]

theorem read_of_means {line : Text} {said : Line} (h : Means line said) :
    Line.read line = .ok said := by
  cases h with
  | blank hline =>
      have hrest : trimStart line = [] := by
        rw [← List.append_nil line, trimStart_append hline]
        rfl
      rw [Line.read, hrest]
  | comment hbefore hmark =>
      rcases hmark with rfl | rfl
      · rw [Line.read, trimStart_of_blanks hbefore rfl]
        rfl
      · rw [Line.read, trimStart_of_blanks hbefore rfl]
        rfl
  | header hbefore hafter hname =>
      rw [Line.read, trimStart_of_blanks hbefore rfl]
      simp only [headerName?_eq_some_iff.mpr ⟨_, _, hafter, rfl, hname, rfl⟩]
  | @pair before key value hbefore hstart hequals hkey =>
      have hsplit : splitEquals? (key ++ '=' :: value) = some (key, value) :=
        splitEquals?_eq_some_iff.mpr ⟨rfl, hequals⟩
      have hne : key ≠ [] := by
        rintro rfl
        exact hkey rfl
      obtain ⟨c, tail, rfl⟩ := List.exists_cons_of_ne_nil hne
      simp only [startsKey, List.head?_cons, Option.all_some, Bool.and_eq_true,
        Bool.not_eq_true', decide_eq_true_eq] at hstart
      obtain ⟨⟨⟨hblank, hhash⟩, hsemicolon⟩, hbracket⟩ := hstart
      rw [Line.read, trimStart_of_blanks hbefore (by simp [hblank])]
      split
      · next heq => cases heq
      · next heq => exact absurd (List.cons.inj heq).1 hhash
      · next heq => exact absurd (List.cons.inj heq).1 hsemicolon
      · next heq => exact absurd (List.cons.inj heq).1 hbracket
      · simp only [hsplit, if_neg hkey]

/-- The reader and the grammar agree. -/
theorem read_eq_ok_iff {line : Text} {said : Line} :
    Line.read line = .ok said ↔ Means line said :=
  ⟨means_of_read, read_of_means⟩

theorem Means.unique {line : Text} {said said' : Line} (h : Means line said)
    (h' : Means line said') : said = said' :=
  Except.ok.inj ((read_of_means h).symm.trans (read_of_means h'))

end CaseTable.Ini.Line
