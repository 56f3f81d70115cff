import CaseTable.Proofs.Arguments
import CaseTable.Proofs.Text.Lines

/-!
# Words

The words of a text are what is left when its blanks are written as single
spaces and the ends are trimmed: `trim_collapseBlanks`. A blank parts the words
(`words_append_blank`), and the induction goes from word to word: behind the
first word of a text there are only blanks, or blanks and a text that starts
with its next word (`exists_word`).
-/

namespace CaseTable.Text

theorem words_append_blank {c : Char} (hc : isBlank c = true) (s t : Text) :
    words (s ++ c :: t) = words s ++ words t := by
  rw [words, words, words, List.splitOnP_append_cons s t hc, List.filter_append]

theorem words_of_forall {word : Text} (hne : word ≠ []) (h : ∀ c ∈ word, isBlank c = false) :
    words word = [word] := by
  rw [words, List.splitOnP_eq_singleton h]
  simp [hne]

theorem words_blanks_append {blanks : Text} (h : ∀ c ∈ blanks, isBlank c = true) (t : Text) :
    words (blanks ++ t) = words t := by
  induction blanks with
  | nil => rfl
  | cons c blanks ih =>
      obtain ⟨hc, hblanks⟩ := List.forall_mem_cons.mp h
      have hparted : words ([] ++ c :: (blanks ++ t)) = words [] ++ words (blanks ++ t) :=
        words_append_blank hc [] (blanks ++ t)
      exact hparted.trans (ih hblanks)

theorem words_append_blanks {blanks : Text} (h : ∀ c ∈ blanks, isBlank c = true) (t : Text) :
    words (t ++ blanks) = words t := by
  cases blanks with
  | nil => rw [List.append_nil]
  | cons c blanks =>
      obtain ⟨hc, hblanks⟩ := List.forall_mem_cons.mp h
      have hnone : words (blanks ++ []) = words [] := words_blanks_append hblanks []
      rw [List.append_nil] at hnone
      rw [words_append_blank hc, hnone]
      exact List.append_nil _

theorem words_trimStart (t : Text) : words (trimStart t) = words t := by
  obtain ⟨blanks, hblanks, ht⟩ := exists_trimStart t
  conv => rhs; rw [ht]
  rw [words_blanks_append hblanks]

/-- A text that starts with a word goes on with blanks, and behind them with nothing
or another word. -/
theorem exists_word {t : Text} (hne : t ≠ []) (h : t.head?.all (!isBlank ·) = true) :
    ∃ word gap rest, t = word ++ (gap ++ rest) ∧ word ≠ [] ∧
      (∀ c ∈ word, isBlank c = false) ∧ (∀ c ∈ gap, isBlank c = true) ∧
      rest.head?.all (!isBlank ·) = true ∧ (rest ≠ [] → gap ≠ []) := by
  induction t with
  | nil => exact absurd rfl hne
  | cons c t ih =>
      have hc : isBlank c = false := by simpa using h
      by_cases hmore : t ≠ [] ∧ t.head?.all (!isBlank ·) = true
      · obtain ⟨word, gap, rest, rfl, -, hword, hrest⟩ := ih hmore.1 hmore.2
        exact ⟨c :: word, gap, rest, rfl, List.cons_ne_nil c word,
          List.forall_mem_cons.mpr ⟨hc, hword⟩, hrest⟩
      · obtain ⟨gap, hgap, ht⟩ := exists_trimStart t
        refine ⟨[c], gap, trimStart t, congrArg (c :: ·) ht, List.cons_ne_nil c [],
          List.forall_mem_singleton.mpr hc, hgap, head?_trimStart t, ?_⟩
        rintro hrest rfl
        have hsame : t = trimStart t := ht
        exact hmore ⟨hsame ▸ hrest, hsame ▸ head?_trimStart t⟩

theorem trimEnd_append_of_ne_nil {t : Text} (h : trimEnd t ≠ []) (s : Text) :
    trimEnd (s ++ t) = s ++ trimEnd t := by
  rw [trimEnd, ne_eq, List.reverse_eq_nil_iff] at h
  rw [trimEnd, trimEnd, List.reverse_append, List.dropWhile_append,
    if_neg (by simpa using h), List.reverse_append, List.reverse_reverse]

theorem collapseBlanks_append {word : Text} (h : ∀ c ∈ word, isBlank c = false) (t : Text) :
    collapseBlanks (word ++ t) = word ++ collapseBlanks t := by
  induction word with
  | nil => rfl
  | cons c word ih =>
      obtain ⟨hc, hword⟩ := List.forall_mem_cons.mp h
      rw [List.cons_append, collapseBlanks_of_not_isBlank (by simp [hc]), ih hword,
        List.cons_append]

/-- A stretch of blanks is written as one space. -/
theorem collapseBlanks_gap {gap rest : Text} (hne : gap ≠ [])
    (hgap : ∀ c ∈ gap, isBlank c = true) (hrest : rest.head?.all (!isBlank ·) = true) :
    collapseBlanks (gap ++ rest) = ' ' :: collapseBlanks rest := by
  obtain ⟨c, gap, rfl⟩ := List.exists_cons_of_ne_nil hne
  obtain ⟨hc, hgap⟩ := List.forall_mem_cons.mp hgap
  rw [List.cons_append, collapseBlanks_of_isBlank hc, ← trimStart,
    trimStart_of_blanks hgap hrest]

theorem isBlank_of_mem_collapseBlanks {gap : Text} (hgap : ∀ c ∈ gap, isBlank c = true) :
    ∀ c ∈ collapseBlanks gap, isBlank c = true := by
  intro c hc
  fun_induction collapseBlanks gap with
  | case1 => cases hc
  | case2 d t hd ih =>
      rcases List.mem_cons.mp hc with rfl | hc
      · decide
      · exact ih (fun e he => hgap e (List.mem_cons_of_mem d (List.dropWhile_subset _ he))) hc
  | case3 d t hd ih => exact absurd (hgap d List.mem_cons_self) hd

theorem trimEnd_collapseBlanks_ne_nil {t : Text} (hne : t ≠ [])
    (h : t.head?.all (!isBlank ·) = true) : trimEnd (collapseBlanks t) ≠ [] := by
  obtain ⟨c, t, rfl⟩ := List.exists_cons_of_ne_nil hne
  have hc : isBlank c = false := by simpa using h
  rw [collapseBlanks_of_not_isBlank (by simp [hc])]
  exact List.ne_nil_of_length_pos
    (length_lt_trimEnd_append (u := c :: collapseBlanks t) List.mem_cons_self hc [])

theorem trimEnd_collapseBlanks {t : Text} (h : t.head?.all (!isBlank ·) = true) :
    trimEnd (collapseBlanks t) = join [' '] (words t) := by
  induction hlen : t.length using Nat.strongRecOn generalizing t with
  | _ n ih =>
      subst hlen
      by_cases ht : t = []
      · rw [ht, collapseBlanks_nil]
        rfl
      · obtain ⟨word, gap, rest, rfl, hne, hword, hgap, hhead, hparted⟩ := exists_word ht h
        rw [collapseBlanks_append hword]
        by_cases hrest : rest = []
        · rw [hrest, List.append_nil, trimEnd_append (isBlank_of_mem_collapseBlanks hgap),
            trimEnd_of_getLast (trimmed_of_forall hword).2, words_append_blanks hgap,
            words_of_forall hne hword]
          simp [join]
        · have hshorter : rest.length < (word ++ (gap ++ rest)).length := by
            have := List.length_pos_iff.mpr hne
            simp only [List.length_append]
            omega
          have hlater := ih _ hshorter hhead rfl
          have hkept := trimEnd_collapseBlanks_ne_nil hrest hhead
          have hmore : words rest ≠ [] := by
            intro hnil
            rw [hlater, hnil] at hkept
            exact hkept rfl
          have hwords : words (word ++ (gap ++ rest)) = word :: words rest := by
            obtain ⟨c, gap, rfl⟩ := List.exists_cons_of_ne_nil (hparted hrest)
            obtain ⟨hc, hgap⟩ := List.forall_mem_cons.mp hgap
            rw [List.cons_append, words_append_blank hc, words_of_forall hne hword,
              words_blanks_append hgap, List.singleton_append]
          rw [collapseBlanks_gap (hparted hrest) hgap hhead, List.append_cons,
            trimEnd_append_of_ne_nil hkept, hlater, hwords, join_cons hmore, ← List.append_cons]

theorem trimStart_collapseBlanks (t : Text) :
    trimStart (collapseBlanks t) = collapseBlanks (trimStart t) := by
  have hkept (u : Text) : trimStart (collapseBlanks (trimStart u)) = collapseBlanks (trimStart u) :=
    trimStart_of_head (by
      rw [head?_collapseBlanks (head?_trimStart u)]
      exact head?_trimStart u)
  cases t with
  | nil => exact hkept []
  | cons c t =>
      by_cases hc : isBlank c = true
      · have hspace : trimStart (' ' :: collapseBlanks (trimStart t)) =
            trimStart (collapseBlanks (trimStart t)) := List.dropWhile_cons_of_pos (by decide)
        have hstart : trimStart (c :: t) = trimStart t := List.dropWhile_cons_of_pos hc
        rw [collapseBlanks_of_isBlank hc, ← trimStart, hspace, hkept, hstart]
      · have hstart : trimStart (c :: t) = c :: t := List.dropWhile_cons_of_neg hc
        have hsame := hkept (c :: t)
        rwa [hstart] at hsame ⊢

/-- Where blanks are written as single spaces and the ends are trimmed, the words stand
with one space between each two. -/
theorem trim_collapseBlanks (t : Text) : trim (collapseBlanks t) = join [' '] (words t) := by
  rw [trim, trimStart_collapseBlanks, trimEnd_collapseBlanks (head?_trimStart t),
    words_trimStart]

/-! ## What is no blank -/

theorem filter_of_blanks {t : Text} (h : ∀ c ∈ t, isBlank c = true) :
    t.filter (!isBlank ·) = [] :=
  List.filter_eq_nil_iff.mpr fun c hc => by simp [h c hc]

theorem filter_trimStart (t : Text) :
    (trimStart t).filter (!isBlank ·) = t.filter (!isBlank ·) := by
  obtain ⟨before, hbefore, ht⟩ := exists_trimStart t
  conv => rhs; rw [ht]
  rw [List.filter_append, filter_of_blanks hbefore, List.nil_append]

theorem filter_trim (t : Text) : (trim t).filter (!isBlank ·) = t.filter (!isBlank ·) := by
  obtain ⟨after, hafter, ht⟩ := exists_trimEnd (trimStart t)
  rw [← filter_trimStart t, trim]
  conv => rhs; rw [ht]
  rw [List.filter_append, filter_of_blanks hafter, List.append_nil]

theorem filter_collapseBlanks (t : Text) :
    (collapseBlanks t).filter (!isBlank ·) = t.filter (!isBlank ·) := by
  fun_induction collapseBlanks t with
  | case1 => rfl
  | case2 c t hc ih =>
      have hspace : (!isBlank ' ') = false := by decide
      rw [List.filter_cons_of_neg (by simp [hspace]), List.filter_cons_of_neg (by simp [hc]), ih]
      exact filter_trimStart t
  | case3 c t hc ih =>
      rw [List.filter_cons_of_pos (by simp [hc]), List.filter_cons_of_pos (by simp [hc]), ih]

end CaseTable.Text
