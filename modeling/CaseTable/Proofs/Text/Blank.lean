import CaseTable.Arguments

/-!
# What trimming and normalising leave

Trimming is judged by the two ends of a text: `trim_eq_self_iff` says that a
text is its own trim exactly when it neither starts nor ends with a blank,
and what comes out of `trim` always qualifies. Padding a text with blanks is
invisible to it (`trim_padded`).

Of a normalised text it is enough, for what is written to a file, that the
only blank in it is the plain space: `eq_space_of_mem_normalize`. In
particular no line feed and no carriage return is left.
-/

namespace CaseTable

theorem isBlank_of_isAlphanum {c : Char} (h : c.isAlphanum = true) :
    isBlank c = false := by
  have hclass : c.isAlphanum = (decide (65 ≤ c.val ∧ c.val ≤ 90) ||
      decide (97 ≤ c.val) && decide (c.val ≤ 122) ||
      decide (48 ≤ c.val) && decide (c.val ≤ 57)) := rfl
  rw [hclass] at h
  simp only [UInt32.le_iff_toNat_le, Bool.or_eq_true, Bool.and_eq_true,
    decide_eq_true_eq] at h
  change ((65 ≤ c.toNat ∧ c.toNat ≤ 90) ∨ (97 ≤ c.toNat ∧ c.toNat ≤ 122)) ∨
    (48 ≤ c.toNat ∧ c.toNat ≤ 57) at h
  simp only [isBlank, Bool.or_eq_false_iff, Bool.and_eq_false_iff,
    decide_eq_false_iff_not]
  omega

end CaseTable

namespace CaseTable.Text

/-- A text has no blank at either of its ends. -/
def Trimmed (t : Text) : Prop :=
  t.head?.all (!isBlank ·) = true ∧ t.getLast?.all (!isBlank ·) = true

theorem trimStart_of_head {t : Text} (h : t.head?.all (!isBlank ·) = true) :
    trimStart t = t := by
  cases t with
  | nil => rfl
  | cons c t =>
      have hc : isBlank c = false := by simpa using h
      rw [trimStart, List.dropWhile_cons_of_neg (by simp [hc])]

theorem trimEnd_of_getLast {t : Text}
    (h : t.getLast?.all (!isBlank ·) = true) : trimEnd t = t := by
  have hrev := trimStart_of_head (t := t.reverse) (by
    rw [List.head?_reverse]; exact h)
  rw [trimStart] at hrev
  rw [trimEnd, hrev, List.reverse_reverse]

theorem head?_trimStart (t : Text) :
    (trimStart t).head?.all (!isBlank ·) = true := by
  induction t with
  | nil => rfl
  | cons c t ih =>
      by_cases hc : isBlank c = true
      · rw [trimStart, List.dropWhile_cons_of_pos hc]
        exact ih
      · rw [trimStart, List.dropWhile_cons_of_neg hc]
        simpa using hc

theorem getLast?_trimEnd (t : Text) :
    (trimEnd t).getLast?.all (!isBlank ·) = true := by
  have h := head?_trimStart t.reverse
  rw [trimStart] at h
  rw [trimEnd, List.getLast?_reverse]
  exact h

/-- Trimming the end leaves the start alone. -/
theorem trimEnd_prefix_self (t : Text) : trimEnd t <+: t := by
  have h := List.reverse_prefix.mpr (List.dropWhile_suffix isBlank
    (l := t.reverse))
  rwa [List.reverse_reverse] at h

/-- Trimming the start takes blanks off it. -/
theorem exists_trimStart (t : Text) :
    ∃ before, (∀ c ∈ before, isBlank c = true) ∧ t = before ++ trimStart t :=
  ⟨t.takeWhile isBlank, List.all_eq_true.mp List.all_takeWhile,
    List.takeWhile_append_dropWhile.symm⟩

/-- Trimming the end takes blanks off it. -/
theorem exists_trimEnd (t : Text) :
    ∃ after, (∀ c ∈ after, isBlank c = true) ∧ t = trimEnd t ++ after := by
  obtain ⟨before, hbefore, ht⟩ := exists_trimStart t.reverse
  refine ⟨before.reverse, fun c hc => hbefore c (List.mem_reverse.mp hc), ?_⟩
  rw [trimEnd, ← List.reverse_append, ← trimStart, ← ht, List.reverse_reverse]

theorem trimmed_trim (t : Text) : Trimmed (trim t) := by
  refine ⟨?_, getLast?_trimEnd _⟩
  obtain ⟨rest, hrest⟩ := trimEnd_prefix_self (trimStart t)
  have hhead := head?_trimStart t
  rw [← hrest] at hhead
  cases htrim : trim t with
  | nil => rfl
  | cons c u =>
      rw [trim] at htrim
      rw [htrim] at hhead
      simpa using hhead

theorem trim_of_trimmed {t : Text} (h : Trimmed t) : trim t = t := by
  rw [trim, trimStart_of_head h.1, trimEnd_of_getLast h.2]

theorem trim_eq_self_iff {t : Text} : trim t = t ↔ Trimmed t :=
  ⟨fun h => h ▸ trimmed_trim t, trim_of_trimmed⟩

theorem trim_trim (t : Text) : trim (trim t) = trim t :=
  trim_of_trimmed (trimmed_trim t)

theorem mem_of_mem_trim {t : Text} {c : Char} (h : c ∈ trim t) : c ∈ t :=
  (List.dropWhile_subset _) ((trimEnd_prefix_self _).subset h)

theorem trimStart_append {before : Text} (h : ∀ c ∈ before, isBlank c = true)
    (t : Text) : trimStart (before ++ t) = trimStart t :=
  List.dropWhile_append_of_pos h

/-- Blanks are taken off up to the first character that is none. -/
theorem trimStart_of_blanks {before rest : Text} (hbefore : ∀ c ∈ before, isBlank c = true)
    (hrest : rest.head?.all (!isBlank ·) = true) : trimStart (before ++ rest) = rest := by
  rw [trimStart_append hbefore, trimStart_of_head hrest]

theorem trimEnd_append {after : Text} (h : ∀ c ∈ after, isBlank c = true)
    (t : Text) : trimEnd (t ++ after) = trimEnd t := by
  rw [trimEnd, trimEnd, List.reverse_append,
    List.dropWhile_append_of_pos fun c hc => h c (List.mem_reverse.mp hc)]

/-- Trimming the end keeps what stands before a character that is no blank. -/
theorem length_lt_trimEnd_append {c : Char} {u : Text} (hc : c ∈ u) (h : isBlank c = false)
    (s : Text) : s.length < (trimEnd (s ++ u)).length := by
  obtain ⟨after, hafter, htext⟩ := exists_trimEnd (s ++ u)
  refine Nat.lt_of_not_le fun hle => ?_
  have hkept : trimEnd (s ++ u) <+: s :=
    List.prefix_of_prefix_length_le (trimEnd_prefix_self _) (List.prefix_append s u) hle
  obtain ⟨between, hs⟩ := hkept
  have hu : between ++ u = after := by
    refine List.append_cancel_left (?_ : trimEnd (s ++ u) ++ (between ++ u) = _)
    rw [← List.append_assoc, hs, ← htext]
  cases (hafter c (hu ▸ List.mem_append_right between hc)).symm.trans h

/-- Blanks around a text that has none at its ends are trimmed away. -/
theorem trim_padded {before t after : Text}
    (hbefore : ∀ c ∈ before, isBlank c = true)
    (hafter : ∀ c ∈ after, isBlank c = true) (ht : Trimmed t)
    (hne : t ≠ []) : trim (before ++ t ++ after) = t := by
  have hstart : trimStart (t ++ after) = t ++ after := by
    obtain ⟨c, u, rfl⟩ := List.exists_cons_of_ne_nil hne
    exact trimStart_of_head ht.1
  rw [trim, List.append_assoc, trimStart_append hbefore, hstart,
    trimEnd_append hafter, trimEnd_of_getLast ht.2]

theorem trimmed_of_forall {t : Text} (h : ∀ c ∈ t, isBlank c = false) :
    Trimmed t := by
  constructor
  · cases hhead : t.head? with
    | none => rfl
    | some c => simp [h c (List.mem_of_head? hhead)]
  · cases hlast : t.getLast? with
    | none => rfl
    | some c => simp [h c (List.mem_of_getLast? hlast)]

/-- A stretch of one class of characters ends where the class does. -/
theorem append_inj_of_forall {p : Char → Bool} {s t u v : Text} (hs : ∀ c ∈ s, p c = true)
    (ht : ∀ c ∈ t, p c = true) (hu : u.head?.all (!p ·) = true)
    (hv : v.head?.all (!p ·) = true) (h : s ++ u = t ++ v) : s = t ∧ u = v := by
  have hstop : ∀ {w : Text}, w.head?.all (!p ·) = true → w.takeWhile p = [] := by
    intro w hw
    cases w with
    | nil => rfl
    | cons c w => exact List.takeWhile_cons_of_neg (by simpa using hw)
  have htake := congrArg (List.takeWhile p) h
  rw [List.takeWhile_append_of_pos hs, List.takeWhile_append_of_pos ht, hstop hu, hstop hv,
    List.append_nil, List.append_nil] at htake
  exact ⟨htake, List.append_cancel_left (htake ▸ h)⟩

theorem collapseBlanks_nil : collapseBlanks [] = [] := by rw [collapseBlanks.eq_def]

theorem collapseBlanks_of_isBlank {c : Char} (h : isBlank c = true) (t : Text) :
    collapseBlanks (c :: t) = ' ' :: collapseBlanks (t.dropWhile isBlank) := by
  rw [collapseBlanks.eq_def]
  exact if_pos h

theorem collapseBlanks_of_not_isBlank {c : Char} (h : ¬ isBlank c = true) (t : Text) :
    collapseBlanks (c :: t) = c :: collapseBlanks t := by
  rw [collapseBlanks.eq_def]
  exact if_neg h

theorem eq_space_of_mem_collapseBlanks {t : Text} {c : Char}
    (h : c ∈ collapseBlanks t) (hc : isBlank c = true) : c = ' ' := by
  fun_induction collapseBlanks t with
  | case1 => cases h
  | case2 d t hd ih =>
      rcases List.mem_cons.mp h with rfl | h
      · rfl
      · exact ih h
  | case3 d t hd ih =>
      rcases List.mem_cons.mp h with rfl | h
      · exact absurd hc hd
      · exact ih h

end CaseTable.Text

namespace CaseTable.Arguments

/-- The only blank in a normalised text is the plain space. -/
theorem eq_space_of_mem_normalize {t : Text} {c : Char}
    (h : c ∈ normalize t) (hc : isBlank c = true) : c = ' ' :=
  Text.eq_space_of_mem_collapseBlanks (Text.mem_of_mem_trim h) hc

end CaseTable.Arguments
