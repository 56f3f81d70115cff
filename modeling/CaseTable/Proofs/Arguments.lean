import CaseTable.Proofs.Text.Blank

/-!
# Normalised arguments

`Arguments.Normal` says what a normalised text looks like without saying how
it is made: the plain space is its only blank, it stands alone, and it stands
inside. Normalising makes such a text (`normal_normalize`) and leaves one as it
is (`normalize_of_normal`), so the normalised texts are exactly the fixed
points (`normalize_eq_self_iff`) and normalising twice does nothing more.

None of the three steps undoes an earlier one: a text without line feeds has
no continuation to join, a text with lone spaces has no stretch to collapse,
and trimming only cuts the ends off.
-/

namespace CaseTable.Text

theorem trim_infix (t : Text) : trim t <:+: t :=
  (trimEnd_prefix_self _).isInfix.trans (List.dropWhile_suffix _).isInfix

/-- A stretch of blanks leaves one space, and the next character is no blank. -/
theorem head?_collapseBlanks {t : Text} (h : t.head?.all (!isBlank ·) = true) :
    (collapseBlanks t).head? = t.head? := by
  fun_cases collapseBlanks t with
  | case1 => rfl
  | case2 c t hc => simp [hc] at h
  | case3 c t hc => rfl

theorem single_collapseBlanks (t : Text) : ¬ [' ', ' '] <:+: collapseBlanks t := by
  have hblank : isBlank ' ' = true := by decide
  fun_induction collapseBlanks t with
  | case1 => simp
  | case2 c t hc ih =>
      intro hdouble
      rcases List.infix_cons_iff.mp hdouble with hstart | hlater
      · -- a second space would be the first character behind the stretch
        obtain ⟨u, hu⟩ := (List.cons_prefix_cons.mp hstart).2
        have hnext := head?_trimStart t
        rw [trimStart, ← head?_collapseBlanks hnext, ← hu] at hnext
        simp [hblank] at hnext
      · exact ih hlater
  | case3 c t hc ih =>
      intro hdouble
      rcases List.infix_cons_iff.mp hdouble with hstart | hlater
      · rw [← (List.cons_prefix_cons.mp hstart).1] at hc
        exact hc hblank
      · exact ih hlater

/-- Where every blank is a lone space there is nothing to collapse. -/
theorem collapseBlanks_of_single {t : Text} (hspace : ∀ c ∈ t, isBlank c = true → c = ' ')
    (hsingle : ¬ [' ', ' '] <:+: t) : collapseBlanks t = t := by
  fun_induction collapseBlanks t with
  | case1 => rfl
  | case2 c t hc ih =>
      have hhead : t.head?.all (!isBlank ·) = true := by
        cases t with
        | nil => rfl
        | cons d t =>
            refine (Bool.not_eq_true' _).mpr (Bool.eq_false_iff.mpr fun hd => hsingle ?_)
            rw [hspace c (by simp) hc, hspace d (by simp) hd]
            exact ⟨[], t, rfl⟩
      rw [← trimStart, trimStart_of_head hhead] at ih ⊢
      rw [ih (fun d hd => hspace d (List.mem_cons_of_mem c hd))
        fun hdouble => hsingle (List.infix_cons hdouble), hspace c (by simp) hc]
  | case3 c t hc ih =>
      rw [ih (fun d hd => hspace d (List.mem_cons_of_mem c hd))
        fun hdouble => hsingle (List.infix_cons hdouble)]

end CaseTable.Text

namespace CaseTable.Arguments

/-- A text on one line: its only blanks are lone spaces between other
characters. -/
structure Normal (t : Text) : Prop where
    space : ∀ c ∈ t, isBlank c = true → c = ' '
    single : ¬ [' ', ' '] <:+: t
    trimmed : t.Trimmed

theorem Normal.notMem {t : Text} (h : Normal t) {c : Char} (hc : isBlank c = true)
    (hne : c ≠ ' ') : c ∉ t :=
  fun hmem => hne (h.space c hmem hc)

theorem normal_normalize (t : Text) : Normal (normalize t) where
  space _ hc hblank := eq_space_of_mem_normalize hc hblank
  single hdouble :=
    Text.single_collapseBlanks _ (hdouble.trans (Text.trim_infix _))
  trimmed := Text.trimmed_trim _

/-- A continuation ends a line. -/
theorem joinContinuations_of_notMem {t : Text} (h : '\n' ∉ t) :
    joinContinuations t = t := by
  fun_induction joinContinuations t with
  | case1 t => simp at h
  | case2 t => simp at h
  | case3 c t _ _ ih => rw [ih fun hmem => h (List.mem_cons_of_mem c hmem)]
  | case4 => rfl

theorem normalize_of_normal {t : Text} (h : Normal t) : normalize t = t := by
  rw [normalize, joinContinuations_of_notMem (h.notMem (by decide) (by decide)),
    Text.collapseBlanks_of_single h.space h.single, Text.trim_of_trimmed h.trimmed]

theorem normalize_eq_self_iff {t : Text} : normalize t = t ↔ Normal t :=
  ⟨fun h => h ▸ normal_normalize t, normalize_of_normal⟩

theorem normalize_normalize (t : Text) : normalize (normalize t) = normalize t :=
  normalize_of_normal (normal_normalize t)

end CaseTable.Arguments
