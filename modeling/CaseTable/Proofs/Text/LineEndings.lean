import CaseTable.Proofs.Arguments
import CaseTable.Shell.Arm

/-!
# Line ends of two characters

`crlf` writes a carriage return before every line feed. Both characters are
white space, so whatever works with blanks works the same: words are the same
words (`words_crlf`), trimming leaves the same text with the new line ends
(`trim_crlf`), and arguments come out the same (`clean_crlf`). A word without
line ends is found at the same places (`afterStart?_crlf`).
-/

namespace CaseTable.Text

/-- A character with the new line end. -/
def lineEnd (c : Char) : Text := if c = '\n' then ['\r', '\n'] else [c]

/-- The text with a carriage return before each line feed. -/
def crlf (t : Text) : Text := t.flatMap lineEnd

/-- The same for a text that is kept nearest character first. -/
def crlfBehind (t : Text) : Text := t.flatMap fun c => (lineEnd c).reverse

@[simp] theorem lineEnd_newline : lineEnd '\n' = ['\r', '\n'] := rfl

theorem lineEnd_of_ne {c : Char} (h : c ≠ '\n') : lineEnd c = [c] := if_neg h

@[simp] theorem crlf_nil : crlf [] = [] := rfl

theorem crlf_cons (c : Char) (t : Text) : crlf (c :: t) = lineEnd c ++ crlf t := rfl

@[simp] theorem crlf_newline (t : Text) : crlf ('\n' :: t) = '\r' :: '\n' :: crlf t := rfl

theorem crlf_cons_of_ne {c : Char} (h : c ≠ '\n') (t : Text) :
    crlf (c :: t) = c :: crlf t := by
  rw [crlf_cons, lineEnd_of_ne h, List.singleton_append]

@[simp] theorem crlf_append (s t : Text) : crlf (s ++ t) = crlf s ++ crlf t :=
  List.flatMap_append

@[simp] theorem crlfBehind_nil : crlfBehind [] = [] := rfl

@[simp] theorem crlfBehind_append (s t : Text) :
    crlfBehind (s ++ t) = crlfBehind s ++ crlfBehind t :=
  List.flatMap_append

theorem crlfBehind_cons (c : Char) (t : Text) :
    crlfBehind (c :: t) = (lineEnd c).reverse ++ crlfBehind t := rfl

theorem crlfBehind_cons_of_ne {c : Char} (h : c ≠ '\n') (t : Text) :
    crlfBehind (c :: t) = c :: crlfBehind t := by
  rw [crlfBehind_cons, lineEnd_of_ne h]
  rfl

theorem reverse_crlf (t : Text) : (crlf t).reverse = crlfBehind t.reverse := by
  induction t with
  | nil => rfl
  | cons c t ih =>
      rw [crlf_cons, List.reverse_append, List.reverse_cons, ih, crlfBehind_append,
        crlfBehind_cons, crlfBehind_nil, List.append_nil]

theorem reverse_crlfBehind (t : Text) : (crlfBehind t).reverse = crlf t.reverse := by
  have h := reverse_crlf t.reverse
  rw [List.reverse_reverse] at h
  rw [← h, List.reverse_reverse]

theorem crlf_of_notMem {t : Text} (h : '\n' ∉ t) : crlf t = t := by
  induction t with
  | nil => rfl
  | cons c t ih =>
      rw [List.mem_cons, not_or] at h
      rw [crlf_cons_of_ne (Ne.symm h.1), ih h.2]

/-- The front of a text, with the old line ends and with the new ones. -/
theorem crlf_cases (t : Text) : t = [] ∨ (∃ u, t = '\n' :: u) ∨
    ∃ c u, t = c :: u ∧ crlf t = c :: crlf u := by
  cases t with
  | nil => exact .inl rfl
  | cons c t =>
      by_cases hc : c = '\n'
      · exact .inr (.inl ⟨t, by rw [hc]⟩)
      · exact .inr (.inr ⟨c, t, rfl, crlf_cons_of_ne hc t⟩)

theorem head?_crlf_ne_newline (t : Text) : (crlf t).head? ≠ some '\n' := by
  by_cases hc : t.head? = some '\n'
  · obtain ⟨u, rfl⟩ := List.head?_eq_some_iff.mp hc
    simp
  · rcases crlf_cases t with rfl | ⟨u, rfl⟩ | ⟨c, u, rfl, h⟩
    · simp
    · simp
    · rwa [h]

theorem crlf_eq_nil_iff {t : Text} : crlf t = [] ↔ t = [] := by
  cases t with
  | nil => exact ⟨fun _ => rfl, fun _ => rfl⟩
  | cons c t =>
      by_cases hc : c = '\n'
      · simp [hc]
      · simp [crlf_cons_of_ne hc]

/-! ## Blanks -/

theorem isBlank_newline : isBlank '\n' = true := rfl

theorem isBlank_return : isBlank '\r' = true := rfl

theorem dropWhile_crlf {p : Char → Bool} (h : p '\r' = p '\n') (t : Text) :
    (crlf t).dropWhile p = crlf (t.dropWhile p) := by
  induction t with
  | nil => rfl
  | cons c t ih =>
      by_cases hc : c = '\n'
      · subst hc
        by_cases hp : p '\n' = true
        · rw [crlf_newline, List.dropWhile_cons_of_pos (h.trans hp),
            List.dropWhile_cons_of_pos hp, List.dropWhile_cons_of_pos hp, ih]
        · rw [crlf_newline, List.dropWhile_cons_of_neg (by rwa [h]),
            List.dropWhile_cons_of_neg hp, crlf_newline]
      · rw [crlf_cons_of_ne hc]
        by_cases hp : p c = true
        · rw [List.dropWhile_cons_of_pos hp, List.dropWhile_cons_of_pos hp, ih]
        · rw [List.dropWhile_cons_of_neg hp, List.dropWhile_cons_of_neg hp,
            crlf_cons_of_ne hc]

theorem dropWhile_isBlank_crlf (t : Text) :
    (crlf t).dropWhile isBlank = crlf (t.dropWhile isBlank) :=
  dropWhile_crlf rfl t

theorem dropWhile_isBlank_crlfBehind (t : Text) :
    (crlfBehind t).dropWhile isBlank = crlfBehind (t.dropWhile isBlank) := by
  induction t with
  | nil => rfl
  | cons c t ih =>
      by_cases hc : c = '\n'
      · subst hc
        exact ih
      · rw [crlfBehind_cons_of_ne hc]
        by_cases hb : isBlank c = true
        · rw [List.dropWhile_cons_of_pos hb, List.dropWhile_cons_of_pos hb, ih]
        · rw [List.dropWhile_cons_of_neg hb, List.dropWhile_cons_of_neg hb,
            crlfBehind_cons_of_ne hc]

theorem trimEnd_crlf (t : Text) : trimEnd (crlf t) = crlf (trimEnd t) := by
  rw [trimEnd, reverse_crlf, dropWhile_isBlank_crlfBehind, reverse_crlfBehind, trimEnd]

theorem trim_crlf (t : Text) : trim (crlf t) = crlf (trim t) := by
  rw [trim, trimStart, dropWhile_isBlank_crlf, trimEnd_crlf, trim, trimStart]

theorem collapseBlanks_crlf (t : Text) : collapseBlanks (crlf t) = collapseBlanks t := by
  fun_induction collapseBlanks t with
  | case1 => rw [crlf_nil, collapseBlanks_nil]
  | case2 c t hblank ih =>
      rw [← ih, ← dropWhile_isBlank_crlf]
      by_cases hc : c = '\n'
      · subst hc
        rw [crlf_newline, collapseBlanks_of_isBlank isBlank_return,
          List.dropWhile_cons_of_pos isBlank_newline]
      · rw [crlf_cons_of_ne hc, collapseBlanks_of_isBlank hblank]
  | case3 c t hblank ih =>
      have hc : c ≠ '\n' := by
        rintro rfl
        exact hblank rfl
      rw [crlf_cons_of_ne hc, collapseBlanks_of_not_isBlank hblank, ih]

/-- The pieces between blanks start the same, and differ in empty ones only. -/
theorem exists_splitOnP_crlf (t : Text) : ∃ word rest rest',
    t.splitOnP isBlank = word :: rest ∧ (crlf t).splitOnP isBlank = word :: rest' ∧
      rest.filter (· ≠ []) = rest'.filter (· ≠ []) := by
  induction t with
  | nil => exact ⟨[], [], [], rfl, rfl, rfl⟩
  | cons c t ih =>
      obtain ⟨word, rest, rest', hsplit, hsplit', hwords⟩ := ih
      by_cases hc : c = '\n'
      · subst hc
        refine ⟨[], word :: rest, [] :: word :: rest', ?_, ?_, ?_⟩
        · rw [List.splitOnP_cons_eq_if_modifyHead, if_pos isBlank_newline, hsplit]
        · rw [crlf_newline, List.splitOnP_cons_eq_if_modifyHead, if_pos isBlank_return,
            List.splitOnP_cons_eq_if_modifyHead, if_pos isBlank_newline, hsplit']
        · simp only [List.filter_cons, hwords]
          simp
      · rw [crlf_cons_of_ne hc, List.splitOnP_cons_eq_if_modifyHead,
          List.splitOnP_cons_eq_if_modifyHead, hsplit, hsplit']
        by_cases hb : isBlank c = true
        · rw [if_pos hb, if_pos hb]
          exact ⟨[], _, _, rfl, rfl, by simp only [List.filter_cons, hwords]⟩
        · rw [if_neg hb, if_neg hb]
          exact ⟨c :: word, rest, rest', rfl, rfl, hwords⟩

theorem words_crlf (t : Text) : words (crlf t) = words t := by
  obtain ⟨word, rest, rest', hsplit, hsplit', hwords⟩ := exists_splitOnP_crlf t
  rw [words, words, hsplit, hsplit', List.filter_cons, List.filter_cons, hwords]

theorem splitOn_crlf {mark : Char} (hline : mark ≠ '\n') (hreturn : mark ≠ '\r') (t : Text) :
    (crlf t).splitOn mark = (t.splitOn mark).map crlf := by
  induction t with
  | nil => rfl
  | cons c t ih =>
      obtain ⟨piece, rest, hsplit⟩ :=
        List.exists_cons_of_ne_nil (List.splitOn_ne_nil mark t)
      rw [hsplit] at ih
      rw [List.splitOn_cons_eq_if_modifyHead, hsplit]
      by_cases hc : c = '\n'
      · subst hc
        have hfeed : ¬ ('\n' == mark) = true := by simpa using Ne.symm hline
        have hcarriage : ¬ ('\r' == mark) = true := by simpa using Ne.symm hreturn
        rw [crlf_newline, List.splitOn_cons_eq_if_modifyHead,
          List.splitOn_cons_eq_if_modifyHead, ih, if_neg hfeed, if_neg hcarriage,
          if_neg hfeed]
        rfl
      · rw [crlf_cons_of_ne hc, List.splitOn_cons_eq_if_modifyHead, ih]
        by_cases hmark : (c == mark) = true
        · rw [if_pos hmark, if_pos hmark]
          rfl
        · rw [if_neg hmark, if_neg hmark, List.map_cons, List.modifyHead_cons,
            List.modifyHead_cons, List.map_cons, crlf_cons_of_ne hc]

/-! ## Words -/

/-- A text that holds no part of a line end. -/
def OneLine (t : Text) : Prop := '\n' ∉ t ∧ '\r' ∉ t

instance (t : Text) : Decidable (OneLine t) := inferInstanceAs (Decidable (_ ∧ _))

theorem OneLine.cons {c : Char} {t : Text} (h : OneLine (c :: t)) :
    c ≠ '\n' ∧ c ≠ '\r' ∧ OneLine t := by
  simp only [OneLine, List.mem_cons, not_or] at h
  exact ⟨Ne.symm h.1.1, Ne.symm h.2.1, h.1.2, h.2.2⟩

theorem afterStart?_crlf {word : Text} (h : OneLine word) (t : Text) :
    afterStart? word (crlf t) = (afterStart? word t).map crlf := by
  induction word generalizing t with
  | nil => rfl
  | cons c word ih =>
      obtain ⟨hline, hreturn, hrest⟩ := h.cons
      cases t with
      | nil => rfl
      | cons d t =>
          by_cases hd : d = '\n'
          · subst hd
            rw [crlf_newline, afterStart?, afterStart?, if_neg hreturn, if_neg hline]
            rfl
          · rw [crlf_cons_of_ne hd, afterStart?, afterStart?, ih hrest]
            split <;> rfl

theorem beforeEnd?_crlf {mark : Char} (h : OneLine [mark]) (t : Text) :
    beforeEnd? [mark] (crlf t) = (beforeEnd? [mark] t).map crlf := by
  obtain ⟨hline, hreturn, -⟩ := h.cons
  cases hlast : t.getLast? with
  | none =>
      rw [List.getLast?_eq_none_iff.mp hlast]
      rfl
  | some c =>
      obtain ⟨u, rfl⟩ := List.getLast?_eq_some_iff.mp hlast
      by_cases hc : c = mark
      · subst hc
        have hsame : crlf (u ++ [c]) = crlf u ++ [c] := by
          rw [crlf_append, crlf_cons_of_ne hline, crlf_nil]
        rw [hsame, beforeEnd?_eq_some_iff.mpr rfl, beforeEnd?_eq_some_iff.mpr rfl]
        rfl
      · have hnone {v : Text} (hlast : v.getLast? = some c) : beforeEnd? [mark] v = none := by
          refine Option.eq_none_iff_forall_ne_some.mpr fun rest hrest => hc ?_
          rw [beforeEnd?_eq_some_iff.mp hrest, List.getLast?_concat] at hlast
          exact (Option.some.inj hlast).symm
        have hend : (crlf (u ++ [c])).getLast? = some c := by
          rw [crlf_append, crlf_cons, crlf_nil, List.append_nil, List.getLast?_append]
          by_cases hfeed : c = '\n'
          · rw [hfeed]
            rfl
          · rw [lineEnd_of_ne hfeed]
            rfl
        rw [hnone hend, hnone List.getLast?_concat]
        rfl

end CaseTable.Text

namespace CaseTable.Arguments

open CaseTable.Text

theorem head?_any_crlf {p : Char → Bool} (hline : p '\n' = false) (hreturn : p '\r' = false)
    (t : Text) : (crlf t).head?.any p = t.head?.any p := by
  cases t with
  | nil => rfl
  | cons c t =>
      by_cases hc : c = '\n'
      · simp [hc, hline, hreturn]
      · simp [crlf_cons_of_ne hc]

theorem afterReference?_crlf {name : Text} (h : OneLine name) (t : Text) :
    afterReference? name (crlf t) = (afterReference? name t).map crlf := by
  have hbraced : OneLine ('\x7b' :: name ++ ['\x7d']) := by
    simpa [OneLine] using h
  rw [afterReference?, afterReference?, afterStart?_crlf hbraced, afterStart?_crlf h]
  cases afterStart? ('\x7b' :: name ++ ['\x7d']) t with
  | some rest => rfl
  | none =>
      cases afterStart? name t with
      | none => rfl
      | some rest =>
          simp only [Option.map_none, Option.map_some, head?_any_crlf (p := isNameChar) rfl rfl]
          split <;> rfl

theorem stripReferences_crlf {name : Text} (h : OneLine name) (t : Text) :
    stripReferences name (crlf t) = crlf (stripReferences name t) := by
  fun_induction stripReferences name t with
  | case1 => rw [crlf_nil, stripReferences]
  | case2 c t hdollar rest hrest ih =>
      have hc : c ≠ '\n' := by
        rintro rfl
        exact absurd hdollar.1 (by decide)
      have hrest' : afterReference? name (crlf t) = some (crlf rest) := by
        rw [afterReference?_crlf h, hrest]
        rfl
      rw [crlf_cons_of_ne hc, stripReferences, if_pos hdollar]
      split
      · next rest' heq =>
          cases heq.symm.trans hrest'
          exact ih
      · next heq => cases heq.symm.trans hrest'
  | case3 c t hdollar hnone ih =>
      have hc : c ≠ '\n' := by
        rintro rfl
        exact absurd hdollar.1 (by decide)
      have hnone' : afterReference? name (crlf t) = none := by
        rw [afterReference?_crlf h, hnone]
        rfl
      rw [crlf_cons_of_ne hc, stripReferences, if_pos hdollar]
      split
      · next rest' heq => cases heq.symm.trans hnone'
      · rw [ih, crlf_cons_of_ne hc]
  | case4 c t hdollar ih =>
      by_cases hc : c = '\n'
      · subst hc
        rw [crlf_newline, stripReferences, if_neg fun heq => absurd heq.1 (by decide),
          stripReferences, if_neg hdollar, ih, crlf_newline]
      · rw [crlf_cons_of_ne hc, stripReferences, if_neg hdollar, ih, crlf_cons_of_ne hc]

theorem suffix_of_afterReference? {name t rest : Text} (h : afterReference? name t = some rest) :
    rest <:+ t := by
  unfold afterReference? at h
  split at h
  · next hbraced =>
      cases h
      rw [afterStart?_eq_some_iff.mp hbraced]
      exact List.suffix_append _ _
  · split at h
    · next hbare =>
        split at h
        · cases h
        · cases h
          rw [afterStart?_eq_some_iff.mp hbare]
          exact List.suffix_append _ _
    · cases h

theorem mem_of_mem_stripReferences {name t : Text} {c : Char}
    (h : c ∈ stripReferences name t) : c ∈ t := by
  fun_induction stripReferences name t with
  | case1 => cases h
  | case2 d t hdollar rest hrest ih =>
      exact List.mem_cons_of_mem d ((suffix_of_afterReference? hrest).subset (ih h))
  | case3 d t hdollar hnone ih => exact List.mem_cons.mpr ((List.mem_cons.mp h).imp_right ih)
  | case4 d t hdollar ih => exact List.mem_cons.mpr ((List.mem_cons.mp h).imp_right ih)

/-- A backslash before either line end continues the line. -/
theorem joinContinuations_crlf {t : Text} (h : '\r' ∉ t) :
    joinContinuations (crlf t) = crlf (joinContinuations t) := by
  fun_induction joinContinuations t with
  | case1 t ih =>
      have hrest : '\r' ∉ t.dropWhile isBlank := fun hmem =>
        h (List.mem_cons_of_mem _ (List.mem_cons_of_mem _ (List.dropWhile_subset _ hmem)))
      rw [crlf_cons_of_ne (by decide), crlf_newline, joinContinuations,
        dropWhile_isBlank_crlf, ih hrest, crlf_cons_of_ne (by decide)]
  | case2 t ih => exact absurd (by simp) h
  | case3 c t hfeed hreturn ih =>
      rw [List.mem_cons, not_or] at h
      by_cases hc : c = '\n'
      · subst hc
        rw [crlf_newline, joinContinuations, joinContinuations, ih h.2, crlf_newline]
        · exact fun _ heq => absurd heq (by decide)
        · exact fun _ heq => absurd heq (by decide)
        · exact fun _ heq => absurd heq (by decide)
        · exact fun _ heq => absurd heq (by decide)
      · have hnext {d : Char} {u : Text} (hd : crlf t = d :: u) : d ≠ '\n' ∧
            (d = '\r' → ∃ v, t = '\n' :: v) := by
          cases t with
          | nil => cases hd
          | cons e v =>
              by_cases he : e = '\n'
              · subst he
                cases hd
                exact ⟨by decide, fun _ => ⟨v, rfl⟩⟩
              · rw [crlf_cons_of_ne he] at hd
                cases hd
                exact ⟨he, fun hr => absurd (by rw [hr]; exact List.mem_cons_self) h.2⟩
        rw [crlf_cons_of_ne hc, joinContinuations, ih h.2, crlf_cons_of_ne hc]
        · exact fun _ _ hu => (hnext hu).1 rfl
        · intro u hslash hu
          obtain ⟨v, rfl⟩ := (hnext hu).2 rfl
          exact hfeed v hslash rfl
  | case4 => rw [crlf_nil, joinContinuations]

theorem normalize_crlf {t : Text} (h : '\r' ∉ t) : normalize (crlf t) = normalize t := by
  rw [normalize, joinContinuations_crlf h, collapseBlanks_crlf, normalize]

/-- Arguments do not depend on the line ends. -/
theorem clean_crlf {placeholder : Text} (hname : OneLine placeholder) {t : Text}
    (h : '\r' ∉ t) : clean placeholder (crlf t) = clean placeholder t := by
  rw [clean, stripReferences_crlf hname,
    normalize_crlf fun hmem => h (mem_of_mem_stripReferences hmem), clean]

end CaseTable.Arguments
