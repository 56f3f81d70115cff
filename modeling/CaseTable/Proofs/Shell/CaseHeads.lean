import CaseTable.Shell.Header

/-!
# The heads of case statements

Every reader of a head leaves an end of its text, so the search for the first
head passes a text and stops (`exists_of_afterFirstCase?`). At the front of
the searched text there is no character before, and a line feed would be as
good (`afterFirstCase?_newline`).
-/

namespace CaseTable.Shell

/-- What is done to the text that a reading leaves is done to what is read
behind it. -/
theorem bind_map {f : Text → Text} {read read' : Option Text} {next : Text → Option Text}
    (hread : read' = read.map f) (hnext : ∀ t, read = some t → next (f t) = (next t).map f) :
    read'.bind next = (read.bind next).map f := by
  rw [hread]
  cases read with
  | none => rfl
  | some rest => exact hnext rest rfl

theorem afterIn?_eq (t : Text) :
    afterIn? t = ((afterBlanks? t).bind (Text.afterStart? ['i', 'n'])).bind fun rest =>
      if isWordEdge (some 'n') rest.head? then some rest else none := by
  unfold afterIn?
  split
  · next rest hrest =>
      rw [hrest]
      rfl
  · next hother =>
      cases hblanks : afterBlanks? t with
      | none => rfl
      | some u =>
          have hnone : Text.afterStart? ['i', 'n'] u = none := by
            refine Option.eq_none_iff_forall_ne_some.mpr fun rest hrest => ?_
            rw [Text.afterStart?_eq_some_iff.mp hrest] at hblanks
            exact hother rest hblanks
          rw [Option.bind_some, hnone]
          rfl

theorem afterQuoted?_cons (mark c : Char) (t : Text) :
    afterQuoted? mark (mark :: c :: t) =
      if c = mark then some t else if c = '\n' then none
      else afterQuoted? mark (mark :: t) := by
  rw [afterQuoted?, afterQuoted?, if_pos rfl, if_pos rfl]
  by_cases hmark : c = mark
  · subst hmark
    rw [List.dropWhile_cons_of_neg (by simp), if_pos rfl]
    simp
  · by_cases hline : c = '\n'
    · subst hline
      rw [List.dropWhile_cons_of_neg (by simp), if_neg hmark, if_pos rfl]
      simp [hmark]
    · rw [List.dropWhile_cons_of_pos (by simp [hmark, hline]), if_neg hmark, if_neg hline]

theorem suffix_of_afterBlanks? {t rest : Text} (h : afterBlanks? t = some rest) :
    rest <:+ t := by
  unfold afterBlanks? at h
  split at h
  · next c u =>
      split at h
      · cases h
        exact (List.dropWhile_suffix _).trans (List.suffix_cons c u)
      · cases h
  · cases h

theorem suffix_of_afterIn? {t rest : Text} (h : afterIn? t = some rest) : rest <:+ t := by
  unfold afterIn? at h
  split at h
  · next u hu =>
      split at h
      · cases h
        exact (List.suffix_append ['i', 'n'] rest).trans (suffix_of_afterBlanks? hu)
      · cases h
  · cases h

theorem suffix_of_afterQuoted? {mark : Char} {t rest : Text}
    (h : afterQuoted? mark t = some rest) : rest <:+ t := by
  unfold afterQuoted? at h
  split at h
  · next c u =>
      split at h
      · split at h
        · next d v hv =>
            split at h
            · cases h
              have hsuffix := List.dropWhile_suffix (l := u) fun c => c ≠ mark && c ≠ '\n'
              rw [hv] at hsuffix
              exact ((List.suffix_cons d rest).trans hsuffix).trans (List.suffix_cons c u)
            · cases h
        · cases h
      · cases h
  · cases h

theorem suffix_of_afterBare? {t rest : Text} (h : afterBare? t = some rest) : rest <:+ t := by
  unfold afterBare? at h
  split at h
  · next c u =>
      split at h
      · cases h
        exact (List.dropWhile_suffix _).trans (List.suffix_cons c u)
      · cases h
  · cases h

theorem suffix_of_afterSubject? {t rest : Text} (h : afterSubject? t = some rest) :
    rest <:+ t := by
  simp only [afterSubject?, Option.or_eq_some_iff, Option.bind_eq_some_iff] at h
  rcases h with (⟨u, hu, hin⟩ | ⟨-, u, hu, hin⟩) | ⟨-, u, hu, hin⟩
  · exact (suffix_of_afterIn? hin).trans (suffix_of_afterQuoted? hu)
  · exact (suffix_of_afterIn? hin).trans (suffix_of_afterQuoted? hu)
  · exact (suffix_of_afterIn? hin).trans (suffix_of_afterBare? hu)

theorem suffix_of_afterCaseHead? {previous : Option Char} {t rest : Text}
    (h : afterCaseHead? previous t = some rest) : rest <:+ t := by
  unfold afterCaseHead? at h
  split at h
  · obtain ⟨u, hblanks, hsubject⟩ := Option.bind_eq_some_iff.mp h
    obtain ⟨v, hword, hu⟩ := Option.bind_eq_some_iff.mp hblanks
    rw [Text.afterStart?_eq_some_iff] at hword
    have hend := (suffix_of_afterSubject? hsubject).trans (suffix_of_afterBlanks? hu)
    rw [hword]
    exact hend.trans (List.suffix_append caseWord v)
  · cases h

/-- The search passes a text, at least a head, and leaves the rest. -/
theorem exists_of_afterFirstCase? {previous : Option Char} {t rest : Text}
    (h : afterFirstCase? previous t = some rest) : ∃ passed, passed ≠ [] ∧ t = passed ++ rest := by
  have hshorter := length_lt_of_afterFirstCase? h
  have hsuffix : rest <:+ t := by
    fun_induction afterFirstCase? previous t with
    | case1 => cases h
    | case2 previous c t u hu =>
        cases h
        exact suffix_of_afterCaseHead? hu
    | case3 previous c t _ ih =>
        exact (ih h (length_lt_of_afterFirstCase? h)).trans (List.suffix_cons c t)
  obtain ⟨passed, rfl⟩ := hsuffix
  refine ⟨passed, fun hnil => ?_, rfl⟩
  rw [hnil] at hshorter
  exact absurd hshorter (Nat.lt_irrefl _)

/-- Before the first character of a text it is as after a line feed. -/
theorem afterFirstCase?_newline (t : Text) :
    afterFirstCase? (some '\n') t = afterFirstCase? none t := by
  cases t with
  | nil => rfl
  | cons c t =>
      have hhead : afterCaseHead? (some '\n') (c :: t) = afterCaseHead? none (c :: t) := rfl
      rw [afterFirstCase?, afterFirstCase?, hhead]

end CaseTable.Shell
