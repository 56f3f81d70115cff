import CaseTable.Text

/-!
# Replacing every occurrence

A text is empty, or starts with an occurrence of what is looked for, or with a
character that starts none: `induction_occurrences` goes along a text in the
steps in which `replaceAll` does.

Two texts with a character between them are replaced each on its own, if no
occurrence runs across that character (`replaceAll_append_cons`). Where one
replacement follows another, it has to be known of the replaced texts that none
does. What they end with and start with was there before, if the wording that
is put in does not help to form it (`suffix_of_suffix_replaceAll`,
`prefix_of_prefix_replaceAll`).
-/

namespace CaseTable.Text

section

variable {old : Text} (hold : old ≠ []) (new : Text)
include hold

theorem replaceAll_nil : replaceAll old new [] = [] := by
  rw [replaceAll]
  exact if_neg hold

theorem replaceAll_occurrence (t : Text) :
    replaceAll old new (old ++ t) = new ++ replaceAll old new t := by
  obtain ⟨c, rest, rfl⟩ := List.exists_cons_of_ne_nil hold
  have hhere : (c :: rest).isPrefixOf (c :: (rest ++ t)) = true :=
    List.isPrefixOf_iff_prefix.mpr (List.prefix_append (c :: rest) t)
  rw [List.cons_append, replaceAll, if_neg hold, if_pos hhere, List.length_cons,
    Nat.add_sub_cancel, List.drop_left]

theorem replaceAll_cons {c : Char} {t : Text} (h : ¬ old <+: c :: t) :
    replaceAll old new (c :: t) = c :: replaceAll old new t := by
  rw [replaceAll, if_neg hold, if_neg (mt List.isPrefixOf_iff_prefix.mp h)]

end

/-- A text is empty, or starts with an occurrence or with another character. -/
@[elab_as_elim]
theorem induction_occurrences {old : Text} (hold : old ≠ []) {motive : Text → Prop}
    (nil : motive []) (occurrence : ∀ t, motive t → motive (old ++ t))
    (cons : ∀ c t, ¬ old <+: c :: t → motive t → motive (c :: t)) (t : Text) : motive t := by
  induction hlen : t.length using Nat.strongRecOn generalizing t with
  | _ n ih =>
      subst hlen
      by_cases hhere : old <+: t
      · obtain ⟨rest, rfl⟩ := hhere
        have hpos := List.length_pos_iff.mpr hold
        exact occurrence rest (ih rest.length (by rw [List.length_append]; omega) rest rfl)
      · cases t with
        | nil => exact nil
        | cons c t => exact cons c t hhere (ih t.length (by simp) t rfl)

variable {old new : Text}

/-- A front of two texts is a front of the first, or ends in the second. -/
theorem prefix_append_or {s t u : Text} (h : u <+: s ++ t) :
    u <+: s ∨ ∃ v, u = s ++ v ∧ v <+: t := by
  obtain ⟨rest, hrest⟩ := h
  rcases List.append_eq_append_iff.mp hrest with ⟨v, rfl, -⟩ | ⟨v, rfl, rfl⟩
  · exact .inl (List.prefix_append u v)
  · exact .inr ⟨v, rfl, List.prefix_append v rest⟩

/-- Two texts are replaced each on its own if no occurrence runs across the character
between them. -/
theorem replaceAll_append_cons (hold : old ≠ []) {s t : Text} {c : Char}
    (h : ∀ u v, old = u ++ c :: v → u <:+ s → ¬ v <+: t) :
    replaceAll old new (s ++ c :: t) =
      replaceAll old new s ++ c :: replaceAll old new t := by
  induction s using induction_occurrences hold with
  | nil =>
      have hnone : ¬ old <+: c :: t := by
        intro hhere
        rcases List.prefix_cons_iff.mp hhere with hnil | ⟨v, hv, hfront⟩
        · exact hold hnil
        · exact h [] v hv List.nil_suffix hfront
      rw [List.nil_append, replaceAll_cons hold new hnone, replaceAll_nil hold new,
        List.nil_append]
  | occurrence s ih =>
      have hrest := ih fun u v hold hu => h u v hold (List.suffix_append_of_suffix hu)
      rw [List.append_assoc, replaceAll_occurrence hold new, replaceAll_occurrence hold new,
        hrest, List.append_assoc]
  | cons d s hnone ih =>
      have hnone' : ¬ old <+: d :: (s ++ c :: t) := by
        intro hhere
        rcases prefix_append_or (s := d :: s) hhere with hfront | ⟨v, hv, hfront⟩
        · exact hnone hfront
        · rcases List.prefix_cons_iff.mp hfront with rfl | ⟨w, rfl, hw⟩
          · rw [List.append_nil] at hv
            exact hnone (hv ▸ List.prefix_rfl)
          · exact h (d :: s) w hv List.suffix_rfl hw
      have hrest := ih fun u v hold hu => h u v hold (hu.trans (List.suffix_cons d s))
      rw [List.cons_append, replaceAll_cons hold new hnone', replaceAll_cons hold new hnone,
        hrest, List.cons_append]

/-! ## Ends and starts -/

/-- Where `new` ends with a front of `finish`, so does `old`. -/
def KeepsEnd (finish old new : Text) : Prop :=
  finish.length ≤ new.length ∧ ∀ n, n < finish.length →
    finish.take (n + 1) <:+ new → finish.take (n + 1) <:+ old

/-- `new` starts with no end of `start`, and no end of `start` with `new`. -/
def KeepsStart (start new : Text) : Prop :=
  ∀ n, n < start.length → ¬ start.drop n <+: new ∧ ¬ new <+: start.drop n

instance (finish old new : Text) : Decidable (KeepsEnd finish old new) :=
  inferInstanceAs (Decidable (_ ∧ _))

instance (start new : Text) : Decidable (KeepsStart start new) :=
  inferInstanceAs (Decidable (∀ n, n < start.length → _))

/-- A text that comes out shorter than the wording has no occurrence. -/
theorem replaceAll_of_length_lt (hold : old ≠ []) {t : Text}
    (h : (replaceAll old new t).length < new.length) : replaceAll old new t = t := by
  induction t using induction_occurrences hold with
  | nil => exact replaceAll_nil hold new
  | occurrence t ih =>
      rw [replaceAll_occurrence hold new, List.length_append] at h
      omega
  | cons c t hnone ih =>
      rw [replaceAll_cons hold new hnone, List.length_cons] at h
      rw [replaceAll_cons hold new hnone, ih (by omega)]

/-- What a replaced text ends with was there before. -/
theorem suffix_of_suffix_replaceAll (hold : old ≠ []) {finish t : Text}
    (hkeeps : KeepsEnd finish old new) (h : finish <:+ replaceAll old new t) :
    finish <:+ t := by
  induction t using induction_occurrences hold with
  | nil => rwa [replaceAll_nil hold new] at h
  | occurrence t ih =>
      rw [replaceAll_occurrence hold new] at h
      obtain ⟨before, hbefore⟩ := h
      rcases List.append_eq_append_iff.mp hbefore with ⟨part, hnew, hfinish⟩ | ⟨more, -, hmore⟩
      · cases part with
        | nil => exact List.suffix_append_of_suffix (ih (hfinish ▸ List.suffix_rfl))
        | cons d part =>
            have hpart : finish.take (part.length + 1) = d :: part := by
              rw [hfinish, ← List.length_cons, List.take_left]
            have hshort : (replaceAll old new t).length < new.length := by
              have := hkeeps.1
              rw [hfinish, List.length_append, List.length_cons] at this
              omega
            have hinside : part.length < finish.length := by
              rw [hfinish, List.length_append, List.length_cons]
              omega
            have hend := hkeeps.2 part.length hinside
            rw [hpart] at hend
            obtain ⟨front, rfl⟩ := hend ⟨before, hnew.symm⟩
            rw [hfinish, replaceAll_of_length_lt hold hshort, List.append_assoc]
            exact List.suffix_append front _
      · exact List.suffix_append_of_suffix (ih ⟨more, hmore.symm⟩)
  | cons c t hnone ih =>
      rw [replaceAll_cons hold new hnone] at h
      rcases List.suffix_cons_iff.mp h with hall | hlater
      · have hshort : (replaceAll old new t).length < new.length := by
          have := hkeeps.1
          rw [hall, List.length_cons] at this
          omega
        have hsame : finish = c :: t := by rw [hall, replaceAll_of_length_lt hold hshort]
        exact hsame ▸ List.suffix_rfl
      · exact (ih hlater).trans (List.suffix_cons c t)

/-- What a replaced text starts with was there before. -/
theorem prefix_of_prefix_replaceAll (hold : old ≠ []) {start t : Text}
    (hkeeps : KeepsStart start new) (h : start <+: replaceAll old new t) : start <+: t := by
  induction t using induction_occurrences hold generalizing start with
  | nil => rwa [replaceAll_nil hold new] at h
  | occurrence t ih =>
      cases start with
      | nil => exact List.nil_prefix
      | cons d start =>
          rw [replaceAll_occurrence hold new] at h
          obtain ⟨hstart, hnew⟩ := hkeeps 0 (Nat.succ_pos _)
          exact (List.prefix_or_prefix_of_prefix h (List.prefix_append new _)).elim
            (fun hfront => absurd hfront hstart) fun hfront => absurd hfront hnew
  | cons c t hnone ih =>
      cases start with
      | nil => exact List.nil_prefix
      | cons d start =>
          rw [replaceAll_cons hold new hnone] at h
          obtain ⟨rfl, hlater⟩ := List.cons_prefix_cons.mp h
          refine List.cons_prefix_cons.mpr ⟨rfl, ih (fun n hn => ?_) hlater⟩
          exact hkeeps (n + 1) (Nat.succ_lt_succ hn)

end CaseTable.Text
