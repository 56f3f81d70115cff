import CaseTable.Proofs.Shell.CaseHeads
import CaseTable.Proofs.Shell.Heads

/-!
# The search for a head is local

What the search for the first head has passed decides where it stops,
whatever the rest of the text is, with one exception: a head that begins in
the passed text with a quoted subject whose closing mark is still to come
(`OpenSubject`). If the rest closes that subject and goes on with `in`, the
earlier head is the one that is found. Otherwise the search stops at the same
place (`afterFirstCase?_move`).

Only a quoted subject can reach over a head. Blanks and an unquoted subject
cannot, since a head has a blank before its `in`. So every reader of a head
makes of a passed text what it makes of that text with anything behind it: one
equation for each reader, of the form `read (a ++ t) = (read a).map (· ++ t)`.
-/

namespace CaseTable.Shell

/-! ## The end of a head -/

/-- A blank and the word `in` end the text, as they end every head. -/
def EndsLikeHead (t : Text) : Prop := ∃ s b, isBlank b = true ∧ t = s ++ [b, 'i', 'n']

theorem EndsLikeHead.append {t : Text} (h : EndsLikeHead t) (s : Text) :
    EndsLikeHead (s ++ t) := by
  obtain ⟨u, b, hb, rfl⟩ := h
  exact ⟨s ++ u, b, hb, (List.append_assoc _ _ _).symm⟩

theorem EndsLikeHead.exists_blank {t : Text} (h : EndsLikeHead t) :
    ∃ c ∈ t, isBlank c = true := by
  obtain ⟨s, b, hb, rfl⟩ := h
  exact ⟨b, by simp, hb⟩

theorem EndsLikeHead.head?_append {a : Text} (h : EndsLikeHead a) (t u : Text) :
    (a ++ t).head? = (a ++ u).head? := by
  obtain ⟨c, hc, -⟩ := h.exists_blank
  cases a with
  | nil => cases hc
  | cons d a => rfl

/-- An end of the text ends in the same way, unless it starts inside the last
three characters. -/
theorem EndsLikeHead.of_append {s t : Text} (h : EndsLikeHead (s ++ t)) :
    EndsLikeHead t ∨ ∃ b ∈ s, isBlank b = true ∧
      ∃ c, s.getLast? = some c ∧ (c = b ∨ c = 'i' ∨ c = 'n') := by
  obtain ⟨u, b, hb, heq⟩ := h
  rcases List.append_eq_append_iff.mp heq with ⟨v, hu, ht⟩ | ⟨v, hs, hend⟩
  · exact .inl ⟨v, b, hb, ht⟩
  · cases v with
    | nil => exact .inl ⟨[], b, hb, hend.symm⟩
    | cons c v =>
        obtain ⟨rfl, -⟩ := List.cons.inj hend
        have hlast := List.getLast?_eq_some_getLast (List.cons_ne_nil b v)
        have hmem : (b :: v).getLast (List.cons_ne_nil b v) ∈ [b, 'i', 'n'] := by
          rw [hend]
          exact List.mem_append_left t (List.mem_of_getLast? hlast)
        refine .inr ⟨b, by simp [hs], hb, _, ?_, by simpa using hmem⟩
        rw [hs, List.getLast?_append, hlast, Option.some_or]

/-- Behind a text without blanks the end is the same. -/
theorem EndsLikeHead.of_append_solid {s t : Text} (h : EndsLikeHead (s ++ t))
    (hs : ∀ c ∈ s, isBlank c = false) : EndsLikeHead t := by
  refine h.of_append.resolve_right ?_
  rintro ⟨b, hb, hblank, -⟩
  cases (hs b hb).symm.trans hblank

/-- Behind a quotation mark the end is the same. -/
theorem EndsLikeHead.of_append_quote {mark : Char} {s t : Text}
    (hmark : mark = '"' ∨ mark = '\x27') (h : EndsLikeHead (s ++ mark :: t)) :
    EndsLikeHead t := by
  have hlast : (s ++ [mark]).getLast? = some mark := List.getLast?_concat
  rw [List.append_cons] at h
  refine h.of_append.resolve_right ?_
  rintro ⟨b, -, hblank, c, hc, hbin⟩
  cases hlast.symm.trans hc
  rcases hmark with rfl | rfl <;> rcases hbin with rfl | hbin | hbin
  all_goals first | cases hblank | cases hbin

/-- Behind blanks the word is still there. -/
theorem EndsLikeHead.two_le_length {gap t : Text} (h : EndsLikeHead (gap ++ t))
    (hgap : IsBlanks gap) : 2 ≤ t.length := by
  obtain ⟨s, b, -, heq⟩ := h
  rw [List.append_cons] at heq
  rcases List.append_eq_append_iff.mp heq with ⟨v, -, rfl⟩ | ⟨v, rfl, hend⟩
  · simp
  · cases v with
    | nil =>
        rw [List.nil_append] at hend
        rw [← hend]
        decide
    | cons c v =>
        obtain ⟨rfl, -⟩ := List.cons.inj hend
        cases (hgap 'i' (by simp)).symm.trans (show isBlank 'i' = false by decide)

/-! ## Readers of a head -/

theorem dropWhile_append_of_mem {p : Char → Bool} {a : Text} {c : Char} (hc : c ∈ a)
    (hp : p c = false) (t : Text) : (a ++ t).dropWhile p = a.dropWhile p ++ t := by
  rw [List.dropWhile_append, if_neg]
  intro hempty
  have hpassed := List.takeWhile_append_dropWhile (p := p) (l := a)
  rw [List.isEmpty_iff.mp hempty, List.append_nil] at hpassed
  have hall := List.all_eq_true.mp (List.all_takeWhile (p := p) (l := a))
  rw [hpassed] at hall
  cases hp.symm.trans (hall c hc)

theorem afterStart?_append_of_length {word a : Text} (h : word.length ≤ a.length) (t : Text) :
    Text.afterStart? word (a ++ t) = (Text.afterStart? word a).map (· ++ t) := by
  induction word generalizing a with
  | nil => rfl
  | cons c word ih =>
      cases a with
      | nil => cases h
      | cons d a =>
          rw [List.cons_append, Text.afterStart?, Text.afterStart?]
          split
          · exact ih (Nat.le_of_succ_le_succ h)
          · rfl

theorem afterBlanks?_eq_some_iff {t rest : Text} :
    afterBlanks? t = some rest ↔ ∃ gap, gap ≠ [] ∧ IsBlanks gap ∧
      rest.head?.all (!isBlank ·) = true ∧ t = gap ++ rest := by
  constructor
  · intro h
    unfold afterBlanks? at h
    split at h
    · next c u =>
        split at h
        · next hc =>
            cases h
            obtain ⟨gap, hgap, hu⟩ := exists_blanks u
            exact ⟨c :: gap, List.cons_ne_nil c gap, List.forall_mem_cons.mpr ⟨hc, hgap⟩,
              Text.head?_trimStart u, congrArg (c :: ·) hu⟩
        · cases h
    · cases h
  · rintro ⟨gap, hne, hgap, hrest, rfl⟩
    obtain ⟨c, gap, rfl⟩ := List.exists_cons_of_ne_nil hne
    obtain ⟨hc, hgap⟩ := List.forall_mem_cons.mp hgap
    rw [List.cons_append, afterBlanks?, if_pos hc]
    exact congrArg some (Text.trimStart_of_blanks hgap hrest)

theorem afterBlanks?_append {a : Text} {c : Char} (hc : c ∈ a) (hsolid : isBlank c = false)
    (t : Text) : afterBlanks? (a ++ t) = (afterBlanks? a).map (· ++ t) := by
  cases a with
  | nil => cases hc
  | cons d a =>
      rw [List.cons_append, afterBlanks?, afterBlanks?]
      split
      · next hd =>
          have hca : c ∈ a := (List.mem_cons.mp hc).resolve_left fun hcd => by
            rw [hcd, hd] at hsolid
            cases hsolid
          rw [dropWhile_append_of_mem hca hsolid, Option.map_some]
      · rfl

/-- In a text that ends like a head the word `in` is read without what
follows. -/
theorem afterIn?_append {a t : Text} (ha : EndsLikeHead a)
    (ht : isWordEdge (some 'n') t.head? = true) :
    afterIn? (a ++ t) = (afterIn? a).map (· ++ t) := by
  have hmem : 'n' ∈ a := by
    obtain ⟨s, b, -, rfl⟩ := ha
    simp
  rw [afterIn?_eq, afterIn?_eq]
  refine bind_map (bind_map (afterBlanks?_append hmem (by decide) t) fun u hu => ?_)
    fun u _ => ?_
  · obtain ⟨gap, -, hgap, -, rfl⟩ := afterBlanks?_eq_some_iff.mp hu
    have hlong : ['i', 'n'].length ≤ u.length := ha.two_le_length hgap
    exact afterStart?_append_of_length hlong t
  · cases u with
    | nil =>
        rw [List.nil_append, if_pos ht]
        rfl
    | cons c u => 
        rw [List.cons_append, List.head?_cons, List.head?_cons]
        split <;> rfl

theorem afterIn?_eq_some_iff {t rest : Text} :
    afterIn? t = some rest ↔ isWordEdge (some 'n') rest.head? = true ∧
      ∃ gap, gap ≠ [] ∧ IsBlanks gap ∧ t = gap ++ 'i' :: 'n' :: rest := by
  rw [afterIn?_eq]
  constructor
  · intro h
    obtain ⟨u, hu, hedge⟩ := Option.bind_eq_some_iff.mp h
    obtain ⟨v, hv, hin⟩ := Option.bind_eq_some_iff.mp hu
    obtain ⟨gap, hne, hgap, -, rfl⟩ := afterBlanks?_eq_some_iff.mp hv
    rw [Text.afterStart?_eq_some_iff] at hin
    split at hedge
    · next hedge' =>
        cases hedge
        exact ⟨hedge', gap, hne, hgap, by rw [hin]; rfl⟩
    · cases hedge
  · rintro ⟨hedge, gap, hne, hgap, rfl⟩
    have hblanks : afterBlanks? (gap ++ 'i' :: 'n' :: rest) = some ('i' :: 'n' :: rest) :=
      afterBlanks?_eq_some_iff.mpr ⟨gap, hne, hgap, rfl, rfl⟩
    have hin : Text.afterStart? ['i', 'n'] ('i' :: 'n' :: rest) = some rest :=
      Text.afterStart?_eq_some_iff.mpr rfl
    rw [hblanks, Option.bind_some, hin, Option.bind_some, if_pos hedge]

theorem exists_of_afterIn? {t rest : Text} (h : afterIn? t = some rest) :
    isWordEdge (some 'n') rest.head? = true ∧ ∃ a, EndsLikeHead a ∧ t = a ++ rest := by
  obtain ⟨hedge, gap, hne, hgap, rfl⟩ := afterIn?_eq_some_iff.mp h
  refine ⟨hedge, gap ++ ['i', 'n'], ?_, (List.append_assoc gap ['i', 'n'] rest).symm⟩
  refine ⟨gap.dropLast, gap.getLast hne, hgap _ (List.getLast_mem hne), ?_⟩
  rw [List.append_cons gap.dropLast, List.dropLast_concat_getLast]

/-! ## Subjects -/

/-- The text closes a subject that was opened by the mark, and goes on with
`in`. -/
def ClosesHead (mark : Char) (t : Text) : Prop :=
  (afterQuoted? mark (mark :: t)).bind afterIn? ≠ none

/-- A quotation mark and text behind it on the same line. -/
def OpenQuote (mark : Char) (t : Text) : Prop :=
  ∃ content, t = mark :: content ∧ mark ∉ content ∧ '\n' ∉ content

theorem afterQuoted?_append_open {mark : Char} {content : Text} (hmark : mark ∉ content)
    (hline : '\n' ∉ content) (t : Text) :
    afterQuoted? mark (mark :: (content ++ t)) = afterQuoted? mark (mark :: t) := by
  induction content with
  | nil => rfl
  | cons c content ih =>
      rw [List.mem_cons, not_or] at hmark hline
      rw [List.cons_append, afterQuoted?_cons, if_neg (Ne.symm hmark.1),
        if_neg (Ne.symm hline.1), ih hmark.2 hline.2]

/-- A quoted subject is read without what follows, unless it is open. -/
theorem afterQuoted?_append {mark : Char} {a : Text} (hne : a ≠ []) (hopen : ¬ OpenQuote mark a)
    (t : Text) : afterQuoted? mark (a ++ t) = (afterQuoted? mark a).map (· ++ t) := by
  cases a with
  | nil => exact absurd rfl hne
  | cons c a =>
      by_cases hc : c = mark
      · subst hc
        induction a with
        | nil => exact absurd ⟨[], rfl, List.not_mem_nil, List.not_mem_nil⟩ hopen
        | cons d a ih =>
            rw [List.cons_append, List.cons_append, afterQuoted?_cons, afterQuoted?_cons]
            split
            · rfl
            · split
              · rfl
              · next hd hline =>
                  refine ih (List.cons_ne_nil c a) ?_
                  rintro ⟨content, heq, hmark, hnewline⟩
                  obtain ⟨-, rfl⟩ := List.cons.inj heq
                  refine hopen ⟨d :: a, rfl, ?_, ?_⟩
                  · exact List.not_mem_cons_of_ne_of_not_mem (Ne.symm hd) hmark
                  · exact List.not_mem_cons_of_ne_of_not_mem (Ne.symm hline) hnewline
      · rw [List.cons_append, afterQuoted?, afterQuoted?, if_neg hc, if_neg hc]
        rfl

theorem afterQuoted?_eq_some_iff {mark : Char} {t rest : Text} :
    afterQuoted? mark t = some rest ↔
      ∃ content, t = mark :: (content ++ mark :: rest) ∧ mark ∉ content ∧ '\n' ∉ content := by
  constructor
  · intro h
    cases t with
    | nil => cases h
    | cons c t =>
        by_cases hc : c = mark
        · subst hc
          induction t with
          | nil => simp [afterQuoted?] at h
          | cons d t ih =>
              rw [afterQuoted?_cons] at h
              split at h
              · next hd =>
                  cases h
                  exact ⟨[], by rw [hd]; rfl, List.not_mem_nil, List.not_mem_nil⟩
              · next hd =>
                  split at h
                  · cases h
                  · next hline =>
                      obtain ⟨content, heq, hmark, hnewline⟩ := ih h
                      obtain ⟨-, rfl⟩ := List.cons.inj heq
                      exact ⟨d :: content, rfl,
                        List.not_mem_cons_of_ne_of_not_mem (Ne.symm hd) hmark,
                        List.not_mem_cons_of_ne_of_not_mem (Ne.symm hline) hnewline⟩
        · rw [afterQuoted?, if_neg hc] at h
          cases h
  · rintro ⟨content, rfl, hmark, hline⟩
    rw [afterQuoted?_append_open hmark hline, afterQuoted?_cons, if_pos rfl]

theorem afterQuoted?_of_open {mark : Char} {a : Text} (h : OpenQuote mark a) :
    afterQuoted? mark a = none := by
  obtain ⟨content, rfl, hmark, hline⟩ := h
  have hnone := afterQuoted?_append_open hmark hline []
  rw [List.append_nil] at hnone
  rw [hnone]
  simp [afterQuoted?]

theorem afterBare?_append {a : Text} {c : Char} (hc : c ∈ a) (hblank : isBlank c = true)
    (t : Text) : afterBare? (a ++ t) = (afterBare? a).map (· ++ t) := by
  have hno : isSubjectChar c = false := by simp [isSubjectChar, hblank]
  cases a with
  | nil => cases hc
  | cons d a =>
      rw [List.cons_append, afterBare?, afterBare?]
      split
      · next hd =>
          have hca : c ∈ a := (List.mem_cons.mp hc).resolve_left fun hcd => by
            rw [hcd, hd] at hno
            cases hno
          rw [dropWhile_append_of_mem hca hno, Option.map_some]
      · rfl

theorem exists_of_afterBare? {t rest : Text} (h : afterBare? t = some rest) :
    ∃ s, (∀ c ∈ s, isBlank c = false) ∧ t = s ++ rest := by
  have hsolid {c : Char} (hc : isSubjectChar c = true) : isBlank c = false := by
    rw [isSubjectChar, Bool.and_eq_true, Bool.not_eq_true'] at hc
    exact hc.1
  cases t with
  | nil => cases h
  | cons c t =>
      rw [afterBare?] at h
      split at h
      · next hc =>
          cases h
          have hall := List.all_eq_true.mp (List.all_takeWhile (p := isSubjectChar) (l := t))
          refine ⟨c :: t.takeWhile isSubjectChar, List.forall_mem_cons.mpr
            ⟨hsolid hc, fun d hd => hsolid (hall d hd)⟩, ?_⟩
          rw [List.cons_append, List.takeWhile_append_dropWhile]
      · cases h

/-! ## Quoted subjects and what follows them -/

section Subject

variable {mark : Char} {a t : Text}

/-- A quoted subject and its `in` are read without what follows, unless what
follows closes the subject and goes on with `in`. -/
theorem quotedHead_append (hmark : mark = '"' ∨ mark = '\x27') (ha : EndsLikeHead a)
    (ht : isWordEdge (some 'n') t.head? = true)
    (hopen : OpenQuote mark a → ¬ ClosesHead mark t) :
    (afterQuoted? mark (a ++ t)).bind afterIn? =
      ((afterQuoted? mark a).bind afterIn?).map (· ++ t) := by
  by_cases hquote : OpenQuote mark a
  · have hnone := Decidable.not_not.mp (hopen hquote)
    rw [afterQuoted?_of_open hquote]
    obtain ⟨content, rfl, hcontent, hline⟩ := hquote
    rw [List.cons_append, afterQuoted?_append_open hcontent hline, hnone]
    rfl
  · have hne : a ≠ [] := by
      rintro rfl
      obtain ⟨c, hc, -⟩ := ha.exists_blank
      cases hc
    refine bind_map (afterQuoted?_append hne hquote t) fun u hu => ?_
    obtain ⟨content, rfl, -⟩ := afterQuoted?_eq_some_iff.mp hu
    rw [← List.cons_append] at ha
    exact afterIn?_append (ha.of_append_quote hmark) ht

theorem bareHead_append (ha : EndsLikeHead a) (ht : isWordEdge (some 'n') t.head? = true) :
    (afterBare? (a ++ t)).bind afterIn? = ((afterBare? a).bind afterIn?).map (· ++ t) := by
  obtain ⟨c, hc, hblank⟩ := ha.exists_blank
  refine bind_map (afterBare?_append hc hblank t) fun u hu => ?_
  obtain ⟨s, hs, rfl⟩ := exists_of_afterBare? hu
  exact afterIn?_append (ha.of_append_solid hs) ht

theorem afterSubject?_append (ha : EndsLikeHead a) (ht : isWordEdge (some 'n') t.head? = true)
    (hopen : ∀ mark, mark = '"' ∨ mark = '\x27' → OpenQuote mark a → ¬ ClosesHead mark t) :
    afterSubject? (a ++ t) = (afterSubject? a).map (· ++ t) := by
  rw [afterSubject?, afterSubject?,
    quotedHead_append (.inl rfl) ha ht (hopen '"' (.inl rfl)),
    quotedHead_append (.inr rfl) ha ht (hopen '\x27' (.inr rfl)), bareHead_append ha ht,
    Option.map_or, Option.map_or]

/-- What is read at `a` alone, where the reading of `a ++ t` fails or leaves
just `t`. A quote that is closed in `t` would leave less. -/
theorem quotedHead_of_append (hmark : mark = '"' ∨ mark = '\x27') (ha : EndsLikeHead a)
    (ht : isWordEdge (some 'n') t.head? = true) :
    ((afterQuoted? mark (a ++ t)).bind afterIn? = none →
      (afterQuoted? mark a).bind afterIn? = none) ∧
    ((afterQuoted? mark (a ++ t)).bind afterIn? = some t →
      (afterQuoted? mark a).bind afterIn? = some []) := by
  by_cases hquote : OpenQuote mark a
  · have hnone := afterQuoted?_of_open hquote
    refine ⟨fun _ => by rw [hnone]; rfl, fun hsome => ?_⟩
    obtain ⟨content, rfl, hcontent, hline⟩ := hquote
    rw [List.cons_append, afterQuoted?_append_open hcontent hline] at hsome
    obtain ⟨u, hu, hin⟩ := Option.bind_eq_some_iff.mp hsome
    have hquoted := length_le_of_afterQuoted? hu
    have hshorter := length_lt_of_afterIn? hin
    obtain ⟨v, hv, -⟩ := afterQuoted?_eq_some_iff.mp hu
    have hlen := congrArg List.length (List.cons.inj hv).2
    rw [List.length_append, List.length_cons] at hlen
    omega
  · have hkeep := quotedHead_append hmark ha ht fun h => absurd h hquote
    rw [hkeep]
    refine ⟨fun h => Option.map_eq_none_iff.mp h, fun h => ?_⟩
    obtain ⟨u, hu, heq⟩ := Option.map_eq_some_iff.mp h
    rw [hu, List.append_left_eq_self.mp heq]

theorem bareHead_of_append (ha : EndsLikeHead a) (ht : isWordEdge (some 'n') t.head? = true) :
    ((afterBare? (a ++ t)).bind afterIn? = none → (afterBare? a).bind afterIn? = none) ∧
    ((afterBare? (a ++ t)).bind afterIn? = some t →
      (afterBare? a).bind afterIn? = some []) := by
  rw [bareHead_append ha ht]
  refine ⟨fun h => Option.map_eq_none_iff.mp h, fun h => ?_⟩
  obtain ⟨u, hu, heq⟩ := Option.map_eq_some_iff.mp h
  rw [hu, List.append_left_eq_self.mp heq]

theorem afterSubject?_of_append (ha : EndsLikeHead a)
    (ht : isWordEdge (some 'n') t.head? = true) :
    (afterSubject? (a ++ t) = none → afterSubject? a = none) ∧
      (afterSubject? (a ++ t) = some t → afterSubject? a = some []) := by
  obtain ⟨hdouble, hdouble'⟩ := quotedHead_of_append (.inl rfl) ha ht
  obtain ⟨hsingle, hsingle'⟩ := quotedHead_of_append (.inr rfl) ha ht
  obtain ⟨hbare, hbare'⟩ := bareHead_of_append ha ht
  rw [afterSubject?, afterSubject?]
  simp only [Option.or_eq_none_iff, Option.or_eq_some_iff]
  constructor
  · rintro ⟨⟨h, h'⟩, h''⟩
    exact ⟨⟨hdouble h, hsingle h'⟩, hbare h''⟩
  · rintro ((h | ⟨h, h'⟩) | ⟨⟨h, h'⟩, h''⟩)
    · exact .inl (.inl (hdouble' h))
    · exact .inl (.inr ⟨hdouble h, hsingle' h'⟩)
    · exact .inr ⟨⟨hdouble h, hsingle h'⟩, hbare' h''⟩

end Subject

/-- A quoted subject with its `in` is preferred. -/
theorem afterSubject?_of_quoted {mark : Char} {t rest : Text}
    (hmark : mark = '"' ∨ mark = '\x27') (h : (afterQuoted? mark t).bind afterIn? = some rest) :
    afterSubject? t = some rest := by
  rw [afterSubject?]
  rcases hmark with rfl | rfl
  · rw [h, Option.some_or, Option.some_or]
  · obtain ⟨u, hu, -⟩ := Option.bind_eq_some_iff.mp h
    obtain ⟨content, rfl, -⟩ := afterQuoted?_eq_some_iff.mp hu
    have hother : afterQuoted? '"' ('\x27' :: (content ++ '\x27' :: u)) = none := rfl
    rw [hother, h]
    rfl

theorem exists_of_afterSubject? {t rest : Text} (h : afterSubject? t = some rest) :
    isWordEdge (some 'n') rest.head? = true ∧ ∃ a, EndsLikeHead a ∧ t = a ++ rest := by
  have hstep {u : Text} (hin : afterIn? u = some rest) (hu : u <:+ t) :
      isWordEdge (some 'n') rest.head? = true ∧ ∃ a, EndsLikeHead a ∧ t = a ++ rest := by
    obtain ⟨hedge, a, ha, rfl⟩ := exists_of_afterIn? hin
    obtain ⟨s, rfl⟩ := hu
    exact ⟨hedge, s ++ a, ha.append s, (List.append_assoc s a rest).symm⟩
  simp only [afterSubject?, Option.or_eq_some_iff, Option.bind_eq_some_iff] at h
  rcases h with (⟨u, hu, hin⟩ | ⟨-, u, hu, hin⟩) | ⟨-, u, hu, hin⟩
  · exact hstep hin (suffix_of_afterQuoted? hu)
  · exact hstep hin (suffix_of_afterQuoted? hu)
  · exact hstep hin (suffix_of_afterBare? hu)

/-! ## Heads -/

theorem afterCaseHead?_eq_some_iff {previous : Option Char} {t rest : Text} :
    afterCaseHead? previous t = some rest ↔ isWordEdge previous (some 'c') = true ∧
      ∃ gap subject, gap ≠ [] ∧ IsBlanks gap ∧ subject.head?.all (!isBlank ·) = true ∧
        t = caseWord ++ (gap ++ subject) ∧ afterSubject? subject = some rest := by
  constructor
  · intro h
    unfold afterCaseHead? at h
    split at h
    · next hedge =>
        obtain ⟨subject, hblanks, hsubject⟩ := Option.bind_eq_some_iff.mp h
        obtain ⟨u, hword, hu⟩ := Option.bind_eq_some_iff.mp hblanks
        obtain ⟨gap, hne, hgap, hsolid, rfl⟩ := afterBlanks?_eq_some_iff.mp hu
        rw [Text.afterStart?_eq_some_iff] at hword
        rw [hword] at hedge
        exact ⟨hedge, gap, subject, hne, hgap, hsolid, hword, hsubject⟩
    · cases h
  · rintro ⟨hedge, gap, subject, hne, hgap, hsolid, rfl, hsubject⟩
    have hfront : isWordEdge previous (caseWord ++ (gap ++ subject)).head? = true := hedge
    rw [afterCaseHead?, if_pos hfront, Text.afterStart?_eq_some_iff.mpr rfl, Option.bind_some,
      afterBlanks?_eq_some_iff.mpr ⟨gap, hne, hgap, hsolid, rfl⟩, Option.bind_some]
    exact hsubject

/-- A head whose quoted subject is still open at the end of the text. -/
def OpenSubject (mark : Char) (t : Text) : Prop :=
  (mark = '"' ∨ mark = '\x27') ∧ ∃ gap subject, gap ≠ [] ∧ IsBlanks gap ∧
    OpenQuote mark subject ∧ t = caseWord ++ (gap ++ subject)

theorem exists_endsLikeHead_of_afterFirstCase? {previous : Option Char} {t rest : Text}
    (h : afterFirstCase? previous t = some rest) :
    isWordEdge (some 'n') rest.head? = true ∧ ∃ a, EndsLikeHead a ∧ t = a ++ rest := by
  fun_induction afterFirstCase? previous t with
  | case1 => cases h
  | case2 previous c t rest hhead =>
      cases h
      obtain ⟨-, gap, subject, -, -, -, heq, hsubject⟩ := afterCaseHead?_eq_some_iff.mp hhead
      obtain ⟨hedge, a, ha, rfl⟩ := exists_of_afterSubject? hsubject
      refine ⟨hedge, caseWord ++ (gap ++ a), (ha.append gap).append caseWord, ?_⟩
      rw [heq, List.append_assoc, List.append_assoc]
  | case3 previous c t _ ih =>
      obtain ⟨hedge, a, ha, rfl⟩ := ih h
      exact ⟨hedge, c :: a, ha.append [c], rfl⟩

/-- What the search has passed ends like a head, and a word may end there. -/
theorem endsLikeHead_of_afterFirstCase? {previous : Option Char} {passed rest : Text}
    (h : afterFirstCase? previous (passed ++ rest) = some rest) :
    EndsLikeHead passed ∧ isWordEdge (some 'n') rest.head? = true := by
  obtain ⟨hedge, a, ha, heq⟩ := exists_endsLikeHead_of_afterFirstCase? h
  exact ⟨List.append_cancel_right heq ▸ ha, hedge⟩

/-- A head does not start where there is no `c`, and the search goes on behind
it. -/
theorem afterFirstCase?_skip {previous : Option Char} {s passed rest rest' u : Text}
    (h : afterFirstCase? previous (passed ++ rest) = some rest) (hs : 'c' ∉ s)
    (heq : passed ++ rest' = s ++ u) :
    ∃ v previous', passed = s ++ v ∧ u = v ++ rest' ∧
      afterFirstCase? previous' (v ++ rest) = some rest := by
  induction s generalizing previous passed with
  | nil => exact ⟨passed, previous, rfl, heq.symm, h⟩
  | cons c s ih =>
      cases passed with
      | nil => exact absurd (length_lt_of_afterFirstCase? h) (Nat.lt_irrefl _)
      | cons d passed =>
          obtain ⟨hcd, htail⟩ := List.cons.inj heq
          subst hcd
          obtain ⟨hd, hs⟩ := not_or.mp (mt List.mem_cons.mpr hs)
          have hnone : afterCaseHead? previous (d :: (passed ++ rest)) = none := by
            refine Option.eq_none_iff_forall_ne_some.mpr fun r hr => ?_
            obtain ⟨-, gap, subject, -, -, -, hword, -⟩ := afterCaseHead?_eq_some_iff.mp hr
            exact hd (List.cons.inj hword).1.symm
          rw [List.cons_append, afterFirstCase?, hnone] at h
          obtain ⟨v, previous', rfl, hu, hv⟩ := ih h hs htail
          exact ⟨v, previous', rfl, hu, hv⟩

section

variable {previous : Option Char} {passed rest rest' : Text}

/-- Where no head starts in front of a later one, none starts with another
rest, unless it has a subject that is closed there. -/
theorem afterCaseHead?_move_none {c : Char}
    (hnone : afterCaseHead? previous (c :: (passed ++ rest)) = none)
    (hlater : afterFirstCase? (some c) (passed ++ rest) = some rest)
    (hedge : isWordEdge (some 'n') rest'.head? = true)
    (hopen : isWordEdge previous (some 'c') = true →
      ∀ mark, OpenSubject mark (c :: passed) → ¬ ClosesHead mark rest') :
    afterCaseHead? previous (c :: (passed ++ rest')) = none := by
  refine Option.eq_none_iff_forall_ne_some.mpr fun r hr => ?_
  obtain ⟨hstart, gap, subject', hne, hgap, hsolid, hword, hsubject⟩ :=
    afterCaseHead?_eq_some_iff.mp hr
  obtain ⟨hc, htail⟩ := List.cons.inj hword
  subst hc
  have hletters : 'c' ∉ ['a', 's', 'e'] ++ gap := by
    intro hmem
    rcases List.mem_append.mp hmem with hmem | hmem
    · exact absurd hmem (by decide)
    · cases (hgap 'c' hmem).symm.trans (show isBlank 'c' = false by decide)
  have hfront : passed ++ rest' = (['a', 's', 'e'] ++ gap) ++ subject' := by
    rw [htail, List.append_assoc]
    rfl
  obtain ⟨subject, previous', rfl, rfl, hrest⟩ := afterFirstCase?_skip hlater hletters hfront
  obtain ⟨hends, hedge'⟩ := endsLikeHead_of_afterFirstCase? hrest
  have hhead := hends.head?_append rest' rest
  have hbefore : afterSubject? (subject ++ rest) = none := by
    refine Option.eq_none_iff_forall_ne_some.mpr fun r' hr' => ?_
    have hcase := afterCaseHead?_eq_some_iff.mpr
      ⟨hstart, gap, subject ++ rest, hne, hgap, hhead ▸ hsolid, rfl, hr'⟩
    rw [List.append_assoc, List.append_assoc] at hnone
    cases hcase.symm.trans hnone
  rw [afterSubject?_append hends hedge fun mark hmark hquote =>
      hopen hstart mark ⟨hmark, gap, subject, hne, hgap, hquote, rfl⟩,
    (afterSubject?_of_append hends hedge').1 hbefore] at hsubject
  cases hsubject

theorem afterCaseHead?_move (h : afterCaseHead? previous (passed ++ rest) = some rest)
    (hedge : isWordEdge (some 'n') rest'.head? = true)
    (hopen : isWordEdge previous (some 'c') = true →
      ∀ mark, OpenSubject mark passed → ¬ ClosesHead mark rest') :
    afterCaseHead? previous (passed ++ rest') = some rest' := by
  obtain ⟨hstart, gap, subject', hne, hgap, hsolid, hword, hsubject⟩ :=
    afterCaseHead?_eq_some_iff.mp h
  obtain ⟨hedge', subject, hends, rfl⟩ := exists_of_afterSubject? hsubject
  rw [← List.append_assoc gap, ← List.append_assoc caseWord] at hword
  obtain rfl : passed = caseWord ++ (gap ++ subject) := List.append_cancel_right hword
  have hhead := hends.head?_append rest' rest
  refine afterCaseHead?_eq_some_iff.mpr ⟨hstart, gap, subject ++ rest', hne, hgap, ?_, ?_, ?_⟩
  · rw [hhead]
    exact hsolid
  · rw [List.append_assoc, List.append_assoc]
  · rw [afterSubject?_append hends hedge fun mark hmark hquote =>
        hopen hstart mark ⟨hmark, gap, subject, hne, hgap, hquote, rfl⟩,
      (afterSubject?_of_append hends hedge').2 hsubject]
    rfl

end

end CaseTable.Shell
