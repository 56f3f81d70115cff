import CaseTable.Proofs.Shell.Definitions

/-!
# The heads of definitions

`IsHead` says what the head of a definition is, from its first character
through its opening brace. The reader of heads takes such a text off the
front of any text, and nothing else (`afterHead?_eq_some_iff`).

The name may be any text. It may hold blanks, parentheses and braces, so
several heads could seem to start at one place, or a head to run across
another one. They cannot: of two heads on one text the one that starts first
does not end last (`length_le_of_isHead`). The brace at the end of the inner
head would stand where the outer one has no brace, or the name would have to
show its first brace in two places.

So the search for a definition depends on nothing but the text it passes
(`definition?_move`).
-/

namespace CaseTable.Shell

/-- A text of blanks only. -/
def IsBlanks (t : Text) : Prop := ∀ c ∈ t, isBlank c = true

/-- A pair of parentheses, with blanks before, inside and after it. -/
def IsPair (t : Text) : Prop :=
  ∃ before inside after, IsBlanks before ∧ IsBlanks inside ∧ IsBlanks after ∧
    t = before ++ '(' :: (inside ++ ')' :: after)

/-- What may stand before and after the name in the head of a definition. -/
def Frames (lead middle : Text) : Prop :=
  (lead = [] ∧ IsPair middle) ∨
    ∃ gap, gap ≠ [] ∧ IsBlanks gap ∧ lead = "function".toList ++ gap ∧
      (IsBlanks middle ∨ IsPair middle)

/-- The head of a definition, through its opening brace. -/
def IsHead (name head : Text) : Prop :=
  ∃ lead middle, Frames lead middle ∧ head = lead ++ (name ++ (middle ++ ['\x7b']))

theorem IsHead.ne_nil {name head : Text} (h : IsHead name head) : head ≠ [] := by
  obtain ⟨lead, middle, -, rfl⟩ := h
  simp

/-! ## No head runs across another -/

theorem brace_notMem_of_isBlanks {t : Text} (h : IsBlanks t) : '\x7b' ∉ t := fun hmem => by
  have hblank := h _ hmem
  revert hblank
  decide

theorem brace_notMem_of_isPair {t : Text} (h : IsPair t) : '\x7b' ∉ t := by
  obtain ⟨before, inside, after, hbefore, hinside, hafter, rfl⟩ := h
  simp [brace_notMem_of_isBlanks hbefore, brace_notMem_of_isBlanks hinside,
    brace_notMem_of_isBlanks hafter]

theorem brace_notMem_of_frames {lead middle : Text} (h : Frames lead middle) :
    '\x7b' ∉ lead ∧ '\x7b' ∉ middle := by
  rcases h with ⟨rfl, hpair⟩ | ⟨gap, -, hgap, rfl, hmiddle⟩
  · exact ⟨List.not_mem_nil, brace_notMem_of_isPair hpair⟩
  · refine ⟨?_, hmiddle.elim brace_notMem_of_isBlanks brace_notMem_of_isPair⟩
    rw [List.mem_append, not_or]
    exact ⟨by decide, brace_notMem_of_isBlanks hgap⟩

theorem length_le_of_notMem {c : Char} {s t u v : Text} (h : c ∉ s)
    (heq : s ++ c :: u = t ++ c :: v) : s.length ≤ t.length := by
  induction s generalizing t with
  | nil => exact Nat.zero_le _
  | cons d s ih =>
      rw [List.mem_cons, not_or] at h
      cases t with
      | nil => exact absurd (List.cons.inj heq).1.symm h.1
      | cons e t => exact Nat.succ_le_succ (ih h.2 (List.cons.inj heq).2)

/-- Of two heads on one text the one that starts first does not end last. -/
theorem length_le_of_isHead {name first second : Text} (hfirst : IsHead name first)
    (hsecond : IsHead name second) {before rest rest' : Text}
    (heq : first ++ rest = before ++ (second ++ rest')) :
    first.length ≤ (before ++ second).length := by
  obtain ⟨lead, middle, hframes, rfl⟩ := hfirst
  obtain ⟨lead', middle', -, rfl⟩ := hsecond
  obtain ⟨hlead, hmiddle⟩ := brace_notMem_of_frames hframes
  have hnames : lead ++ (name ++ (middle ++ '\x7b' :: rest)) =
      (before ++ lead') ++ (name ++ (middle' ++ '\x7b' :: rest')) := by
    simpa using heq
  rcases List.append_eq_append_iff.mp hnames with ⟨shift, hshift, htail⟩ | ⟨shift, hshift, htail⟩
  · -- the name of the first head starts first, so only `middle` could pass the other brace
    have hbraces : middle ++ '\x7b' :: rest =
        (shift ++ (name ++ middle')).drop name.length ++ '\x7b' :: rest' := by
      have hcut := congrArg (List.drop name.length) htail
      rw [List.drop_left] at hcut
      rw [hcut, ← List.append_assoc, ← List.append_assoc,
        List.drop_append_of_le_length (by simp; omega), List.append_assoc]
    have hle := length_le_of_notMem hmiddle hbraces
    have hlen := congrArg List.length hshift
    simp only [List.length_append, List.length_drop, List.length_cons, List.length_nil]
      at hle hlen ⊢
    omega
  · have hshiftBrace : '\x7b' ∉ shift := fun hmem =>
      hlead (by rw [hshift]; exact List.mem_append_right _ hmem)
    have hlen := congrArg List.length hshift
    by_cases hname : '\x7b' ∈ name
    · -- the first brace of the name would stand in two places
      obtain ⟨start, finish, rfl, hstart⟩ := List.eq_append_cons_of_mem hname
      have hfront : shift ++ start ++ '\x7b' :: (finish ++ (middle ++ '\x7b' :: rest)) =
          start ++ '\x7b' :: (finish ++ (middle' ++ '\x7b' :: rest')) := by
        simpa using htail.symm
      have hle := length_le_of_notMem (by simp [hshiftBrace, hstart]) hfront
      have hnil : shift = [] := by
        rw [List.length_append] at hle
        exact List.length_eq_zero_iff.mp (by omega)
      subst hnil
      have hle' := length_le_of_notMem hmiddle (by simpa using htail.symm)
      simp only [List.length_append, List.length_cons, List.length_nil] at hle' hlen ⊢
      omega
    · have hends : shift ++ (name ++ middle) ++ '\x7b' :: rest =
          name ++ middle' ++ '\x7b' :: rest' := by
        simpa using htail.symm
      have hle := length_le_of_notMem (by simp [hshiftBrace, hname, hmiddle]) hends
      simp only [List.length_append, List.length_cons, List.length_nil] at hle hlen ⊢
      omega

/-! ## The readers take off a head -/

theorem dropWhile_blanks {blanks : Text} (h : IsBlanks blanks) {c : Char}
    (hc : isBlank c = false) (t : Text) :
    (blanks ++ c :: t).dropWhile isBlank = c :: t :=
  Text.trimStart_of_blanks h (by simp [hc])

theorem exists_blanks (t : Text) : ∃ blanks, IsBlanks blanks ∧
    t = blanks ++ t.dropWhile isBlank :=
  Text.exists_trimStart t

theorem afterBrace?_eq_some_iff {t rest : Text} :
    afterBrace? t = some rest ↔
      ∃ blanks, IsBlanks blanks ∧ t = blanks ++ '\x7b' :: rest := by
  constructor
  · intro h
    obtain ⟨blanks, hblanks, ht⟩ := exists_blanks t
    unfold afterBrace? at h
    split at h
    · next hdrop =>
        cases h
        exact ⟨blanks, hblanks, by rw [← hdrop]; exact ht⟩
    · cases h
  · rintro ⟨blanks, hblanks, rfl⟩
    rw [afterBrace?, dropWhile_blanks hblanks (by decide)]
    rfl

theorem afterParens?_eq_some_iff {t rest : Text} :
    afterParens? t = some rest ↔ ∃ before inside, IsBlanks before ∧ IsBlanks inside ∧
      t = before ++ '(' :: (inside ++ ')' :: rest) := by
  constructor
  · intro h
    obtain ⟨before, hbefore, ht⟩ := exists_blanks t
    unfold afterParens? at h
    split at h
    · next u hdrop =>
        obtain ⟨inside, hinside, hu⟩ := exists_blanks u
        split at h
        · next hdrop' =>
            cases h
            rw [hdrop, hu, hdrop'] at ht
            exact ⟨before, inside, hbefore, hinside, ht⟩
        · cases h
    · cases h
  · rintro ⟨before, inside, hbefore, hinside, rfl⟩
    rw [afterParens?, dropWhile_blanks hbefore (by decide)]
    simp only []
    rw [dropWhile_blanks hinside (by decide)]
    rfl

theorem afterParens?_bind_afterBrace?_eq_some_iff {t rest : Text} :
    (afterParens? t).bind afterBrace? = some rest ↔
      ∃ middle, IsPair middle ∧ t = middle ++ '\x7b' :: rest := by
  constructor
  · intro h
    obtain ⟨u, hparens, hbrace⟩ := Option.bind_eq_some_iff.mp h
    obtain ⟨before, inside, hbefore, hinside, rfl⟩ := afterParens?_eq_some_iff.mp hparens
    obtain ⟨after, hafter, rfl⟩ := afterBrace?_eq_some_iff.mp hbrace
    exact ⟨_, ⟨before, inside, after, hbefore, hinside, hafter, rfl⟩, by simp⟩
  · rintro ⟨_, ⟨before, inside, after, hbefore, hinside, hafter, rfl⟩, rfl⟩
    refine Option.bind_eq_some_iff.mpr ⟨after ++ '\x7b' :: rest, ?_, ?_⟩
    · exact afterParens?_eq_some_iff.mpr ⟨before, inside, hbefore, hinside, by simp⟩
    · exact afterBrace?_eq_some_iff.mpr ⟨after, hafter, rfl⟩

theorem afterPlainHead?_eq_some_iff {name t rest : Text} :
    afterPlainHead? name t = some rest ↔
      ∃ middle, IsPair middle ∧ t = name ++ (middle ++ '\x7b' :: rest) := by
  rw [afterPlainHead?, Option.bind_assoc, Option.bind_eq_some_iff]
  constructor
  · rintro ⟨u, hname, hpair⟩
    obtain ⟨middle, hmiddle, rfl⟩ := afterParens?_bind_afterBrace?_eq_some_iff.mp hpair
    exact ⟨middle, hmiddle, Text.afterStart?_eq_some_iff.mp hname⟩
  · rintro ⟨middle, hmiddle, ht⟩
    exact ⟨_, Text.afterStart?_eq_some_iff.mpr ht,
      afterParens?_bind_afterBrace?_eq_some_iff.mpr ⟨middle, hmiddle, rfl⟩⟩

theorem afterNameAndBrace?_eq_some_iff {name t rest : Text} :
    afterNameAndBrace? name t = some rest ↔ ∃ middle, (IsBlanks middle ∨ IsPair middle) ∧
      t = name ++ (middle ++ '\x7b' :: rest) := by
  rw [afterNameAndBrace?, Option.bind_eq_some_iff]
  constructor
  · rintro ⟨u, hname, hbrace⟩
    rw [Text.afterStart?_eq_some_iff] at hname
    cases hparens : afterParens? u with
    | none =>
        rw [hparens] at hbrace
        obtain ⟨middle, hmiddle, rfl⟩ := afterBrace?_eq_some_iff.mp hbrace
        exact ⟨middle, .inl hmiddle, hname⟩
    | some v =>
        rw [hparens] at hbrace
        obtain ⟨middle, hmiddle, rfl⟩ := afterParens?_bind_afterBrace?_eq_some_iff.mp
          (Option.bind_eq_some_iff.mpr ⟨v, hparens, hbrace⟩)
        exact ⟨middle, .inr hmiddle, hname⟩
  · rintro ⟨middle, hmiddle | hmiddle, ht⟩
    · refine ⟨_, Text.afterStart?_eq_some_iff.mpr ht, ?_⟩
      have hnone : afterParens? (middle ++ '\x7b' :: rest) = none := by
        rw [afterParens?, dropWhile_blanks hmiddle (by decide)]
        split
        · next heq => exact absurd (List.cons.inj heq).1 (by decide)
        · rfl
      rw [hnone]
      exact afterBrace?_eq_some_iff.mpr ⟨middle, hmiddle, rfl⟩
    · refine ⟨_, Text.afterStart?_eq_some_iff.mpr ht, ?_⟩
      obtain ⟨v, hparens, hbrace⟩ := Option.bind_eq_some_iff.mp
        (afterParens?_bind_afterBrace?_eq_some_iff.mpr ⟨middle, hmiddle, rfl⟩)
      rw [hparens]
      exact hbrace

theorem exists_of_afterBlanksAndName? {name t rest : Text}
    (h : afterBlanksAndName? name t = some rest) : ∃ gap middle, IsBlanks gap ∧
      (IsBlanks middle ∨ IsPair middle) ∧
      t = gap ++ (name ++ (middle ++ '\x7b' :: rest)) := by
  fun_induction afterBlanksAndName? name t with
  | case1 => cases h
  | case2 c t rest' hhere =>
      cases h
      obtain ⟨middle, hmiddle, ht⟩ := afterNameAndBrace?_eq_some_iff.mp hhere
      exact ⟨[], middle, by simp [IsBlanks], hmiddle, ht⟩
  | case3 c t _ hblank ih =>
      obtain ⟨gap, middle, hgap, hmiddle, rfl⟩ := ih h
      exact ⟨c :: gap, middle, List.forall_mem_cons.mpr ⟨hblank, hgap⟩, hmiddle, rfl⟩
  | case4 => cases h

theorem isSome_afterBlanksAndName? {name gap middle : Text} (hgap : IsBlanks gap)
    (hmiddle : IsBlanks middle ∨ IsPair middle) (rest : Text) :
    (afterBlanksAndName? name (gap ++ (name ++ (middle ++ '\x7b' :: rest)))).isSome := by
  induction gap with
  | nil =>
      have hhere : afterNameAndBrace? name (name ++ (middle ++ '\x7b' :: rest)) = some rest :=
        afterNameAndBrace?_eq_some_iff.mpr ⟨middle, hmiddle, rfl⟩
      rw [List.nil_append]
      cases ht : name ++ (middle ++ '\x7b' :: rest) with
      | nil => simp at ht
      | cons c t =>
          rw [ht] at hhere
          rw [afterBlanksAndName?, hhere]
          rfl
  | cons c gap ih =>
      obtain ⟨hblank, hgap⟩ := List.forall_mem_cons.mp hgap
      rw [List.cons_append, afterBlanksAndName?]
      split
      · rfl
      · rw [if_pos hblank]
        exact ih hgap

theorem exists_isHead_of_afterHead? {name t rest : Text} (h : afterHead? name t = some rest) :
    ∃ head, IsHead name head ∧ t = head ++ rest := by
  rw [afterHead?, Option.or_eq_some_iff] at h
  rcases h with hkeyword | ⟨-, hplain⟩
  · unfold afterKeywordHead? at hkeyword
    split at hkeyword
    · next c u hstart =>
        rw [Text.afterStart?_eq_some_iff] at hstart
        split at hkeyword
        · next hblank =>
            obtain ⟨gap, middle, hgap, hmiddle, rfl⟩ :=
              exists_of_afterBlanksAndName? hkeyword
            refine ⟨_, ⟨"function".toList ++ c :: gap, middle, .inr ⟨c :: gap, by simp,
              List.forall_mem_cons.mpr ⟨hblank, hgap⟩, rfl, hmiddle⟩, rfl⟩, ?_⟩
            rw [hstart]
            simp
        · cases hkeyword
    · cases hkeyword
  · obtain ⟨middle, hmiddle, rfl⟩ := afterPlainHead?_eq_some_iff.mp hplain
    exact ⟨_, ⟨[], middle, .inl ⟨rfl, hmiddle⟩, rfl⟩, by simp⟩

theorem isSome_afterHead? {name head : Text} (h : IsHead name head) (rest : Text) :
    (afterHead? name (head ++ rest)).isSome := by
  obtain ⟨lead, middle, ⟨rfl, hpair⟩ | ⟨gap, hne, hgap, rfl, hmiddle⟩, rfl⟩ := h
  · have hplain : afterPlainHead? name
        ([] ++ (name ++ (middle ++ ['\x7b'])) ++ rest) = some rest :=
      afterPlainHead?_eq_some_iff.mpr ⟨middle, hpair, by simp⟩
    rw [afterHead?, hplain, Option.isSome_or]
    simp
  · obtain ⟨c, gap, rfl⟩ := List.exists_cons_of_ne_nil hne
    obtain ⟨hblank, hgap⟩ := List.forall_mem_cons.mp hgap
    have hkeyword : afterKeywordHead? name
        ("function".toList ++ c :: gap ++ (name ++ (middle ++ ['\x7b'])) ++ rest) =
          afterBlanksAndName? name (gap ++ (name ++ (middle ++ '\x7b' :: rest))) := by
      have hstart : Text.afterStart? "function".toList
          ("function".toList ++ c :: gap ++ (name ++ (middle ++ ['\x7b'])) ++ rest) =
            some (c :: (gap ++ (name ++ (middle ++ '\x7b' :: rest)))) :=
        Text.afterStart?_eq_some_iff.mpr (by simp)
      rw [afterKeywordHead?, hstart]
      exact if_pos hblank
    rw [afterHead?, hkeyword, Option.isSome_or, isSome_afterBlanksAndName? hgap hmiddle rest]
    rfl

/-- The reader takes off a head, whatever follows it. -/
theorem afterHead?_eq_some_iff {name t rest : Text} :
    afterHead? name t = some rest ↔ ∃ head, IsHead name head ∧ t = head ++ rest := by
  refine ⟨exists_isHead_of_afterHead?, ?_⟩
  rintro ⟨head, hhead, rfl⟩
  obtain ⟨rest', hrest'⟩ := Option.isSome_iff_exists.mp (isSome_afterHead? hhead rest)
  obtain ⟨head', hhead', heq⟩ := exists_isHead_of_afterHead? hrest'
  have hle : head.length ≤ ([] ++ head').length := length_le_of_isHead hhead hhead' heq
  have hge : head'.length ≤ ([] ++ head).length := length_le_of_isHead hhead' hhead heq.symm
  obtain ⟨rfl, rfl⟩ := List.append_inj heq (Nat.le_antisymm hle hge)
  exact hrest'

/-! ## The search -/

/-- The search stops at a head. -/
theorem definition?_go_head {name head behind : Text} (hhead : IsHead name head)
    (hallowed : allowsDefinition behind.head? = true) (rest : Text) :
    definition?.go name behind (head ++ rest) = some ⟨head.reverse ++ behind, rest⟩ := by
  have hhere : afterHead? name (head ++ rest) = some rest :=
    afterHead?_eq_some_iff.mpr ⟨head, hhead, rfl⟩
  obtain ⟨c, t, rfl⟩ := List.exists_cons_of_ne_nil hhead.ne_nil
  rw [List.cons_append] at hhere
  rw [List.cons_append, definition?.go, if_pos hallowed, hhere]
  exact congrArg some (advance_past behind (c :: t) rest)

/-- The search passes a character that a definition may not start at, or no head does. -/
theorem definition?_go_of_none {name behind t : Text} {c : Char}
    (h : allowsDefinition behind.head? = true → afterHead? name (c :: t) = none) :
    definition?.go name behind (c :: t) = definition?.go name (c :: behind) t := by
  have hhere : (if allowsDefinition behind.head? then
      afterHead? name (c :: t) else none) = none := by
    split
    · next hallowed => exact h hallowed
    · rfl
  rw [definition?.go, hhere]

/-- If no head starts before another one, none does with another text behind
that one: it would be short enough to stand on the old text too. -/
theorem afterHead?_eq_none_move {name before head rest : Text} (hhead : IsHead name head)
    (h : afterHead? name (before ++ head ++ rest) = none) (rest' : Text) :
    afterHead? name (before ++ head ++ rest') = none := by
  refine Option.eq_none_iff_forall_ne_some.mpr fun found hfound => ?_
  obtain ⟨other, hother, heq⟩ := afterHead?_eq_some_iff.mp hfound
  have hle : other.length ≤ (before ++ head).length :=
    length_le_of_isHead hother hhead (by rw [← heq, List.append_assoc])
  obtain ⟨u, hu⟩ : other <+: before ++ head :=
    List.prefix_of_prefix_length_le (heq ▸ List.prefix_append other found)
      (List.prefix_append _ rest') hle
  have hold : afterHead? name (before ++ head ++ rest) = some (u ++ rest) :=
    afterHead?_eq_some_iff.mpr ⟨other, hother, by rw [← hu, List.append_assoc]⟩
  rw [hold] at h
  cases h

/-- What the search passes ends in a head, and the search would pass it
anywhere: it matters only whether a definition may start at its front. -/
theorem definition?_go_move {name behind t : Text} {p : Place}
    (h : definition?.go name behind t = some p) :
    ∃ before head, IsHead name head ∧
      (⟨behind, t⟩ : Place).Passes (before ++ head) p ∧ ∀ behind' t',
      allowsDefinition behind'.head? = allowsDefinition behind.head? →
      definition?.go name behind' (before ++ head ++ t') =
        some ⟨(before ++ head).reverse ++ behind', t'⟩ := by
  induction t generalizing behind with
  | nil => cases h
  | cons c t ih =>
      rw [definition?.go] at h
      split at h
      · next rest hhere =>
          cases h
          split at hhere
          · next hallowed =>
              obtain ⟨head, hhead, hfront⟩ := afterHead?_eq_some_iff.mp hhere
              refine ⟨[], head, hhead, ?_, fun behind' t' hsame => ?_⟩
              · rw [hfront, advance_past]
                exact ⟨rfl, rfl⟩
              · exact definition?_go_head hhead (hsame.trans hallowed) t'
          · cases hhere
      · next hhere =>
          obtain ⟨before, head, hhead, hpassed, hmove⟩ := ih h
          have ht : t = before ++ head ++ p.ahead := hpassed.1
          refine ⟨c :: before, head, hhead,
            Place.Passes.trans (s := [c]) (q := ⟨c :: behind, t⟩) ⟨rfl, rfl⟩ hpassed,
            fun behind' t' hsame => ?_⟩
          have hnone : allowsDefinition behind'.head? = true →
              afterHead? name (c :: (before ++ head ++ t')) = none := by
            intro hallowed
            rw [hsame] at hallowed
            rw [if_pos hallowed, ht] at hhere
            have hold : afterHead? name (c :: before ++ head ++ p.ahead) = none := hhere
            exact afterHead?_eq_none_move hhead hold t'
          rw [List.cons_append, List.cons_append, definition?_go_of_none hnone]
          simpa using hmove (c :: behind') t' rfl

/-- The first definition is the same whatever follows its opening brace. -/
theorem definition?_move {name source : Text} {p : Place}
    (h : definition? name source = some p) :
    source = p.behind.reverse ++ p.ahead ∧
      ∀ t, definition? name (p.behind.reverse ++ t) = some ⟨p.behind, t⟩ := by
  obtain ⟨before, head, -, hpassed, hmove⟩ := definition?_go_move h
  have hbehind : p.behind = (before ++ head).reverse := by
    rw [hpassed.2, List.append_nil]
  refine ⟨?_, fun t => ?_⟩
  · rw [hbehind, List.reverse_reverse]
    exact hpassed.1
  · have hsame := hmove [] t rfl
    rw [List.append_nil] at hsame
    rw [hbehind, List.reverse_reverse]
    exact hsame

end CaseTable.Shell
