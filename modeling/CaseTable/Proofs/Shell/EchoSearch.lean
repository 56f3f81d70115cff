import CaseTable.Proofs.Shell.Locality
import CaseTable.Shell.Echo

/-!
# What a printed text depends on

The search for an `echo` moves piece by piece, options are passed one by one,
and the operand ends with its quote or with the command. Like the readers of
arms, none of them looks far ahead: what each of them passes, and the first
character of what it leaves, decide how far it goes (`findEcho?_move`,
`skipOptions_move`, `operand?_move`). So an operand that ends before some
place is printed whatever is put there (`echoed?_of_echoBefore`).
-/

namespace CaseTable.Place

open CaseTable.Shell

/-! ## The search -/

theorem findEcho?_of_piece? {p q : Place} {piece : Piece} (hword : p.keyword? echoWord = none)
    (h : p.piece? = some (piece, q)) : p.findEcho? = q.findEcho? := by
  rw [findEcho?, hword]
  simp only []
  split
  · next hnone => cases h.symm.trans hnone
  · next hsome =>
      cases h.symm.trans hsome
      rfl

theorem findEcho?_echo {behind rest : Text} (h : StandsAt echoWord behind (echoWord ++ rest)) :
    (⟨behind, echoWord ++ rest⟩ : Place).findEcho? = some ⟨echoWord.reverse ++ behind, rest⟩ := by
  rw [findEcho?, keyword?_of_standsAt h]

theorem findEcho?_piece {behind rest : Text} {piece : Piece}
    (hpiece : piece.Complete (behind.head?.all endsBefore))
    (hecho : ¬ StandsAt echoWord behind (piece.text ++ rest)) :
    (⟨behind, piece.text ++ rest⟩ : Place).findEcho? =
      (⟨piece.text.reverse ++ behind, rest⟩ : Place).findEcho? :=
  findEcho?_of_piece? (keyword?_eq_none hecho) (piece?_complete hpiece rest)

/-- The first `echo` depends on what is passed, on whether a word may start
before it and on what delimits it. -/
theorem findEcho?_move {p q : Place} (h : p.findEcho? = some q) :
    ∃ s, p.Passes s q ∧ echoWord <:+ s ∧ q.ahead.head?.all endsAfter = true ∧ ∀ behind t,
      behind.head?.all endsBefore = p.behind.head?.all endsBefore →
      t.head?.all endsAfter = true →
      (⟨behind, s ++ t⟩ : Place).findEcho? = some ⟨s.reverse ++ behind, t⟩ := by
  fun_induction findEcho? p with
  | case1 p r hr =>
      cases h
      have hword := passes_of_keyword? hr
      have hstands := standsAt_of_keyword? hr
      rw [hword.1, standsAt_append_iff] at hstands
      refine ⟨echoWord, hword, List.suffix_refl _, hstands.2, fun behind t hstart ht => ?_⟩
      exact findEcho?_echo (standsAt_append_iff.mpr ⟨hstart.trans hstands.1, ht⟩)
  | case2 => cases h
  | case3 p hword piece r hr ih =>
      obtain ⟨s, hs, hecho, hdelimited, hmove⟩ := ih h
      have hpiece := passes_of_take? hr
      refine ⟨piece.text ++ s, hpiece.trans hs, hecho.trans (List.suffix_append _ _), hdelimited,
        fun behind t hstart ht => ?_⟩
      have hfollowed : r.ahead ≠ [] := by
        obtain ⟨before, rfl⟩ := hecho
        rw [hs.1]
        simp [echoWord]
      have hcomplete : piece.Complete (behind.head?.all endsBefore) := by
        rw [hstart]
        exact complete_of_take? hr hfollowed
      -- the `echo` is still to come
      have halike : Alike (piece.text ++ (s ++ t)) p.ahead := by
        rw [hpiece.1, hs.1]
        exact (Alike.of_head hecho.length_le (ht.trans hdelimited.symm)).append piece.text
      have hnone : ¬ StandsAt echoWord behind (piece.text ++ (s ++ t)) :=
        not_standsAt_move rfl hword hstart halike
      have hinside : (piece.text.reverse ++ behind).head?.all endsBefore =
          r.behind.head?.all endsBefore := by
        rw [hpiece.2]
        exact head?_append_congr hstart piece.text
      rw [List.append_assoc, findEcho?_piece hcomplete hnone, hmove _ t hinside ht,
        List.reverse_append, List.append_assoc]

theorem exists_passes_findEcho? {p q : Place} (h : p.findEcho? = some q) :
    ∃ s, p.Passes s q := by
  obtain ⟨s, hs, -⟩ := findEcho?_move h
  exact ⟨s, hs⟩

end CaseTable.Place

namespace CaseTable.Shell

/-- No letter of an `echo` ends a word, so it does not reach past a text behind
which one may start. -/
theorem echoWord_prefix_of_standsAt {behind passed after : Text}
    (h : StandsAt echoWord behind (passed ++ after)) (hne : passed ≠ [])
    (hend : (passed.reverse ++ behind).head?.all endsBefore = true) : echoWord <+: passed := by
  refine (List.prefix_or_prefix_of_prefix h.2.1 (List.prefix_append passed after)).resolve_right
    fun hin => ?_
  obtain ⟨c, init, hlast⟩ := List.exists_cons_of_ne_nil (List.reverse_ne_nil_iff.mpr hne)
  have hmem : c ∈ echoWord := hin.subset (List.mem_reverse.mp (hlast ▸ List.mem_cons_self))
  rw [hlast] at hend
  have hnone : ∀ d ∈ echoWord, endsBefore d = false := by simp [echoWord, endsBefore]
  cases (hnone c hmem).symm.trans hend

/-- The first character of a text depends on the first one of its end. -/
theorem head?_append_right_congr {t t' : Text} (h : t'.head? = t.head?) (s : Text) :
    (s ++ t').head? = (s ++ t).head? := by
  rw [List.head?_append, List.head?_append, h]

/-! ## Options -/

theorem optionLength_of_word {t : Text} (hspace : t.head? ≠ some ' ')
    (htab : t.head? ≠ some '\t') (hline : ∀ u, t ≠ '\\' :: '\n' :: u) :
    optionLength t =
      if isEchoOption (t.takeWhile fun c => !endsOption c) then
        (t.takeWhile fun c => !endsOption c).length
      else 0 := by
  rw [optionLength]
  · exact fun _ heq => hspace (by rw [heq]; rfl)
  · exact fun _ heq => htab (by rw [heq]; rfl)
  · exact hline

theorem optionLength_le (t : Text) : optionLength t ≤ t.length := by
  fun_cases optionLength t with
  | case1 => simp
  | case2 => simp
  | case3 => simp
  | case4 t _ _ _ word => exact (List.takeWhile_prefix _).length_le
  | case5 => exact Nat.zero_le _

/-- The letters of an option word, its minus included. -/
theorem of_mem_isEchoOption {word : Text} (h : isEchoOption word = true) {c : Char}
    (hc : c ∈ word) : c = '-' ∨ c = 'n' ∨ c = 'e' ∨ c = 'E' := by
  unfold isEchoOption at h
  split at h
  · next d letters =>
      rcases List.mem_cons.mp hc with rfl | hc
      · exact .inl rfl
      · exact .inr (by simpa [or_assoc] using List.all_eq_true.mp h c hc)
  · cases h

theorem head?_of_isEchoOption {word : Text} (h : isEchoOption word = true) :
    word.head? = some '-' := by
  unfold isEchoOption at h
  split at h
  · rfl
  · cases h

/-- No letter of a keyword is passed with the options. -/
theorem notMem_take_optionLength (t : Text) : 'c' ∉ t.take (optionLength t) := by
  fun_cases optionLength t with
  | case1 => simp
  | case2 => simp
  | case3 => simp
  | case4 t _ _ _ word hoption =>
      have htake : t.take word.length = word :=
        (List.prefix_iff_eq_take.mp (List.takeWhile_prefix _)).symm
      rw [htake]
      intro hmem
      exact absurd (of_mem_isEchoOption hoption hmem) (by decide)
  | case5 => simp

/-- An option word ends where it did if the same character follows it. -/
theorem takeWhile_word_move {word rest rest' : Text}
    (h : (word ++ rest).takeWhile (fun c => !endsOption c) = word)
    (hnext : rest'.head? = rest.head?) :
    (word ++ rest').takeWhile (fun c => !endsOption c) = word := by
  have hkept : ∀ c ∈ word, (!endsOption c) = true := by
    intro c hc
    rw [← h] at hc
    exact List.all_eq_true.mp List.all_takeWhile c hc
  rw [List.takeWhile_append_of_pos hkept, List.append_right_eq_self] at h ⊢
  cases rest' with
  | nil => rfl
  | cons c rest' =>
      cases rest with
      | nil => cases hnext
      | cons d rest =>
          obtain rfl : c = d := Option.some.inj hnext
          rw [List.takeWhile_cons] at h ⊢
          split at h
          · cases h
          · next hends => rw [if_neg hends]

/-- An option is passed alone if the same character follows it. -/
theorem optionLength_move {word rest rest' : Text} (hne : word ≠ [])
    (h : optionLength (word ++ rest) = word.length) (hnext : rest'.head? = rest.head?) :
    optionLength (word ++ rest') = word.length := by
  have hlength : word.length ≠ 0 := mt List.length_eq_zero_iff.mp hne
  rw [optionLength.eq_def] at h
  split at h
  · next htext =>
      obtain ⟨c, rfl⟩ := List.length_eq_one_iff.mp h.symm
      obtain rfl : c = ' ' := (List.cons.inj htext).1
      rfl
  · next htext =>
      obtain ⟨c, rfl⟩ := List.length_eq_one_iff.mp h.symm
      obtain rfl : c = '\t' := (List.cons.inj htext).1
      rfl
  · next htext =>
      obtain ⟨c, word, rfl⟩ := List.exists_cons_of_ne_nil hne
      obtain ⟨d, rfl⟩ := List.length_eq_one_iff.mp (Nat.succ.inj h.symm)
      obtain rfl : c = '\\' := (List.cons.inj htext).1
      obtain rfl : d = '\n' := (List.cons.inj (List.cons.inj htext).2).1
      rfl
  · simp only [] at h
    split at h
    · next hoption =>
        have hfirst : (word ++ rest).takeWhile (fun c => !endsOption c) = word := by
          rw [List.prefix_iff_eq_take.mp (List.takeWhile_prefix _), h, List.take_left]
        rw [hfirst] at hoption
        obtain ⟨letters, rfl⟩ := List.head?_eq_some_iff.mp (head?_of_isEchoOption hoption)
        rw [optionLength_of_word (by simp) (by simp) (by simp), takeWhile_word_move hfirst hnext,
          if_pos hoption]
    · exact absurd h.symm hlength

theorem optionLength_skipOptions (p : Place) : optionLength (skipOptions p).ahead = 0 := by
  fun_induction skipOptions p with
  | case1 p hlong ih => exact ih
  | case2 p hshort => exact Nat.eq_zero_of_not_pos hshort

/-- Where no option is, none is with something else behind a letter that is
in none. -/
theorem optionLength_hole {front t t' : Text} (h : optionLength (front ++ 'c' :: t) = 0) :
    optionLength (front ++ 'c' :: t') = 0 := by
  refine Nat.eq_zero_of_not_pos fun hpos => ?_
  have hletter := notMem_take_optionLength (front ++ 'c' :: t')
  generalize hn : optionLength (front ++ 'c' :: t') = n at hpos hletter
  have hle : n ≤ front.length := by
    refine Nat.le_of_not_lt fun hlong => hletter ?_
    obtain ⟨k, hk⟩ := Nat.exists_eq_add_of_lt hlong
    have hrest : n - front.length = k + 1 := by omega
    rw [List.take_append, hrest, List.take_succ_cons]
    exact List.mem_append_right _ List.mem_cons_self
  have hword : (front.take n).length = n := List.length_take_of_le hle
  have hpassed : optionLength (front.take n ++ (front.drop n ++ 'c' :: t')) =
      (front.take n).length := by
    rw [← List.append_assoc, List.take_append_drop, hn, hword]
  have hnext : (front.drop n ++ 'c' :: t).head? = (front.drop n ++ 'c' :: t').head? :=
    head?_append_right_congr (by rfl) (front.drop n)
  have hmoved := optionLength_move (List.ne_nil_of_length_pos (hword.symm ▸ hpos)) hpassed hnext
  rw [← List.append_assoc, List.take_append_drop, h, hword] at hmoved
  omega

theorem skipOptions_move (p : Place) :
    ∃ s, p.Passes s (skipOptions p) ∧ ∀ behind t,
      t.head? = (skipOptions p).next? → optionLength t = 0 →
      skipOptions ⟨behind, s ++ t⟩ = ⟨s.reverse ++ behind, t⟩ := by
  fun_induction skipOptions p with
  | case1 p hlong ih =>
      obtain ⟨s, hs, hmove⟩ := ih
      have hstep := p.passes_advance (optionLength p.ahead)
      have hlength : (p.ahead.take (optionLength p.ahead)).length = optionLength p.ahead := by
        rw [List.length_take, Nat.min_eq_left (optionLength_le p.ahead)]
      refine ⟨_, hstep.trans hs, fun behind t hnext hshort => ?_⟩
      generalize p.ahead.take (optionLength p.ahead) = word at hstep hlength
      have hword : optionLength (word ++ (s ++ t)) = word.length := by
        refine optionLength_move (List.ne_nil_of_length_pos (hlength ▸ hlong)) ?_
          (head?_append_right_congr hnext s)
        rw [← hs.1, ← hstep.1, hlength]
      rw [List.append_assoc, skipOptions, hword, if_pos (hlength ▸ hlong), Place.advance,
        List.take_left, List.drop_left, hmove _ t hnext hshort, List.reverse_append,
        List.append_assoc]
  | case2 p hshort =>
      refine ⟨[], Place.Passes.refl p, fun behind t hnext hzero => ?_⟩
      rw [List.nil_append, skipOptions, if_neg (by rw [hzero]; exact Nat.lt_irrefl 0)]
      rfl

theorem exists_passes_skipOptions (p : Place) : ∃ s, p.Passes s (skipOptions p) := by
  obtain ⟨s, hs, -⟩ := skipOptions_move p
  exact ⟨s, hs⟩

/-! ## Operands -/

theorem commandEnd_go_of_ne {c : Char} (h : c ≠ '\\') (b t : Text) :
    commandEnd.go b (c :: t) =
      if c = '\n' || c = ';' || (c = '#' && b.head?.all endsBefore) then ⟨b, c :: t⟩
      else commandEnd.go (c :: b) t := by
  rw [commandEnd.go]
  · exact fun heq _ => h heq
  · exact fun _ _ heq _ => h heq

theorem commandEnd_go_move (b t : Text) :
    ∃ s, (⟨b, t⟩ : Place).Passes s (commandEnd.go b t) ∧ ∀ b' t',
      b'.head?.all endsBefore = b.head?.all endsBefore →
      t'.head? = (commandEnd.go b t).next? →
      commandEnd.go b' (s ++ t') = ⟨s.reverse ++ b', t'⟩ := by
  fun_induction commandEnd.go b t with
  | case1 b =>
      refine ⟨[], Place.Passes.refl _, fun b' t' _ hnext => ?_⟩
      obtain rfl : t' = [] := List.head?_eq_none_iff.mp hnext
      rfl
  | case2 b =>
      refine ⟨['\\'], ⟨rfl, rfl⟩, fun b' t' _ hnext => ?_⟩
      obtain rfl : t' = [] := List.head?_eq_none_iff.mp hnext
      rfl
  | case3 b c t ih =>
      obtain ⟨s, hs, hmove⟩ := ih
      refine ⟨['\\', c] ++ s, Place.Passes.trans (q := ⟨c :: '\\' :: b, t⟩) ⟨rfl, rfl⟩ hs,
        fun b' t' _ hnext => ?_⟩
      have hmoved := hmove (c :: '\\' :: b') t' rfl hnext
      change commandEnd.go b' ('\\' :: c :: (s ++ t')) = _
      rw [commandEnd.go, hmoved]
      simp
  | case4 b c t hlone hescape hend =>
      refine ⟨[], Place.Passes.refl _, fun b' t' hstart hnext => ?_⟩
      obtain ⟨u, rfl⟩ := List.head?_eq_some_iff.mp hnext
      have hslash : c ≠ '\\' := by
        rintro rfl
        simp at hend
      rw [List.nil_append, commandEnd_go_of_ne hslash, hstart, if_pos hend]
      rfl
  | case5 b c t hlone hescape hend ih =>
      obtain ⟨s, hs, hmove⟩ := ih
      refine ⟨[c] ++ s, Place.Passes.trans (q := ⟨c :: b, t⟩) ⟨rfl, rfl⟩ hs,
        fun b' t' hstart hnext => ?_⟩
      have hmoved := hmove (c :: b') t' rfl hnext
      have hslash : c ≠ '\\' := ne_backslash hlone hescape
      change commandEnd.go b' (c :: (s ++ t')) = _
      rw [commandEnd_go_of_ne hslash, hstart, if_neg hend, hmoved]
      simp

theorem exists_passes_commandEnd_go (b t : Text) :
    ∃ s, (⟨b, t⟩ : Place).Passes s (commandEnd.go b t) := by
  obtain ⟨s, hs, -⟩ := commandEnd_go_move b t
  exact ⟨s, hs⟩

theorem operand?_double (b t : Text) :
    operand? ⟨b, '"' :: t⟩ = (Piece.splitDouble? t).map Prod.fst := rfl

theorem operand?_single (b t : Text) :
    operand? ⟨b, '\x27' :: t⟩ = (Piece.splitSingle? t).map Prod.fst := rfl

theorem operand?_bare {p : Place} {c : Char} {t s : Text} (hahead : p.ahead = c :: t)
    (hc : c ∉ ['"', '\x27', '\n', ';']) (hpassed : p.Passes s (commandEnd p)) :
    operand? p = some s.trimEnd := by
  simp only [List.mem_cons, List.not_mem_nil, or_false, not_or] at hc
  rw [operand?, hahead]
  split
  · next heq => cases heq
  · next heq => exact absurd (List.cons.inj heq).1 hc.1
  · next heq => exact absurd (List.cons.inj heq).1 hc.2.1
  · next heq => exact absurd (List.cons.inj heq).1 hc.2.2.1
  · next heq => exact absurd (List.cons.inj heq).1 hc.2.2.2
  · rw [hpassed.upTo_eq]

/-- No operand starts where the command ends. -/
theorem operand?_of_next {p : Place} {c : Char} (hnext : p.next? = some c)
    (hc : c = '\n' ∨ c = ';') : operand? p = none := by
  obtain ⟨b, t⟩ := p
  obtain ⟨u, rfl⟩ : ∃ u, t = c :: u := List.head?_eq_some_iff.mp hnext
  rcases hc with rfl | rfl <;> rfl

/-- The text behind the operand at a place. -/
def afterOperand (p : Place) : Text :=
  match p.ahead with
  | '"' :: t => ((Piece.splitDouble? t).map Prod.snd).getD []
  | '\x27' :: t => ((Piece.splitSingle? t).map Prod.snd).getD []
  | _ => (commandEnd p).ahead

theorem afterOperand_bare {p : Place} (hdouble : p.next? ≠ some '"')
    (hsingle : p.next? ≠ some '\x27') : afterOperand p = (commandEnd p).ahead := by
  rw [afterOperand]
  split
  · next heq => exact absurd (congrArg List.head? heq) hdouble
  · next heq => exact absurd (congrArg List.head? heq) hsingle
  · rfl

/-- What stands in quotes is decided by the quote that closes it. -/
theorem splitQuote_move {mark : Char} {split? : Text → Option (Text × Text)}
    (hclosed : ∀ {u content rest}, split? u = some (content, rest) →
      u = content ++ mark :: rest ∧ ∀ t, split? (content ++ mark :: t) = some (content, t))
    (u : Text) :
    ∃ s, mark :: u = s ++ ((split? u).map Prod.snd).getD [] ∧ ∀ t,
      t.head? = (((split? u).map Prod.snd).getD []).head? →
      ∃ v, s ++ t = mark :: v ∧ (split? v).map Prod.fst = (split? u).map Prod.fst := by
  cases hsplit : split? u with
  | none =>
      refine ⟨mark :: u, (List.append_nil _).symm, fun t hnext => ⟨u, ?_, by rw [hsplit]⟩⟩
      obtain rfl : t = [] := List.head?_eq_none_iff.mp hnext
      exact List.append_nil _
  | some split =>
      obtain ⟨content, rest⟩ := split
      obtain ⟨rfl, hmove⟩ := hclosed hsplit
      refine ⟨mark :: content ++ [mark], by simp, fun t _ => ⟨content ++ mark :: t, by simp, ?_⟩⟩
      rw [hmove t]
      rfl

/-- An operand is what it was if the same character follows it. -/
theorem operand?_move (p : Place) :
    ∃ s, p.ahead = s ++ afterOperand p ∧ ∀ behind t,
      behind.head?.all endsBefore = p.behind.head?.all endsBefore →
      t.head? = (afterOperand p).head? →
      operand? ⟨behind, s ++ t⟩ = operand? p := by
  obtain ⟨b, a⟩ := p
  cases a with
  | nil =>
      refine ⟨[], rfl, fun behind t _ hnext => ?_⟩
      obtain rfl : t = [] := List.head?_eq_none_iff.mp hnext
      rfl
  | cons c u =>
      by_cases hdouble : c = '"'
      · subst hdouble
        obtain ⟨s, hs, hmove⟩ := splitQuote_move (fun hsplit => ⟨Piece.eq_of_splitDouble? hsplit,
          Piece.splitDouble?_closed (Piece.isEscaped_of_splitDouble? hsplit)⟩) u
        refine ⟨s, hs, fun behind t _ hnext => ?_⟩
        obtain ⟨v, hv, hsame⟩ := hmove t hnext
        rw [hv, operand?_double, operand?_double, hsame]
      · by_cases hsingle : c = '\x27'
        · subst hsingle
          obtain ⟨s, hs, hmove⟩ := splitQuote_move (fun hsplit => ⟨Piece.eq_of_splitSingle? hsplit,
            Piece.splitSingle?_closed (Piece.quote_notMem_of_splitSingle? hsplit)⟩) u
          refine ⟨s, hs, fun behind t _ hnext => ?_⟩
          obtain ⟨v, hv, hsame⟩ := hmove t hnext
          rw [hv, operand?_single, operand?_single, hsame]
        · rw [afterOperand_bare (by simpa [Place.next?] using hdouble)
            (by simpa [Place.next?] using hsingle)]
          obtain ⟨s, hs, hmove⟩ := commandEnd_go_move b (c :: u)
          refine ⟨s, hs.1, fun behind t hstart hnext => ?_⟩
          have hfirst : (⟨behind, s ++ t⟩ : Place).next? = some c :=
            (head?_append_right_congr hnext s).trans (congrArg List.head? hs.1).symm
          by_cases hends : c = '\n' ∨ c = ';'
          · rw [operand?_of_next hfirst hends, operand?_of_next rfl hends]
          · have hbare : c ∉ ['"', '\x27', '\n', ';'] := by
              simpa [hdouble, hsingle] using hends
            obtain ⟨v, hv⟩ := List.head?_eq_some_iff.mp hfirst
            have hpassed : (⟨behind, s ++ t⟩ : Place).Passes s (commandEnd ⟨behind, s ++ t⟩) := by
              rw [commandEnd, hmove behind t hstart hnext]
              exact ⟨rfl, rfl⟩
            rw [operand?_bare hv hbare hpassed, operand?_bare rfl hbare hs]

/-! ## The printed text -/

/-- What the first echo from a place on prints. -/
def printed? (p : Place) : Option Text :=
  p.findEcho?.bind fun q => operand? (skipOptions q)

theorem operand?_skipOptions_congr {b b' t : Text}
    (h : b'.head?.all endsBefore = b.head?.all endsBefore) :
    operand? (skipOptions ⟨b', t⟩) = operand? (skipOptions ⟨b, t⟩) := by
  obtain ⟨options, hoptions, hmoveOptions⟩ := skipOptions_move ⟨b, t⟩
  obtain ⟨operand, hoperand, hmoveOperand⟩ := operand?_move (skipOptions ⟨b, t⟩)
  have hmoved := hmoveOptions b' _ rfl (optionLength_skipOptions _)
  have hstart : (options.reverse ++ b').head?.all endsBefore =
      (skipOptions ⟨b, t⟩).behind.head?.all endsBefore := by
    rw [hoptions.2]
    exact head?_append_congr h options
  rw [← hoptions.1] at hmoved
  rw [hmoved, ← hmoveOperand _ _ hstart rfl, ← hoperand]

/-- Of what lies behind, it only matters whether a word may start. -/
theorem printed?_congr {b b' : Text} (h : b'.head?.all endsBefore = b.head?.all endsBefore)
    (t : Text) : printed? ⟨b', t⟩ = printed? ⟨b, t⟩ := by
  cases hecho : (⟨b, t⟩ : Place).findEcho? with
  | none =>
      have hnone : (⟨b', t⟩ : Place).findEcho? = none := by
        refine Option.eq_none_iff_forall_ne_some.mpr fun q hq => ?_
        obtain ⟨s, hs, -, hdelimited, hmove⟩ := Place.findEcho?_move hq
        have hmoved := hmove b q.ahead h.symm hdelimited
        rw [← hs.1] at hmoved
        cases hecho.symm.trans hmoved
      rw [printed?, printed?, hecho, hnone]
  | some q =>
      obtain ⟨s, hs, -, hdelimited, hmove⟩ := Place.findEcho?_move hecho
      have hmoved := hmove b' q.ahead h hdelimited
      rw [← hs.1] at hmoved
      have hstart : (s.reverse ++ b').head?.all endsBefore = q.behind.head?.all endsBefore := by
        rw [hs.2]
        exact head?_append_congr h s
      rw [printed?, printed?, hmoved, hecho]
      exact operand?_skipOptions_congr hstart

/-- An `echo` and its operand stand in front of the end of the body. -/
def EchoBefore (body tail : Text) : Prop :=
  ∃ p, (Place.start body).findEcho? = some p ∧ tail <:+ afterOperand (skipOptions p)

/-- A body that has printed before a keyword prints the same whatever follows. -/
theorem echoed?_of_echoBefore {front t t' : Text}
    (h : EchoBefore (front ++ 'c' :: t) ('c' :: t)) :
    echoed? (front ++ 'c' :: t') = echoed? (front ++ 'c' :: t) := by
  obtain ⟨p, hecho, between, hbetween⟩ := h
  obtain ⟨before, hbefore, -, hdelimited, hmoveEcho⟩ := Place.findEcho?_move hecho
  obtain ⟨options, hoptions, hmoveOptions⟩ := skipOptions_move p
  obtain ⟨operand, hoperand, hmoveOperand⟩ := operand?_move (skipOptions p)
  have hshort := optionLength_skipOptions p
  rw [← hbetween] at hoperand hmoveOperand
  rw [hoptions.1, hoperand] at hdelimited
  rw [Place.next?, hoperand] at hmoveOptions
  rw [hoperand, ← List.append_assoc] at hshort
  obtain rfl : front = before ++ (options ++ (operand ++ between)) := by
    refine List.append_cancel_right ((hbefore.1.trans ?_ : front ++ 'c' :: t = _))
    rw [hoptions.1, hoperand]
    simp
  -- at each stop the next character is the same
  have hnext (s : Text) : (s ++ 'c' :: t').head? = (s ++ 'c' :: t).head? :=
    head?_append_right_congr (by rfl) s
  have hechoMoved := hmoveEcho [] (options ++ (operand ++ (between ++ 'c' :: t'))) rfl (by
    rw [← List.append_assoc, ← List.append_assoc, hnext, List.append_assoc, List.append_assoc]
    exact hdelimited)
  have hoptionsMoved := hmoveOptions (before.reverse ++ []) (operand ++ (between ++ 'c' :: t'))
    (head?_append_right_congr (hnext between) operand) (by
      rw [← List.append_assoc]
      exact optionLength_hole hshort)
  have hoperandMoved := hmoveOperand (options.reverse ++ (before.reverse ++ []))
    (between ++ 'c' :: t') (by rw [hoptions.2, hbefore.2]; rfl) (hnext between)
  have hold : echoed? (before ++ (options ++ (operand ++ between)) ++ 'c' :: t) =
      operand? (skipOptions p) := by
    rw [echoed?, hecho, Option.bind_some]
  have hahead : before ++ (options ++ (operand ++ between)) ++ 'c' :: t' =
      before ++ (options ++ (operand ++ (between ++ 'c' :: t'))) := by
    simp
  rw [hold, hahead, echoed?, Place.start, hechoMoved, Option.bind_some, hoptionsMoved,
    hoperandMoved]

end CaseTable.Shell
