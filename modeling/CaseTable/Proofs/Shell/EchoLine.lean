import CaseTable.Extraction.Names
import CaseTable.Proofs.Shell.LineEndings

/-!
# An echo on one line

What an `echo` prints can depend on the line ends. A backslash continues an
unquoted operand on the next line, but before the new line end it hides the
carriage return only, and the operand ends in the middle of it. The same
backslash before the operand is no continuation any more, an option word at
the end of a line is no option word, and where nothing is printed an empty
text is.

None of this can happen if the operand starts on the line of its `echo` and,
without quotes, ends on it. That is `EchoOnLine`, and then the same is printed
with the new line ends (`echoed?_crlf`).
-/

namespace CaseTable.Shell

open CaseTable.Text CaseTable.Place

/-- The operand starts on this line, and an operand without quotes ends on
it. -/
def operandOnLine (p : Place) : Bool :=
  let q := skipOptions p
  !(p.upTo q).contains '\n' && q.next? ≠ some '\n' &&
    (q.next? = some '"' || q.next? = some '\x27' || !(q.upTo (commandEnd q)).contains '\n')

/-- The first echo of a body has its operand on its line. -/
def EchoOnLine (body : Text) : Prop :=
  (Place.start body).findEcho?.all operandOnLine = true

instance (body : Text) : Decidable (EchoOnLine body) :=
  inferInstanceAs (Decidable (_ = true))

/-! ## Option words -/

theorem isEchoOption_return (word : Text) : isEchoOption (word ++ ['\r']) = false := by
  cases word with
  | nil => rfl
  | cons c word =>
      by_cases hc : c = '-'
      · subst hc
        cases word with
        | nil => rfl
        | cons d letters =>
            rw [List.cons_append, List.cons_append, isEchoOption, ← List.cons_append,
              List.all_append]
            exact Bool.and_false _
      · rw [List.cons_append, isEchoOption]
        exact fun _ _ heq => hc (List.cons.inj heq).1

/-- At the end of a line a word gets the carriage return. -/
theorem takeWhile_word_crlf {t : Text} (h : '\r' ∉ t) :
    (crlf t).takeWhile (fun c => !endsOption c) = t.takeWhile (fun c => !endsOption c) ∨
      (crlf t).takeWhile (fun c => !endsOption c) =
          t.takeWhile (fun c => !endsOption c) ++ ['\r'] ∧
        (t.drop (t.takeWhile fun c => !endsOption c).length).head? = some '\n' := by
  induction t with
  | nil => exact .inl rfl
  | cons c t ih =>
      rw [List.mem_cons, not_or] at h
      by_cases hc : c = '\n'
      · subst hc
        exact .inr ⟨rfl, rfl⟩
      · rw [crlf_cons_of_ne hc]
        by_cases hends : endsOption c = true
        · rw [List.takeWhile_cons_of_neg (by simp [hends]),
            List.takeWhile_cons_of_neg (by simp [hends])]
          exact .inl rfl
        · rw [List.takeWhile_cons_of_pos (by simp [hends]),
            List.takeWhile_cons_of_pos (by simp [hends])]
          rcases ih h.2 with hsame | ⟨hmore, hnext⟩
          · exact .inl (by rw [hsame])
          · exact .inr ⟨by rw [hmore]; rfl, hnext⟩

theorem optionLength_crlf {t : Text} (hreturn : '\r' ∉ t)
    (hpassed : '\n' ∉ t.take (optionLength t))
    (hnext : (t.drop (optionLength t)).head? ≠ some '\n') :
    optionLength (crlf t) = optionLength t := by
  by_cases hspace : t.head? = some ' '
  · obtain ⟨u, rfl⟩ := List.head?_eq_some_iff.mp hspace
    rw [crlf_cons_of_ne (by decide)]
    rfl
  · by_cases htab : t.head? = some '\t'
    · obtain ⟨u, rfl⟩ := List.head?_eq_some_iff.mp htab
      rw [crlf_cons_of_ne (by decide)]
      rfl
    · have hline (u : Text) : t ≠ '\\' :: '\n' :: u := by
        rintro rfl
        exact hpassed (by simp [optionLength])
      have hspace' : (crlf t).head? ≠ some ' ' := by
        rcases crlf_cases t with rfl | ⟨u, rfl⟩ | ⟨c, u, rfl, h⟩
        · simp
        · simp
        · rwa [h]
      have htab' : (crlf t).head? ≠ some '\t' := by
        rcases crlf_cases t with rfl | ⟨u, rfl⟩ | ⟨c, u, rfl, h⟩
        · simp
        · simp
        · rwa [h]
      have hline' (u : Text) : crlf t ≠ '\\' :: '\n' :: u := by
        intro heq
        rcases crlf_cases t with rfl | ⟨v, rfl⟩ | ⟨c, v, rfl, h⟩
        · cases heq
        · cases heq
        · rw [h] at heq
          exact head?_crlf_ne_newline v (by rw [(List.cons.inj heq).2]; rfl)
      rw [optionLength_of_word hspace htab hline] at hnext ⊢
      rw [optionLength_of_word hspace' htab' hline']
      rcases takeWhile_word_crlf hreturn with hsame | ⟨hmore, hfeed⟩
      · rw [hsame]
      · rw [hmore, isEchoOption_return]
        split
        · next hoption => exact absurd hoption (by decide)
        · split
          · next hoption =>
              rw [if_pos hoption] at hnext
              exact absurd hfeed hnext
          · rfl

theorem skipOptions_crlf {p : Place} {s : Text} (hreturn : '\r' ∉ p.ahead)
    (hpassed : p.Passes s (skipOptions p)) (hs : '\n' ∉ s)
    (hnext : (skipOptions p).next? ≠ some '\n') : skipOptions p.crlf = (skipOptions p).crlf := by
  fun_induction skipOptions p generalizing s with
  | case1 p hlong ih =>
      have hstep := p.passes_advance (optionLength p.ahead)
      obtain ⟨u, hu⟩ := exists_passes_skipOptions (p.advance (optionLength p.ahead))
      have hsplit : s = p.ahead.take (optionLength p.ahead) ++ u :=
        List.append_cancel_right (hpassed.1.symm.trans (hstep.trans hu).1)
      have hword : OneLine (p.ahead.take (optionLength p.ahead)) :=
        ⟨fun hmem => hs (by rw [hsplit]; exact List.mem_append_left u hmem),
          fun hmem => hreturn (List.mem_of_mem_take hmem)⟩
      have hrest : '\n' ∉ u := fun hmem =>
        hs (by rw [hsplit]; exact List.mem_append_right _ hmem)
      have hhead : (p.ahead.drop (optionLength p.ahead)).head? ≠ some '\n' := by
        have hahead : p.ahead.drop (optionLength p.ahead) = u ++ (skipOptions
            (p.advance (optionLength p.ahead))).ahead := hu.1
        rw [hahead]
        cases u with
        | nil => exact hnext
        | cons c u =>
            rw [List.mem_cons, not_or] at hrest
            simpa using Ne.symm hrest.1
      have hlength : optionLength p.crlf.ahead = optionLength p.ahead :=
        optionLength_crlf hreturn hword.1 hhead
      have hadvance := advance_crlf hword hstep.1
      rw [List.length_take, Nat.min_eq_left (optionLength_le p.ahead)] at hadvance
      rw [skipOptions, hlength, if_pos hlong, hadvance]
      refine ih (fun hmem => hreturn (List.mem_of_mem_drop hmem)) hu hrest hnext
  | case2 p hshort =>
      have hzero : optionLength p.ahead = 0 := Nat.eq_zero_of_not_pos hshort
      have hlength : optionLength p.crlf.ahead = optionLength p.ahead :=
        optionLength_crlf hreturn (by rw [hzero]; exact List.not_mem_nil)
          (by rw [hzero]; exact hnext)
      rw [skipOptions, hlength, if_neg hshort]

/-! ## Operands -/

/-- A command ends at the same place. A carriage return before its line feed
is passed as well. -/
theorem commandEnd_go_crlf {b t s : Text} (hpassed : (⟨b, t⟩ : Place).Passes s (commandEnd.go b t))
    (hs : '\n' ∉ s) : ∃ s', (s' = s ∨ s' = s ++ ['\r']) ∧
      (⟨crlfBehind b, crlf t⟩ : Place).Passes s' (commandEnd.go (crlfBehind b) (crlf t)) := by
  fun_induction commandEnd.go b t generalizing s with
  | case1 b =>
      obtain rfl : s = [] := by simpa using hpassed.1
      exact ⟨[], .inl rfl, Passes.refl _⟩
  | case2 b =>
      obtain rfl : s = ['\\'] := by simpa using hpassed.1.symm
      exact ⟨['\\'], .inl rfl, rfl, rfl⟩
  | case3 b c t ih =>
      obtain ⟨u, hu⟩ := exists_passes_commandEnd_go (c :: '\\' :: b) t
      obtain rfl : s = '\\' :: c :: u :=
        List.append_cancel_right (hpassed.1.symm.trans
          (Passes.trans (s := ['\\', c]) (q := ⟨c :: '\\' :: b, t⟩) ⟨rfl, rfl⟩ hu).1)
      simp only [List.mem_cons, not_or] at hs
      obtain ⟨s', hs', hpassed'⟩ := ih hu hs.2.2
      have hc : c ≠ '\n' := Ne.symm hs.2.1
      rw [crlfBehind_cons_of_ne hc, crlfBehind_cons_of_ne (by decide)] at hpassed'
      rw [crlf_cons_of_ne (by decide), crlf_cons_of_ne hc, commandEnd.go]
      exact ⟨'\\' :: c :: s', by simpa using hs',
        Passes.trans (s := ['\\', c]) (q := ⟨_, crlf t⟩) ⟨rfl, rfl⟩ hpassed'⟩
  | case4 b c t hlone hescape hend =>
      obtain rfl : s = [] := by simpa using hpassed.1
      by_cases hc : c = '\n'
      · subst hc
        refine ⟨['\r'], .inr rfl, ?_⟩
        rw [crlf_newline, commandEnd_go_of_ne (by decide), if_neg (by simp),
          commandEnd_go_of_ne (by decide), if_pos (by simp)]
        exact ⟨rfl, rfl⟩
      · have hslash : c ≠ '\\' := by
          rintro rfl
          simp at hend
        refine ⟨[], .inl rfl, ?_⟩
        rw [crlf_cons_of_ne hc, commandEnd_go_of_ne hslash, head?_crlfBehind, if_pos hend]
        exact Passes.refl _
  | case5 b c t hlone hescape hend ih =>
      obtain ⟨u, hu⟩ := exists_passes_commandEnd_go (c :: b) t
      obtain rfl : s = c :: u :=
        List.append_cancel_right (hpassed.1.symm.trans
          (Passes.trans (s := [c]) (q := ⟨c :: b, t⟩) ⟨rfl, rfl⟩ hu).1)
      simp only [List.mem_cons, not_or] at hs
      obtain ⟨s', hs', hpassed'⟩ := ih hu hs.2
      have hc : c ≠ '\n' := Ne.symm hs.1
      have hslash : c ≠ '\\' := ne_backslash hlone hescape
      rw [crlfBehind_cons_of_ne hc] at hpassed'
      rw [crlf_cons_of_ne hc, commandEnd_go_of_ne hslash, head?_crlfBehind, if_neg hend]
      exact ⟨c :: s', by simpa using hs',
        Passes.trans (s := [c]) (q := ⟨_, crlf t⟩) ⟨rfl, rfl⟩ hpassed'⟩

/-- The operand has the new line ends; without quotes it has none. -/
theorem operand?_crlf {p : Place} {s : Text} (hnext : p.next? ≠ some '\n')
    (hpassed : p.Passes s (commandEnd p))
    (hline : p.next? = some '"' ∨ p.next? = some '\x27' ∨ '\n' ∉ s) :
    operand? p.crlf = (operand? p).map Text.crlf := by
  obtain ⟨b, t⟩ := p
  cases t with
  | nil => rfl
  | cons c t =>
      have hc : c ≠ '\n' := fun hc => hnext (by rw [hc]; rfl)
      have hcrlf : (⟨b, c :: t⟩ : Place).crlf = ⟨crlfBehind b, c :: Text.crlf t⟩ := by
        rw [Place.crlf, crlf_cons_of_ne hc]
      by_cases hdouble : c = '"'
      · subst hdouble
        rw [hcrlf, operand?_double, operand?_double, Piece.splitDouble?_crlf]
        cases Piece.splitDouble? t <;> rfl
      · by_cases hsingle : c = '\x27'
        · subst hsingle
          rw [hcrlf, operand?_single, operand?_single, Piece.splitSingle?_crlf]
          cases Piece.splitSingle? t <;> rfl
        · by_cases hends : c = ';'
          · subst hends
            rw [hcrlf]
            rfl
          · have hbare : c ∉ ['"', '\x27', '\n', ';'] := by
              simp [hdouble, hsingle, hc, hends]
            have hs : '\n' ∉ s := by
              rcases hline with h | h | h
              · exact absurd (Option.some.inj h) hdouble
              · exact absurd (Option.some.inj h) hsingle
              · exact h
            obtain ⟨s', hs', hpassed'⟩ := commandEnd_go_crlf hpassed hs
            rw [crlf_cons_of_ne hc] at hpassed'
            have htrim : s'.trimEnd = s.trimEnd := by
              rcases hs' with rfl | rfl
              · rfl
              · exact trimEnd_append (by simp [isBlank_return]) s
            have hword : Text.crlf s.trimEnd = s.trimEnd :=
              crlf_of_notMem fun hmem => hs ((trimEnd_prefix_self s).subset hmem)
            rw [hcrlf, operand?_bare rfl hbare hpassed', operand?_bare rfl hbare hpassed,
              Option.map_some, htrim, hword]

/-! ## What is printed -/

theorem mem_of_passes {p q : Place} {s : Text} (h : p.Passes s q) {c : Char}
    (hc : c ∈ q.ahead) : c ∈ p.ahead := by
  rw [h.1]
  exact List.mem_append_right s hc

theorem echoed?_crlf {body : Text} (hreturn : '\r' ∉ body) (hline : EchoOnLine body) :
    echoed? (Text.crlf body) = (echoed? body).map Text.crlf := by
  have hstart : Place.start (Text.crlf body) = (Place.start body).crlf := rfl
  rw [echoed?, echoed?, hstart, findEcho?_crlf]
  cases hecho : (Place.start body).findEcho? with
  | none => rfl
  | some p =>
      obtain ⟨before, hbefore⟩ := exists_passes_findEcho? hecho
      obtain ⟨options, hoptions⟩ := exists_passes_skipOptions p
      obtain ⟨command, hcommand⟩ : ∃ s, (skipOptions p).Passes s (commandEnd (skipOptions p)) :=
        exists_passes_commandEnd_go _ _
      have hahead : '\r' ∉ p.ahead := fun hmem => hreturn (mem_of_passes hbefore hmem)
      rw [EchoOnLine, hecho, Option.all_some, operandOnLine] at hline
      simp only [hoptions.upTo_eq, hcommand.upTo_eq, Bool.and_eq_true, Bool.or_eq_true,
        Bool.not_eq_true', List.contains_eq_mem, decide_eq_true_eq, decide_eq_false_iff_not,
        or_assoc] at hline
      obtain ⟨⟨hbare, hnext⟩, hends⟩ := hline
      simp only [Option.map_some, Option.bind_some]
      rw [skipOptions_crlf hahead hoptions hbare hnext, operand?_crlf hnext hcommand hends]

theorem mem_of_mem_operand? {p : Place} {printed : Text} (h : operand? p = some printed)
    {c : Char} (hc : c ∈ printed) : c ∈ p.ahead := by
  obtain ⟨b, t⟩ := p
  rw [operand?] at h
  split at h
  · cases h
  · next u hahead =>
      obtain ⟨⟨content, rest⟩, hsplit, rfl⟩ := Option.map_eq_some_iff.mp h
      rw [hahead, Piece.eq_of_splitDouble? hsplit]
      exact List.mem_cons_of_mem _ (List.mem_append_left _ hc)
  · next u hahead =>
      obtain ⟨⟨content, rest⟩, hsplit, rfl⟩ := Option.map_eq_some_iff.mp h
      rw [hahead, Piece.eq_of_splitSingle? hsplit]
      exact List.mem_cons_of_mem _ (List.mem_append_left _ hc)
  · cases h
  · cases h
  · cases h
    exact List.mem_of_mem_take ((trimEnd_prefix_self _).subset hc)

theorem mem_of_mem_echoed? {body printed : Text} (h : echoed? body = some printed)
    {c : Char} (hc : c ∈ printed) : c ∈ body := by
  obtain ⟨p, hecho, hoperand⟩ := Option.bind_eq_some_iff.mp h
  obtain ⟨before, hbefore⟩ := exists_passes_findEcho? hecho
  obtain ⟨options, hoptions⟩ := exists_passes_skipOptions p
  exact mem_of_passes hbefore (mem_of_passes hoptions (mem_of_mem_operand? hoperand hc))

/-- The arguments of an arm are the same with the new line ends. -/
theorem argsOf?_crlf {placeholder : Text} (hname : OneLine placeholder) {body : Text}
    (hreturn : '\r' ∉ body) (hline : EchoOnLine body) :
    Extraction.argsOf? placeholder (Text.crlf body) = Extraction.argsOf? placeholder body := by
  rw [Extraction.argsOf?, Extraction.argsOf?, echoed?_crlf hreturn hline]
  cases hprinted : echoed? body with
  | none => rfl
  | some printed =>
      exact congrArg some (Arguments.clean_crlf hname fun hmem =>
        hreturn (mem_of_mem_echoed? hprinted hmem))

end CaseTable.Shell
