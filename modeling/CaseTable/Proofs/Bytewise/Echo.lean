import CaseTable.Proofs.Bytewise.Walks
import CaseTable.Proofs.Shell.Echo

/-!
# What an echo prints, byte by byte

The first `echo` of a body is found by a walk, and its operand is read behind the
option words. An option word is cut out of the bytes and looked at byte by byte
(`echoFlagLength`); the operand is a slice of the text.

An option word is of ASCII only, so its lengths in bytes and in characters agree
(`echoFlagLength_offset`), and behind it stands a place again
(`skipOptions_offset`). The operand is cut at places (`operandAt_offset`): at its
quotes, or where it starts and where the command ends.
-/

namespace CaseTable.Bytewise

open Shell

/-! ## Tests that only ASCII passes -/

section

variable {test : Char → Bool} (htest : ∀ c, IsHigh c → test c = false)

include htest

/-- The bytes of a character pass such a test as the character does. -/
theorem test_of_mem_utf8EncodeChar {c : Char} {b : UInt8} (hb : b ∈ String.utf8EncodeChar c) :
    test (Char.ofUInt8 b) = test c := by
  by_cases hc : c.toNat < 128
  · rw [utf8EncodeChar_of_ascii hc, List.mem_singleton] at hb
    rw [hb, ofUInt8_of_ascii hc]
  · have hhigh : IsHigh c := Nat.le_of_not_lt hc
    rw [htest _ hhigh, htest _ (isHigh_of_mem_utf8EncodeChar hhigh hb)]

theorem all_toBytes (t : Text) :
    (Text.toBytes t).all (fun b => test (Char.ofUInt8 b)) = t.all test := by
  induction t with
  | nil => rfl
  | cons c t ih =>
      have hhead : (String.utf8EncodeChar c).all (fun b => test (Char.ofUInt8 b)) = test c := by
        obtain ⟨b, more, hb⟩ := List.exists_cons_of_ne_nil
          (show String.utf8EncodeChar c ≠ [] by simp)
        rw [Bool.eq_iff_iff, List.all_eq_true]
        constructor
        · intro h
          rw [← test_of_mem_utf8EncodeChar htest (hb ▸ List.mem_cons_self)]
          exact h b (hb ▸ List.mem_cons_self)
        · intro h b hb
          rw [test_of_mem_utf8EncodeChar htest hb, h]
      rw [Text.toBytes_cons, List.all_append, hhead, ih, List.all_cons]

/-- The first byte that passes the test stands behind the characters that do
not. -/
theorem findIdx_toBytes (t : Text) :
    (Text.toBytes t).findIdx (fun b => test (Char.ofUInt8 b)) =
      Text.byteSize (t.takeWhile fun c => !test c) := by
  induction t with
  | nil => rfl
  | cons c t ih =>
      obtain ⟨b, more, hb⟩ := List.exists_cons_of_ne_nil
        (show String.utf8EncodeChar c ≠ [] by simp)
      rw [Text.toBytes_cons, List.takeWhile_cons]
      cases hc : test c with
      | true =>
          have hfirst : test (Char.ofUInt8 b) = true := by
            rw [test_of_mem_utf8EncodeChar htest (hb ▸ List.mem_cons_self), hc]
          rw [hb, List.cons_append, List.findIdx_cons, hfirst]
          rfl
      | false =>
          have hnone : (String.utf8EncodeChar c).findIdx (fun b => test (Char.ofUInt8 b)) =
              (String.utf8EncodeChar c).length :=
            List.findIdx_eq_length_of_false fun b hb => by
              rw [test_of_mem_utf8EncodeChar htest hb, hc]
          rw [List.findIdx_append, hnone, if_neg (Nat.lt_irrefl _), ih,
            String.length_utf8EncodeChar]
          exact Nat.add_comm _ _

end

theorem endsOption_of_isHigh {c : Char} (h : IsHigh c) : endsOption c = false := by
  rw [Bool.eq_false_iff]
  intro hends
  simp only [endsOption, Bool.or_eq_true, decide_eq_true_eq] at hends
  rcases hends with ((rfl | rfl) | rfl) | rfl <;> exact absurd h (by decide)

/-- The letters of an option word. -/
def isOptionLetter (c : Char) : Bool := c = 'n' || c = 'e' || c = 'E'

theorem isOptionLetter_of_isHigh {c : Char} (h : IsHigh c) : isOptionLetter c = false := by
  rw [Bool.eq_false_iff]
  intro hletter
  simp only [isOptionLetter, Bool.or_eq_true, decide_eq_true_eq] at hletter
  rcases hletter with (rfl | rfl) | rfl <;> exact absurd h (by decide)

/-! ## Option words -/

/-- Whether the bytes of a word make it an option. -/
def isOptionWord (word : Bytes) : Except BadAccess Bool := do
  if 1 < word.length then
    if Char.ofUInt8 (← Checked.index word 0) = '-' then
      return (← Checked.back word 1).all fun b => isOptionLetter (Char.ofUInt8 b)
    else
      return false
  else
    return false

theorem isOptionWord_toBytes (word : Text) :
    isOptionWord (Text.toBytes word) = .ok (isEchoOption word) := by
  cases word with
  | nil => rfl
  | cons c letters =>
      obtain ⟨b, more, hb⟩ := List.exists_cons_of_ne_nil
        (show String.utf8EncodeChar c ≠ [] by simp)
      have hbytes : Text.toBytes (c :: letters) = b :: (more ++ Text.toBytes letters) := by
        rw [Text.toBytes_cons, hb]
        rfl
      have hfirst : Checked.index (b :: (more ++ Text.toBytes letters)) 0 = .ok b := rfl
      by_cases hc : c = '-'
      · subst hc
        cases hb
        cases letters with
        | nil => rfl
        | cons d u =>
            have hlong : 1 < ([45] ++ Text.toBytes (d :: u)).length := by
              have := d.utf8Size_pos
              rw [List.length_append, Text.length_toBytes, Text.byteSize_cons]
              simp only [List.length_singleton]
              omega
            rw [hbytes, isOptionWord, hfirst]
            refine (if_pos hlong).trans ?_
            change Except.ok ((Text.toBytes (d :: u)).all _) = _
            rw [all_toBytes fun c => isOptionLetter_of_isHigh]
            rfl
      · have hnot : isEchoOption (c :: letters) = false := by
          unfold isEchoOption
          split
          · next heq => exact absurd (List.cons.inj heq).1 hc
          · rfl
        have hdash : Char.ofUInt8 b ≠ '-' := by
          have hsame := test_of_mem_utf8EncodeChar
            (fun d hd => decide_eq_false (hd.ne (show ('-' : Char).toNat < 128 by decide)))
            (hb ▸ List.mem_cons_self)
          rwa [decide_eq_false hc, decide_eq_false_iff_not] at hsame
        rw [hnot, hbytes, isOptionWord, hfirst]
        split
        · exact if_neg hdash
        · rfl

/-- The length of the option word at a position, if there is one. -/
def echoFlagLength (bytes : Bytes) (pos : Nat) : Except BadAccess (Option Nat) := do
  let rest ← Checked.back bytes pos
  let length := rest.findIdx fun b => endsOption (Char.ofUInt8 b)
  let word ← Checked.front rest length
  return if ← isOptionWord word then some length else none

/-- The word at the front of a text, up to what ends an option. -/
def optionWord (t : Text) : Text := t.takeWhile fun c => !endsOption c

theorem byteSize_of_isEchoOption {word : Text} (h : isEchoOption word = true) :
    Text.byteSize word = word.length := by
  have hascii : ∀ c ∈ word, c.toNat < 128 := by
    intro c hc
    rcases of_mem_isEchoOption h hc with rfl | rfl | rfl | rfl <;> decide
  clear h
  induction word with
  | nil => rfl
  | cons c word ih =>
      rw [Text.byteSize_cons, utf8Size_of_ascii (hascii c List.mem_cons_self),
        ih fun d hd => hascii d (List.mem_cons_of_mem c hd), List.length_cons, Nat.add_comm]

theorem echoFlagLength_offset (p : Place) :
    echoFlagLength p.bytes p.offset =
      .ok (if isEchoOption (optionWord p.ahead) then some (optionWord p.ahead).length
        else none) := by
  have hle : p.offset ≤ p.bytes.length := by
    rw [p.length_bytes]
    exact Nat.le_add_right _ _
  obtain ⟨after, hafter⟩ : ∃ after, p.ahead = optionWord p.ahead ++ after :=
    ⟨_, (List.takeWhile_append_dropWhile).symm⟩
  have hsplit : Text.toBytes p.ahead =
      Text.toBytes (optionWord p.ahead) ++ Text.toBytes after := by
    rw [← Text.toBytes_append, ← hafter]
  have hlength := findIdx_toBytes (fun c => endsOption_of_isHigh) p.ahead
  change _ = Text.byteSize (optionWord p.ahead) at hlength
  rw [← Text.length_toBytes] at hlength
  have hfront : Checked.front (Text.toBytes p.ahead) (Text.toBytes (optionWord p.ahead)).length =
      .ok (Text.toBytes (optionWord p.ahead)) := by
    rw [hsplit, Checked.front_of_le (by simp), List.take_left]
  rw [echoFlagLength, Checked.back_of_le hle, p.drop_bytes]
  simp only [bind, Except.bind, hlength, hfront, isOptionWord_toBytes]
  cases hoption : isEchoOption (optionWord p.ahead) with
  | false => rfl
  | true =>
      rw [Text.length_toBytes, byteSize_of_isEchoOption hoption]
      rfl

theorem lt_of_isOptionWord {word : Bytes} (h : isOptionWord word = .ok true) :
    1 < word.length := by
  rw [isOptionWord] at h
  split at h
  · assumption
  · cases h

theorem le_of_echoFlagLength {bytes : Bytes} {pos n : Nat}
    (h : echoFlagLength bytes pos = .ok (some n)) : 0 < n ∧ pos + n ≤ bytes.length := by
  obtain ⟨rest, hrest, h⟩ := Checked.exists_of_bind_eq_ok h
  obtain ⟨hle, rfl⟩ := Checked.back_eq_ok_iff.mp hrest
  obtain ⟨word, hword, h⟩ := Checked.exists_of_bind_eq_ok h
  obtain ⟨hfront, rfl⟩ := Checked.front_eq_ok_iff.mp hword
  obtain ⟨isOption, hoption, h⟩ := Checked.exists_of_bind_eq_ok h
  cases isOption with
  | false => cases h
  | true =>
      cases h
      have hlong := lt_of_isOptionWord hoption
      rw [List.length_take_of_le hfront] at hlong
      rw [List.length_drop] at hfront
      omega

/-- The position behind spaces and tabs. -/
def skipSpaces (bytes : Bytes) (pos : Nat) : Nat :=
  match _ : peek? bytes pos with
  | none => pos
  | some c => if c = ' ' ∨ c = '\t' then skipSpaces bytes (advance bytes pos 1) else pos
termination_by bytes.length - pos
decreasing_by exact sub_advance_lt (lt_of_peek? (by assumption)) Nat.one_pos

theorem skipSpaces_eq (bytes : Bytes) (pos : Nat) :
    skipSpaces bytes pos = match peek? bytes pos with
      | none => pos
      | some c =>
          if c = ' ' ∨ c = '\t' then skipSpaces bytes (advance bytes pos 1) else pos := by
  rw [skipSpaces]
  split <;> next h => rw [h]

theorem le_skipSpaces (bytes : Bytes) (pos : Nat) : pos ≤ skipSpaces bytes pos := by
  fun_induction skipSpaces bytes pos with
  | case1 pos => exact Nat.le_refl _
  | case2 pos c hc _ ih => exact Nat.le_trans (le_advance (Nat.le_of_lt (lt_of_peek? hc)) 1) ih
  | case3 pos => exact Nat.le_refl _

/-- The position of the operand, behind blanks, line continuations and option
words. -/
def skipOptions (bytes : Bytes) (pos : Nat) : Except BadAccess Nat :=
  let here := skipSpaces bytes pos
  if _ : peek? bytes here = some '\\' ∧ peek? bytes (here + 1) = some '\n' then
    skipOptions bytes (advance bytes here 2)
  else
    match _ : echoFlagLength bytes here with
    | .error cause => .error cause
    | .ok none => .ok here
    | .ok (some n) => skipOptions bytes (advance bytes here n)
termination_by bytes.length - pos
decreasing_by
  · next hcontinues =>
      have hlt : skipSpaces bytes pos < bytes.length := lt_of_peek? hcontinues.1
      have hle := le_skipSpaces bytes pos
      have := sub_advance_lt hlt Nat.two_pos
      omega
  · next hflag =>
      obtain ⟨hpos, hend⟩ := le_of_echoFlagLength hflag
      have hlt : skipSpaces bytes pos < bytes.length := by omega
      have hle := le_skipSpaces bytes pos
      have := sub_advance_lt hlt hpos
      omega

theorem skipOptions_eq (bytes : Bytes) (pos : Nat) :
    skipOptions bytes pos =
      if peek? bytes (skipSpaces bytes pos) = some '\\' ∧
          peek? bytes (skipSpaces bytes pos + 1) = some '\n' then
        skipOptions bytes (advance bytes (skipSpaces bytes pos) 2)
      else match echoFlagLength bytes (skipSpaces bytes pos) with
        | .error cause => .error cause
        | .ok none => .ok (skipSpaces bytes pos)
        | .ok (some n) => skipOptions bytes (advance bytes (skipSpaces bytes pos) n) := by
  rw [skipOptions]
  split
  · rfl
  · split <;> next h => rw [h]

/-- The blanks before an option are passed one by one. -/
theorem exists_skipSpaces (p : Place) :
    ∃ q s, p.Passes s q ∧ skipSpaces p.bytes p.offset = q.offset ∧
      Shell.skipOptions p = Shell.skipOptions q ∧ q.next? ≠ some ' ' ∧ q.next? ≠ some '\t' := by
  obtain ⟨behind, ahead⟩ := p
  induction ahead generalizing behind with
  | nil =>
      refine ⟨⟨behind, []⟩, [], .refl _, ?_, rfl, nofun, nofun⟩
      rw [skipSpaces_eq, peek?_of_nil rfl]
  | cons c t ih =>
      have hr : (⟨behind, c :: t⟩ : Place).Passes [c] ⟨c :: behind, t⟩ := ⟨rfl, rfl⟩
      by_cases hblank : c = ' ' ∨ c = '\t'
      · have hc : c.toNat < 128 := by rcases hblank with rfl | rfl <;> decide
        obtain ⟨q, s, hs, hskip, hoptions, hends⟩ := ih (c :: behind)
        refine ⟨q, _, hr.trans hs, ?_, (skipOptions_blank hblank behind t).trans hoptions, hends⟩
        rw [skipSpaces_eq, peek?_of_ascii rfl hc]
        simp only [if_pos hblank, advance_one hr hc]
        rw [← hr.bytes_eq, hskip]
      · refine ⟨⟨behind, c :: t⟩, [], .refl _, ?_, rfl,
          fun h => hblank (.inl (Option.some.inj h)), fun h => hblank (.inr (Option.some.inj h))⟩
        rw [skipSpaces_eq]
        rcases peek?_cases ⟨behind, c :: t⟩ with hnext | ⟨-, d, -, -, hd, hhigh⟩
        · rw [hnext]
          exact if_neg hblank
        · rw [hd]
          exact if_neg (not_or.mpr ⟨hhigh.ne (by decide), hhigh.ne (by decide)⟩)

/-- A line continuation is seen as two bytes. -/
theorem continues_iff (p : Place) :
    peek? p.bytes p.offset = some '\\' ∧ peek? p.bytes (p.offset + 1) = some '\n' ↔
      ∃ t, p.ahead = '\\' :: '\n' :: t := by
  rw [peek?_eq_some_iff (by decide)]
  constructor
  · rintro ⟨hslash, hline⟩
    obtain ⟨t, ht⟩ : ∃ t, p.ahead = '\\' :: t := List.head?_eq_some_iff.mp hslash
    obtain ⟨u, rfl⟩ : ∃ u, t = '\n' :: u :=
      List.head?_eq_some_iff.mp ((peek?_succ_eq_some_iff ht (by decide) (by decide)).mp hline)
    exact ⟨u, ht⟩
  · rintro ⟨t, ht⟩
    refine ⟨congrArg List.head? ht, ?_⟩
    rw [peek?_succ_eq_some_iff ht (by decide) (by decide)]
    rfl

theorem skipOptions_offset (p : Place) :
    skipOptions p.bytes p.offset = .ok (Shell.skipOptions p).offset := by
  induction hlen : p.ahead.length using Nat.strongRecOn generalizing p with
  | ind n ih =>
    obtain ⟨q, s, hs, hskip, hoptions, hspace, htab⟩ := exists_skipSpaces p
    have hle : q.ahead.length ≤ n := by
      rw [← hlen, hs.length_eq]
      exact Nat.le_add_left _ _
    -- the loop goes on at a later place
    have hnext (r : Place) (u : Text) (hu : q.Passes u r) (hne : u ≠ [])
        (hsame : Shell.skipOptions q = Shell.skipOptions r) :
        skipOptions q.bytes (advance q.bytes q.offset u.byteSize) =
          .ok (Shell.skipOptions q).offset := by
      have hlater := hu.length_eq
      have hpos := List.length_pos_iff.mpr hne
      rw [advance_byteSize hu, ← hu.bytes_eq, hsame]
      exact ih _ (by omega) r rfl
    rw [skipOptions_eq, hskip, hoptions, ← hs.bytes_eq]
    by_cases hline : ∃ t, q.ahead = '\\' :: '\n' :: t
    · rw [if_pos ((continues_iff q).mpr hline)]
      obtain ⟨t, ht⟩ := hline
      refine hnext ⟨'\n' :: '\\' :: q.behind, t⟩ ['\\', '\n'] ⟨ht, rfl⟩ (by simp) ?_
      have htwo : optionLength q.ahead = 2 := by rw [ht, optionLength]
      rw [Shell.skipOptions, htwo, if_pos Nat.two_pos, Place.advance, ht]
      rfl
    · have hlength : optionLength q.ahead =
          if isEchoOption (optionWord q.ahead) then (optionWord q.ahead).length else 0 :=
        optionLength_of_word hspace htab (not_exists.mp hline)
      rw [if_neg (mt (continues_iff q).mp hline), echoFlagLength_offset]
      cases hoption : isEchoOption (optionWord q.ahead) with
      | false =>
          rw [hoption, if_neg Bool.false_ne_true] at hlength
          rw [Shell.skipOptions, hlength]
          rfl
      | true =>
          rw [hoption, if_pos rfl] at hlength
          have hne : optionWord q.ahead ≠ [] := by
            intro hnil
            rw [hnil] at hoption
            cases hoption
          have hpassed := q.passes_advance (optionWord q.ahead).length
          rw [show q.ahead.take (optionWord q.ahead).length = optionWord q.ahead from
            (List.prefix_iff_eq_take.mp (List.takeWhile_prefix _)).symm] at hpassed
          have hsame : Shell.skipOptions q =
              Shell.skipOptions (q.advance (optionWord q.ahead).length) := by
            rw [Shell.skipOptions, hlength, if_pos (List.length_pos_iff.mpr hne)]
          have hlater := hnext _ _ hpassed hne hsame
          rw [byteSize_of_isEchoOption hoption] at hlater
          exact hlater

/-! ## Operands -/

/-- The end of a command. -/
def commandEnd (bytes : Bytes) (pos : Nat) : Except BadAccess Nat :=
  match _ : peek? bytes pos with
  | none => .ok pos
  | some c =>
      if c = '\\' then commandEnd bytes (advance bytes pos 2)
      else if c = '\n' ∨ c = ';' then .ok pos
      else
        match opensComment bytes true pos c with
        | .error cause => .error cause
        | .ok true => .ok pos
        | .ok false => commandEnd bytes (advance bytes pos 1)
termination_by bytes.length - pos
decreasing_by
  · exact sub_advance_lt (lt_of_peek? (by assumption)) Nat.two_pos
  · exact sub_advance_lt (lt_of_peek? (by assumption)) Nat.one_pos

theorem commandEnd_eq (bytes : Bytes) (pos : Nat) :
    commandEnd bytes pos = match peek? bytes pos with
      | none => .ok pos
      | some c =>
          if c = '\\' then commandEnd bytes (advance bytes pos 2)
          else if c = '\n' ∨ c = ';' then .ok pos
          else
            match opensComment bytes true pos c with
            | .error cause => .error cause
            | .ok true => .ok pos
            | .ok false => commandEnd bytes (advance bytes pos 1) := by
  rw [commandEnd]
  split <;> next h => rw [h]

theorem coasts_commandEnd (bytes : Bytes) : Coasts bytes (commandEnd bytes) := by
  intro pos c hc hhigh
  rw [commandEnd_eq, hc]
  refine (if_neg (hhigh.ne (by decide))).trans
    ((if_neg (not_or.mpr ⟨hhigh.ne (by decide), hhigh.ne (by decide)⟩)).trans ?_)
  rw [opensComment_of_isHigh hhigh]

theorem commandEnd_offset (p : Place) :
    commandEnd p.bytes p.offset = .ok (Shell.commandEnd p).offset := by
  obtain ⟨behind, ahead⟩ := p
  change _ = Except.ok (Shell.commandEnd.go behind ahead).offset
  fun_induction Shell.commandEnd.go behind ahead with
  | case1 behind => rw [commandEnd_eq, peek?_of_nil rfl]
  | case2 behind =>
      let p : Place := ⟨behind, ['\\']⟩
      have hp : p.Passes ['\\'] ⟨'\\' :: behind, []⟩ := ⟨rfl, rfl⟩
      have hend : p.bytes.length = (⟨'\\' :: behind, []⟩ : Place).offset := by
        rw [← hp.bytes_eq, Place.length_bytes]
        rfl
      rw [commandEnd_eq, peek?_of_ascii hp.1 (by decide)]
      change commandEnd p.bytes (advance p.bytes p.offset 2) = _
      rw [advance_two_of_backslash rfl, commandEnd_eq, peek?_length, hend]
  | case3 behind c t ih =>
      have hr : (⟨behind, '\\' :: c :: t⟩ : Place).Passes ['\\', c] ⟨c :: '\\' :: behind, t⟩ :=
        ⟨rfl, rfl⟩
      rw [← ih, hr.bytes_eq, commandEnd_eq, peek?_of_ascii rfl (by decide)]
      exact (coasts_commandEnd _).escape hr
  | case4 behind c t hlone hescape hends =>
      have hslash : c ≠ '\\' := ne_backslash hlone hescape
      rw [commandEnd_eq]
      by_cases hstop : c = '\n' ∨ c = ';'
      · have hc : c.toNat < 128 := by rcases hstop with rfl | rfl <;> decide
        rw [peek?_of_ascii rfl hc]
        exact (if_neg hslash).trans (if_pos hstop)
      · rw [Bool.or_eq_true, ← Bool.decide_or, decide_eq_true_eq] at hends
        obtain ⟨hhash, hstarts⟩ := Bool.and_eq_true_iff.mp (hends.resolve_left hstop)
        obtain rfl := of_decide_eq_true hhash
        have hopens := opensComment_eq true ⟨behind, '#' :: t⟩ '#'
        rw [peek?_of_ascii rfl (by decide)]
        refine (if_neg hslash).trans ((if_neg hstop).trans ?_)
        rw [hopens, Place.atWordStart, Place.previous?, hstarts]
        rfl
  | case5 behind c t hlone hescape hends ih =>
      have hslash : c ≠ '\\' := ne_backslash hlone hescape
      have hr : (⟨behind, c :: t⟩ : Place).Passes [c] ⟨c :: behind, t⟩ := ⟨rfl, rfl⟩
      rw [← ih, hr.bytes_eq]
      refine (coasts_commandEnd _).next hr fun hc => ?_
      rw [Bool.or_eq_true, ← Bool.decide_or, decide_eq_true_eq, not_or] at hends
      obtain ⟨hstop, hopens⟩ := hends
      have hcomment := opensComment_eq true ⟨behind, c :: t⟩ c
      change _ = Except.ok (decide (c = '#') && behind.head?.all endsBefore) at hcomment
      rw [Bool.eq_false_iff.mpr hopens] at hcomment
      rw [commandEnd_eq, peek?_of_ascii rfl hc]
      refine (if_neg hslash).trans ((if_neg hstop).trans ?_)
      rw [hcomment]

/-- The text between two quotation marks, where the first one is and where the
string ends are given. -/
def quoted (source : Text) (pos : Nat) (skipped : Bool × Nat) :
    Except BadAccess (Option Text) := do
  if skipped.1 then
    return some (← source.slice (pos + 1) (skipped.2 - 1))
  else
    return none

/-- The operand that starts at a position. -/
def operandAt (source : Text) (start : Nat) : Except BadAccess (Option Text) :=
  let bytes := Text.toBytes source
  match peek? bytes start with
  | none => .ok none
  | some c =>
      if c = '"' then quoted source start (skipDouble bytes start)
      else if c = '\x27' then quoted source start (skipSingle bytes start)
      else if c = '\n' ∨ c = ';' then .ok none
      else do return some (← source.slice start (← commandEnd bytes start)).trimEnd

/-- The operand of an `echo`, where `pos` is behind the word. -/
def readOperand (source : Text) (pos : Nat) : Except BadAccess (Option Text) := do
  operandAt source (← skipOptions (Text.toBytes source) pos)

theorem quoted_offset {p q : Place} {mark : Char} {split : Option (Text × Text)}
    (hq : p.Passes [mark] q) (hmark : mark.toNat < 128)
    (hsplit : ∀ content rest, split = some (content, rest) → q.ahead = content ++ mark :: rest) :
    quoted p.text p.offset (quoteEnd q split) = .ok (split.map Prod.fst) := by
  cases split with
  | none => rfl
  | some split =>
      obtain ⟨content, rest⟩ := split
      have hclose : q.Passes content ⟨content.reverse ++ q.behind, mark :: rest⟩ :=
        ⟨hsplit content rest rfl, rfl⟩
      have hoffset : p.offset + 1 = q.offset := by
        rw [hq.offset_eq, Text.byteSize_cons, Text.byteSize_nil, utf8Size_of_ascii hmark]
      have hslice := hclose.slice_eq
      rw [hclose.offset_eq, hq.text_eq] at hslice
      rw [quoteEnd, quoted, hoffset, Nat.add_sub_cancel, hslice]
      rfl

/-- An operand without quotes is cut at the end of the command. -/
theorem operandAt_bare {p : Place} {c d : Char} {t : Text} (hp : p.ahead = c :: t)
    (hpeek : peek? p.bytes p.offset = some d) (hc : c ∉ ['"', '\x27', '\n', ';'])
    (hd : d ∉ ['"', '\x27', '\n', ';']) : operandAt p.text p.offset = .ok (operand? p) := by
  obtain ⟨s, hs⟩ := exists_passes_commandEnd_go p.behind p.ahead
  have hend := commandEnd_offset p
  have hslice := hs.slice_eq
  simp only [List.mem_cons, List.not_mem_nil, or_false, not_or] at hd
  rw [Place.bytes] at hpeek hend
  rw [operandAt, hpeek, operand?_bare hp hc hs]
  simp only [if_neg hd.1, if_neg hd.2.1, if_neg (not_or.mpr hd.2.2), hend]
  change Except.bind (p.text.slice _ (Shell.commandEnd.go p.behind p.ahead).offset) _ = _
  rw [hslice]
  rfl

theorem operandAt_offset (p : Place) : operandAt p.text p.offset = .ok (operand? p) := by
  obtain ⟨behind, ahead⟩ := p
  cases ahead with
  | nil =>
      have hpeek := peek?_of_nil (p := ⟨behind, []⟩) rfl
      rw [Place.bytes] at hpeek
      rw [operandAt, hpeek]
      rfl
  | cons c t =>
      let p : Place := ⟨behind, c :: t⟩
      have hr : p.Passes [c] ⟨c :: behind, t⟩ := ⟨rfl, rfl⟩
      by_cases hmark : c ∈ ['"', '\x27', '\n', ';']
      · simp only [List.mem_cons, List.not_mem_nil, or_false] at hmark
        have hc : c.toNat < 128 := by rcases hmark with rfl | rfl | rfl | rfl <;> decide
        have hpeek := peek?_of_ascii hr.1 hc
        change peek? (Text.toBytes p.text) p.offset = _ at hpeek
        rw [operandAt, hpeek]
        rcases hmark with rfl | rfl | rfl | rfl
        · have hskip := skipDouble_offset hr
          have hquoted := quoted_offset hr hc fun _ _ => Piece.eq_of_splitDouble?
          rw [← hskip] at hquoted
          exact hquoted
        · have hskip := skipSingle_offset hr
          have hquoted := quoted_offset hr hc fun _ _ => Piece.eq_of_splitSingle?
          rw [← hskip] at hquoted
          exact hquoted
        · rfl
        · rfl
      · rcases peek?_cases p with hnext | ⟨-, d, -, -, hd, hhigh⟩
        · exact operandAt_bare rfl hnext hmark hmark
        · refine operandAt_bare rfl hd hmark fun hmem => ?_
          simp only [List.mem_cons, List.not_mem_nil, or_false] at hmem
          rcases hmem with rfl | rfl | rfl | rfl <;> exact absurd hhigh (by decide)

theorem readOperand_offset (p : Place) :
    readOperand p.text p.offset = .ok (operand? (Shell.skipOptions p)) := by
  obtain ⟨s, hs⟩ := exists_passes_skipOptions p
  have hstart : skipOptions (Text.toBytes p.text) p.offset = .ok (Shell.skipOptions p).offset :=
    skipOptions_offset p
  rw [readOperand, hstart, ← hs.text_eq]
  exact operandAt_offset _

/-! ## The search -/

/-- Leaves behind an `echo`. -/
def visitEcho (bytes : Bytes) (_ : Unit) (pos : Nat) (_ : Char) :
    Except BadAccess (Verdict Unit Nat) := do
  if ← atKeyword bytes echoWord pos then
    return .leave (advance bytes pos 4)
  else
    return .pass ()

/-- What the first `echo` of a body prints. -/
def echoArgument (body : Text) : Except BadAccess (Option Text) := do
  match ← walk (Text.toBytes body) true (visitEcho (Text.toBytes body)) () 0 with
  | none => return none
  | some pos => readOperand body pos

theorem visitEcho_eq (p : Place) (c : Char) :
    visitEcho p.bytes () p.offset c = .ok (if (p.keyword? echoWord).isSome then
      .leave (advance p.bytes p.offset 4) else .pass ()) := by
  rw [visitEcho, @atKeyword_eq echoWord rfl p]
  cases (p.keyword? echoWord).isSome <;> rfl

theorem passesHigh_visitEcho (bytes : Bytes) : PassesHigh bytes (visitEcho bytes) := by
  intro state pos c hc hhigh
  rw [visitEcho, echoWord, @atKeyword_of_isHigh _ ['c', 'h', 'o'] _ 'e' _ hc hhigh (by decide)]
  rfl

theorem walk_visitEcho (p : Place) :
    walk p.bytes true (visitEcho p.bytes) () p.offset =
      .ok (p.findEcho?.map Place.offset) := by
  fun_induction Place.findEcho? p with
  | case1 p q hecho =>
      have hp : p.ahead = 'e' :: (['c', 'h', 'o'] ++ q.ahead) := (Place.passes_of_keyword? hecho).1
      rw [walk_plain true (take?_plain hp (by decide)) (by decide), visitEcho_eq, hecho,
        advance_keyword hecho rfl]
      rfl
  | case2 p hecho hp => exact walk_nil true hp ()
  | case3 p hecho piece q hp ih =>
      have hq := Place.passes_of_take? hp
      rw [← ih, hq.bytes_eq]
      refine walk_pass true (passesHigh_visitEcho _) hp fun c _ _ => ?_
      rw [visitEcho_eq, hecho]
      rfl

/-- What an `echo` prints is the same by bytes and by characters. -/
theorem echoArgument_eq (body : Text) : echoArgument body = .ok (echoed? body) := by
  have hwalk := walk_visitEcho (.start body)
  change walk (Text.toBytes body) true (visitEcho (Text.toBytes body)) () 0 = _ at hwalk
  rw [echoArgument, hwalk, echoed?]
  cases hecho : (Place.start body).findEcho? with
  | none => rfl
  | some p =>
      obtain ⟨s, hs⟩ := Place.exists_passes_findEcho? hecho
      have hoperand := readOperand_offset p
      rw [hs.text_eq] at hoperand
      exact hoperand

end CaseTable.Bytewise
