import CaseTable.CommandLine.Choices
import CaseTable.Proofs.Text.Blank

/-!
# The first definition of a function

A definition written as the name, a pair of parentheses and a brace is found
behind any text that has no definition of that name itself and ends in a line
feed: `definition?_append`.

The search takes a head apart with steps that skip blanks, so a head that
begins in the text before could run on into the definition. It cannot find
anything there. The definition starts with a letter, which is no blank, no
parenthesis and no brace, and neither the name nor the word `function` goes
across a line feed. So every step does the same as on the text before alone,
with one exception: the word `function` at its end takes the definition after
it. But then it ends at the same brace.
-/

namespace CaseTable.Shell

/-- The head that opens a function's body. -/
def opening (name : Text) : Text := name ++ "() \x7b".toList

/-- Skipping blanks stops at the front of this text, and finds there neither a
parenthesis nor a brace. -/
def Solid (t : Text) : Prop :=
  ∃ c u, t = c :: u ∧ isBlank c = false ∧ c ≠ '(' ∧ c ≠ ')' ∧ c ≠ '\x7b'

theorem dropWhile_append_solid {t : Text} (h : Solid t) (before : Text) :
    (before ++ t).dropWhile isBlank = before.dropWhile isBlank ++ t := by
  obtain ⟨c, u, rfl, hc, -⟩ := h
  have hstop : (c :: u).dropWhile isBlank = c :: u :=
    List.dropWhile_cons_of_neg (by simp [hc])
  rw [List.dropWhile_append]
  split
  · next hempty => rw [hstop, List.isEmpty_iff.mp hempty, List.nil_append]
  · rfl

theorem afterBrace?_append {t : Text} (h : Solid t) (before : Text) :
    afterBrace? (before ++ t) = (afterBrace? before).map (· ++ t) := by
  rw [afterBrace?, afterBrace?, dropWhile_append_solid h]
  obtain ⟨c, u, rfl, -, -, -, hbrace⟩ := h
  cases before.dropWhile isBlank with
  | nil => simp [hbrace]
  | cons d rest =>
      by_cases hd : d = '\x7b'
      · subst hd
        rfl
      · simp [hd]

theorem afterParens?_append {t : Text} (h : Solid t) (before : Text) :
    afterParens? (before ++ t) = (afterParens? before).map (· ++ t) := by
  rw [afterParens?, afterParens?, dropWhile_append_solid h]
  have hdrop := dropWhile_append_solid h
  obtain ⟨c, u, rfl, -, hopen, hclose, -⟩ := h
  cases before.dropWhile isBlank with
  | nil => simp [hopen]
  | cons d rest =>
      by_cases hd : d = '('
      · subst hd
        simp only [List.cons_append, hdrop]
        cases rest.dropWhile isBlank with
        | nil => simp [hclose]
        | cons e rest =>
            by_cases he : e = ')'
            · subst he
              rfl
            · simp [he]
      · simp [hd]

theorem eq_nil_or_getLast?_of_cons {c d : Char} {t : Text}
    (h : (c :: t).getLast? = some d) : t = [] ∨ t.getLast? = some d := by
  cases t with
  | nil => exact .inl rfl
  | cons e t => exact .inr (by rwa [List.getLast?_cons_cons] at h)

/-- A word without a line feed does not go across one. -/
theorem afterStart?_append {word before : Text} (hword : '\n' ∉ word)
    (hbefore : '\n' ∈ before) (t : Text) :
    Text.afterStart? word (before ++ t) =
      (Text.afterStart? word before).map (· ++ t) := by
  induction word generalizing before with
  | nil => rfl
  | cons c word ih =>
      cases before with
      | nil => cases hbefore
      | cons d before =>
          by_cases hcd : c = d
          · have hrest : '\n' ∈ before := by
              rcases List.mem_cons.mp hbefore with hd | hrest
              · exact absurd (by rw [hcd, ← hd]; exact List.mem_cons_self) hword
              · exact hrest
            rw [List.cons_append, Text.afterStart?, Text.afterStart?, if_pos hcd,
              if_pos hcd, ih (fun h => hword (List.mem_cons_of_mem c h)) hrest]
          · rw [List.cons_append, Text.afterStart?, Text.afterStart?, if_neg hcd,
              if_neg hcd]
            rfl

section

variable {name : Text} (hname : '\n' ∉ name)
include hname

theorem afterPlainHead?_append {t : Text} (h : Solid t) {before : Text}
    (hbefore : '\n' ∈ before) :
    afterPlainHead? name (before ++ t) =
      (afterPlainHead? name before).map (· ++ t) := by
  rw [afterPlainHead?, afterPlainHead?, afterStart?_append hname hbefore]
  cases Text.afterStart? name before with
  | none => rfl
  | some rest =>
      simp only [Option.map_some, Option.bind_some, afterParens?_append h]
      cases afterParens? rest with
      | none => rfl
      | some rest => exact afterBrace?_append h rest

theorem afterNameAndBrace?_append {t : Text} (h : Solid t) {before : Text}
    (hbefore : '\n' ∈ before) :
    afterNameAndBrace? name (before ++ t) =
      (afterNameAndBrace? name before).map (· ++ t) := by
  rw [afterNameAndBrace?, afterNameAndBrace?, afterStart?_append hname hbefore]
  cases Text.afterStart? name before with
  | none => rfl
  | some rest =>
      simp only [Option.map_some, Option.bind_some, afterParens?_append h]
      cases afterParens? rest with
      | none => exact afterBrace?_append h rest
      | some rest => exact afterBrace?_append h rest

theorem getLast?_of_afterStart? {before rest : Text}
    (hbefore : before.getLast? = some '\n')
    (h : Text.afterStart? name before = some rest) :
    rest.getLast? = some '\n' := by
  rw [Text.afterStart?_eq_some_iff] at h
  subst h
  cases rest with
  | nil =>
      rw [List.append_nil] at hbefore
      exact absurd (List.mem_of_getLast? hbefore) hname
  | cons c rest =>
      rwa [List.getLast?_append, List.getLast?_cons, Option.some_or,
        ← List.getLast?_cons] at hbefore

end

/-- A word that ends before the name does is followed by no blank. -/
theorem head?_of_afterStart? {word name t rest : Text} (hword : '(' ∉ word)
    (hname : ∀ c ∈ name, isBlank c = false)
    (h : Text.afterStart? word (name ++ '(' :: t) = some rest) :
    rest.head?.all (!isBlank ·) = true := by
  induction word generalizing name with
  | nil =>
      cases h
      cases name with
      | nil => rfl
      | cons c name => simp [hname c List.mem_cons_self]
  | cons d word ih =>
      cases name with
      | nil =>
          have hd : d ≠ '(' := fun hd => hword (by simp [hd])
          rw [List.nil_append, Text.afterStart?, if_neg hd] at h
          cases h
      | cons c name =>
          rw [List.cons_append, Text.afterStart?] at h
          split at h
          · exact ih (fun hd => hword (List.mem_cons_of_mem d hd))
              (fun c hc => hname c (List.mem_cons_of_mem _ hc)) h
          · cases h

theorem advance_length (behind passed rest : Text) :
    (⟨behind, passed ++ rest⟩ : Place).advance passed.length =
      ⟨passed.reverse ++ behind, rest⟩ := by
  rw [Place.advance, List.take_left, List.drop_left]

theorem advance_past (behind passed rest : Text) :
    (⟨behind, passed ++ rest⟩ : Place).advance
        ((passed ++ rest).length - rest.length) =
      ⟨passed.reverse ++ behind, rest⟩ := by
  rw [List.length_append, Nat.add_sub_cancel, advance_length]

section

variable {name : Text} (hname : CommandLine.isIdentifier name = true)
include hname

theorem isNameChar_of_mem_identifier {c : Char} (hc : c ∈ name) :
    Arguments.isNameChar c = true := by
  rw [Arguments.isNameChar]
  cases name with
  | nil => cases hc
  | cons d name =>
      rw [CommandLine.isIdentifier, Bool.and_eq_true, List.all_eq_true] at hname
      rcases List.mem_cons.mp hc with rfl | hc
      · have hfirst := hname.1
        simp only [Bool.or_eq_true, decide_eq_true_eq] at hfirst ⊢
        exact hfirst.imp_left fun h => by simp [Char.isAlphanum, h]
      · exact hname.2 c hc

theorem isBlank_of_mem_identifier {c : Char} (hc : c ∈ name) :
    isBlank c = false ∧ c ≠ '(' ∧ c ≠ ')' ∧ c ≠ '\x7b' ∧ c ≠ '\n' := by
  have hchar := isNameChar_of_mem_identifier hname hc
  rw [Arguments.isNameChar, Bool.or_eq_true, decide_eq_true_eq] at hchar
  rcases hchar with hchar | rfl
  · refine ⟨isBlank_of_isAlphanum hchar, ?_, ?_, ?_, ?_⟩ <;>
      (rintro rfl; revert hchar; decide)
  · decide

theorem newline_identifier : '\n' ∉ name := fun h =>
  (isBlank_of_mem_identifier hname h).2.2.2.2 rfl

theorem solid_identifier (t : Text) : Solid (name ++ t) := by
  cases hcons : name with
  | nil => rw [hcons] at hname; cases hname
  | cons c rest =>
      obtain ⟨hblank, hopen, hclose, hbrace, -⟩ :=
        isBlank_of_mem_identifier hname (c := c) (by simp [hcons])
      exact ⟨c, rest ++ t, rfl, hblank, hopen, hclose, hbrace⟩

theorem solid_opening (body : Text) : Solid (opening name ++ body) := by
  rw [opening, List.append_assoc]
  exact solid_identifier hname _

omit hname in
theorem afterPlainHead?_opening (body : Text) :
    afterPlainHead? name (opening name ++ body) = some body := by
  rw [afterPlainHead?, opening, List.append_assoc,
    Text.afterStart?_eq_some_iff.mpr rfl]
  rfl

omit hname in
theorem afterNameAndBrace?_opening (body : Text) :
    afterNameAndBrace? name (opening name ++ body) = some body := by
  rw [afterNameAndBrace?, opening, List.append_assoc,
    Text.afterStart?_eq_some_iff.mpr rfl]
  rfl

theorem afterKeywordHead?_opening (body : Text) :
    afterKeywordHead? name (opening name ++ body) = none := by
  have htext : opening name ++ body = name ++ '(' :: (") \x7b".toList ++ body) := by
    simp [opening]
  rw [afterKeywordHead?]
  split
  · next c rest hrest =>
      rw [htext] at hrest
      have hhead := head?_of_afterStart? (by decide)
        (fun c hc => (isBlank_of_mem_identifier hname hc).1) hrest
      have hc : isBlank c = false := by simpa using hhead
      rw [if_neg (by simp [hc])]
  · rfl

theorem afterHead?_opening (body : Text) :
    afterHead? name (opening name ++ body) = some body := by
  rw [afterHead?, afterKeywordHead?_opening hname, afterPlainHead?_opening]
  rfl

theorem afterBlanksAndName?_append (body : Text) {before : Text}
    (hend : before = [] ∨ before.getLast? = some '\n')
    (hnone : afterBlanksAndName? name before = none) :
    afterBlanksAndName? name (before ++ (opening name ++ body)) = none ∨
      afterBlanksAndName? name (before ++ (opening name ++ body)) = some body := by
  induction before with
  | nil =>
      right
      have hhere : afterNameAndBrace? name (opening name ++ body) = some body :=
        afterNameAndBrace?_opening body
      obtain ⟨c, t, htext, -⟩ := solid_opening hname body
      rw [htext] at hhere
      rw [List.nil_append, htext, afterBlanksAndName?, hhere]
  | cons c before ih =>
      have hlast : (c :: before).getLast? = some '\n' :=
        hend.resolve_left (List.cons_ne_nil c before)
      have hhere := afterNameAndBrace?_append (newline_identifier hname)
        (solid_opening hname body) (List.mem_of_getLast? hlast)
      rw [afterBlanksAndName?] at hnone
      rw [List.cons_append, afterBlanksAndName?, ← List.cons_append, hhere]
      split at hnone
      · cases hnone
      · next hbefore =>
          rw [hbefore, Option.map_none]
          simp only []
          split
          · next hblank =>
              rw [if_pos hblank] at hnone
              exact ih (eq_nil_or_getLast?_of_cons hlast) hnone
          · exact .inl rfl

theorem afterHead?_append (body : Text) {before : Text}
    (hend : before.getLast? = some '\n')
    (hnone : afterHead? name before = none) :
    afterHead? name (before ++ (opening name ++ body)) = none ∨
      afterHead? name (before ++ (opening name ++ body)) = some body := by
  have hsolid := solid_opening hname body
  have hmem := List.mem_of_getLast? hend
  rw [afterHead?, Option.or_eq_none_iff] at hnone
  obtain ⟨hkeyword, hplain⟩ := hnone
  rw [afterHead?, afterPlainHead?_append (newline_identifier hname) hsolid hmem,
    hplain, Option.map_none, Option.or_none, afterKeywordHead?,
    afterStart?_append (by decide) hmem]
  rw [afterKeywordHead?] at hkeyword
  cases hstart : Text.afterStart? "function".toList before with
  | none => exact .inl rfl
  | some rest =>
      rw [hstart] at hkeyword
      have hlast := getLast?_of_afterStart? (by decide) hend hstart
      cases rest with
      | nil => cases hlast
      | cons c rest =>
          rw [Option.map_some]
          simp only [List.cons_append] at hkeyword ⊢
          split
          · next hblank =>
              rw [if_pos hblank] at hkeyword
              exact afterBlanksAndName?_append hname body
                (eq_nil_or_getLast?_of_cons hlast) hkeyword
          · exact .inl rfl

theorem definition?_go_append (body : Text) {behind before : Text}
    (hend : (before.reverse ++ behind).head?.all (· = '\n') = true)
    (hnone : definition?.go name behind before = none) :
    definition?.go name behind (before ++ (opening name ++ body)) =
      some ⟨(opening name).reverse ++ (before.reverse ++ behind), body⟩ := by
  induction before generalizing behind with
  | nil =>
      have hallowed : allowsDefinition behind.head? = true := by
        cases behind with
        | nil => rfl
        | cons c behind =>
            have hc : c = '\n' := by simpa using hend
            rw [hc]
            rfl
      have hhead := afterHead?_opening hname body
      have hplace := advance_past behind (opening name) body
      obtain ⟨c, t, htext, -⟩ := solid_opening hname body
      rw [htext] at hhead hplace
      rw [List.nil_append, htext, definition?.go, if_pos hallowed, hhead]
      exact congrArg some hplace
  | cons c before ih =>
      have hlast : (c :: before).getLast? = some '\n' := by
        rw [List.head?_append, List.head?_reverse, List.getLast?_cons] at hend
        rw [List.getLast?_cons]
        simpa using hend
      have hmove : before.reverse ++ c :: behind =
          (c :: before).reverse ++ behind := by simp
      have hplace := advance_past behind (c :: before ++ opening name) body
      rw [List.append_assoc, List.reverse_append, List.append_assoc] at hplace
      rw [definition?.go] at hnone
      rw [List.cons_append, definition?.go, ← List.cons_append]
      split at hnone
      · cases hnone
      · next hhere =>
          have hrest := ih (by rw [hmove]; exact hend) hnone
          rw [hmove] at hrest
          by_cases hallowed : allowsDefinition behind.head? = true
          · rw [if_pos hallowed] at hhere ⊢
            rcases afterHead?_append hname body hlast hhere with hhead | hhead
            · rw [hhead]
              exact hrest
            · rw [hhead]
              exact congrArg some hplace
          · rw [if_neg hallowed]
            exact hrest

/-- The definition is found at its own place, whatever stands before it. -/
theorem definition?_append (body : Text) {before : Text}
    (hend : before.getLast?.all (· = '\n') = true)
    (hnone : definition? name before = none) :
    definition? name (before ++ (opening name ++ body)) =
      some ⟨(before ++ opening name).reverse, body⟩ := by
  have hhead : (before.reverse ++ []).head?.all (· = '\n') = true := by
    rwa [List.append_nil, List.head?_reverse]
  rw [definition?, definition?_go_append hname body hhead hnone,
    List.reverse_append, List.append_nil]

end

end CaseTable.Shell
