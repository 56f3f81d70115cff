import CaseTable.Proofs.Bytewise.Walks
import CaseTable.Proofs.Shell.Arms
import CaseTable.Proofs.Shell.Blocks
import CaseTable.Proofs.Shell.Locality

/-!
# Blocks and arms, byte by byte

The end of a block, the end of a pattern and the end of a body are found by
walks, which differ in what they make of the bytes shown to them. A walk for a
pattern or a body also cuts out the text that it has passed, from the position
at which it started. Both are positions of places, so the slice is the text
between them (`walk_visitPattern`, `walk_visitBody`).

An arm starts where the last one ended, and the gap between them is passed byte
by byte, so the loop that reads the arms goes from place to place
(`caseArms_go_offset`). It starts at one if it starts at a boundary or behind
the end (`exists_place`), and then it gives the arms that the characters give
(`caseArms_eq`).
-/

namespace CaseTable.Bytewise

open Shell

/-! ## Blocks -/

/-- Counts the braces, and leaves at the closing one without a partner. -/
def visitBlock (depth pos : Nat) (c : Char) : Except BadAccess (Verdict Nat Nat) :=
  if c = '\x7b' then .ok (.pass (depth + 1))
  else if c = '\x7d' then
    if depth = 0 then .ok (.leave pos) else .ok (.pass (depth - 1))
  else .ok (.pass depth)

/-- The offset of the brace that closes the group whose inside starts at an
offset. -/
def blockEnd (source : Text) (start : Nat) : Except BadAccess (Option Nat) :=
  let bytes := Text.toBytes source
  walk bytes true visitBlock 0 (min start bytes.length)

theorem passesHigh_visitBlock (bytes : Bytes) : PassesHigh bytes visitBlock := by
  intro depth pos c _ hhigh
  rw [visitBlock, if_neg (hhigh.ne (by decide)), if_neg (hhigh.ne (by decide))]

theorem walk_visitBlock (depth : Nat) (p : Place) :
    walk p.bytes true visitBlock depth p.offset =
      .ok ((p.blockEnd? depth).map Place.offset) := by
  fun_induction Place.blockEnd? depth p with
  | case1 depth p hp => exact walk_nil true hp depth
  | case2 depth p q hp ih =>
      have hq := Place.passes_of_take? hp
      rw [walk_plain true hp (by decide), ← ih, hq.bytes_eq, ← advance_one hq (by decide)]
      rfl
  | case3 p q hp =>
      rw [walk_plain true hp (by decide)]
      rfl
  | case4 depth p q hp hdepth ih =>
      have hq := Place.passes_of_take? hp
      rw [walk_plain true hp (by decide), ← ih, hq.bytes_eq, ← advance_one hq (by decide),
        visitBlock, if_neg (by decide), if_pos rfl, if_neg hdepth]
      rfl
  | case5 depth p piece q hopen hclose hp ih =>
      have hq := Place.passes_of_take? hp
      rw [← ih, hq.bytes_eq]
      refine walk_pass true (passesHigh_visitBlock _) hp fun c hc _ => ?_
      rw [visitBlock, if_neg, if_neg]
      · rintro rfl
        exact hclose hc
      · rintro rfl
        exact hopen hc

/-! ## Patterns -/

/-- Leaves behind the closing parenthesis, with the text from `start` up to it. -/
def visitPattern (source : Text) (start : Nat) (_ : Unit) (pos : Nat) (c : Char) :
    Except BadAccess (Verdict Unit (Text × Nat)) :=
  if c = ')' then
    (source.slice start pos).map fun pattern =>
      .leave (pattern, advance (Text.toBytes source) pos 1)
  else
    .ok (.pass ())

/-- Reads a pattern, with or without an opening parenthesis. -/
def readPattern (source : Text) (pos : Nat) : Except BadAccess (Option (Text × Nat)) :=
  let bytes := Text.toBytes source
  let start := if peek? bytes pos = some '(' then advance bytes pos 1 else pos
  walk bytes false (visitPattern source start) () start

theorem passesHigh_visitPattern (bytes : Bytes) (source : Text) (start : Nat) :
    PassesHigh bytes (visitPattern source start) := by
  intro state pos c _ hhigh
  exact if_neg (hhigh.ne (by decide))

theorem walk_visitPattern {start p : Place} {s : Text} (hs : start.Passes s p) :
    walk p.bytes false (visitPattern p.text start.offset) () p.offset =
      .ok (p.patternEnd?.map fun e => (start.upTo e, (e.advance 1).offset)) := by
  fun_induction Place.patternEnd? p generalizing s with
  | case1 p hp => exact walk_nil false hp ()
  | case2 p q hp =>
      have hq : p.Passes [')'] q := Place.passes_of_take? hp
      have hslice := hs.slice_eq
      rw [← hs.text_eq] at hslice
      have hadvance : p.advance 1 = q := hq.advance_length
      rw [walk_plain false hp (by decide), visitPattern, if_pos rfl, hslice, Option.map_some,
        hs.upTo_eq, hadvance, ← advance_one hq (by decide)]
      rfl
  | case3 p piece q hclose hp ih =>
      have hq := Place.passes_of_take? hp
      rw [← ih (hs.trans hq), hq.bytes_eq, hq.text_eq]
      refine walk_pass false (passesHigh_visitPattern _ _ _) hp fun c hc _ => if_neg ?_
      rintro rfl
      exact hclose hc

theorem readPattern_offset (p : Place) :
    readPattern p.text p.offset =
      .ok ((readPattern? p).map fun (pattern, q) => (pattern, q.offset)) := by
  obtain ⟨q, hq⟩ : ∃ q, q = if p.next? = some '(' then p.advance 1 else p := ⟨_, rfl⟩
  have hopened : ∃ s, p.Passes s q ∧ (if peek? p.bytes p.offset = some '(' then
      advance p.bytes p.offset 1 else p.offset) = q.offset := by
    rw [hq]
    by_cases hnext : p.next? = some '('
    · obtain ⟨t, ht⟩ : ∃ t, p.ahead = '(' :: t := List.head?_eq_some_iff.mp hnext
      have hs : p.Passes ['('] (p.advance 1) := by
        have hone := p.passes_advance 1
        rwa [ht, List.take_succ_cons, List.take_zero] at hone
      rw [if_pos hnext, if_pos ((peek?_eq_some_iff (by decide)).mpr hnext)]
      exact ⟨_, hs, advance_one hs (by decide)⟩
    · rw [if_neg hnext, if_neg (mt (peek?_eq_some_iff (by decide)).mp hnext)]
      exact ⟨[], .refl p, rfl⟩
  obtain ⟨s, hs, hoffset⟩ := hopened
  rw [readPattern?, Option.map_map, ← hq]
  change walk p.bytes false (visitPattern p.text (if peek? p.bytes p.offset = some '(' then
    advance p.bytes p.offset 1 else p.offset)) () (if peek? p.bytes p.offset = some '(' then
    advance p.bytes p.offset 1 else p.offset) = _
  rw [hoffset, ← hs.bytes_eq, ← hs.text_eq, walk_visitPattern (.refl q)]
  rfl

/-! ## Bodies -/

/-- The position behind the terminator that starts at a position. -/
def pastTerminator (bytes : Bytes) (pos : Nat) : Nat :=
  let next := advance bytes pos 2
  if peek? bytes next = some '&' then advance bytes next 1 else next

/-- Counts the tables, and leaves at the end of the body with the text from
`start` up to it. -/
def visitBody (source : Text) (start depth pos : Nat) (c : Char) :
    Except BadAccess (Verdict Nat (Text × Nat)) :=
  let bytes := Text.toBytes source
  let second := peek? bytes (pos + 1)
  if c = ';' ∧ depth = 0 ∧ (second = some ';' ∨ second = some '&') then
    (source.slice start pos).map fun body => .leave (body, pastTerminator bytes pos)
  else do
    if ← atKeyword bytes caseWord pos then
      return .move 4 (depth + 1) (by decide)
    else if ← atKeyword bytes esacWord pos then
      if depth = 0 then
        return .leave (← source.slice start pos, pos)
      else
        return .move 4 (depth - 1) (by decide)
    else
      return .pass depth

/-- Reads the body of an arm with its terminator; an `esac` is left. -/
def readBody (source : Text) (pos : Nat) : Except BadAccess (Option (Text × Nat)) :=
  walk (Text.toBytes source) true (visitBody source pos) 0 pos

theorem terminator_iff {p : Place} {t : Text} (h : p.ahead = ';' :: t) :
    (peek? p.bytes (p.offset + 1) = some ';' ∨ peek? p.bytes (p.offset + 1) = some '&') ↔
      Place.terminator p.ahead ≠ [] := by
  rw [Place.terminator_ne_nil_iff, h, peek?_succ_eq_some_iff h (by decide) (by decide),
    peek?_succ_eq_some_iff h (by decide) (by decide), Terminates, List.cons_prefix_cons,
    List.cons_prefix_cons]
  cases t <;> simp [eq_comm]

theorem pastTerminator_offset {p : Place} (h : Place.terminator p.ahead ≠ []) :
    pastTerminator p.bytes p.offset = p.pastEnding.offset := by
  obtain ⟨d, u, hd, hu⟩ : ∃ d u, (d = ';' ∨ d = '&') ∧ p.ahead = ';' :: d :: u := by
    rcases Place.terminator_ne_nil_iff.mp h with ⟨u, hu⟩ | ⟨u, hu⟩
    · exact ⟨';', u, .inl rfl, hu.symm⟩
    · exact ⟨'&', u, .inr rfl, hu.symm⟩
  have hsize : d.utf8Size = 1 := by rcases hd with rfl | rfl <;> rfl
  let r : Place := ⟨d :: ';' :: p.behind, u⟩
  have hr : p.Passes [';', d] r := ⟨hu, rfl⟩
  have hnext : advance p.bytes p.offset 2 = r.offset := by
    rw [← advance_byteSize hr, Text.byteSize_cons, Text.byteSize_cons, Text.byteSize_nil, hsize]
    rfl
  have hpast := p.passes_pastEnding
  rw [pastTerminator]
  simp only [hnext]
  rw [← hr.bytes_eq]
  split
  · next hmore =>
      obtain ⟨v, hv⟩ : ∃ v, u = '&' :: v :=
        List.head?_eq_some_iff.mp ((peek?_eq_some_iff (by decide)).mp hmore)
      have hs : r.Passes ['&'] ⟨'&' :: r.behind, v⟩ := ⟨hv, rfl⟩
      have hterminator : Place.terminator p.ahead = [';', d, '&'] := by
        rw [hu, hv]
        rcases hd with rfl | rfl <;> rfl
      rw [hterminator] at hpast
      rw [advance_one hs (by decide), (hr.trans hs).offset_eq, hpast.offset_eq]
      rfl
  · next hmore =>
      have hlast : u.head? ≠ some '&' := fun hamp =>
        hmore ((peek?_eq_some_iff (by decide)).mpr hamp)
      have hterminator : Place.terminator p.ahead = [';', d] := by
        rw [hu]
        rcases hd with rfl | rfl
        · exact Place.terminator_ending .stop hlast
        · exact Place.terminator_ending .fallThrough hlast
      rw [hterminator] at hpast
      rw [hr.offset_eq, hpast.offset_eq]

/-- What the visitor makes of a character that starts no terminator. -/
theorem visitBody_eq {p : Place} {depth : Nat} {c : Char} {t : Text} (hp : p.ahead = c :: t)
    (h : depth = 0 → Place.terminator p.ahead = []) (start : Nat) :
    visitBody p.text start depth p.offset c =
      if (p.keyword? caseWord).isSome then .ok (.move 4 (depth + 1) (by decide))
      else if (p.keyword? esacWord).isSome then
        if depth = 0 then
          (p.text.slice start p.offset).map fun body => .leave (body, p.offset)
        else .ok (.move 4 (depth - 1) (by decide))
      else .ok (.pass depth) := by
  have hfirst : ¬ (c = ';' ∧ depth = 0 ∧ (peek? p.bytes (p.offset + 1) = some ';' ∨
      peek? p.bytes (p.offset + 1) = some '&')) := by
    rintro ⟨rfl, hdepth, hsecond⟩
    exact (terminator_iff hp).mp hsecond (h hdepth)
  have hcase := @atKeyword_eq caseWord rfl p
  have hesac := @atKeyword_eq esacWord rfl p
  rw [Place.bytes] at hfirst hcase hesac
  rw [visitBody, if_neg hfirst, hcase]
  cases (p.keyword? caseWord).isSome with
  | true => rfl
  | false =>
      simp only [bind, Except.bind, Bool.false_eq_true, if_false, hesac]
      cases (p.keyword? esacWord).isSome with
      | false => rfl
      | true =>
          simp only [if_true]
          split
          · cases p.text.slice start p.offset <;> rfl
          · rfl

theorem passesHigh_visitBody (source : Text) (start : Nat) :
    PassesHigh (Text.toBytes source) (visitBody source start) := by
  intro depth pos c hc hhigh
  have hcase := @atKeyword_of_isHigh _ ['a', 's', 'e'] _ 'c' _ hc hhigh (by decide)
  have hesac := @atKeyword_of_isHigh _ ['s', 'a', 'c'] _ 'e' _ hc hhigh (by decide)
  rw [visitBody, if_neg fun h => hhigh.ne (by decide) h.1, caseWord, esacWord, hcase]
  simp only [bind, Except.bind, Bool.false_eq_true, if_false, hesac]
  rfl

theorem walk_visitBody {start p : Place} {s : Text} (hs : start.Passes s p) (depth : Nat) :
    walk p.bytes true (visitBody p.text start.offset) depth p.offset =
      .ok ((p.bodyEnd? depth).map fun e => (start.upTo e, e.pastEnding.offset)) := by
  fun_induction Place.bodyEnd? depth p generalizing s with
  -- the first letter of a keyword is a plain character to the walk
  | case1 depth p q hcase ih =>
      have hq := Place.passes_of_keyword? hcase
      have hp : p.ahead = 'c' :: (['a', 's', 'e'] ++ q.ahead) := hq.1
      have hnone : depth = 0 → Place.terminator p.ahead = [] := fun _ => by rw [hp]; rfl
      rw [walk_plain true (take?_plain hp (by decide)) (by decide), visitBody_eq hp hnone, hcase,
        ← ih (hs.trans hq), hq.bytes_eq, hq.text_eq, ← advance_keyword hcase rfl]
      rfl
  | case2 p hcase q hesac =>
      have hq := Place.passes_of_keyword? hesac
      have hp : p.ahead = 'e' :: (['s', 'a', 'c'] ++ q.ahead) := hq.1
      have hnone : Place.terminator p.ahead = [] := by rw [hp]; rfl
      have hslice := hs.slice_eq
      rw [← hs.text_eq] at hslice
      rw [walk_plain true (take?_plain hp (by decide)) (by decide),
        visitBody_eq hp fun _ => hnone, hcase, hesac, hslice, Option.map_some, hs.upTo_eq,
        Place.pastEnding, hnone]
      rfl
  | case3 depth p hcase q hesac hdepth ih =>
      have hq := Place.passes_of_keyword? hesac
      have hp : p.ahead = 'e' :: (['s', 'a', 'c'] ++ q.ahead) := hq.1
      have hnone : depth = 0 → Place.terminator p.ahead = [] := fun _ => by rw [hp]; rfl
      rw [walk_plain true (take?_plain hp (by decide)) (by decide), visitBody_eq hp hnone, hcase,
        hesac, ← ih (hs.trans hq), hq.bytes_eq, hq.text_eq, ← advance_keyword hesac rfl]
      simp only [Option.isSome_none, Option.isSome_some, Bool.false_eq_true, if_false, if_true,
        if_neg hdepth]
  | case4 depth p hcase hesac hend =>
      obtain ⟨rfl, hend⟩ := hend
      obtain ⟨t, hp⟩ : ∃ t, p.ahead = ';' :: t := by
        rcases Place.terminator_ne_nil_iff.mp hend with ⟨t, ht⟩ | ⟨t, ht⟩
        · exact ⟨_, ht.symm⟩
        · exact ⟨_, ht.symm⟩
      have hslice := hs.slice_eq
      rw [← hs.text_eq] at hslice
      have hfirst : visitBody p.text start.offset 0 p.offset ';' =
          .ok (.leave (s, p.pastEnding.offset)) := by
        rw [visitBody]
        refine (if_pos ⟨rfl, rfl, (terminator_iff hp).mpr hend⟩).trans ?_
        rw [hslice, ← pastTerminator_offset hend]
        rfl
      rw [walk_plain true (take?_plain hp (by decide)) (by decide), hfirst, Option.map_some,
        hs.upTo_eq]
  | case5 depth p hcase hesac hend hp => exact walk_nil true hp depth
  | case6 depth p hcase hesac hend piece q hp ih =>
      have hq := Place.passes_of_take? hp
      rw [← ih (hs.trans hq), hq.bytes_eq, hq.text_eq]
      refine walk_pass true (passesHigh_visitBody _ _) hp fun c hc _ => ?_
      have hahead : p.ahead = c :: q.ahead := by
        rw [hq.1, hc]
        rfl
      have hnone : depth = 0 → Place.terminator p.ahead = [] := fun hdepth =>
        Decidable.not_not.mp fun hne => hend ⟨hdepth, hne⟩
      rw [visitBody_eq hahead hnone, hcase, hesac]
      rfl

theorem readBody_offset (p : Place) :
    readBody p.text p.offset =
      .ok ((readBody? p).map fun (body, q) => (body, q.offset)) := by
  rw [readBody?, Option.map_map]
  exact walk_visitBody (.refl p) 0

/-! ## Arms -/

/-- The position behind the blanks and comments between two arms. -/
def skipBlank (bytes : Bytes) (pos : Nat) : Nat :=
  match _ : peek? bytes pos with
  | none => pos
  | some c =>
      if c = ' ' || c = '\t' || c = '\n' || c = '\r' then skipBlank bytes (advance bytes pos 1)
      else if c = '#' then skipBlank bytes (skipLine bytes pos)
      else pos
termination_by bytes.length - pos
decreasing_by
  · exact sub_advance_lt (lt_of_peek? (by assumption)) Nat.one_pos
  · have hlt := lt_of_peek? (by assumption)
    have := lt_skipLine (by assumption)
    omega

theorem skipBlank_eq (bytes : Bytes) (pos : Nat) :
    skipBlank bytes pos = match peek? bytes pos with
      | none => pos
      | some c =>
          if c = ' ' || c = '\t' || c = '\n' || c = '\r' then
            skipBlank bytes (advance bytes pos 1)
          else if c = '#' then skipBlank bytes (skipLine bytes pos)
          else pos := by
  rw [skipBlank]
  split <;> next h => rw [h]

/-- In a comment the gap goes on behind the line. -/
theorem skipBlank_go (inComment : Bool) (behind t : Text) :
    let p : Place := ⟨behind, t⟩
    skipBlank p.bytes (if inComment then skipLine p.bytes p.offset else p.offset) =
      (Place.skipGap.go inComment behind t).offset := by
  intro p
  induction t generalizing inComment behind with
  | nil =>
      have hend := peek?_of_nil (p := p) rfl
      have hline : skipLine p.bytes p.offset = p.offset := by rw [skipLine_eq, hend]
      rw [hline, ite_self, skipBlank_eq, hend]
      rfl
  | cons c t ih =>
      let r : Place := ⟨c :: behind, t⟩
      have hr : p.Passes [c] r := ⟨rfl, rfl⟩
      have hlater (inComment : Bool) : skipBlank p.bytes
          (if inComment then skipLine p.bytes r.offset else r.offset) =
            (Place.skipGap.go inComment (c :: behind) t).offset := by
        rw [← hr.bytes_eq]
        exact ih inComment (c :: behind)
      cases inComment with
      | true =>
          rw [Place.skipGap.go, if_pos rfl, if_pos rfl, ← hlater]
          by_cases hline : c = '\n'
          · subst hline
            rw [skipLine_newline hr]
            rfl
          · rw [skipLine_next hr hline, if_pos (decide_eq_true hline)]
      | false =>
          rw [if_neg Bool.false_ne_true, Place.skipGap.go, if_neg Bool.false_ne_true, skipBlank_eq]
          by_cases hblank : (c = ' ' || c = '\t' || c = '\n' || c = '\r') = true
          · have hc : c.toNat < 128 := by
              simp only [Bool.or_eq_true, decide_eq_true_eq] at hblank
              rcases hblank with ((rfl | rfl) | rfl) | rfl <;> decide
            rw [if_pos hblank, ← hlater, peek?_of_ascii hr.1 hc]
            simp only [if_pos hblank, advance_one hr hc]
            rfl
          · by_cases hhash : c = '#'
            · subst hhash
              rw [if_neg hblank, if_pos rfl, ← hlater, peek?_of_ascii hr.1 (by decide),
                if_pos rfl, ← skipLine_next hr (by decide)]
              rfl
            · rw [if_neg hblank, if_neg hhash]
              rcases peek?_cases p with hnext | ⟨-, d, -, -, hd, hhigh⟩
              · rw [hnext]
                exact (if_neg hblank).trans (if_neg hhash)
              · rw [hd]
                refine (if_neg ?_).trans (if_neg (hhigh.ne (by decide)))
                simp [hhigh.ne (show (' ' : Char).toNat < 128 by decide),
                  hhigh.ne (show ('\t' : Char).toNat < 128 by decide),
                  hhigh.ne (show ('\n' : Char).toNat < 128 by decide),
                  hhigh.ne (show ('\r' : Char).toNat < 128 by decide)]

theorem skipBlank_offset (p : Place) : skipBlank p.bytes p.offset = p.skipGap.offset :=
  skipBlank_go false p.behind p.ahead

theorem le_skipBlank (bytes : Bytes) (pos : Nat) : pos ≤ skipBlank bytes pos := by
  fun_induction skipBlank bytes pos with
  | case1 pos => exact Nat.le_refl _
  | case2 pos c hc _ ih => exact Nat.le_trans (le_advance (Nat.le_of_lt (lt_of_peek? hc)) 1) ih
  | case3 pos hc _ ih => exact Nat.le_trans (Nat.le_of_lt (lt_skipLine hc)) ih
  | case4 pos => exact Nat.le_refl _

theorem lt_readPattern {source pattern : Text} {pos next : Nat}
    (h : readPattern source pos = .ok (some (pattern, next))) : pos < next := by
  obtain ⟨state, pos', c, hstart, hc, hvisit⟩ := leaves_of_walk h
  have hlt := lt_of_peek? hc
  have hle : pos ≤ pos' := by
    split at hstart
    · next hopened =>
        exact Nat.le_trans (le_advance (Nat.le_of_lt (lt_of_peek? hopened)) 1) hstart
    · exact hstart
  rw [visitPattern] at hvisit
  split at hvisit
  · obtain ⟨pattern', hslice, hverdict⟩ := Checked.exists_of_map_eq_ok hvisit
    cases hverdict
    exact Nat.lt_of_le_of_lt hle (lt_advance hlt Nat.one_pos)
  · cases hvisit

theorem le_pastTerminator {bytes : Bytes} {pos : Nat} (h : pos ≤ bytes.length) :
    pos ≤ pastTerminator bytes pos := by
  rw [pastTerminator]
  have hnext := le_advance h 2
  split
  · exact Nat.le_trans hnext (le_advance (Nat.min_le_right _ _) 1)
  · exact hnext

theorem le_readBody {source body : Text} {pos next : Nat}
    (h : readBody source pos = .ok (some (body, next))) : pos ≤ next := by
  obtain ⟨depth, pos', c, hle, hc, hvisit⟩ := leaves_of_walk h
  have hlt := lt_of_peek? hc
  rw [visitBody] at hvisit
  split at hvisit
  · obtain ⟨body', hslice, hverdict⟩ := Checked.exists_of_map_eq_ok hvisit
    cases hverdict
    exact Nat.le_trans hle (le_pastTerminator (Nat.le_of_lt hlt))
  · obtain ⟨isCase, -, hvisit⟩ := Checked.exists_of_bind_eq_ok hvisit
    split at hvisit
    · cases hvisit
    · obtain ⟨isEsac, -, hvisit⟩ := Checked.exists_of_bind_eq_ok hvisit
      split at hvisit
      · split at hvisit
        · obtain ⟨body', hslice, hverdict⟩ := Checked.exists_of_bind_eq_ok hvisit
          cases hverdict
          exact hle
        · cases hvisit
      · cases hvisit

/-- Reads a pattern and a body. -/
def readArm (source : Text) (pos : Nat) : Except BadAccess (Option (Arm × Nat)) := do
  match ← readPattern source pos with
  | none => return none
  | some (pattern, next) =>
      return (← readBody source next).map fun (body, rest) => (⟨labels pattern, body⟩, rest)

theorem readArm_offset (p : Place) :
    readArm p.text p.offset = .ok ((Arm.read? p).map fun (arm, q) => (arm, q.offset)) := by
  rw [readArm, readPattern_offset, Arm.read?]
  cases hpattern : readPattern? p with
  | none => rfl
  | some read =>
      obtain ⟨pattern, q⟩ := read
      obtain ⟨opened, pieces, -, -, hs, -⟩ := exists_pieces_readPattern? hpattern
      have hbody := readBody_offset q
      rw [hs.text_eq] at hbody
      simp only [bind, Except.bind, Option.map_some, hbody]
      cases readBody? q <;> rfl

theorem lt_readArm {source : Text} {arm : Arm} {pos next : Nat}
    (h : readArm source pos = .ok (some (arm, next))) : pos < next := by
  obtain ⟨read, hpattern, h⟩ := Checked.exists_of_bind_eq_ok h
  match read, hpattern, h with
  | some (pattern, middle), hpattern, h =>
      obtain ⟨read, hbody, h⟩ := Checked.exists_of_bind_eq_ok h
      match read, hbody, h with
      | some (body, rest), hbody, h =>
          cases h
          exact Nat.lt_of_lt_of_le (lt_readPattern hpattern) (le_readBody hbody)

/-- The arms of the table whose `in` ends at an offset. -/
def caseArms (source : Text) (start : Nat) : Except BadAccess (Except ArmsError (List Arm)) :=
  go [] (min start (Text.toBytes source).length)
where
  go (read : List Arm) (pos : Nat) : Except BadAccess (Except ArmsError (List Arm)) :=
    let here := skipBlank (Text.toBytes source) pos
    if _ : (Text.toBytes source).length ≤ here then .ok (.error (.unterminated start))
    else
      match atKeyword (Text.toBytes source) esacWord here with
      | .error cause => .error cause
      | .ok true => .ok (.ok read)
      | .ok false =>
          match _ : readArm source here with
          | .error cause => .error cause
          | .ok none => .ok (.error (.unterminated start))
          | .ok (some (arm, next)) => go (read ++ [arm]) next
  termination_by (Text.toBytes source).length - pos
  decreasing_by
    have := le_skipBlank (Text.toBytes source) pos
    have := lt_readArm (by assumption)
    omega

/-- At the gap before an arm or the `esac` the loop does what the characters
say. -/
theorem caseArms_go_gap (start : Nat) (read : List Arm) (p : Place) :
    caseArms.go p.text start read p.offset =
      if p.skipGap.ahead = [] then .ok (.error (.unterminated start))
      else if (p.skipGap.keyword? esacWord).isSome then .ok (.ok read)
      else match Arm.read? p.skipGap with
        | none => .ok (.error (.unterminated start))
        | some (arm, q) => caseArms.go p.text start (read ++ [arm]) q.offset := by
  obtain ⟨s, hs⟩ := p.exists_passes_skipGap
  have hhere : skipBlank (Text.toBytes p.text) p.offset = p.skipGap.offset := skipBlank_offset p
  have hend : (Text.toBytes p.text).length ≤ p.skipGap.offset ↔ p.skipGap.ahead = [] := by
    rw [← hs.text_eq, ← Text.byteSize_eq_zero_iff]
    change p.skipGap.bytes.length ≤ _ ↔ _
    rw [Place.length_bytes]
    omega
  have hesac := @atKeyword_eq esacWord rfl p.skipGap
  rw [Place.bytes, hs.text_eq] at hesac
  have harm := readArm_offset p.skipGap
  rw [hs.text_eq, ← hhere] at harm
  rw [caseArms.go]
  simp only [hhere, hend, hesac]
  split
  · rfl
  · cases (p.skipGap.keyword? esacWord).isSome with
    | true => rfl
    | false =>
        simp only [Bool.false_eq_true, if_false]
        cases hfound : Arm.read? p.skipGap with
        | none =>
            rw [hfound] at harm
            split
            · next hread => cases harm.symm.trans hread
            · rfl
            · next hread => cases harm.symm.trans hread
        | some found =>
            rw [hfound] at harm
            split
            · next hread => cases harm.symm.trans hread
            · next hread => cases harm.symm.trans hread
            · next hread =>
                cases harm.symm.trans hread
                rfl

theorem caseArms_go_offset (start : Nat) (read : List Arm) (p : Place) :
    caseArms.go p.text start read p.offset = .ok (match readArms? p with
      | some (arms, _) => .ok (read ++ arms)
      | none => .error (.unterminated start)) := by
  rw [caseArms_go_gap]
  fun_induction readArms? p generalizing read with
  | case1 p q hesac =>
      have hne : p.skipGap.ahead ≠ [] := by
        rw [(Place.passes_of_keyword? hesac).1]
        exact List.cons_ne_nil _ _
      rw [if_neg hne, hesac]
      change Except.ok (Except.ok read) = Except.ok (Except.ok (read ++ []))
      rw [List.append_nil]
  | case2 p hesac hread =>
      rw [hesac, hread]
      exact ite_self _
  | case3 p hesac arm q hread ih =>
      obtain ⟨s, hs⟩ := p.exists_passes_skipGap
      obtain ⟨u, hu, hne, -⟩ := Arm.read?_move hread
      have hahead : p.skipGap.ahead ≠ [] := by
        rw [hu.1]
        exact List.append_ne_nil_of_left_ne_nil hne _
      rw [if_neg hahead, hesac, hread, ← hs.text_eq, ← hu.text_eq]
      change caseArms.go q.text start (read ++ [arm]) q.offset = _
      rw [caseArms_go_gap, ih]
      cases readArms? q <;> simp

/-! ## Starts -/

theorem advanceBytes_go_of_le {n : Nat} {t : Text} (h : t.byteSize ≤ n) (behind : Text) :
    Place.advanceBytes.go n behind t = ⟨t.reverse ++ behind, []⟩ := by
  induction t generalizing n behind with
  | nil => rfl
  | cons c t ih =>
      have hpos := c.utf8Size_pos
      rw [Text.byteSize_cons] at h
      rw [Place.advanceBytes.go, if_neg (by omega), ih (by omega), List.reverse_cons,
        List.append_assoc]
      rfl

/-- A cursor that is set to a boundary, or behind the end, stands at a place. -/
theorem exists_place {source : Text} {start : Nat}
    (h : source.isBoundary start = true ∨ source.byteSize ≤ start) :
    ∃ p : Place, p.text = source ∧ p.offset = min start (Text.toBytes source).length ∧
      (Place.start source).advanceBytes start = p := by
  rw [Text.length_toBytes]
  rcases h with hstart | hstart
  · obtain ⟨front, back, rfl, rfl⟩ := Text.isBoundary_iff.mp hstart
    refine ⟨⟨front.reverse, back⟩, ?_, ?_, Place.advanceBytes_start front back⟩
    · rw [Place.text, List.reverse_reverse]
    · rw [Place.offset, Text.byteSize_reverse, Text.byteSize_append,
        Nat.min_eq_left (Nat.le_add_right _ _)]
  · refine ⟨⟨source.reverse, []⟩, ?_, ?_, ?_⟩
    · rw [Place.text, List.reverse_reverse, List.append_nil]
    · rw [Place.offset, Text.byteSize_reverse, Nat.min_eq_right hstart]
    · rw [Place.start, Place.advanceBytes, advanceBytes_go_of_le hstart, List.append_nil]

/-- From a boundary on, or behind the end, the bytes give the arms that the
characters give. -/
theorem caseArms_eq {source : Text} {start : Nat}
    (h : source.isBoundary start = true ∨ source.byteSize ≤ start) :
    caseArms source start = .ok (armsAt source start) := by
  obtain ⟨p, rfl, hoffset, hplace⟩ := exists_place h
  rw [caseArms, ← hoffset, caseArms_go_offset, armsAt, hplace]
  cases readArms? p <;> rfl

theorem blockEnd_eq {source : Text} {start : Nat}
    (h : source.isBoundary start = true ∨ source.byteSize ≤ start) :
    blockEnd source start = .ok (blockEndAt? source start) := by
  obtain ⟨p, rfl, hoffset, hplace⟩ := exists_place h
  have hwalk := walk_visitBlock 0 p
  rw [hoffset] at hwalk
  rw [blockEndAt?, hplace, ← hwalk]
  rfl

end CaseTable.Bytewise
