import CaseTable.Proofs.Bytewise.Skipping

/-!
# Walks over the bytes of a script

The scanners that look for the end of something share a loop. It passes escapes,
quoted strings and comments, and shows every other byte to a visitor, which says
how to go on (`walk`).

A walk stands at a place of the text whenever it shows a byte of ASCII: from a
place it comes to the place behind the next piece, even if it stands in the
middle of a character in between (`walk_piece`), and a plain character is shown
where it is (`walk_plain`).
-/

namespace CaseTable.Bytewise

open Shell

/-- What a visitor makes of a byte: the walk is over, or it goes on `n` bytes
further. -/
inductive Verdict (σ ρ : Type)
    | leave (result : ρ)
    | move (n : Nat) (state : σ) (forward : 0 < n)

namespace Verdict

variable {σ ρ : Type}

/-- The walk goes on behind the byte. -/
def pass (state : σ) : Verdict σ ρ := .move 1 state Nat.one_pos

end Verdict

section

variable {σ ρ : Type}

/-- Whether a byte opens a comment, where comments are looked for. -/
def opensComment (bytes : Bytes) (comments : Bool) (pos : Nat) (c : Char) :
    Except BadAccess Bool :=
  if comments && c = '#' then atWordStart bytes pos else .ok false

/-- Walks over the bytes from a position on. Escapes, quoted strings and, where
they are looked for, comments are passed. Every other byte is shown to the
visitor, which has the state of the walk. -/
def walk (bytes : Bytes) (comments : Bool)
    (visit : σ → Nat → Char → Except BadAccess (Verdict σ ρ)) (state : σ) (pos : Nat) :
    Except BadAccess (Option ρ) :=
  match _ : peek? bytes pos with
  | none => .ok none
  | some c =>
      if c = '\\' then walk bytes comments visit state (advance bytes pos 2)
      else if c = '\x27' then walk bytes comments visit state (skipSingle bytes pos).2
      else if c = '"' then walk bytes comments visit state (skipDouble bytes pos).2
      else
        match opensComment bytes comments pos c with
        | .error cause => .error cause
        | .ok true => walk bytes comments visit state (skipLine bytes pos)
        | .ok false =>
            match visit state pos c with
            | .error cause => .error cause
            | .ok (.leave result) => .ok (some result)
            | .ok (.move n next _) => walk bytes comments visit next (advance bytes pos n)
termination_by bytes.length - pos
decreasing_by
  · exact sub_advance_lt (lt_of_peek? (by assumption)) Nat.two_pos
  · have hlt := lt_of_peek? (by assumption)
    have := lt_skipSingle hlt
    omega
  · have hlt := lt_of_peek? (by assumption)
    have := lt_skipDouble hlt
    omega
  · have hlt := lt_of_peek? (by assumption)
    have := lt_skipLine (by assumption)
    omega
  · exact sub_advance_lt (lt_of_peek? (by assumption)) (by assumption)

theorem walk_eq (bytes : Bytes) (comments : Bool)
    (visit : σ → Nat → Char → Except BadAccess (Verdict σ ρ)) (state : σ) (pos : Nat) :
    walk bytes comments visit state pos = match peek? bytes pos with
      | none => .ok none
      | some c =>
          if c = '\\' then walk bytes comments visit state (advance bytes pos 2)
          else if c = '\x27' then walk bytes comments visit state (skipSingle bytes pos).2
          else if c = '"' then walk bytes comments visit state (skipDouble bytes pos).2
          else
            match opensComment bytes comments pos c with
            | .error cause => .error cause
            | .ok true => walk bytes comments visit state (skipLine bytes pos)
            | .ok false =>
                match visit state pos c with
                | .error cause => .error cause
                | .ok (.leave result) => .ok (some result)
                | .ok (.move n next _) =>
                    walk bytes comments visit next (advance bytes pos n) := by
  rw [walk]
  split <;> next h => rw [h]

theorem opensComment_eq (comments : Bool) (p : Place) (c : Char) :
    opensComment p.bytes comments p.offset c = .ok (comments && c = '#' && p.atWordStart) := by
  rw [opensComment, atWordStart_eq]
  cases comments && decide (c = '#') <;> rfl

theorem opensComment_of_isHigh {bytes : Bytes} {c : Char} (h : IsHigh c) (comments : Bool)
    (pos : Nat) : opensComment bytes comments pos c = .ok false := by
  refine if_neg ?_
  simp [h.ne (show ('#' : Char).toNat < 128 by decide)]

/-- A visitor lets the walk go on at the bytes outside ASCII. -/
def PassesHigh (bytes : Bytes) (visit : σ → Nat → Char → Except BadAccess (Verdict σ ρ)) :
    Prop :=
  ∀ state pos c, peek? bytes pos = some c → IsHigh c → visit state pos c = .ok (.pass state)

variable {bytes : Bytes} {visit : σ → Nat → Char → Except BadAccess (Verdict σ ρ)}

theorem coasts_walk (comments : Bool) (h : PassesHigh bytes visit) (state : σ) :
    Coasts bytes (walk bytes comments visit state) := by
  intro pos c hc hhigh
  rw [walk_eq, hc]
  simp only [if_neg (hhigh.ne (show ('\\' : Char).toNat < 128 by decide)),
    if_neg (hhigh.ne (show ('\x27' : Char).toNat < 128 by decide)),
    if_neg (hhigh.ne (show ('"' : Char).toNat < 128 by decide)), opensComment_of_isHigh hhigh,
    h state pos c hc hhigh, Verdict.pass]

/-- A character that hides nothing is a piece of its own. -/
theorem take?_plain {comments : Bool} {p : Place} {c : Char} {t : Text} (h : p.ahead = c :: t)
    (hc : c ∉ ['\\', '\x27', '"', '#']) :
    p.take? comments = some (.plain c, ⟨c :: p.behind, t⟩) := by
  obtain ⟨behind, ahead⟩ := p
  subst h
  simp only [List.mem_cons, List.not_mem_nil, or_false, not_or] at hc
  obtain ⟨hslash, hsingle, hdouble, hhash⟩ := hc
  have hcomplete : (Piece.plain c).Complete comments :=
    ⟨hslash, hsingle, hdouble, fun h => absurd h hhash⟩
  exact Place.take?_complete hcomplete behind t

theorem complete_or_open_of_take? {comments : Bool} {p q : Place} {piece : Piece}
    (h : p.take? comments = some (piece, q)) :
    piece.Complete comments ∨ q.ahead = [] ∧ piece.Open comments := by
  obtain ⟨⟨x, rest⟩, hx, he⟩ := Option.map_eq_some_iff.mp h
  obtain ⟨rfl, rfl⟩ := Prod.mk.inj he
  exact Piece.complete_or_open_of_first? hx

theorem walk_escape (comments : Bool) {p q : Place} {c : Char} (h : PassesHigh p.bytes visit)
    (hq : p.Passes ['\\', c] q) (state : σ) :
    walk p.bytes comments visit state p.offset =
      walk p.bytes comments visit state q.offset := by
  rw [walk_eq, peek?_of_ascii hq.1 (by decide)]
  exact (coasts_walk comments h state).escape hq

theorem walk_single (comments : Bool) {p r : Place} (hr : p.Passes ['\x27'] r) (state : σ) :
    walk p.bytes comments visit state p.offset =
      walk p.bytes comments visit state (quoteEnd r (Piece.splitSingle? r.ahead)).2 := by
  rw [walk_eq, peek?_of_ascii hr.1 (by decide), ← skipSingle_offset hr]
  rfl

theorem walk_double (comments : Bool) {p r : Place} (hr : p.Passes ['"'] r) (state : σ) :
    walk p.bytes comments visit state p.offset =
      walk p.bytes comments visit state (quoteEnd r (Piece.splitDouble? r.ahead)).2 := by
  rw [walk_eq, peek?_of_ascii hr.1 (by decide), ← skipDouble_offset hr]
  rfl

theorem walk_comment {comments : Bool} {p q : Place} {line : Text} (hq : p.Passes ('#' :: line) q)
    (hline : (Piece.splitLine p.ahead).1 = '#' :: line) (hcomments : comments = true)
    (hstart : p.atWordStart = true) (state : σ) :
    walk p.bytes comments visit state p.offset =
      walk p.bytes comments visit state q.offset := by
  have hopens : opensComment p.bytes comments p.offset '#' = .ok true := by
    rw [opensComment_eq, hcomments, hstart]
    rfl
  rw [walk_eq, peek?_of_ascii hq.1 (by decide)]
  simp only [hopens]
  rw [skipLine_offset p q (hline ▸ hq)]
  rfl

/-- From a place the walk comes to the place behind the next piece, unless that
is an ASCII character of its own. -/
theorem walk_piece (comments : Bool) {p q : Place} {piece : Piece} (h : PassesHigh p.bytes visit)
    (hp : p.take? (comments && p.atWordStart) = some (piece, q))
    (hpiece : ∀ c, piece = .plain c → IsHigh c) (state : σ) :
    walk p.bytes comments visit state p.offset =
      walk p.bytes comments visit state q.offset := by
  have hq := Place.passes_of_take? hp
  have hkind := complete_or_open_of_take? hp
  -- a piece that is not complete takes the rest of the text
  have hend (hnil : q.ahead = []) : p.bytes.length = q.offset := by
    rw [← hq.bytes_eq, q.length_bytes, hnil]
    rfl
  cases piece with
  | escape c => exact walk_escape comments h hq state
  | backslash =>
      obtain ⟨hnil, -⟩ := hkind.resolve_left id
      have hahead : p.ahead = ['\\'] := by
        rw [hq.1, hnil]
        rfl
      rw [walk_eq, peek?_of_ascii hahead (by decide), ← hend hnil,
        ← advance_two_of_backslash hahead]
      rfl
  | single content =>
      let r : Place := ⟨'\x27' :: p.behind, content ++ '\x27' :: q.ahead⟩
      have hr : p.Passes ['\x27'] r := ⟨by simpa [Piece.text] using hq.1, rfl⟩
      have hclosed : r.Passes (content ++ ['\x27']) q :=
        ⟨by simp [r], by simpa [Piece.text] using hq.2⟩
      rw [walk_single comments hr, Piece.splitSingle?_closed (hkind.resolve_right And.right),
        quoteEnd_closed hclosed (by decide)]
  | double content =>
      let r : Place := ⟨'"' :: p.behind, content ++ '"' :: q.ahead⟩
      have hr : p.Passes ['"'] r := ⟨by simpa [Piece.text] using hq.1, rfl⟩
      have hclosed : r.Passes (content ++ ['"']) q :=
        ⟨by simp [r], by simpa [Piece.text] using hq.2⟩
      rw [walk_double comments hr, Piece.splitDouble?_closed (hkind.resolve_right And.right),
        quoteEnd_closed hclosed (by decide)]
  | unclosed mark rest =>
      obtain ⟨hnil, hopen⟩ := hkind.resolve_left id
      have hr : p.Passes [mark] ⟨mark :: p.behind, rest⟩ :=
        ⟨by simpa [Piece.text, hnil] using hq.1, rfl⟩
      rcases hopen with ⟨rfl, hrest⟩ | ⟨rfl, hrest⟩
      · rw [walk_single comments hr, Piece.splitSingle?_eq_none_iff.mpr hrest, ← hend hnil,
          quoteEnd, hr.bytes_eq]
      · rw [walk_double comments hr, Piece.splitDouble?_eq_none_iff.mpr hrest, ← hend hnil,
          quoteEnd, hr.bytes_eq]
  | comment line =>
      rcases hkind with ⟨hcomments, hlast, hinner⟩ | ⟨hnil, hcomments, hline⟩
      · rw [Bool.and_eq_true] at hcomments
        obtain ⟨inner, rfl⟩ := List.getLast?_eq_some_iff.mp hlast
        rw [List.dropLast_concat] at hinner
        have hsplit : Piece.splitLine p.ahead = ('#' :: inner ++ ['\n'], q.ahead) := by
          rw [← Piece.splitLine_closed (by simpa using hinner), hq.1]
          simp [Piece.text]
        exact walk_comment hq (congrArg Prod.fst hsplit) hcomments.1 hcomments.2 state
      · rw [Bool.and_eq_true] at hcomments
        have hsplit : Piece.splitLine p.ahead = ('#' :: line, []) := by
          rw [← Piece.splitLine_open (by simpa using hline), hq.1, hnil]
          simp [Piece.text]
        exact walk_comment hq (congrArg Prod.fst hsplit) hcomments.1 hcomments.2 state
  | plain c => exact (coasts_walk comments h state).high hq (hpiece c rfl)

/-- A plain ASCII character is shown to the visitor at its place. -/
theorem walk_plain (comments : Bool) {p q : Place} {c : Char}
    (hp : p.take? (comments && p.atWordStart) = some (.plain c, q)) (hc : c.toNat < 128)
    (state : σ) :
    walk p.bytes comments visit state p.offset =
      match visit state p.offset c with
      | .error cause => .error cause
      | .ok (.leave result) => .ok (some result)
      | .ok (.move n next _) =>
          walk p.bytes comments visit next (advance p.bytes p.offset n) := by
  obtain ⟨hslash, hsingle, hdouble, hhash⟩ :=
    (complete_or_open_of_take? hp).resolve_right And.right
  have hcomment : opensComment p.bytes comments p.offset c = .ok false := by
    have hnone : (comments && decide (c = '#') && p.atWordStart) = false := by
      rw [Bool.and_right_comm]
      by_cases h : c = '#'
      · rw [hhash h, Bool.false_and]
      · rw [decide_eq_false h, Bool.and_false]
    rw [opensComment_eq, hnone]
  rw [walk_eq, peek?_of_ascii (Place.passes_of_take? hp).1 hc]
  simp only [if_neg hslash, if_neg hsingle, if_neg hdouble, hcomment]

/-- A piece is passed if the visitor lets the walk go on at the character that
it may be. -/
theorem walk_pass (comments : Bool) {p q : Place} {piece : Piece} (h : PassesHigh p.bytes visit)
    (hp : p.take? (comments && p.atWordStart) = some (piece, q)) {state : σ}
    (hpass : ∀ c, piece = .plain c → c.toNat < 128 →
      visit state p.offset c = .ok (.pass state)) :
    walk p.bytes comments visit state p.offset =
      walk p.bytes comments visit state q.offset := by
  by_cases hplain : ∃ c, piece = .plain c ∧ c.toNat < 128
  · obtain ⟨c, rfl, hc⟩ := hplain
    rw [walk_plain comments hp hc, hpass c rfl hc, ← advance_one (Place.passes_of_take? hp) hc]
    rfl
  · refine walk_piece comments h hp (fun c hc => ?_) state
    exact Nat.le_of_not_lt fun hlt => hplain ⟨c, hc, hlt⟩

theorem walk_nil (comments : Bool) {p : Place} {comments' : Bool}
    (hp : p.take? comments' = none) (state : σ) :
    walk p.bytes comments visit state p.offset = .ok none := by
  rw [walk_eq, peek?_of_nil (Piece.eq_nil_of_first? (Option.map_eq_none_iff.mp hp))]

/-- The visitor leaves with a result at a position or later. -/
def Leaves (bytes : Bytes) (visit : σ → Nat → Char → Except BadAccess (Verdict σ ρ))
    (result : ρ) (pos : Nat) : Prop :=
  ∃ state pos' c, pos ≤ pos' ∧ peek? bytes pos' = some c ∧
    visit state pos' c = .ok (.leave result)

theorem Leaves.mono {result : ρ} {pos next : Nat} (h : Leaves bytes visit result next)
    (hle : pos ≤ next) : Leaves bytes visit result pos := by
  obtain ⟨state, pos', c, hnext, hvisit⟩ := h
  exact ⟨state, pos', c, Nat.le_trans hle hnext, hvisit⟩

/-- A walk with a result has come to a byte at which the visitor leaves. -/
theorem leaves_of_walk {comments : Bool} {state : σ} {pos : Nat} {result : ρ}
    (h : walk bytes comments visit state pos = .ok (some result)) :
    Leaves bytes visit result pos := by
  fun_induction walk bytes comments visit state pos with
  | case1 => cases h
  | case2 state pos hc ih => exact (ih h).mono (le_advance (Nat.le_of_lt (lt_of_peek? hc)) 2)
  | case3 state pos hc _ ih =>
      exact (ih h).mono (Nat.le_of_lt (lt_skipSingle (lt_of_peek? hc)))
  | case4 state pos hc _ _ ih =>
      exact (ih h).mono (Nat.le_of_lt (lt_skipDouble (lt_of_peek? hc)))
  | case5 => cases h
  | case6 state pos c hc _ _ _ _ ih => exact (ih h).mono (Nat.le_of_lt (lt_skipLine hc))
  | case7 => cases h
  | case8 state pos c hc _ _ _ _ result' hvisit =>
      cases h
      exact ⟨state, pos, c, Nat.le_refl _, hc, hvisit⟩
  | case9 state pos c hc _ _ _ _ n next _ hvisit ih =>
      exact (ih h).mono (le_advance (Nat.le_of_lt (lt_of_peek? hc)) n)

end

end CaseTable.Bytewise
