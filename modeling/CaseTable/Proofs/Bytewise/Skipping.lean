import CaseTable.Proofs.Bytewise.Positions
import CaseTable.Proofs.Shell.Readings

/-!
# Lines and quoted strings, byte by byte

The rest of a line and a quoted string are passed byte by byte. In a
double-quoted string a backslash is passed with the byte behind it, which may be
the first of several that make up a character, so a position in the middle of a
character is reached. Only bytes outside ASCII follow there, and both readers
step over them (`coasts_skipLine`, `coasts_skipDouble_go`).

At a place they come to the place behind the line (`skipLine_offset`) or behind
the string, if it closes, and otherwise to the end (`skipSingle_offset`,
`skipDouble_offset`).
-/

namespace CaseTable.Bytewise

open Shell

theorem sub_advance_lt {bytes : Bytes} {pos n : Nat} (h : pos < bytes.length) (hn : 0 < n) :
    bytes.length - advance bytes pos n < bytes.length - pos := by
  have := lt_advance h hn
  omega

theorem peek?_length (bytes : Bytes) : peek? bytes bytes.length = none := by
  rw [peek?, List.getElem?_eq_none (Nat.le_refl _)]
  rfl

/-- One byte further from a place is the next place, if the byte is a character. -/
theorem advance_one {p q : Place} {c : Char} (h : p.Passes [c] q) (hc : c.toNat < 128) :
    advance p.bytes p.offset 1 = q.offset := by
  have hsize : Text.byteSize [c] = 1 := utf8Size_of_ascii hc
  rw [← hsize, advance_byteSize h]

/-- The byte behind an ASCII character is seen as the character there. -/
theorem peek?_succ_eq_some_iff {p : Place} {c d : Char} {t : Text} (h : p.ahead = c :: t)
    (hc : c.toNat < 128) (hd : d.toNat < 128) :
    peek? p.bytes (p.offset + 1) = some d ↔ t.head? = some d := by
  have hr : p.Passes [c] ⟨c :: p.behind, t⟩ := ⟨h, rfl⟩
  rw [← advance_of_le (lt_of_peek? (peek?_of_ascii h hc)), advance_one hr hc, ← hr.bytes_eq,
    peek?_eq_some_iff hd]
  rfl

/-- A character is passed if an ASCII character there is. -/
theorem Coasts.next {α : Type} {p q : Place} {c : Char} {f : Nat → α} (h : Coasts p.bytes f)
    (hq : p.Passes [c] q)
    (hplain : c.toNat < 128 → f p.offset = f (advance p.bytes p.offset 1)) :
    f p.offset = f q.offset := by
  by_cases hc : c.toNat < 128
  · rw [hplain hc, advance_one hq hc]
  · exact h.high hq (Nat.le_of_not_lt hc)

/-- A backslash is passed with one byte of what follows it. -/
theorem Coasts.escape {α : Type} {p q : Place} {c : Char} {f : Nat → α} (h : Coasts p.bytes f)
    (hq : p.Passes ['\\', c] q) : f (advance p.bytes p.offset 2) = f q.offset := by
  let r : Place := ⟨'\\' :: p.behind, c :: q.ahead⟩
  have hr : p.Passes ['\\'] r := ⟨hq.1, rfl⟩
  have hlt : r.offset < r.bytes.length := by
    have := c.utf8Size_pos
    rw [r.length_bytes, Text.byteSize_cons]
    omega
  have hoffset : r.offset = p.offset + 1 := hr.offset_eq
  rw [hr.bytes_eq] at hlt
  rw [← hr.bytes_eq] at h
  rw [advance_of_le (by omega), ← h.behind (show r.Passes [c] q from ⟨rfl, hq.2⟩), hoffset]

/-- A backslash at the end is passed alone. -/
theorem advance_two_of_backslash {p : Place} (h : p.ahead = ['\\']) :
    advance p.bytes p.offset 2 = p.bytes.length := by
  have hlength := p.length_bytes
  rw [h, Text.byteSize_cons, Text.byteSize_nil, utf8Size_of_ascii (by decide)] at hlength
  rw [advance, hlength]
  exact Nat.min_eq_right (Nat.le_succ _)

/-! ## Lines -/

/-- The position behind the next line feed, or the end. -/
def skipLine (bytes : Bytes) (pos : Nat) : Nat :=
  match _ : peek? bytes pos with
  | none => pos
  | some c =>
      if c = '\n' then advance bytes pos 1 else skipLine bytes (advance bytes pos 1)
termination_by bytes.length - pos
decreasing_by exact sub_advance_lt (lt_of_peek? (by assumption)) Nat.one_pos

theorem skipLine_eq (bytes : Bytes) (pos : Nat) :
    skipLine bytes pos = match peek? bytes pos with
      | none => pos
      | some c =>
          if c = '\n' then advance bytes pos 1 else skipLine bytes (advance bytes pos 1) := by
  rw [skipLine]
  split <;> next h => rw [h]

theorem coasts_skipLine (bytes : Bytes) : Coasts bytes (skipLine bytes) := by
  intro pos c hc hhigh
  rw [skipLine_eq, hc]
  exact if_neg (hhigh.ne (by decide))

theorem skipLine_newline {p q : Place} (h : p.Passes ['\n'] q) :
    skipLine p.bytes p.offset = q.offset := by
  rw [skipLine_eq, peek?_of_ascii h.1 (by decide)]
  exact advance_one h (by decide)

theorem skipLine_next {p q : Place} {c : Char} (h : p.Passes [c] q) (hc : c ≠ '\n') :
    skipLine p.bytes p.offset = skipLine p.bytes q.offset := by
  refine (coasts_skipLine _).next h fun hascii => ?_
  rw [skipLine_eq, peek?_of_ascii h.1 hascii]
  exact if_neg hc

theorem skipLine_offset (p q : Place) (h : p.Passes (Piece.splitLine p.ahead).1 q) :
    skipLine p.bytes p.offset = q.offset := by
  obtain ⟨behind, ahead⟩ := p
  induction ahead generalizing behind with
  | nil =>
      rw [skipLine_eq, peek?_of_nil rfl, h.offset_eq]
      rfl
  | cons c t ih =>
      let r : Place := ⟨c :: behind, t⟩
      have hr : (⟨behind, c :: t⟩ : Place).Passes [c] r := ⟨rfl, rfl⟩
      by_cases hline : c = '\n'
      · subst hline
        rw [skipLine_newline hr, hr.offset_eq]
        exact h.offset_eq.symm
      · have hsplit : Piece.splitLine (c :: t) =
            (c :: (Piece.splitLine t).1, (Piece.splitLine t).2) := by
          rw [Piece.splitLine]
          exact fun h => hline h
        rw [hsplit] at h
        have hlater : r.Passes (Piece.splitLine t).1 q := by
          refine ⟨(List.cons.inj h.1).2, ?_⟩
          rw [h.2, List.reverse_cons, List.append_assoc]
          rfl
        rw [skipLine_next hr hline, ← ih (c :: behind) hlater, hr.bytes_eq]

/-! ## Quoted strings -/

/-- The position behind a single-quoted string, and whether the string closes. -/
def skipSingle (bytes : Bytes) (pos : Nat) : Bool × Nat := go (advance bytes pos 1)
where
  go (pos : Nat) : Bool × Nat :=
    match _ : peek? bytes pos with
    | none => (false, pos)
    | some c =>
        if c = '\x27' then (true, advance bytes pos 1) else go (advance bytes pos 1)
  termination_by bytes.length - pos
  decreasing_by exact sub_advance_lt (lt_of_peek? (by assumption)) Nat.one_pos

/-- The position behind a double-quoted string, and whether the string closes. -/
def skipDouble (bytes : Bytes) (pos : Nat) : Bool × Nat := go (advance bytes pos 1)
where
  go (pos : Nat) : Bool × Nat :=
    match _ : peek? bytes pos with
    | none => (false, pos)
    | some c =>
        if c = '\\' then go (advance bytes pos 2)
        else if c = '"' then (true, advance bytes pos 1)
        else go (advance bytes pos 1)
  termination_by bytes.length - pos
  decreasing_by
    · exact sub_advance_lt (lt_of_peek? (by assumption)) Nat.two_pos
    · exact sub_advance_lt (lt_of_peek? (by assumption)) Nat.one_pos

theorem skipSingle_go_eq (bytes : Bytes) (pos : Nat) :
    skipSingle.go bytes pos = match peek? bytes pos with
      | none => (false, pos)
      | some c =>
          if c = '\x27' then (true, advance bytes pos 1)
          else skipSingle.go bytes (advance bytes pos 1) := by
  rw [skipSingle.go]
  split <;> next h => rw [h]

theorem skipDouble_go_eq (bytes : Bytes) (pos : Nat) :
    skipDouble.go bytes pos = match peek? bytes pos with
      | none => (false, pos)
      | some c =>
          if c = '\\' then skipDouble.go bytes (advance bytes pos 2)
          else if c = '"' then (true, advance bytes pos 1)
          else skipDouble.go bytes (advance bytes pos 1) := by
  rw [skipDouble.go]
  split <;> next h => rw [h]

theorem coasts_skipSingle_go (bytes : Bytes) : Coasts bytes (skipSingle.go bytes) := by
  intro pos c hc hhigh
  rw [skipSingle_go_eq, hc]
  exact if_neg (hhigh.ne (by decide))

theorem coasts_skipDouble_go (bytes : Bytes) : Coasts bytes (skipDouble.go bytes) := by
  intro pos c hc hhigh
  rw [skipDouble_go_eq, hc]
  exact (if_neg (hhigh.ne (by decide))).trans (if_neg (hhigh.ne (by decide)))

/-- Where a string ends is where the text is split, and a string that does not
close runs to the end. -/
def quoteEnd (p : Place) (split : Option (Text × Text)) : Bool × Nat :=
  match split with
  | some (content, _) => (true, p.offset + content.byteSize + 1)
  | none => (false, p.bytes.length)

theorem quoteEnd_map {p q : Place} {s : Text} (h : p.Passes s q)
    (split : Option (Text × Text)) :
    quoteEnd p (split.map fun (content, rest) => (s ++ content, rest)) = quoteEnd q split := by
  cases split with
  | none => rw [Option.map_none, quoteEnd, quoteEnd, h.bytes_eq]
  | some split =>
      rw [Option.map_some, quoteEnd, quoteEnd, h.offset_eq, Text.byteSize_append]
      simp only [Nat.add_assoc]

/-- A string that closes ends behind its mark. -/
theorem quoteEnd_closed {p q : Place} {mark : Char} {content : Text}
    (h : p.Passes (content ++ [mark]) q) (hmark : mark.toNat < 128) (rest : Text) :
    quoteEnd p (some (content, rest)) = (true, q.offset) := by
  rw [quoteEnd, h.offset_eq, Text.byteSize_append, Text.byteSize_cons, Text.byteSize_nil,
    utf8Size_of_ascii hmark, Nat.add_assoc]

theorem skipSingle_go_offset (p : Place) :
    skipSingle.go p.bytes p.offset = quoteEnd p (Piece.splitSingle? p.ahead) := by
  obtain ⟨behind, ahead⟩ := p
  induction ahead generalizing behind with
  | nil =>
      rw [skipSingle_go_eq, peek?_of_nil rfl]
      exact congrArg (Prod.mk false) (Place.length_bytes ⟨behind, []⟩).symm
  | cons c t ih =>
      have hr : (⟨behind, c :: t⟩ : Place).Passes [c] ⟨c :: behind, t⟩ := ⟨rfl, rfl⟩
      by_cases hquote : c = '\x27'
      · subst hquote
        rw [skipSingle_go_eq, peek?_of_ascii rfl (by decide)]
        exact congrArg (Prod.mk true) ((advance_one hr (by decide)).trans hr.offset_eq)
      · rw [Piece.splitSingle?, if_neg hquote]
        refine .trans ?_ (quoteEnd_map hr (Piece.splitSingle? t)).symm
        rw [← ih (c :: behind), hr.bytes_eq]
        refine (coasts_skipSingle_go _).next hr fun hc => ?_
        rw [skipSingle_go_eq, peek?_of_ascii rfl hc]
        exact if_neg hquote

theorem skipDouble_go_offset (p : Place) :
    skipDouble.go p.bytes p.offset = quoteEnd p (Piece.splitDouble? p.ahead) := by
  obtain ⟨behind, ahead⟩ := p
  fun_induction Piece.splitDouble? ahead generalizing behind with
  | case1 =>
      rw [skipDouble_go_eq, peek?_of_nil rfl]
      exact congrArg (Prod.mk false) (Place.length_bytes ⟨behind, []⟩).symm
  | case2 t =>
      have hr : (⟨behind, '"' :: t⟩ : Place).Passes ['"'] ⟨'"' :: behind, t⟩ := ⟨rfl, rfl⟩
      rw [skipDouble_go_eq, peek?_of_ascii rfl (by decide)]
      exact congrArg (Prod.mk true) ((advance_one hr (by decide)).trans hr.offset_eq)
  | case3 c t ih =>
      have hr : (⟨behind, '\\' :: c :: t⟩ : Place).Passes ['\\', c] ⟨c :: '\\' :: behind, t⟩ :=
        ⟨rfl, rfl⟩
      refine .trans ?_ (quoteEnd_map hr (Piece.splitDouble? t)).symm
      rw [← ih (c :: '\\' :: behind), hr.bytes_eq, skipDouble_go_eq, peek?_of_ascii rfl (by decide)]
      exact (coasts_skipDouble_go _).escape hr
  | case4 c t hquote hescape ih =>
      have hr : (⟨behind, c :: t⟩ : Place).Passes [c] ⟨c :: behind, t⟩ := ⟨rfl, rfl⟩
      by_cases hslash : c = '\\'
      -- a backslash that hides nothing is the last character
      · obtain rfl : t = [] := List.eq_nil_iff_forall_not_mem.mpr fun d hd => by
          obtain ⟨e, u, rfl⟩ := List.exists_cons_of_ne_nil (List.ne_nil_of_mem hd)
          exact hescape e u hslash rfl
        subst hslash
        rw [skipDouble_go_eq, peek?_of_ascii rfl (by decide)]
        change skipDouble.go _ (advance (⟨behind, ['\\']⟩ : Place).bytes _ 2) = _
        rw [advance_two_of_backslash rfl, skipDouble_go_eq, peek?_length]
        rfl
      · have hsplit : Piece.splitDouble? (c :: t) =
            (Piece.splitDouble? t).map fun (content, rest) => ([c] ++ content, rest) := by
          rw [Piece.splitDouble?]
          · rfl
          · exact hquote
          · exact hescape
        refine .trans ?_ (congrArg (quoteEnd _) hsplit.symm)
        rw [quoteEnd_map hr, ← ih (c :: behind), hr.bytes_eq]
        refine (coasts_skipDouble_go _).next hr fun hc => ?_
        rw [skipDouble_go_eq, peek?_of_ascii rfl hc]
        exact (if_neg hslash).trans (if_neg hquote)

theorem skipSingle_offset {p q : Place} (h : p.Passes ['\x27'] q) :
    skipSingle p.bytes p.offset = quoteEnd q (Piece.splitSingle? q.ahead) := by
  rw [skipSingle, advance_one h (by decide), ← h.bytes_eq, skipSingle_go_offset]

theorem skipDouble_offset {p q : Place} (h : p.Passes ['"'] q) :
    skipDouble p.bytes p.offset = quoteEnd q (Piece.splitDouble? q.ahead) := by
  rw [skipDouble, advance_one h (by decide), ← h.bytes_eq, skipDouble_go_offset]

/-! ## Forward -/

theorem le_skipLine {bytes : Bytes} {pos : Nat} (h : pos ≤ bytes.length) :
    pos ≤ skipLine bytes pos := by
  fun_induction skipLine bytes pos with
  | case1 pos => exact Nat.le_refl _
  | case2 pos => exact le_advance h 1
  | case3 pos c hc _ ih =>
      exact Nat.le_trans (le_advance h 1) (ih (Nat.min_le_right _ _))

theorem lt_skipLine {bytes : Bytes} {pos : Nat} {c : Char} (h : peek? bytes pos = some c) :
    pos < skipLine bytes pos := by
  have hlt := lt_advance (lt_of_peek? h) Nat.one_pos
  rw [skipLine_eq, h]
  simp only []
  split
  · exact hlt
  · exact Nat.lt_of_lt_of_le hlt (le_skipLine (Nat.min_le_right _ _))

theorem lt_skipSingle {bytes : Bytes} {pos : Nat} (h : pos < bytes.length) :
    pos < (skipSingle bytes pos).2 := by
  have hgo : ∀ pos ≤ bytes.length, pos ≤ (skipSingle.go bytes pos).2 := by
    intro pos hpos
    fun_induction skipSingle.go bytes pos with
    | case1 pos => exact Nat.le_refl _
    | case2 pos => exact le_advance hpos 1
    | case3 pos c hc _ ih =>
        exact Nat.le_trans (le_advance hpos 1) (ih (Nat.min_le_right _ _))
  exact Nat.lt_of_lt_of_le (lt_advance h Nat.one_pos) (hgo _ (Nat.min_le_right _ _))

theorem lt_skipDouble {bytes : Bytes} {pos : Nat} (h : pos < bytes.length) :
    pos < (skipDouble bytes pos).2 := by
  have hgo : ∀ pos ≤ bytes.length, pos ≤ (skipDouble.go bytes pos).2 := by
    intro pos hpos
    fun_induction skipDouble.go bytes pos with
    | case1 pos => exact Nat.le_refl _
    | case2 pos hc ih => exact Nat.le_trans (le_advance hpos 2) (ih (Nat.min_le_right _ _))
    | case3 pos => exact le_advance hpos 1
    | case4 pos c hc _ _ ih =>
        exact Nat.le_trans (le_advance hpos 1) (ih (Nat.min_le_right _ _))
  exact Nat.lt_of_lt_of_le (lt_advance h Nat.one_pos) (hgo _ (Nat.min_le_right _ _))

end CaseTable.Bytewise
