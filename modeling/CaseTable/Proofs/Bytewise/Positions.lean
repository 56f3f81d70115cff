import CaseTable.Proofs.CheckedAccess
import CaseTable.Shell.Keyword

/-!
# Positions in the bytes of a text

A scanner may walk over the bytes of a text instead of its characters. It
compares single bytes with ASCII characters, so it sees the byte of an ASCII
character as that character, and every other byte as one outside ASCII
(`peek?_of_ascii`, `exists_peek?_of_high`).

That such a scanner may stop inside a character does no harm as long as it
steps over the bytes outside ASCII one by one: it then comes out at the place
behind the character (`Coasts.behind`). What it learns at a place about the word
that starts there is what the characters say (`atWordStart_eq`,
`atKeyword_eq`).

All later lemmas about such a reader have one shape: at the offset of a place it
gives what the reader of characters gives at the place, with offsets for places,
and with no bad access.
-/

namespace CaseTable

namespace Place

/-- The bytes of the whole text around a place. -/
def bytes (p : Place) : Bytes := Text.toBytes p.text

theorem Passes.bytes_eq {p q : Place} {s : Text} (h : p.Passes s q) : q.bytes = p.bytes := by
  rw [bytes, bytes, h.text_eq]

theorem Passes.advance_length {p q : Place} {s : Text} (h : p.Passes s q) :
    p.advance s.length = q := by
  obtain ⟨behind, ahead⟩ := q
  obtain ⟨hahead, rfl⟩ := h
  rw [advance, hahead, List.take_left, List.drop_left]

theorem drop_bytes (p : Place) : p.bytes.drop p.offset = Text.toBytes p.ahead := by
  rw [bytes, text, Text.toBytes_append, offset, ← Text.byteSize_reverse, ← Text.length_toBytes,
    List.drop_left]

theorem length_bytes (p : Place) : p.bytes.length = p.offset + Text.byteSize p.ahead := by
  rw [bytes, Text.length_toBytes, text, Text.byteSize_append, Text.byteSize_reverse, offset]

theorem getElem?_bytes (p : Place) (n : Nat) :
    p.bytes[p.offset + n]? = (Text.toBytes p.ahead)[n]? := by
  rw [← p.drop_bytes, List.getElem?_drop]

end Place

namespace Bytewise

/-! ## One byte -/

/-- The byte at a position, as the character of that number. -/
def peek? (bytes : Bytes) (pos : Nat) : Option Char := bytes[pos]?.map Char.ofUInt8

/-- The position `n` bytes further on, or the end. -/
def advance (bytes : Bytes) (pos n : Nat) : Nat := min (pos + n) bytes.length

/-- A character outside ASCII. -/
def IsHigh (c : Char) : Prop := 128 ≤ c.toNat

instance (c : Char) : Decidable (IsHigh c) := inferInstanceAs (Decidable (128 ≤ c.toNat))

theorem lt_of_peek? {bytes : Bytes} {pos : Nat} {c : Char} (h : peek? bytes pos = some c) :
    pos < bytes.length := by
  obtain ⟨b, hb, -⟩ := Option.map_eq_some_iff.mp h
  exact (List.getElem?_eq_some_iff.mp hb).1

theorem advance_of_le {bytes : Bytes} {pos n : Nat} (h : pos + n ≤ bytes.length) :
    advance bytes pos n = pos + n := Nat.min_eq_left h

theorem lt_advance {bytes : Bytes} {pos n : Nat} (h : pos < bytes.length) (hn : 0 < n) :
    pos < advance bytes pos n := by
  rw [advance]
  omega

theorem le_advance {bytes : Bytes} {pos : Nat} (h : pos ≤ bytes.length) (n : Nat) :
    pos ≤ advance bytes pos n := by
  rw [advance]
  omega

/-- As many bytes further as a text has, the place behind it is. -/
theorem advance_byteSize {p q : Place} {s : Text} (h : p.Passes s q) :
    advance p.bytes p.offset s.byteSize = q.offset := by
  rw [h.offset_eq, advance_of_le]
  rw [← h.offset_eq, ← h.bytes_eq, q.length_bytes]
  exact Nat.le_add_right _ _

theorem IsHigh.ne {c d : Char} (h : IsHigh c) (hd : d.toNat < 128) : c ≠ d := by
  rintro rfl
  exact Nat.not_le.mpr hd h

theorem utf8EncodeChar_of_ascii {c : Char} (h : c.toNat < 128) :
    String.utf8EncodeChar c = [UInt8.ofNat c.toNat] := by
  have hsmall : c.val.toNat ≤ 127 := Nat.le_of_lt_succ h
  simp only [String.utf8EncodeChar, if_pos hsmall]
  rfl

theorem ofUInt8_of_ascii {c : Char} (h : c.toNat < 128) :
    Char.ofUInt8 (UInt8.ofNat c.toNat) = c := by
  rw [← Char.toNat_inj]
  change (UInt8.ofNat c.toNat).toNat = c.toNat
  rw [UInt8.toNat_ofNat', Nat.mod_eq_of_lt (by omega)]

/-- All bytes of a character outside ASCII are outside ASCII. -/
theorem isHigh_of_mem_utf8EncodeChar {c : Char} (h : IsHigh c) {b : UInt8}
    (hb : b ∈ String.utf8EncodeChar c) : IsHigh (Char.ofUInt8 b) := by
  have hlarge : ¬ c.val.toNat ≤ 127 := Nat.not_le.mpr h
  change 128 ≤ b.toNat
  simp only [String.utf8EncodeChar, if_neg hlarge] at hb
  repeat' split at hb
  all_goals
    simp only [List.mem_cons, List.not_mem_nil, or_false] at hb
    rcases hb with rfl | rfl | rfl | rfl <;> rw [UInt8.toNat_ofNat'] <;> omega

theorem peek?_of_nil {p : Place} (h : p.ahead = []) : peek? p.bytes p.offset = none := by
  rw [peek?, List.getElem?_eq_none (by rw [p.length_bytes, h]; exact Nat.le_refl _)]
  rfl

theorem peek?_of_ascii {p : Place} {c : Char} {t : Text} (h : p.ahead = c :: t)
    (hc : c.toNat < 128) : peek? p.bytes p.offset = some c := by
  have hbyte := p.getElem?_bytes 0
  rw [h, Text.toBytes_cons, utf8EncodeChar_of_ascii hc] at hbyte
  rw [peek?, ← Nat.add_zero p.offset, hbyte]
  exact congrArg some (ofUInt8_of_ascii hc)

theorem exists_peek?_of_high {p : Place} {c : Char} {t : Text} (h : p.ahead = c :: t)
    (hc : IsHigh c) {n : Nat} (hn : n < c.utf8Size) :
    ∃ d, peek? p.bytes (p.offset + n) = some d ∧ IsHigh d := by
  have hlength : n < (String.utf8EncodeChar c).length := by rwa [String.length_utf8EncodeChar]
  have hbyte : p.bytes[p.offset + n]? = some (String.utf8EncodeChar c)[n] := by
    rw [p.getElem?_bytes, h, Text.toBytes_cons, List.getElem?_append_left hlength,
      List.getElem?_eq_getElem hlength]
  refine ⟨_, by rw [peek?, hbyte]; rfl, ?_⟩
  exact isHigh_of_mem_utf8EncodeChar hc (List.getElem_mem hlength)

theorem utf8Size_of_ascii {c : Char} (h : c.toNat < 128) : c.utf8Size = 1 := by
  rw [← String.length_utf8EncodeChar, utf8EncodeChar_of_ascii h]
  rfl

/-- The next byte is the next character, or both are outside ASCII. -/
theorem peek?_cases (p : Place) : peek? p.bytes p.offset = p.next? ∨
    ∃ c d, p.next? = some c ∧ IsHigh c ∧ peek? p.bytes p.offset = some d ∧ IsHigh d := by
  obtain ⟨behind, ahead⟩ := p
  cases ahead with
  | nil => exact .inl (peek?_of_nil rfl)
  | cons c t =>
      by_cases hc : c.toNat < 128
      · exact .inl (peek?_of_ascii rfl hc)
      · have hhigh : IsHigh c := Nat.le_of_not_lt hc
        obtain ⟨d, hd, hdhigh⟩ :=
          exists_peek?_of_high (p := ⟨behind, c :: t⟩) rfl hhigh c.utf8Size_pos
        exact .inr ⟨c, d, rfl, hhigh, hd, hdhigh⟩

theorem peek?_eq_some_iff {p : Place} {c : Char} (hc : c.toNat < 128) :
    peek? p.bytes p.offset = some c ↔ p.next? = some c := by
  rcases peek?_cases p with heq | ⟨e, d, he, hehigh, hd, hdhigh⟩
  · rw [heq]
  · rw [hd, he, Option.some_inj, Option.some_inj]
    exact iff_of_false (hdhigh.ne hc) (hehigh.ne hc)

/-- A test that only ASCII passes sees no difference. -/
theorem peek?_all {test : Char → Bool} (htest : ∀ c, IsHigh c → test c = false) (p : Place) :
    (peek? p.bytes p.offset).all test = p.next?.all test := by
  rcases peek?_cases p with heq | ⟨c, d, hc, hchigh, hd, hdhigh⟩
  · rw [heq]
  · rw [hd, hc]
    exact (htest d hdhigh).trans (htest c hchigh).symm

/-! ## Readers that step over high bytes -/

/-- A reader of a position steps over the bytes outside ASCII. -/
def Coasts {α : Type} (bytes : Bytes) (f : Nat → α) : Prop :=
  ∀ pos c, peek? bytes pos = some c → IsHigh c → f pos = f (advance bytes pos 1)

theorem Coasts.eq_of_high {α : Type} {bytes : Bytes} {f : Nat → α} (h : Coasts bytes f)
    {pos n : Nat} (hhigh : ∀ k < n, ∃ d, peek? bytes (pos + k) = some d ∧ IsHigh d) :
    f pos = f (pos + n) := by
  induction n with
  | zero => rfl
  | succ n ih =>
      obtain ⟨d, hd, hdhigh⟩ := hhigh n (Nat.lt_succ_self n)
      have hlt := lt_of_peek? hd
      rw [ih fun k hk => hhigh k (Nat.lt_succ_of_lt hk), h _ _ hd hdhigh, advance_of_le hlt]
      rfl

/-- From behind the first byte of a character such a reader comes to the place
behind the character. -/
theorem Coasts.behind {α : Type} {p q : Place} {c : Char} {f : Nat → α} (h : Coasts p.bytes f)
    (hq : p.Passes [c] q) : f (p.offset + 1) = f q.offset := by
  have hoffset := hq.offset_eq
  have hpos := c.utf8Size_pos
  rw [Text.byteSize_cons, Text.byteSize_nil, Nat.add_zero] at hoffset
  by_cases hc : c.toNat < 128
  · rw [hoffset, utf8Size_of_ascii hc]
  · have hhigh : ∀ k < c.utf8Size - 1, ∃ d, peek? p.bytes (p.offset + 1 + k) = some d ∧
        IsHigh d := by
      intro k hk
      rw [Nat.add_assoc]
      exact exists_peek?_of_high hq.1 (Nat.le_of_not_lt hc) (by omega)
    rw [h.eq_of_high hhigh, hoffset]
    congr 1
    omega

/-- A character outside ASCII is passed. -/
theorem Coasts.high {α : Type} {p q : Place} {c : Char} {f : Nat → α} (h : Coasts p.bytes f)
    (hq : p.Passes [c] q) (hc : IsHigh c) : f p.offset = f q.offset := by
  obtain ⟨d, hd, hdhigh⟩ := exists_peek?_of_high (n := 0) hq.1 hc c.utf8Size_pos
  rw [Nat.add_zero] at hd
  rw [← h.behind hq, h _ d hd hdhigh, advance_of_le (lt_of_peek? hd)]

/-! ## Words -/

/-- Whether a word may start at a position. -/
def atWordStart (bytes : Bytes) (pos : Nat) : Except BadAccess Bool :=
  if pos = 0 then .ok true
  else (Checked.index bytes (pos - 1)).map fun b => Shell.endsBefore (Char.ofUInt8 b)

/-- Whether a keyword stands delimited at a position. -/
def atKeyword (bytes : Bytes) (word : Text) (pos : Nat) : Except BadAccess Bool := do
  if ← atWordStart bytes pos then
    let rest ← Checked.back bytes pos
    return (Text.toBytes word).isPrefixOf rest &&
      (peek? bytes (pos + word.byteSize)).all Shell.endsAfter
  else
    return false

theorem endsBefore_of_isHigh {c : Char} (h : IsHigh c) : Shell.endsBefore c = false := by
  rw [Bool.eq_false_iff]
  intro hends
  simp only [Shell.endsBefore, Bool.or_eq_true, decide_eq_true_eq] at hends
  rcases hends with (((((((rfl | rfl) | rfl) | rfl) | rfl) | rfl) | rfl) | rfl) | rfl <;>
    exact absurd h (by decide)

theorem endsAfter_of_isHigh {c : Char} (h : IsHigh c) : Shell.endsAfter c = false := by
  rw [Bool.eq_false_iff]
  intro hends
  simp only [Shell.endsAfter, Bool.or_eq_true, decide_eq_true_eq] at hends
  rcases hends with ((((rfl | rfl) | rfl) | rfl) | rfl) | rfl <;> exact absurd h (by decide)

theorem exists_atWordStart {bytes : Bytes} {pos : Nat} (h : pos ≤ bytes.length) :
    ∃ starts, atWordStart bytes pos = .ok starts := by
  rw [atWordStart]
  split
  · exact ⟨true, rfl⟩
  · next hpos =>
      have hlt : pos - 1 < bytes.length := by omega
      rw [Checked.index_of_getElem? (List.getElem?_eq_getElem hlt)]
      exact ⟨_, rfl⟩

theorem atWordStart_eq (p : Place) : atWordStart p.bytes p.offset = .ok p.atWordStart := by
  obtain ⟨behind, ahead⟩ := p
  cases behind with
  | nil => rfl
  | cons c behind =>
      have hpos := c.utf8Size_pos
      let r : Place := ⟨behind, c :: ahead⟩
      have hr : r.Passes [c] ⟨c :: behind, ahead⟩ := ⟨rfl, rfl⟩
      have hoffset : (⟨c :: behind, ahead⟩ : Place).offset = r.offset + c.utf8Size := by
        rw [hr.offset_eq, Text.byteSize_cons, Text.byteSize_nil, Nat.add_zero]
      -- the byte before is the last one of the character before
      have hlast : ∃ d, peek? r.bytes (r.offset + (c.utf8Size - 1)) = some d ∧
          Shell.endsBefore d = Shell.endsBefore c := by
        by_cases hc : c.toNat < 128
        · refine ⟨c, ?_, rfl⟩
          rw [utf8Size_of_ascii hc]
          exact peek?_of_ascii rfl hc
        · have hhigh : IsHigh c := Nat.le_of_not_lt hc
          obtain ⟨d, hd, hdhigh⟩ := exists_peek?_of_high (p := r) rfl hhigh
            (show c.utf8Size - 1 < c.utf8Size by omega)
          exact ⟨d, hd, by rw [endsBefore_of_isHigh hdhigh, endsBefore_of_isHigh hhigh]⟩
      obtain ⟨d, hd, hsame⟩ := hlast
      obtain ⟨b, hb, rfl⟩ := Option.map_eq_some_iff.mp hd
      rw [atWordStart, if_neg (by omega), hr.bytes_eq,
        show (⟨c :: behind, ahead⟩ : Place).offset - 1 = r.offset + (c.utf8Size - 1) by omega,
        Checked.index_of_getElem? hb]
      exact congrArg Except.ok hsame

/-- A keyword of ASCII characters is at the front of a text exactly if its bytes
are at the front of the text's. -/
theorem isPrefixOf_toBytes {word : Text} (hword : word.all (fun c => c.toNat < 128) = true)
    (t : Text) :
    (Text.toBytes word).isPrefixOf (Text.toBytes t) = (Text.afterStart? word t).isSome := by
  induction word generalizing t with
  | nil => rfl
  | cons c word ih =>
      rw [List.all_cons, Bool.and_eq_true, decide_eq_true_eq] at hword
      obtain ⟨hc, hword⟩ := hword
      have hrest := ih hword
      rw [Text.toBytes_cons, utf8EncodeChar_of_ascii hc, List.singleton_append]
      cases t with
      | nil => rfl
      | cons d t =>
          rw [Text.toBytes_cons, Text.afterStart?]
          by_cases hd : d.toNat < 128
          · have hsame : (UInt8.ofNat c.toNat == UInt8.ofNat d.toNat) = decide (c = d) := by
              rw [Bool.eq_iff_iff, beq_iff_eq, decide_eq_true_eq]
              refine ⟨fun h => ?_, fun h => h ▸ rfl⟩
              rw [← ofUInt8_of_ascii hc, h, ofUInt8_of_ascii hd]
            rw [utf8EncodeChar_of_ascii hd, List.singleton_append, List.isPrefixOf, hsame, hrest]
            by_cases h : c = d <;> simp [h]
          · have hhigh : IsHigh d := Nat.le_of_not_lt hd
            obtain ⟨b, more, hb⟩ := List.exists_cons_of_ne_nil
              (show String.utf8EncodeChar d ≠ [] by simp)
            have hbhigh := isHigh_of_mem_utf8EncodeChar hhigh (hb ▸ List.mem_cons_self)
            have hne : (UInt8.ofNat c.toNat == b) = false := by
              refine beq_false_of_ne fun h => hbhigh.ne hc ?_
              rw [← h, ofUInt8_of_ascii hc]
            rw [hb, List.cons_append, List.isPrefixOf, hne, if_neg (hhigh.ne hc).symm]
            rfl

theorem atKeyword_of_isHigh {bytes : Bytes} {word : Text} {pos : Nat} {c d : Char}
    (hd : peek? bytes pos = some d) (hhigh : IsHigh d) (hc : c.toNat < 128) :
    atKeyword bytes (c :: word) pos = .ok false := by
  have hlt := lt_of_peek? hd
  obtain ⟨b, hb, rfl⟩ := Option.map_eq_some_iff.mp hd
  obtain ⟨hpos, rfl⟩ := List.getElem?_eq_some_iff.mp hb
  obtain ⟨starts, hstarts⟩ := exists_atWordStart (Nat.le_of_lt hlt)
  have hne : (UInt8.ofNat c.toNat == bytes[pos]) = false := by
    refine beq_false_of_ne fun h => hhigh.ne hc ?_
    rw [← h, ofUInt8_of_ascii hc]
  rw [atKeyword, hstarts]
  cases starts with
  | false => rfl
  | true =>
      simp only [bind, Except.bind, if_true, Checked.back_of_le (Nat.le_of_lt hlt)]
      rw [Text.toBytes_cons, utf8EncodeChar_of_ascii hc, List.singleton_append,
        List.drop_eq_getElem_cons hpos, List.isPrefixOf, hne]
      rfl

theorem atKeyword_eq {word : Text} (hword : word.all (fun c => c.toNat < 128) = true)
    (p : Place) :
    atKeyword p.bytes word p.offset = .ok (p.keyword? word).isSome := by
  rw [atKeyword, atWordStart_eq, Place.keyword?]
  cases p.atWordStart with
  | false => rfl
  | true =>
      have hle : p.offset ≤ p.bytes.length := by
        rw [p.length_bytes]
        exact Nat.le_add_right _ _
      simp only [bind, Except.bind, if_true, Checked.back_of_le hle]
      rw [p.drop_bytes, isPrefixOf_toBytes hword]
      cases hrest : Text.afterStart? word p.ahead with
      | none => rfl
      | some rest =>
          have hq : p.Passes word ⟨word.reverse ++ p.behind, rest⟩ :=
            ⟨Text.afterStart?_eq_some_iff.mp hrest, rfl⟩
          have hnext := peek?_all (fun c => endsAfter_of_isHigh) ⟨word.reverse ++ p.behind, rest⟩
          rw [hq.bytes_eq, hq.offset_eq] at hnext
          rw [hnext]
          change Except.ok (rest.head?.all Shell.endsAfter) = _
          simp only []
          cases rest.head?.all Shell.endsAfter <;> rfl

/-- Behind a keyword of four letters stands the place behind it. -/
theorem advance_keyword {word : Text} {p q : Place} (h : p.keyword? word = some q)
    (hword : word.byteSize = 4) : advance p.bytes p.offset 4 = q.offset := by
  rw [← hword, advance_byteSize (Place.passes_of_keyword? h)]

end Bytewise

end CaseTable
