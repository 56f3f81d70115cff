import CaseTable.Text

/-!
# Texts as bytes

The content of a file is a list of bytes; a text is stored in UTF-8. A reader collects bytes until
they are a character. No character starts with the bytes of another one, so the first character
that the bytes make up is the one that was written.

Reading accepts exactly what writing produces (`ofBytes?_eq_some_iff`).
-/

namespace CaseTable

/-- The content of a file. -/
abbrev Bytes := List UInt8

namespace Text

def toBytes (t : Text) : Bytes := t.flatMap String.utf8EncodeChar

/-- The code point that the low bits of the bytes of a character make up. -/
def codePoint : Bytes → Nat
  | [a] => a.toNat
  | [a, b] => a.toNat % 32 * 64 + b.toNat % 64
  | [a, b, c] => a.toNat % 16 * 4096 + b.toNat % 64 * 64 + c.toNat % 64
  | [a, b, c, d] =>
      a.toNat % 8 * 262144 + b.toNat % 64 * 4096 + c.toNat % 64 * 64 + d.toNat % 64
  | _ => 0

/-- The character that is stored as the bytes. -/
def charOfBytes? (bytes : Bytes) : Option Char :=
  let c := Char.ofNat (codePoint bytes)
  if String.utf8EncodeChar c = bytes then some c else none

/-- Reads on, where `done` is the text so far in reverse and `begun` are the bytes of a character
that is not complete. No character takes more than four bytes. -/
def readBytes (done : Text) (begun : Bytes) : Bytes → Option Text
  | [] => if begun = [] then some done.reverse else none
  | b :: rest =>
      match charOfBytes? (begun ++ [b]) with
      | some c => readBytes (c :: done) [] rest
      | none => if begun.length < 3 then readBytes done (begun ++ [b]) rest else none

/-- The text that the bytes hold in UTF-8. -/
def ofBytes? (bytes : Bytes) : Option Text := readBytes [] [] bytes

@[simp] theorem toBytes_nil : toBytes [] = [] := rfl

@[simp] theorem toBytes_cons (c : Char) (t : Text) :
    toBytes (c :: t) = String.utf8EncodeChar c ++ toBytes t := by
  simp [toBytes]

theorem codePoint_utf8EncodeChar (c : Char) : codePoint (String.utf8EncodeChar c) = c.toNat := by
  have bound : c.val.toNat < 1114112 := by
    have := c.valid
    simp only [UInt32.isValidChar, Nat.isValidChar] at this
    omega
  have value : c.toNat = c.val.toNat := rfl
  rw [value, String.utf8EncodeChar]
  split
  · simp only [codePoint, UInt8.toNat_ofNat']
    omega
  · split
    · simp only [codePoint, UInt8.toNat_ofNat']
      omega
    · split
      · simp only [codePoint, UInt8.toNat_ofNat']
        omega
      · simp only [codePoint, UInt8.toNat_ofNat']
        omega

theorem charOfBytes?_eq_some_iff {bytes : Bytes} {c : Char} :
    charOfBytes? bytes = some c ↔ bytes = String.utf8EncodeChar c := by
  constructor
  · intro h
    simp only [charOfBytes?, Option.ite_none_right_eq_some, Option.some.injEq] at h
    exact h.2 ▸ h.1.symm
  · rintro rfl
    simp [charOfBytes?, codePoint_utf8EncodeChar]

/-- No character starts with the bytes of another one. -/
theorem eq_of_utf8EncodeChar_append {c d : Char} {more : Bytes}
    (h : String.utf8EncodeChar c = String.utf8EncodeChar d ++ more) : c = d ∧ more = [] := by
  have first : (String.utf8EncodeChar c).toByteArray.utf8DecodeChar? 0 = some d := by
    rw [h, List.toByteArray_append]
    exact ByteArray.utf8DecodeChar?_utf8EncodeChar_append
  have whole : (String.utf8EncodeChar c).toByteArray.utf8DecodeChar? 0 = some c := by
    have := ByteArray.utf8DecodeChar?_utf8EncodeChar_append (b := ByteArray.empty) (c := c)
    simpa using this
  obtain rfl : c = d := Option.some.inj (whole.symm.trans first)
  exact ⟨rfl, by simpa using h⟩

theorem readBytes_char {c : Char} {begun more : Bytes} (done : Text) (rest : Bytes)
    (h : begun ++ more = String.utf8EncodeChar c) (some_more : more ≠ []) :
    readBytes done begun (more ++ rest) = readBytes (c :: done) [] rest := by
  induction more generalizing begun with
  | nil => exact absurd rfl some_more
  | cons b more ih =>
      have whole : (begun ++ [b]) ++ more = String.utf8EncodeChar c := by simpa using h
      have size := congrArg List.length h
      have four := Char.utf8Size_le_four c
      simp only [List.length_append, List.length_cons, String.length_utf8EncodeChar] at size
      rw [List.cons_append, readBytes]
      by_cases last : more = []
      · have complete : charOfBytes? (begun ++ [b]) = some c :=
          charOfBytes?_eq_some_iff.2 (by simpa [last] using whole)
        simp [complete, last]
      · have incomplete : charOfBytes? (begun ++ [b]) = none := by
          rw [Option.eq_none_iff_forall_ne_some]
          intro d found
          rw [charOfBytes?_eq_some_iff.1 found] at whole
          exact last (eq_of_utf8EncodeChar_append whole.symm).2
        have := List.length_pos_iff.2 last
        have short : begun.length < 3 := by omega
        simpa only [incomplete, short, if_true] using ih whole last

theorem readBytes_toBytes (done t : Text) :
    readBytes done [] (toBytes t) = some (done.reverse ++ t) := by
  induction t generalizing done with
  | nil => simp [readBytes]
  | cons c t ih =>
      have some_more : String.utf8EncodeChar c ≠ [] := by simp
      rw [toBytes_cons, readBytes_char done _ rfl some_more, ih]
      simp

theorem ofBytes?_toBytes (t : Text) : ofBytes? (toBytes t) = some t := readBytes_toBytes [] t

theorem eq_of_readBytes {done : Text} {begun bytes : Bytes} {t : Text}
    (h : readBytes done begun bytes = some t) :
    toBytes done.reverse ++ begun ++ bytes = toBytes t := by
  fun_induction readBytes done begun bytes with
  | case1 done => simp_all
  | case2 => simp at h
  | case3 done begun b rest c found ih =>
      have whole := charOfBytes?_eq_some_iff.1 found
      rw [← ih h]
      simp [toBytes, ← whole]
  | case4 done begun b rest _ _ ih =>
      rw [← ih h]
      simp
  | case5 => simp at h

theorem ofBytes?_eq_some_iff {bytes : Bytes} {t : Text} :
    ofBytes? bytes = some t ↔ bytes = toBytes t :=
  ⟨fun h => by simpa using eq_of_readBytes h, fun h => h ▸ ofBytes?_toBytes t⟩

end Text

end CaseTable
