import CaseTable.Text.Utf8

/-!
# The order of texts as bytes

Sections are sorted by `Text.isLe`, which compares code points. Stored in
UTF-8 the texts have the same order, now byte by byte: `isLe_iff`.

One character carries the argument. Of two code points the lower one has the
lower bytes, because the number of bytes grows with the code point and its
higher bits are stored first (`utf8EncodeChar_lt`); and since no character
starts with the bytes of another one, the two differ before either ends, so
what follows them is not looked at.
-/

namespace CaseTable.Text

theorem utf8EncodeChar_lt {c d : Char} (h : c.toNat < d.toNat) :
    String.utf8EncodeChar c < String.utf8EncodeChar d := by
  have hbound : d.val.toNat < 1114112 := by
    have hvalid := d.valid
    simp only [UInt32.isValidChar, Nat.isValidChar] at hvalid
    omega
  have hlt : c.val.toNat < d.val.toNat := h
  simp only [String.utf8EncodeChar]
  -- either character has one to four bytes
  repeat' split
  all_goals
    simp (disch := omega) only [List.cons_lt_cons_iff, List.nil_lt_cons, List.lt_irrefl,
      List.not_lt_nil, UInt8.lt_iff_toNat_lt, ← UInt8.toNat_inj, UInt8.toNat_ofNat',
      Nat.mod_eq_of_lt, and_false, and_true, or_false]
    omega

/-- Bytes that differ before either ends decide, whatever follows them. -/
theorem append_lt_append {a b : Bytes} (h : a < b) (hfront : ¬ a <+: b) (s t : Bytes) :
    a ++ s < b ++ t := by
  induction h with
  | nil => exact absurd (List.nil_prefix) hfront
  | cons _ ih =>
      rw [List.cons_prefix_cons] at hfront
      exact List.cons_lt_cons_iff.mpr (Or.inr ⟨rfl, ih fun hrest => hfront ⟨rfl, hrest⟩⟩)
  | rel hlt => exact List.cons_lt_cons_iff.mpr (Or.inl hlt)

theorem toBytes_lt_of_head {c d : Char} (h : c.toNat < d.toNat) (s t : Text) :
    toBytes (c :: s) < toBytes (d :: t) := by
  rw [toBytes_cons, toBytes_cons]
  refine append_lt_append (utf8EncodeChar_lt h) ?_ _ _
  intro ⟨more, hmore⟩
  rw [(eq_of_utf8EncodeChar_append hmore.symm).1] at h
  exact Nat.lt_irrefl _ h

theorem append_le_append_iff (a s t : Bytes) : a ++ s ≤ a ++ t ↔ s ≤ t := by
  induction a with
  | nil => rfl
  | cons b a ih =>
      rw [List.cons_append, List.cons_append, List.cons_le_cons_iff, ih]
      simp [UInt8.lt_irrefl]

/-- The order by code points is the order of the stored bytes. -/
theorem isLe_iff (s t : Text) : isLe s t = true ↔ toBytes s ≤ toBytes t := by
  induction s generalizing t with
  | nil => simp [isLe]
  | cons c s ih =>
      cases t with
      | nil => simp [isLe]
      | cons d t =>
          rw [isLe, Bool.or_eq_true, Bool.and_eq_true, decide_eq_true_eq, decide_eq_true_eq, ih]
          rcases Nat.lt_trichotomy c.toNat d.toNat with hlt | heq | hgt
          · exact iff_of_true (Or.inl hlt) (List.le_of_lt (toBytes_lt_of_head hlt s t))
          · obtain rfl : c = d := Char.toNat_inj.mp heq
            rw [toBytes_cons, toBytes_cons, append_le_append_iff]
            simp
          · refine iff_of_false ?_ (List.not_le.mpr (toBytes_lt_of_head hgt t s))
            rintro (hlt | ⟨rfl, -⟩)
            · exact Nat.lt_asymm hlt hgt
            · exact Nat.lt_irrefl _ hgt

theorem isLe_trans {s t u : Text} (hst : isLe s t = true) (htu : isLe t u = true) :
    isLe s u = true :=
  (isLe_iff s u).mpr (List.le_trans ((isLe_iff s t).mp hst) ((isLe_iff t u).mp htu))

theorem isLe_total (s t : Text) : isLe s t = true ∨ isLe t s = true :=
  (List.le_total (toBytes s) (toBytes t)).imp (isLe_iff s t).mpr (isLe_iff t s).mpr

theorem toBytes_injective {s t : Text} (h : toBytes s = toBytes t) : s = t := by
  have hread := ofBytes?_toBytes s
  rw [h, ofBytes?_toBytes] at hread
  exact (Option.some.inj hread).symm

/-- Of two different texts the one that stands no later stands earlier. -/
theorem toBytes_lt_of_isLe {s t : Text} (h : isLe s t = true) (hne : s ≠ t) :
    toBytes s < toBytes t := by
  rw [← List.not_le]
  intro hback
  exact hne (toBytes_injective (List.le_antisymm ((isLe_iff s t).mp h) hback))

end CaseTable.Text
