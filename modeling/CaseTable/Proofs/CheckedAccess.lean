import CaseTable.Text.Place
import CaseTable.Text.Utf8

/-!
# Checked access

An access that stops the program at a bad position, where the readers of this
library give nothing or take what there is. A list is indexed below its length
and is cut at its length or before. A text is sliced by byte offsets that must
not lie inside a character.

An offset is a boundary if it is the size of a front of the text
(`isBoundary_iff`), so a slice succeeds for the parts of the text and for
nothing else (`slice_eq_ok_iff`).
-/

namespace CaseTable

/-- An access to a bad position. -/
inductive BadAccess
    | index (i length : Nat)
    /-- A list is cut behind its end. -/
    | cut (i length : Nat)
    /-- The ends of a slice are not two boundaries in order. -/
    | slice (start stop : Nat)
    deriving DecidableEq, Repr

namespace Checked

variable {α β : Type}

theorem exists_of_map_eq_ok {x : Except BadAccess α} {f : α → β} {b : β}
    (h : x.map f = .ok b) : ∃ a, x = .ok a ∧ f a = b := by
  cases x with
  | error cause => cases h
  | ok a => exact ⟨a, rfl, Except.ok.inj h⟩

theorem exists_of_bind_eq_ok {x : Except BadAccess α} {f : α → Except BadAccess β} {b : β}
    (h : x >>= f = .ok b) : ∃ a, x = .ok a ∧ f a = .ok b := by
  cases x with
  | error cause => cases h
  | ok a => exact ⟨a, rfl, h⟩

def index (list : List α) (i : Nat) : Except BadAccess α :=
  match list[i]? with
  | some a => .ok a
  | none => .error (.index i list.length)

/-- The list up to a position. -/
def front (list : List α) (i : Nat) : Except BadAccess (List α) :=
  if i ≤ list.length then .ok (list.take i) else .error (.cut i list.length)

/-- The list from a position on. -/
def back (list : List α) (i : Nat) : Except BadAccess (List α) :=
  if i ≤ list.length then .ok (list.drop i) else .error (.cut i list.length)

theorem index_of_getElem? {list : List α} {i : Nat} {a : α} (h : list[i]? = some a) :
    index list i = .ok a := by
  rw [index, h]

theorem front_of_le {list : List α} {i : Nat} (h : i ≤ list.length) :
    front list i = .ok (list.take i) := if_pos h

theorem back_of_le {list : List α} {i : Nat} (h : i ≤ list.length) :
    back list i = .ok (list.drop i) := if_pos h

theorem front_eq_ok_iff {list first : List α} {i : Nat} :
    front list i = .ok first ↔ i ≤ list.length ∧ list.take i = first := by
  rw [front]
  split
  · next h => rw [Except.ok.injEq, and_iff_right h]
  · next h => exact iff_of_false nofun fun hfirst => h hfirst.1

theorem back_eq_ok_iff {list rest : List α} {i : Nat} :
    back list i = .ok rest ↔ i ≤ list.length ∧ list.drop i = rest := by
  rw [back]
  split
  · next h => rw [Except.ok.injEq, and_iff_right h]
  · next h => exact iff_of_false nofun fun hrest => h hrest.1

/-- A loop whose steps succeed is a loop. -/
theorem foldlM_eq {f : β → α → Except BadAccess β} {g : β → α → β}
    (h : ∀ b a, f b a = .ok (g b a)) (list : List α) (b : β) :
    list.foldlM f b = .ok (list.foldl g b) := by
  obtain rfl : f = fun b a => pure (g b a) := funext fun b => funext fun a => h b a
  exact List.foldlM_pure

end Checked

namespace Text

/-- Whether an offset in bytes lies between two characters or at an end. -/
def isBoundary (n : Nat) : Text → Bool
  | [] => n = 0
  | c :: t => n = 0 || (c.utf8Size ≤ n && isBoundary (n - c.utf8Size) t)

/-- The characters that start in the first `n` bytes. -/
def takeBytes (n : Nat) : Text → Text
  | [] => []
  | c :: t => if n = 0 then [] else c :: takeBytes (n - c.utf8Size) t

/-- The characters that do not start in the first `n` bytes. -/
def dropBytes (n : Nat) : Text → Text
  | [] => []
  | c :: t => if n = 0 then c :: t else dropBytes (n - c.utf8Size) t

/-- The text between two byte offsets. -/
def slice (t : Text) (start stop : Nat) : Except BadAccess Text :=
  if start ≤ stop ∧ stop ≤ t.byteSize ∧ t.isBoundary start ∧ t.isBoundary stop then
    .ok ((t.dropBytes start).takeBytes (stop - start))
  else
    .error (.slice start stop)

theorem byteSize_eq_zero_iff {t : Text} : byteSize t = 0 ↔ t = [] := by
  cases t with
  | nil => simp
  | cons c t =>
      have := c.utf8Size_pos
      simp only [byteSize_cons, reduceCtorEq, iff_false]
      omega

theorem length_toBytes (t : Text) : (toBytes t).length = byteSize t := by
  induction t with
  | nil => rfl
  | cons c t ih =>
      rw [toBytes_cons, List.length_append, ih, String.length_utf8EncodeChar, byteSize_cons]

theorem toBytes_append (s t : Text) : toBytes (s ++ t) = toBytes s ++ toBytes t :=
  List.flatMap_append

theorem isBoundary_iff {t : Text} {n : Nat} :
    t.isBoundary n = true ↔ ∃ front back, t = front ++ back ∧ n = byteSize front := by
  induction t generalizing n with
  | nil =>
      rw [isBoundary, decide_eq_true_eq]
      constructor
      · rintro rfl
        exact ⟨[], [], rfl, rfl⟩
      · rintro ⟨front, back, h, rfl⟩
        rw [(List.append_eq_nil_iff.mp h.symm).1]
        rfl
  | cons c t ih =>
      rw [isBoundary, Bool.or_eq_true, Bool.and_eq_true, decide_eq_true_eq, decide_eq_true_eq, ih]
      constructor
      · rintro (rfl | ⟨hsize, front, back, rfl, hfront⟩)
        · exact ⟨[], c :: t, rfl, rfl⟩
        · refine ⟨c :: front, back, rfl, ?_⟩
          rw [byteSize_cons, ← hfront]
          omega
      · rintro ⟨front, back, h, rfl⟩
        cases front with
        | nil => exact .inl rfl
        | cons d front =>
            obtain ⟨rfl, rfl⟩ := List.cons.inj h
            refine .inr ⟨Nat.le_add_right _ _, front, back, rfl, ?_⟩
            rw [byteSize_cons, Nat.add_sub_cancel_left]

theorem isBoundary_byteSize_append (front back : Text) :
    (front ++ back).isBoundary (byteSize front) = true :=
  isBoundary_iff.mpr ⟨front, back, rfl, rfl⟩

theorem isBoundary_append_add (front back : Text) (n : Nat) :
    (front ++ back).isBoundary (byteSize front + n) = back.isBoundary n := by
  induction front with
  | nil => rw [byteSize_nil, Nat.zero_add, List.nil_append]
  | cons c front ih =>
      have := c.utf8Size_pos
      have hpos : decide (byteSize (c :: front) + n = 0) = false := by
        rw [byteSize_cons]
        exact decide_eq_false (by omega)
      have hsize : decide (c.utf8Size ≤ byteSize (c :: front) + n) = true := by
        rw [byteSize_cons]
        exact decide_eq_true (by omega)
      rw [List.cons_append, isBoundary, hpos, hsize, byteSize_cons, Nat.add_assoc,
        Nat.add_sub_cancel_left, ih]
      rfl

theorem takeBytes_byteSize_append (front back : Text) :
    (front ++ back).takeBytes (byteSize front) = front := by
  induction front with
  | nil => cases back <;> rfl
  | cons c front ih =>
      have := c.utf8Size_pos
      rw [List.cons_append, takeBytes, if_neg (by rw [byteSize_cons]; omega), byteSize_cons,
        Nat.add_sub_cancel_left, ih]

theorem dropBytes_byteSize_append (front back : Text) :
    (front ++ back).dropBytes (byteSize front) = back := by
  induction front with
  | nil => cases back <;> rfl
  | cons c front ih =>
      have := c.utf8Size_pos
      rw [List.cons_append, dropBytes, if_neg (by rw [byteSize_cons]; omega), byteSize_cons,
        Nat.add_sub_cancel_left, ih]

theorem slice_append (front s back : Text) :
    (front ++ (s ++ back)).slice (byteSize front) (byteSize front + byteSize s) = .ok s := by
  have hstop : (front ++ (s ++ back)).isBoundary (byteSize front + byteSize s) = true := by
    rw [← List.append_assoc, ← byteSize_append]
    exact isBoundary_byteSize_append _ _
  rw [slice, if_pos ⟨Nat.le_add_right _ _, by simp only [byteSize_append]; omega,
    isBoundary_byteSize_append _ _, hstop⟩, dropBytes_byteSize_append, Nat.add_sub_cancel_left,
    takeBytes_byteSize_append]

theorem slice_front (front back : Text) :
    (front ++ back).slice 0 (byteSize front) = .ok front := by
  have h := slice_append [] front back
  rwa [byteSize_nil, Nat.zero_add] at h

theorem slice_back (front back : Text) :
    (front ++ back).slice (byteSize front) (byteSize (front ++ back)) = .ok back := by
  have h := slice_append front back []
  rwa [List.append_nil, ← byteSize_append] at h

/-- The slices of a text are its parts. -/
theorem slice_eq_ok_iff {t s : Text} {start stop : Nat} :
    t.slice start stop = .ok s ↔ ∃ front back, t = front ++ (s ++ back) ∧
      start = byteSize front ∧ stop = byteSize front + byteSize s := by
  constructor
  · intro h
    rw [slice] at h
    split at h
    · next hends =>
        obtain ⟨hle, -, hstart, hstop⟩ := hends
        obtain ⟨front, back, rfl, rfl⟩ := isBoundary_iff.mp hstart
        obtain ⟨front', back', happend, rfl⟩ := isBoundary_iff.mp hstop
        obtain ⟨u, rfl, rfl⟩ : ∃ u, front' = front ++ u ∧ back = u ++ back' := by
          rcases List.append_eq_append_iff.mp happend with ⟨u, rfl, rfl⟩ | ⟨u, rfl, rfl⟩
          · exact ⟨u, rfl, rfl⟩
          · rw [byteSize_append] at hle
            obtain rfl := byteSize_eq_zero_iff.mp (show byteSize u = 0 by omega)
            exact ⟨[], by simp, by simp⟩
        rw [dropBytes_byteSize_append, byteSize_append, Nat.add_sub_cancel_left,
          takeBytes_byteSize_append] at h
        cases h
        exact ⟨front, back', rfl, rfl, byteSize_append _ _⟩
    · cases h
  · rintro ⟨front, back, rfl, rfl, rfl⟩
    exact slice_append front s back

end Text

namespace Place

/-- The text between two places is the slice between their offsets. -/
theorem Passes.slice_eq {p q : Place} {s : Text} (h : p.Passes s q) :
    p.text.slice p.offset q.offset = .ok s := by
  rw [h.offset_eq, offset, ← Text.byteSize_reverse, text, h.1]
  exact Text.slice_append _ _ _

theorem slice_behind (p : Place) : p.text.slice 0 p.offset = .ok p.behind.reverse := by
  rw [offset, ← Text.byteSize_reverse]
  exact Text.slice_front _ _

theorem slice_ahead (p : Place) : p.text.slice p.offset p.text.byteSize = .ok p.ahead := by
  rw [offset, ← Text.byteSize_reverse]
  exact Text.slice_back _ _

theorem isBoundary_offset (p : Place) : p.text.isBoundary p.offset = true := by
  rw [offset, ← Text.byteSize_reverse]
  exact Text.isBoundary_byteSize_append _ _

end Place

end CaseTable
