import CaseTable.Proofs.Shell.Blocks
import CaseTable.Proofs.Shell.Cuts

/-!
# The matching brace

In the row of pieces that a text falls into a brace is a plain one, and the
search for the end of a group is a matter of counting: it finds the closing
brace in front of which the braces are balanced (`blockEndAt?_eq_some_iff`).

The induction is over the pieces, with any number of groups open. One piece
moves this number as it moves the difference of the two counts
(`encloses_cons_iff`), and the search ends where it would fall below zero. Until
then the number is that difference (`IsCut.blockEnd?_append`), so that it never
has to be cut off at zero.
-/

namespace CaseTable.Shell

/-! ## Counting braces -/

namespace Piece

abbrev opening : Piece := .plain '\x7b'

abbrev closing : Piece := .plain '\x7d'

end Piece

open Piece (opening closing)

/-- Where `depth` groups were open, nowhere in the row are more closed than were
opened, and behind it all are. -/
def Encloses (depth : Nat) (inner : List Piece) : Prop :=
  (∀ front, front <+: inner → front.count closing ≤ depth + front.count opening) ∧
    inner.count closing = depth + inner.count opening

/-- The braces of a row are balanced: as many are closed as are opened, and
never more on the way. -/
def Balanced (inner : List Piece) : Prop :=
  (∀ front, front <+: inner → front.count closing ≤ front.count opening) ∧
    inner.count closing = inner.count opening

theorem encloses_zero_iff {inner : List Piece} : Encloses 0 inner ↔ Balanced inner := by
  simp [Encloses, Balanced]

theorem count_of_depthAfter? {depth d : Nat} {piece : Piece}
    (h : Place.depthAfter? depth piece = some d) (inner : List Piece) :
    d + (piece :: inner).count closing + inner.count opening =
      depth + (piece :: inner).count opening + inner.count closing := by
  rw [Place.depthAfter?] at h
  split at h
  · next hopen =>
      obtain rfl : piece = opening := hopen
      cases h
      rw [List.count_cons_self, List.count_cons_of_ne (by decide)]
      omega
  · next hopen =>
      split at h
      · next hclose =>
          obtain rfl : piece = closing := hclose
          split at h
          · cases h
          · cases h
            rw [List.count_cons_self, List.count_cons_of_ne (by decide)]
            omega
      · next hclose =>
          have hother : piece ≠ opening ∧ piece ≠ closing := ⟨hopen, hclose⟩
          cases h
          rw [List.count_cons_of_ne hother.1, List.count_cons_of_ne hother.2]
          omega

theorem encloses_cons_iff {depth d : Nat} {piece : Piece} {inner : List Piece}
    (h : Place.depthAfter? depth piece = some d) :
    Encloses depth (piece :: inner) ↔ Encloses d inner := by
  have hinner := count_of_depthAfter? h inner
  constructor
  · rintro ⟨hfronts, hcount⟩
    refine ⟨fun front hfront => ?_, by omega⟩
    have hcons := hfronts (piece :: front) (List.cons_prefix_cons.mpr ⟨rfl, hfront⟩)
    have := count_of_depthAfter? h front
    omega
  · rintro ⟨hfronts, hcount⟩
    refine ⟨fun front hfront => ?_, by omega⟩
    rcases List.prefix_cons_iff.mp hfront with rfl | ⟨tail, rfl, htail⟩
    · exact Nat.zero_le _
    · have := hfronts tail htail
      have := count_of_depthAfter? h tail
      omega

/-- The first piece closes no group that was open before. -/
theorem not_encloses_closing (inner : List Piece) : ¬ Encloses 0 (closing :: inner) := by
  intro h
  have hfront := h.1 [closing] (List.prefix_append [closing] inner)
  simp at hfront

/-- The search ends at the closing brace in front of which as many groups are
closed as were open and have been opened. -/
theorem IsCut.blockEnd?_eq_some_iff {pieces : List Piece} {behind : Text}
    (h : IsCut pieces behind) {depth : Nat} {e : Place} :
    (⟨behind, textOf pieces⟩ : Place).blockEnd? depth = some e ↔
      ∃ inner rest, pieces = inner ++ closing :: rest ∧ Encloses depth inner ∧
        e = ⟨(textOf inner).reverse ++ behind, textOf (closing :: rest)⟩ := by
  induction pieces generalizing behind depth with
  | nil =>
      have hnone : (⟨behind, textOf []⟩ : Place).piece? = none := rfl
      rw [Place.blockEnd?_of_piece?_none hnone]
      simp
  | cons piece rest ih =>
      rw [Place.blockEnd?_step h.piece?_eq]
      cases hdepth : Place.depthAfter? depth piece with
      | none =>
          obtain ⟨rfl, rfl⟩ := Place.depthAfter?_eq_none_iff.mp hdepth
          constructor
          · intro he
            cases he
            exact ⟨[], rest, rfl, ⟨by simp, rfl⟩, rfl⟩
          · rintro ⟨inner, after, hsplit, hencloses, rfl⟩
            cases inner with
            | nil =>
                cases hsplit
                rfl
            | cons first inner =>
                obtain rfl : first = closing := (List.cons.inj hsplit).1.symm
                exact absurd hencloses (not_encloses_closing inner)
      | some d =>
          rw [Option.elim_some, ih h.2]
          constructor
          · rintro ⟨inner, after, rfl, hencloses, rfl⟩
            refine ⟨piece :: inner, after, rfl, (encloses_cons_iff hdepth).mpr hencloses, ?_⟩
            rw [textOf_cons piece inner, List.reverse_append, List.append_assoc]
          · rintro ⟨inner, after, hsplit, hencloses, rfl⟩
            cases inner with
            | nil =>
                obtain rfl : piece = closing := (List.cons.inj hsplit).1
                obtain rfl : depth = 0 := hencloses.2.symm
                cases hdepth
            | cons first inner =>
                obtain ⟨rfl, rfl⟩ := List.cons.inj hsplit
                refine ⟨inner, after, rfl, (encloses_cons_iff hdepth).mp hencloses, ?_⟩
                rw [textOf_cons piece inner, List.reverse_append, List.append_assoc]

/-- As long as no group is closed that was not opened in the row, the number of
open groups is the difference of the two counts. -/
theorem IsCut.blockEnd?_append {front rest : List Piece} {behind : Text}
    (h : IsCut (front ++ rest) behind) {depth : Nat}
    (hfronts : ∀ f, f <+: front → f.count closing ≤ depth + f.count opening) :
    (⟨behind, textOf (front ++ rest)⟩ : Place).blockEnd? depth =
      (⟨(textOf front).reverse ++ behind, textOf rest⟩ : Place).blockEnd?
        (depth + front.count opening - front.count closing) := by
  induction front generalizing behind depth with
  | nil => rfl
  | cons piece front ih =>
      rw [List.cons_append] at h ⊢
      rw [Place.blockEnd?_step h.piece?_eq]
      cases hdepth : Place.depthAfter? depth piece with
      | none =>
          obtain ⟨rfl, rfl⟩ := Place.depthAfter?_eq_none_iff.mp hdepth
          have hone := hfronts [closing] (List.prefix_append [closing] front)
          simp at hone
      | some d =>
          have hcounts := count_of_depthAfter? hdepth
          have hnext : ∀ f, f <+: front → f.count closing ≤ d + f.count opening := by
            intro f hf
            have hcons := hfronts (piece :: f) (List.cons_prefix_cons.mpr ⟨rfl, hf⟩)
            have := hcounts f
            omega
          have hsame : d + front.count opening - front.count closing =
              depth + (piece :: front).count opening - (piece :: front).count closing := by
            have := hcounts front
            omega
          rw [Option.elim_some, ih h.2 hnext, hsame, textOf_cons piece front,
            List.reverse_append, List.append_assoc]

/-! ## Where the search starts -/

/-- The shortest front of a text that has so many bytes, or all of the text. -/
def IsFrontAt (start : Nat) (before source : Text) : Prop :=
  ∀ front, front <+: source →
    (before <+: front ↔ start ≤ Text.byteSize front ∨ front = source)

theorem exists_isFrontAt_go (n : Nat) (behind t : Text) :
    ∃ before ahead, t = before ++ ahead ∧ IsFrontAt n before t ∧
      Place.advanceBytes.go n behind t = ⟨before.reverse ++ behind, ahead⟩ := by
  induction t generalizing n behind with
  | nil =>
      refine ⟨[], [], rfl, fun front hfront => ?_, rfl⟩
      simp [List.prefix_nil.mp hfront]
  | cons c t ih =>
      by_cases hzero : n = 0
      · refine ⟨[], c :: t, rfl, fun front _ => ?_, ?_⟩
        · simp [hzero]
        · rw [Place.advanceBytes.go, if_pos hzero]
          rfl
      · obtain ⟨before, ahead, rfl, hfront, hgo⟩ := ih (n - c.utf8Size) (c :: behind)
        refine ⟨c :: before, ahead, rfl, fun front hprefix => ?_, ?_⟩
        · rcases List.prefix_cons_iff.mp hprefix with rfl | ⟨tail, rfl, htail⟩
          · simp [hzero]
          · rw [List.cons_prefix_cons, and_iff_right rfl, hfront tail htail,
              Text.byteSize_cons, List.cons_inj_right, Nat.sub_le_iff_le_add']
        · rw [Place.advanceBytes.go, if_neg hzero, hgo, List.reverse_cons, List.append_assoc]
          rfl

/-- A start lies before the first character that has not yet begun there. -/
theorem exists_isFrontAt (source : Text) (start : Nat) :
    ∃ before ahead, source = before ++ ahead ∧ IsFrontAt start before source ∧
      (Place.start source).advanceBytes start = ⟨before.reverse, ahead⟩ := by
  obtain ⟨before, ahead, hsource, hfront, hgo⟩ := exists_isFrontAt_go start [] source
  rw [List.append_nil] at hgo
  exact ⟨before, ahead, hsource, hfront, hgo⟩

/-- From a start on the text falls into pieces in one way, and the end of the
group is the closing brace among them in front of which the braces are balanced.
If there is none, no end is found. On the way the number of open groups is the
difference of the two counts. -/
theorem blockEndAt?_eq_some_iff (source : Text) (start : Nat) :
    ∃ (before ahead : Text) (pieces : List Piece),
      (source = before ++ ahead ∧ IsFrontAt start before source) ∧
      (textOf pieces = ahead ∧ IsCut pieces before.reverse ∧
        ∀ others, textOf others = ahead → IsCut others before.reverse → others = pieces) ∧
      (∀ e, blockEndAt? source start = some e ↔
        ∃ inner rest, pieces = inner ++ closing :: rest ∧ Balanced inner ∧
          e = Text.byteSize before + Text.byteSize (textOf inner)) ∧
      (blockEndAt? source start = none ↔
        ∀ inner rest, pieces = inner ++ closing :: rest → ¬ Balanced inner) ∧
      ∀ front rest, pieces = front ++ rest →
        (∀ f, f <+: front → f.count closing ≤ f.count opening) →
        blockEndAt? source start =
          ((⟨(textOf front).reverse ++ before.reverse, textOf rest⟩ : Place).blockEnd?
            (front.count opening - front.count closing)).map Place.offset := by
  obtain ⟨before, ahead, hsource, hfront, hplace⟩ := exists_isFrontAt source start
  obtain ⟨pieces, rfl, hcut⟩ := exists_isCut before.reverse ahead
  have hfound : ∀ e, blockEndAt? source start = some e ↔
      ∃ inner rest, pieces = inner ++ closing :: rest ∧ Balanced inner ∧
        e = Text.byteSize before + Text.byteSize (textOf inner) := by
    intro e
    rw [blockEndAt?, hplace, Option.map_eq_some_iff]
    constructor
    · rintro ⟨q, hq, rfl⟩
      obtain ⟨inner, rest, hsplit, hencloses, rfl⟩ := hcut.blockEnd?_eq_some_iff.mp hq
      refine ⟨inner, rest, hsplit, encloses_zero_iff.mp hencloses, ?_⟩
      simp [Place.offset, Nat.add_comm]
    · rintro ⟨inner, rest, hsplit, hbalanced, rfl⟩
      refine ⟨_, hcut.blockEnd?_eq_some_iff.mpr
        ⟨inner, rest, hsplit, encloses_zero_iff.mpr hbalanced, rfl⟩, ?_⟩
      simp [Place.offset, Nat.add_comm]
  refine ⟨before, textOf pieces, pieces, ⟨hsource, hfront⟩,
    ⟨rfl, hcut, fun others htext hother => hcut.unique hother htext⟩, hfound, ?_, ?_⟩
  · constructor
    · intro hnone inner rest hsplit hbalanced
      cases hnone.symm.trans ((hfound _).mpr ⟨inner, rest, hsplit, hbalanced, rfl⟩)
    · intro hno
      refine Option.eq_none_iff_forall_ne_some.mpr fun e he => ?_
      obtain ⟨inner, rest, hsplit, hbalanced, -⟩ := (hfound e).mp he
      exact hno inner rest hsplit hbalanced
  · rintro front rest rfl hfronts
    rw [blockEndAt?, hplace, hcut.blockEnd?_append fun f hf => by simpa using hfronts f hf,
      Nat.zero_add]

/-- The braces in the string and in the comment count for nothing. -/
example : blockEndAt? "f() \x7b a \"\x7d\" $\x7bb\x7d # \x7d\n \x7d \x7d".toList 5 = some 22 := by
  decide +kernel

end CaseTable.Shell
