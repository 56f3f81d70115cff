import CaseTable.Proofs.Shell.Bodies
import CaseTable.Proofs.Text.Blank

/-!
# A written table read back

The reader of a table sees only characters. This file shows that it finds
the arms that the table was written with: the same number, in the same
order, each body character for character, whatever is nested, quoted or
hidden in it.

The walk is over the arms. Between two of them a gap is passed without a
trace (`readArms?_gap`), and an arm that fits where it stands is read as one
arm (`readArms?_arm`). The one place where the two overlap is a pattern
without a parenthesis that starts with blanks: they are passed with the gap,
so the pattern that is read is shorter than the one that was written. Its
labels are the same, because every label is trimmed.
-/

namespace CaseTable.Place

open CaseTable.Shell

theorem skipGap_blank {c : Char} (h : isGapBlank c = true) (behind t : Text) :
    (⟨behind, c :: t⟩ : Place).skipGap = (⟨c :: behind, t⟩ : Place).skipGap := by
  rw [skipGap, skipGap, skipGap.go, if_neg (by decide)]
  exact if_pos h

theorem skipGap_go_comment {inner : Text} (h : '\n' ∉ inner)
    (behind rest : Text) :
    skipGap.go true behind (inner ++ '\n' :: rest) =
      skipGap.go false ('\n' :: (inner.reverse ++ behind)) rest := by
  induction inner generalizing behind with
  | nil =>
      rw [List.nil_append, skipGap.go, if_pos rfl]
      rfl
  | cons c t ih =>
      have hc : c ≠ '\n' := fun hc => h (by simp [hc])
      rw [List.cons_append, skipGap.go, if_pos rfl, decide_eq_true hc,
        ih fun ht => h (List.mem_cons_of_mem c ht), List.reverse_cons,
        List.append_assoc]
      rfl

theorem skipGap_skipped {piece : Piece} (h : piece.Skipped)
    (behind rest : Text) :
    (⟨behind, piece.text ++ rest⟩ : Place).skipGap =
      (⟨piece.text.reverse ++ behind, rest⟩ : Place).skipGap := by
  cases piece with
  | plain c => exact skipGap_blank h behind rest
  | comment line =>
      obtain ⟨-, hlast, hinner⟩ := h
      obtain ⟨inner, rfl⟩ := List.getLast?_eq_some_iff.mp hlast
      rw [List.dropLast_concat] at hinner
      have hpassed := skipGap_go_comment hinner ('#' :: behind) rest
      rw [skipGap, Piece.text, List.cons_append, skipGap.go, if_neg (by decide),
        if_neg (by decide), if_pos rfl, List.append_assoc, List.singleton_append,
        hpassed, skipGap]
      simp
  | escape | backslash | single | double | unclosed => exact False.elim h

theorem skipGap_gap {gap : List Piece} (h : ∀ piece ∈ gap, piece.Skipped)
    (behind rest : Text) :
    (⟨behind, textOf gap ++ rest⟩ : Place).skipGap =
      (⟨(textOf gap).reverse ++ behind, rest⟩ : Place).skipGap := by
  induction gap generalizing behind with
  | nil => rfl
  | cons piece gap ih =>
      rw [textOf_cons, List.append_assoc,
        skipGap_skipped (h piece List.mem_cons_self),
        ih fun p hp => h p (List.mem_cons_of_mem piece hp),
        List.reverse_append, List.append_assoc]

theorem skipGap_of_head {c : Char} (hblank : isGapBlank c = false)
    (hhash : c ≠ '#') (behind t : Text) :
    (⟨behind, c :: t⟩ : Place).skipGap = ⟨behind, c :: t⟩ := by
  rw [skipGap, skipGap.go, if_neg (by decide), if_neg, if_neg hhash]
  exact ne_true_of_eq_false hblank

/-- A pattern ends at its own parenthesis. -/
theorem patternEnd?_closed {pieces : List Piece}
    (h : ∀ piece ∈ pieces, piece.InPattern)
    (behind rest : Text) :
    (⟨behind, textOf pieces ++ ')' :: rest⟩ : Place).patternEnd? =
      some ⟨(textOf pieces).reverse ++ behind, ')' :: rest⟩ := by
  induction pieces generalizing behind with
  | nil =>
      have hclose : (Piece.plain ')').Complete false := by decide
      have htake : (⟨behind, ')' :: rest⟩ : Place).take? false =
          some (.plain ')', ⟨')' :: behind, rest⟩) :=
        take?_complete hclose behind rest
      rw [textOf_nil, List.nil_append, patternEnd?]
      split
      · next hnone => cases hnone.symm.trans htake
      · rfl
      · next hother htaken =>
          cases htaken.symm.trans htake
          exact False.elim (hother rfl)
  | cons piece pieces ih =>
      obtain ⟨hcomplete, hne⟩ := h piece List.mem_cons_self
      have htake := take?_complete hcomplete behind (textOf pieces ++ ')' :: rest)
      rw [textOf_cons, List.append_assoc, patternEnd?]
      split
      · next hnone => cases hnone.symm.trans htake
      · next htaken =>
          cases htaken.symm.trans htake
          exact absurd rfl hne
      · next htaken =>
          cases htaken.symm.trans htake
          rw [ih fun p hp => h p (List.mem_cons_of_mem piece hp),
            List.reverse_append, List.append_assoc]

end CaseTable.Place

namespace CaseTable.Shell

/-- A blank before a pattern changes none of its labels. -/
theorem labels_blank_cons {c : Char} (h : isGapBlank c = true) (t : Text) :
    labels (c :: t) = labels t := by
  have hbar : (c == '|') = false := by
    rw [beq_eq_false_iff_ne]
    rintro rfl
    cases h
  have hunquote (u : Text) : unquoteLabel (c :: u) = unquoteLabel u := by
    rw [unquoteLabel, unquoteLabel, Text.trim, Text.trim, Text.trimStart,
      Text.trimStart, List.dropWhile_cons_of_pos (isBlank_of_isGapBlank h)]
  obtain ⟨first, rest, hsplit⟩ :=
    List.exists_cons_of_ne_nil (List.splitOn_ne_nil '|' t)
  rw [labels, labels, List.splitOn_cons_eq_if_modifyHead, if_neg (by simp [hbar]),
    hsplit, List.modifyHead_cons, List.map_cons, List.map_cons, hunquote]

namespace WrittenArm

/-- The opening parenthesis is the only one that is passed before a pattern. -/
theorem readPattern?_written {arm : WrittenArm}
    (hpieces : ∀ piece ∈ arm.pattern, piece.InPattern)
    {behind after : Text}
    (hopen : arm.opened = false → (arm.text ++ after).head? ≠ some '(') :
    readPattern? ⟨behind, arm.text ++ after⟩ =
      some (textOf arm.pattern,
        ⟨')' :: ((textOf arm.pattern).reverse ++ (arm.opening.reverse ++ behind)),
          arm.body.text ++ after⟩) := by
  have hend := Place.patternEnd?_closed hpieces (arm.opening.reverse ++ behind)
    (arm.body.text ++ after)
  have hfront : (if (⟨behind, arm.text ++ after⟩ : Place).next? = some '(' then
        (⟨behind, arm.text ++ after⟩ : Place).advance 1
      else ⟨behind, arm.text ++ after⟩) =
      ⟨arm.opening.reverse ++ behind,
        textOf arm.pattern ++ ')' :: (arm.body.text ++ after)⟩ := by
    cases hopened : arm.opened with
    | true => simp [Place.next?, Place.advance, text, opening, hopened]
    | false =>
        rw [Place.next?, if_neg (hopen hopened)]
        simp [text, opening, hopened]
  have hpasses : (⟨arm.opening.reverse ++ behind,
        textOf arm.pattern ++ ')' :: (arm.body.text ++ after)⟩ : Place).Passes
      (textOf arm.pattern)
      ⟨(textOf arm.pattern).reverse ++ (arm.opening.reverse ++ behind),
        ')' :: (arm.body.text ++ after)⟩ := ⟨rfl, rfl⟩
  rw [readPattern?, hfront, hend, Option.map_some, hpasses.upTo_eq]
  rfl

theorem read?_written {arm : WrittenArm}
    (hpieces : ∀ piece ∈ arm.pattern, piece.InPattern)
    {behind after : Text}
    (hopen : arm.opened = false → (arm.text ++ after).head? ≠ some '(')
    (hbody : arm.body.Fits false
      (')' :: ((textOf arm.pattern).reverse ++ (arm.opening.reverse ++ behind)))
      after)
    (hend : Place.EndsBody ⟨arm.text.reverse ++ behind, after⟩) :
    Arm.read? ⟨behind, arm.text ++ after⟩ =
      some (arm.read, Place.pastEnding ⟨arm.text.reverse ++ behind, after⟩) := by
  have hbehind : arm.text.reverse ++ behind = arm.body.text.reverse ++
      ')' :: ((textOf arm.pattern).reverse ++ (arm.opening.reverse ++ behind)) := by
    simp [text]
  rw [hbehind] at hend ⊢
  rw [Arm.read?, readPattern?_written hpieces hopen]
  simp only []
  rw [readBody?_commands hbody hend]
  rfl

end WrittenArm

theorem readArms?_congr {p q : Place} (h : p.skipGap = q.skipGap) :
    readArms? p = readArms? q := by
  rw [readArms?.eq_def p, readArms?.eq_def q, h]

theorem readArms?_gap {gap : List Piece} (h : ∀ piece ∈ gap, piece.Skipped)
    (behind rest : Text) :
    readArms? ⟨behind, textOf gap ++ rest⟩ =
      readArms? ⟨(textOf gap).reverse ++ behind, rest⟩ :=
  readArms?_congr (Place.skipGap_gap h behind rest)

theorem readArms?_of_read? {p p' q : Place} {arm : Arm} (hgap : p.skipGap = p')
    (hesac : p'.keyword? esacWord = none) (hread : Arm.read? p' = some (arm, q)) :
    readArms? p = (readArms? q).map fun (arms, r) => (arm :: arms, r) := by
  rw [readArms?, hgap]
  split
  · next r hr => cases hesac.symm.trans hr
  · split
    · next hnone => cases hread.symm.trans hnone
    · next hsome =>
        cases hread.symm.trans hsome
        rfl

/-- Only a plain piece can start with a blank. -/
theorem head?_text_of_complete {piece : Piece} {comments : Bool}
    (h : piece.Complete comments)
    (hplain : ∀ c, piece = .plain c → isGapBlank c = false) :
    piece.text.head?.all (!isGapBlank ·) = true := by
  cases piece with
  | plain c => simp [Piece.text, hplain c rfl]
  | unclosed mark rest => exact False.elim h
  | _ => rfl

namespace WrittenArm

/-- The reader stands at the arm itself: no gap and no `esac` is before it. -/
theorem readArms?_at {arm : WrittenArm} {behind after : Text}
    (h : arm.Fits behind after)
    (hfront : arm.opened = false →
      ((arm.text ++ after).head?.all (!isGapBlank ·)) = true)
    (hend : Place.EndsBody ⟨arm.text.reverse ++ behind, after⟩) :
    readArms? ⟨behind, arm.text ++ after⟩ =
      (readArms? (Place.pastEnding ⟨arm.text.reverse ++ behind, after⟩)).map
        fun (arms, r) => (arm.read :: arms, r) := by
  obtain ⟨hpieces, hshows, hbody⟩ := h
  obtain ⟨c, t, htext⟩ : ∃ c t, arm.text ++ after = c :: t :=
    List.exists_cons_of_ne_nil (by simp [text])
  have hstart : isGapBlank c = false ∧ c ≠ '#' ∧
      ¬ StandsAt esacWord behind (c :: t) ∧ (arm.opened = false → c ≠ '(') := by
    cases hopened : arm.opened with
    | true =>
        obtain rfl : '(' = c := by
          simp only [text, opening, hopened] at htext
          exact (List.cons.inj htext).1
        exact ⟨by decide, by decide, not_standsAt_of_head (by simp), by simp⟩
    | false =>
        have hblank : isGapBlank c = false := by
          have := hfront hopened
          rw [htext] at this
          simpa using this
        have hshown := hshows hopened
        rw [htext, ShowsPattern, if_neg (ne_true_of_eq_false hblank)] at hshown
        exact ⟨hblank, hshown.2.1, hshown.2.2, fun _ => hshown.1⟩
  obtain ⟨hblank, hhash, hesac, hparen⟩ := hstart
  have hread := read?_written hpieces
    (fun hopened => by rw [htext]; simpa using hparen hopened) hbody hend
  rw [htext] at hread ⊢
  exact readArms?_of_read? (Place.skipGap_of_head hblank hhash behind t)
    (Place.keyword?_eq_none hesac) hread

section

variable {c : Char} (hc : isGapBlank c = true) {rest : List Piece} {body : Commands}
include hc

theorem fits_of_blank_cons {behind after : Text}
    (h : (⟨false, .plain c :: rest, body⟩ : WrittenArm).Fits behind after) :
    (⟨false, rest, body⟩ : WrittenArm).Fits (c :: behind) after := by
  obtain ⟨hpieces, hshows, hbody⟩ := h
  have hshows := hshows rfl
  refine ⟨fun p hp => hpieces p (List.mem_cons_of_mem _ hp), fun _ => ?_, ?_⟩
  · simpa [text, opening, Piece.text, ShowsPattern, hc] using hshows
  · simpa [opening, Piece.text] using hbody

theorem read_blank_cons :
    (⟨false, .plain c :: rest, body⟩ : WrittenArm).read =
      (⟨false, rest, body⟩ : WrittenArm).read := by
  rw [read, read, textOf_cons, Piece.text, List.singleton_append,
    labels_blank_cons hc]

end

/-- An arm without its parenthesis may start with blanks, and they are passed
with the gap. The rest of it is an arm with the same labels. -/
theorem readArms?_arm {arm : WrittenArm} {behind after : Text}
    (h : arm.Fits behind after)
    (hend : Place.EndsBody ⟨arm.text.reverse ++ behind, after⟩) :
    readArms? ⟨behind, arm.text ++ after⟩ =
      (readArms? (Place.pastEnding ⟨arm.text.reverse ++ behind, after⟩)).map
        fun (arms, r) => (arm.read :: arms, r) := by
  obtain ⟨opened, pattern, body⟩ := arm
  cases opened with
  | true => exact readArms?_at h (fun hopened => by cases hopened) hend
  | false =>
      induction pattern generalizing behind with
      | nil => exact readArms?_at h (fun _ => rfl) hend
      | cons piece rest ih =>
          by_cases hblank : ∃ c, piece = .plain c ∧ isGapBlank c = true
          · obtain ⟨c, rfl, hc⟩ := hblank
            have hpassed : (⟨false, .plain c :: rest, body⟩ : WrittenArm).text =
                c :: (⟨false, rest, body⟩ : WrittenArm).text := rfl
            rw [hpassed, List.reverse_cons, List.append_assoc] at hend ⊢
            rw [read_blank_cons hc, List.cons_append,
              readArms?_congr (Place.skipGap_blank hc behind _)]
            exact ih (fits_of_blank_cons hc h) hend
          · have hplain : ∀ c, piece = .plain c → isGapBlank c = false :=
              fun c hc => eq_false_of_ne_true fun hgap => hblank ⟨c, hc, hgap⟩
            have hhead :=
              head?_text_of_complete (h.1 piece List.mem_cons_self).1 hplain
            refine readArms?_at h (fun _ => ?_) hend
            obtain ⟨c, t, htext⟩ := List.exists_cons_of_ne_nil piece.text_ne_nil
            rw [htext] at hhead
            simpa [text, opening, htext] using hhead

end WrittenArm

theorem readArms?_esac {behind after : Text}
    (h : StandsAt esacWord behind (esacWord ++ after)) :
    readArms? ⟨behind, esacWord ++ after⟩ =
      some ([], ⟨esacWord.reverse ++ behind, after⟩) := by
  have hgap : (⟨behind, esacWord ++ after⟩ : Place).skipGap =
      ⟨behind, esacWord ++ after⟩ :=
    Place.skipGap_of_head (by decide) (by decide) behind _
  rw [readArms?, hgap, Place.keyword?_of_standsAt h]

/-- A table that fits where it stands is read as the arms it is written
with, up to its own `esac`. -/
theorem readArms?_table {table : WrittenTable} {behind after : Text}
    (h : table.Fits behind after) :
    readArms? ⟨behind, table.text ++ after⟩ =
      some (table.arms, ⟨table.text.reverse ++ behind, after⟩) := by
  induction table generalizing behind with
  | close => exact readArms?_esac h
  | last arm =>
      obtain ⟨harm, hesac⟩ := h
      rw [WrittenTable.text, List.append_assoc, List.reverse_append,
        List.append_assoc,
        WrittenArm.readArms?_arm harm (Place.endsBody_of_esac hesac),
        Place.pastEnding_esac, readArms?_esac hesac]
      rfl
  | more first ending gap rest ih =>
      obtain ⟨harm, hgap, hnext, hrest⟩ := h
      have hend := Place.endsBody_of_terminates (first.text.reverse ++ behind)
        (Place.terminates_ending ending (textOf gap ++ (rest.text ++ after)))
      simp only [WrittenTable.text, List.append_assoc, List.reverse_append]
      rw [WrittenArm.readArms?_arm harm hend, Place.pastEnding_ending ending _ hnext,
        readArms?_gap hgap, ih hrest]
      rfl

end CaseTable.Shell

namespace CaseTable.Place

theorem advanceBytes_go_byteSize (behind passed rest : Text) :
    advanceBytes.go (Text.byteSize passed) behind (passed ++ rest) =
      ⟨passed.reverse ++ behind, rest⟩ := by
  induction passed generalizing behind with
  | nil => cases rest <;> simp [advanceBytes.go]
  | cons c t ih =>
      have hsize : c.utf8Size + Text.byteSize t ≠ 0 := by
        have := c.utf8Size_pos
        omega
      rw [List.cons_append, Text.byteSize_cons, advanceBytes.go, if_neg hsize,
        Nat.add_sub_cancel_left, ih, List.reverse_cons, List.append_assoc]
      rfl

theorem advanceBytes_start (before rest : Text) :
    (start (before ++ rest)).advanceBytes (Text.byteSize before) =
      ⟨before.reverse, rest⟩ := by
  rw [start, advanceBytes, advanceBytes_go_byteSize, List.append_nil]

theorem advanceBytes_offset (p : Place) : (start p.text).advanceBytes p.offset = p := by
  rw [offset, ← Text.byteSize_reverse, text, advanceBytes_start, List.reverse_reverse]

end CaseTable.Place

namespace CaseTable.Shell

/-- Reading the arms of a table finds exactly those it was written with,
however its pieces and its inner tables look: the labels of each pattern and
each body as it stands. What precedes the table and what follows its `esac`
can be anything that leaves the keywords delimited. -/
theorem armsAt_written (before after : Text) (gap : List Piece)
    (table : WrittenTable) (hgap : ∀ piece ∈ gap, piece.Skipped)
    (h : table.Fits ((textOf gap).reverse ++ before.reverse) after) :
    armsAt (before ++ (textOf gap ++ (table.text ++ after)))
      (Text.byteSize before) = .ok table.arms := by
  rw [armsAt, Place.advanceBytes_start, readArms?_gap hgap, readArms?_table h]

/-- A nested table with its own endings, a quoted parenthesis, a comment and
an escape hide what would end the arm, and the second arm has no ending. -/
theorem armsAt_written_nested :
    armsAt ("case $x in # all;;\n a|\x27b)\x27) case $y in p) q;; esac #;;\n" ++
        " \";;\" \\;;& (c) z\nesac | sort").toList 10 =
      .ok [⟨["a".toList, "b)".toList],
          " case $y in p) q;; esac #;;\n \";;\" \\;".toList⟩,
        ⟨["c".toList], " z\n".toList⟩] := by
  let plains (t : String) : List Piece := t.toList.map Piece.plain
  let gap : List Piece := [.plain ' ', .comment " all;;\n".toList, .plain ' ']
  let inner : Commands :=
    .piece (.plain ' ') (.table (.ofPieces (plains " $y in p) q;; "))
      (.ofPieces [.plain ' ', .comment ";;\n".toList, .plain ' ',
        .double ";;".toList, .plain ' ', .escape ';']))
  let table : WrittenTable :=
    .more ⟨false, plains "a|" ++ [.single "b)".toList], inner⟩ .fallThrough
      [.plain ' '] (.last ⟨true, plains "c", .ofPieces (plains " z\n")⟩)
  have htext : "case $x in".toList ++ (textOf gap ++ (table.text ++ " | sort".toList)) =
    ("case $x in # all;;\n a|\x27b)\x27) case $y in p) q;; esac #;;\n" ++
      " \";;\" \\;;& (c) z\nesac | sort").toList := by decide
  have harms : table.arms =
      [⟨["a".toList, "b)".toList],
          " case $y in p) q;; esac #;;\n \";;\" \\;".toList⟩,
        ⟨["c".toList], " z\n".toList⟩] := by decide
  have h := armsAt_written "case $x in".toList " | sort".toList gap table
    (by decide) (by decide)
  rw [htext, harms] at h
  exact h

end CaseTable.Shell
