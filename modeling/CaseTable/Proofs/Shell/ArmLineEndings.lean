import CaseTable.Proofs.Shell.LineEndings
import CaseTable.Proofs.Shell.Locality

/-!
# Arms across line ends of two characters

The arms of a table are the same with the new line ends, up to the line ends
in their labels and bodies (`readArms?_crlf`). An arm is ended by semicolons
and ampersands, and a line end is a blank between arms, as before.
-/

namespace CaseTable.Place

open CaseTable.Text CaseTable.Shell

theorem skipGap_go_crlf (inComment : Bool) (b t : Text) :
    skipGap.go inComment (crlfBehind b) (Text.crlf t) = (skipGap.go inComment b t).crlf := by
  induction t generalizing inComment b with
  | nil => rfl
  | cons c t ih =>
      by_cases hc : c = '\n'
      · subst hc
        cases inComment
        · exact ih false ('\n' :: b)
        · exact ih false ('\n' :: b)
      · have hrest (inComment' : Bool) := ih inComment' (c :: b)
        rw [crlfBehind_cons_of_ne hc] at hrest
        rw [crlf_cons_of_ne hc, skipGap.go, skipGap.go]
        split
        · exact hrest _
        · split
          · exact hrest _
          · split
            · exact hrest _
            · rw [crlf, crlf_cons_of_ne hc]

theorem skipGap_crlf (p : Place) : p.crlf.skipGap = p.skipGap.crlf :=
  skipGap_go_crlf false p.behind p.ahead

theorem patternEnd?_of_take? {p q : Place} {piece : Piece}
    (h : p.take? false = some (piece, q)) :
    p.patternEnd? = if piece = .plain ')' then some p else q.patternEnd? := by
  rw [patternEnd?]
  split
  · next hnone => cases h.symm.trans hnone
  · next hclose =>
      cases h.symm.trans hclose
      rfl
  · next hclose hother =>
      cases h.symm.trans hother
      rw [if_neg hclose]

theorem patternEnd?_newline (b t : Text) :
    (⟨b, '\n' :: t⟩ : Place).patternEnd? = (⟨'\n' :: b, t⟩ : Place).patternEnd? :=
  patternEnd?_of_take? (take?_newline _ b t)

theorem patternEnd?_crlf (p : Place) : p.crlf.patternEnd? = p.patternEnd?.map crlf := by
  have hblank : isBlank ')' = false := by decide
  fun_induction patternEnd? p with
  | case1 p hnone =>
      rw [patternEnd?]
      split
      · rfl
      all_goals next hsome => cases (take?_crlf_of_none hnone).symm.trans hsome
  | case2 p q hq =>
      obtain ⟨piece, r, hr, -, hsame⟩ := exists_take?_crlf hq
      rw [patternEnd?_of_take? hr, if_pos ((hsame _ hblank).mpr rfl)]
      rfl
  | case3 p piece q hclose hq ih =>
      obtain ⟨piece', r, hr, hover, hsame⟩ := exists_take?_crlf hq
      rw [patternEnd?_of_take? hr, if_neg fun heq => hclose ((hsame _ hblank).mp heq), ← ih]
      exact hover.congr patternEnd?_newline

theorem terminator_crlf (t : Text) : terminator (Text.crlf t) = terminator t := by
  rcases crlf_cases t with rfl | ⟨t, rfl⟩ | ⟨a, t, rfl, h⟩
  · rfl
  · rfl
  · rw [h]
    rcases crlf_cases t with rfl | ⟨t, rfl⟩ | ⟨b, t, rfl, h⟩
    · rfl
    · simp [terminator]
    · rw [h]
      rcases crlf_cases t with rfl | ⟨t, rfl⟩ | ⟨c, t, rfl, h⟩
      · rfl
      · rw [crlf_newline, ← terminator_take, ← terminator_take (a :: b :: '\n' :: t)]
        by_cases ha : a = ';'
        · by_cases hb : b = ';' ∨ b = '&'
          · rcases hb with rfl | rfl <;> simp [terminator, ha]
          · rw [not_or] at hb
            simp [terminator, ha, hb]
        · simp [terminator, ha]
      · rw [h, ← terminator_take, ← terminator_take (a :: b :: c :: t)]
        rfl

theorem bodyEnd?_newline (depth : Nat) (b t : Text) :
    (⟨b, '\n' :: t⟩ : Place).bodyEnd? depth = (⟨'\n' :: b, t⟩ : Place).bodyEnd? depth := by
  rw [bodyEnd?_of_keyword?_none depth (keyword?_newline (by decide) _ b t)
    (keyword?_newline (by decide) _ b t), if_neg fun hend => hend.2 rfl,
    piece?, take?_newline, Option.bind_some]

theorem bodyEnd?_crlf (depth : Nat) (p : Place) :
    p.crlf.bodyEnd? depth = (p.bodyEnd? depth).map crlf := by
  have hkeyword {word : Text} (hword : OneLine word) {p : Place} {q : Option Place}
      (h : p.keyword? word = q) : p.crlf.keyword? word = q.map crlf := by
    rw [keyword?_crlf hword, h]
  have hending (p : Place) : terminator p.crlf.ahead = terminator p.ahead :=
    terminator_crlf p.ahead
  fun_induction bodyEnd? depth p with
  | case1 depth p q hq ih =>
      rw [bodyEnd?_of_case (hkeyword oneLine_caseWord hq), ih]
  | case2 p hcase q hq =>
      rw [bodyEnd?_of_esac 0 (hkeyword oneLine_caseWord hcase) (hkeyword oneLine_esacWord hq),
        if_pos rfl]
      rfl
  | case3 depth p hcase q hq hdepth ih =>
      rw [bodyEnd?_of_esac depth (hkeyword oneLine_caseWord hcase)
        (hkeyword oneLine_esacWord hq), if_neg hdepth, ih]
  | case4 depth p hcase hesac hend =>
      rw [bodyEnd?_of_keyword?_none depth (hkeyword oneLine_caseWord hcase)
        (hkeyword oneLine_esacWord hesac), hending, if_pos hend]
      rfl
  | case5 depth p hcase hesac hend hnone =>
      rw [bodyEnd?_of_keyword?_none depth (hkeyword oneLine_caseWord hcase)
        (hkeyword oneLine_esacWord hesac), hending, if_neg hend, piece?_crlf_of_none hnone]
      rfl
  | case6 depth p hcase hesac hend piece q hq ih =>
      obtain ⟨piece', r, hr, hover, -⟩ := exists_piece?_crlf hq
      rw [bodyEnd?_of_keyword?_none depth (hkeyword oneLine_caseWord hcase)
        (hkeyword oneLine_esacWord hesac), hending, if_neg hend, hr, Option.bind_some, ← ih]
      exact hover.congr (bodyEnd?_newline _)

end CaseTable.Place

namespace CaseTable.Shell

open CaseTable.Text CaseTable.Place

theorem between?_crlf {mark : Char} (h : OneLine [mark]) (t : Text) :
    between? mark (Text.crlf t) = (between? mark t).map Text.crlf := by
  rw [between?, between?, afterStart?_crlf h]
  cases Text.afterStart? [mark] t with
  | none => rfl
  | some rest => exact beforeEnd?_crlf h rest

theorem unquoteLabel_crlf (t : Text) : unquoteLabel (Text.crlf t) = Text.crlf (unquoteLabel t) := by
  have hdouble : OneLine ['"'] := by decide
  have hsingle : OneLine ['\x27'] := by decide
  simp only [unquoteLabel, trim_crlf, between?_crlf hdouble, between?_crlf hsingle]
  cases between? '"' t.trim with
  | some label => rfl
  | none =>
      cases between? '\x27' t.trim with
      | some label => rfl
      | none => rfl

theorem labels_crlf (pattern : Text) :
    labels (Text.crlf pattern) = (labels pattern).map Text.crlf := by
  have hunquote (pieces : List Text) : (pieces.map Text.crlf).map unquoteLabel =
      (pieces.map unquoteLabel).map Text.crlf := by
    simp [unquoteLabel_crlf]
  have hempty : ((fun label : Text => decide (label ≠ [])) ∘ Text.crlf) =
      fun label => decide (label ≠ []) :=
    funext fun label => by simp [crlf_eq_nil_iff]
  rw [labels, splitOn_crlf (by decide) (by decide), hunquote, List.filter_map, hempty, labels]

/-- The same arm with the new line ends. -/
def Arm.crlf (arm : Arm) : Arm := ⟨arm.labels.map Text.crlf, Text.crlf arm.body⟩

theorem next?_crlf_eq_iff {c : Char} (hline : c ≠ '\n') (hreturn : c ≠ '\r') (p : Place) :
    p.crlf.next? = some c ↔ p.next? = some c := by
  rw [next?, next?, Place.crlf]
  rcases crlf_cases p.ahead with h | ⟨t, h⟩ | ⟨d, t, h, hcrlf⟩
  · rw [h]
    rfl
  · simp [h, Ne.symm hline, Ne.symm hreturn]
  · rw [hcrlf, h]
    rfl

theorem advance_one_crlf {c : Char} (h : OneLine [c]) {p : Place} {t : Text}
    (hahead : p.ahead = c :: t) : p.crlf.advance 1 = (p.advance 1).crlf :=
  advance_crlf h (hahead.trans (List.singleton_append).symm)

theorem readPattern?_crlf (p : Place) :
    readPattern? p.crlf = (readPattern? p).map (Prod.map Text.crlf Place.crlf) := by
  have hopen : (if p.crlf.next? = some '(' then p.crlf.advance 1 else p.crlf) =
      (if p.next? = some '(' then p.advance 1 else p).crlf := by
    by_cases hnext : p.next? = some '('
    · obtain ⟨t, ht⟩ := List.head?_eq_some_iff.mp hnext
      rw [if_pos hnext, if_pos ((next?_crlf_eq_iff (by decide) (by decide) p).mpr hnext),
        advance_one_crlf (by decide) ht]
    · rw [if_neg hnext,
        if_neg fun h => hnext ((next?_crlf_eq_iff (by decide) (by decide) p).mp h)]
  simp only [readPattern?, hopen, patternEnd?_crlf, Option.map_map]
  generalize (if p.next? = some '(' then p.advance 1 else p) = q
  cases hend : q.patternEnd? with
  | none => rfl
  | some e =>
      obtain ⟨pieces, -, hpassed, rest, hclose⟩ := exists_pieces_patternEnd? hend
      simp only [Option.map_some, Function.comp_apply, Prod.map_apply, upTo_crlf hpassed,
        advance_one_crlf (show OneLine [')'] by decide) hclose]

theorem oneLine_terminator (t : Text) : OneLine (terminator t) := by
  fun_cases terminator t <;> decide

theorem readBody?_crlf (p : Place) :
    readBody? p.crlf = (readBody? p).map (Prod.map Text.crlf Place.crlf) := by
  rw [readBody?, readBody?, bodyEnd?_crlf]
  cases hend : p.bodyEnd? 0 with
  | none => rfl
  | some e =>
      obtain ⟨s, hpassed⟩ := exists_passes_bodyEnd? hend
      obtain ⟨rest, hrest⟩ := terminator_prefix_self e.ahead
      have hadvance := advance_crlf (oneLine_terminator e.ahead) hrest.symm
      have hsame : terminator e.crlf.ahead = terminator e.ahead := terminator_crlf e.ahead
      simp only [Option.map_some, Prod.map_apply, upTo_crlf hpassed, hsame, hadvance]

theorem Arm.read?_crlf (p : Place) :
    Arm.read? p.crlf = (Arm.read? p).map (Prod.map Arm.crlf Place.crlf) := by
  rw [Arm.read?, Arm.read?, readPattern?_crlf]
  cases readPattern? p with
  | none => rfl
  | some read =>
      obtain ⟨pattern, q⟩ := read
      simp only [Option.map_some, Prod.map_apply, readBody?_crlf, labels_crlf]
      cases readBody? q with
      | none => rfl
      | some read => rfl

/-- A table is read with the new line ends as with the old ones. -/
theorem readArms?_crlf (p : Place) :
    readArms? p.crlf = (readArms? p).map (Prod.map (List.map Arm.crlf) Place.crlf) := by
  fun_induction readArms? p with
  | case1 p q hq =>
      rw [readArms?, skipGap_crlf, keyword?_crlf oneLine_esacWord, hq]
      rfl
  | case2 p hesac hnone =>
      have hnone' : Arm.read? p.crlf.skipGap = none := by
        rw [skipGap_crlf, Arm.read?_crlf, hnone]
        rfl
      rw [readArms?, skipGap_crlf, keyword?_crlf oneLine_esacWord, hesac]
      simp only [Option.map_none]
      split
      · rfl
      · next hsome =>
          rw [← skipGap_crlf] at hsome
          cases hnone'.symm.trans hsome
  | case3 p hesac arm q hq ih =>
      have hread : Arm.read? p.crlf.skipGap = some (arm.crlf, q.crlf) := by
        rw [skipGap_crlf, Arm.read?_crlf, hq]
        rfl
      rw [readArms?, skipGap_crlf, keyword?_crlf oneLine_esacWord, hesac]
      simp only [Option.map_none]
      rw [← skipGap_crlf]
      split
      · next hnone => cases hnone.symm.trans hread
      · next hsome =>
          cases hsome.symm.trans hread
          rw [ih]
          cases readArms? q <;> rfl

end CaseTable.Shell
