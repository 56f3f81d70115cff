import CaseTable.Proofs.Shell.Locality

/-!
# A table taken apart

What the reader of a table has passed is a table and nothing else: arm after
arm a gap, the arm and its ending, then a last gap and the `esac`, with nothing
between them and nothing counted twice. `Tiling` says so without the reader,
and a table is read exactly if it is there (`readArms?_eq_some_iff`).

A tiling is what a writer's table is not: it has every ending that the reader
takes, the semicolon and two ampersands among them. The one thing that it
shares with the text behind is the last ampersand of an ending. It belongs to
the ending if it is there.
-/

namespace CaseTable.Place

open CaseTable.Shell

/-- What is passed up to the end of a body is commands. If tables are open, it
goes up to the `esac` of the innermost one. -/
theorem exists_commands_bodyEnd? {depth : Nat} {p e : Place} (h : p.bodyEnd? depth = some e) :
    ∃ (commands : Commands) (q : Place), p.Passes commands.text q ∧
      commands.Fits (depth ≠ 0) p.behind q.ahead ∧
      if depth = 0 then q = e
      else ∃ r, q.keyword? esacWord = some r ∧ r.bodyEnd? (depth - 1) = some e := by
  induction hlen : p.ahead.length using Nat.strongRecOn generalizing depth p with
  | _ n ih =>
      subst hlen
      cases hcase : p.keyword? caseWord with
      | some r =>
          rw [bodyEnd?_of_case hcase] at h
          have hopen := passes_of_keyword? hcase
          have hopened := hopen.length_eq
          simp only [caseWord, List.length_cons, List.length_nil] at hopened
          obtain ⟨inside, q, hinside, hfits, s, hesac, hend⟩ := ih _ (by omega) h rfl
          have hclosed := passes_of_keyword? hesac
          have hpassed := (hinside.trans hclosed).length_eq
          rw [List.length_append] at hpassed
          obtain ⟨rest, q', hrest, hfitsRest, hstop⟩ := ih _ (by omega) hend rfl
          refine ⟨.table inside rest, q',
            hopen.trans (hinside.trans (hclosed.trans hrest)), ?_, hstop⟩
          have hahead : q.ahead = esacWord ++ (rest.text ++ q'.ahead) := by
            rw [hclosed.1, hrest.1]
          have hcaseStands := standsAt_of_keyword? hcase
          have hesacStands := standsAt_of_keyword? hesac
          rw [hopen.1, hinside.1, hahead] at hcaseStands
          rw [hinside.2, hopen.2, hahead] at hesacStands
          rw [hopen.2, hahead] at hfits
          rw [hclosed.2, hinside.2, hopen.2] at hfitsRest
          exact ⟨hcaseStands, hfits, hesacStands, hfitsRest⟩
      | none =>
          cases hesac : p.keyword? esacWord with
          | some r =>
              rw [bodyEnd?_of_esac depth hcase hesac] at h
              refine ⟨.nil, p, Passes.refl p, trivial, ?_⟩
              split at h
              · next hzero =>
                  rw [if_pos hzero]
                  exact Option.some.inj h
              · next hzero =>
                  rw [if_neg hzero]
                  exact ⟨r, hesac, h⟩
          | none =>
              rw [bodyEnd?_of_keyword?_none depth hcase hesac] at h
              split at h
              · next hend =>
                  refine ⟨.nil, p, Passes.refl p, trivial, ?_⟩
                  rw [if_pos hend.1]
                  exact Option.some.inj h
              · next hend =>
                  obtain ⟨⟨piece, r⟩, hr, hrest⟩ := Option.bind_eq_some_iff.mp h
                  have hpiece := passes_of_take? hr
                  have hfollowed : r.ahead ≠ [] := by
                    obtain ⟨s, hs⟩ := exists_passes_bodyEnd? hrest
                    exact fun hnil =>
                      bodyEnd?_ne_nil hrest (List.append_eq_nil_iff.mp (hs.1.symm.trans hnil)).2
                  obtain ⟨rest, q, hpassed, hfits, hstop⟩ := ih _ (length_lt_of_take? hr) hrest rfl
                  have hquiet := quiet_move hcase hesac hend rfl (Alike.refl p.ahead)
                  rw [hpiece.1, hpassed.1] at hquiet
                  rw [hpiece.2] at hfits
                  exact ⟨.piece piece rest, q, hpiece.trans hpassed,
                    ⟨complete_of_take? hr hfollowed, hquiet, hfits⟩, hstop⟩

/-- A body ends at an ending or at an `esac`. -/
theorem endsBody_of_bodyEnd? {depth : Nat} {p e : Place} (h : p.bodyEnd? depth = some e) :
    terminator e.ahead ≠ [] ∨ StandsAt esacWord e.behind e.ahead := by
  fun_induction bodyEnd? depth p with
  | case1 depth p r hr ih => exact ih h
  | case2 p hcase r hr =>
      cases h
      exact .inr (standsAt_of_keyword? hr)
  | case3 depth p hcase r hr hdepth ih => exact ih h
  | case4 depth p hcase hesac hend =>
      cases h
      exact .inl hend.2
  | case5 => cases h
  | case6 depth p hcase hesac hend piece r hr ih => exact ih h

end CaseTable.Place

namespace CaseTable.Shell

/-- What may end an arm where `follows` stands behind it: two semicolons, or a
semicolon and an ampersand, with one more ampersand if there is one. -/
def Ends (ending follows : Text) : Prop :=
  (ending = [';', ';', '&'] ∨ ending = [';', '&', '&']) ∨
    (ending = [';', ';'] ∨ ending = [';', '&']) ∧ follows.head? ≠ some '&'

instance (ending follows : Text) : Decidable (Ends ending follows) :=
  inferInstanceAs (Decidable (_ ∨ _ ∧ _))

theorem Ends.terminator_eq {ending follows : Text} (h : Ends ending follows) :
    Place.terminator (ending ++ follows) = ending := by
  rcases h with (rfl | rfl) | ⟨rfl | rfl, hnext⟩
  · rfl
  · rfl
  · exact Place.terminator_ending .stop hnext
  · exact Place.terminator_ending .fallThrough hnext

theorem Ends.ne_nil {ending follows : Text} (h : Ends ending follows) : ending ≠ [] := by
  rcases h with (rfl | rfl) | ⟨rfl | rfl, -⟩ <;> simp

theorem ends_terminator {t follows : Text} (hne : Place.terminator t ≠ [])
    (h : t = Place.terminator t ++ follows) : Ends (Place.terminator t) follows := by
  have hnext {u : Text} (hu : ∀ v, u = '&' :: v → False) : u.head? ≠ some '&' := by
    intro hhead
    obtain ⟨v, hv⟩ := List.head?_eq_some_iff.mp hhead
    exact hu v hv
  revert hne h
  fun_cases Place.terminator t with
  | case1 u => exact fun _ _ => .inl (.inl rfl)
  | case2 u => exact fun _ _ => .inl (.inr rfl)
  | case3 u hu =>
      intro _ h
      obtain rfl : u = follows := by simpa using h
      exact .inr ⟨.inl rfl, hnext hu⟩
  | case4 u hu =>
      intro _ h
      obtain rfl : u = follows := by simpa using h
      exact .inr ⟨.inr rfl, hnext hu⟩
  | case5 => exact fun hne _ => absurd rfl hne

/-- A table as it is found in a text: before each arm the gap, behind it the
ending, and a last gap before the `esac`. -/
inductive Tiling
    | close (gap : List Piece)
    | tile (gap : List Piece) (arm : WrittenArm) (ending : Text) (rest : Tiling)

namespace Tiling

def text : Tiling → Text
  | close gap => textOf gap ++ esacWord
  | tile gap arm ending rest => textOf gap ++ (arm.text ++ (ending ++ rest.text))

def arms : Tiling → List Arm
  | close _ => []
  | tile _ arm _ rest => arm.read :: rest.arms

/-- Each gap is blanks and comments, each arm fits where it stands, and the
`esac` is delimited. Only the last arm may do without an ending, and then the
`esac` stands right behind it. -/
def Fits : Tiling → Text → Text → Prop
  | close gap, behind, after =>
      (∀ piece ∈ gap, piece.Skipped) ∧
        StandsAt esacWord ((textOf gap).reverse ++ behind) (esacWord ++ after)
  | tile gap arm ending rest, behind, after =>
      let follows := rest.text ++ after
      let before := (textOf gap).reverse ++ behind
      (∀ piece ∈ gap, piece.Skipped) ∧ arm.Fits before (ending ++ follows) ∧
        (Ends ending follows ∨ ending = [] ∧ rest = close []) ∧
        rest.Fits (ending.reverse ++ (arm.text.reverse ++ before)) after

end Tiling

/-- An arm is read where no gap is left and no `esac` stands: it is there, with
its ending, or without one in front of an `esac`. -/
theorem exists_written_read? {p q : Place} {arm : Arm} (h : Arm.read? p = some (arm, q))
    (hgap : ∀ c t, p.ahead = c :: t → isGapBlank c = false ∧ c ≠ '#')
    (hesac : p.keyword? esacWord = none) :
    ∃ (written : WrittenArm) (ending : Text), p.Passes (written.text ++ ending) q ∧
      written.read = arm ∧ written.Fits p.behind (ending ++ q.ahead) ∧
      (Ends ending q.ahead ∨ ending = [] ∧ StandsAt esacWord q.behind q.ahead) := by
  obtain ⟨pattern, r, hpattern, hlabels, hbody⟩ := Arm.read?_eq_some_iff.mp h
  obtain ⟨opened, pieces, hpieces, rfl, hopen, hfront⟩ := exists_pieces_readPattern? hpattern
  obtain ⟨e, he, heq⟩ := Option.map_eq_some_iff.mp hbody
  obtain ⟨htext, hpast⟩ := Prod.mk.inj heq
  obtain ⟨body, stop, hpassed, hfits, hstop⟩ := Place.exists_commands_bodyEnd? he
  obtain rfl : stop = e := hstop
  rw [hpassed.upTo_eq] at htext
  let written : WrittenArm := ⟨opened, pieces, body⟩
  have harm : p.Passes written.text stop := by
    have hboth := hopen.trans hpassed
    simpa [written, WrittenArm.text, WrittenArm.opening, Commands.text] using hboth
  have hread : written.read = arm := by
    rw [WrittenArm.read, ← hlabels, htext]
  have hwritten : written.Fits p.behind stop.ahead := by
    refine ⟨hpieces, fun hopened => ?_, ?_⟩
    · rw [← harm.1]
      cases hahead : p.ahead with
      | nil => trivial
      | cons c t =>
          obtain ⟨hblank, hhash⟩ := hgap c t hahead
          have hparen := hfront hopened
          rw [Place.next?, hahead] at hparen
          rw [WrittenArm.ShowsPattern, if_neg (ne_true_of_eq_false hblank), ← hahead]
          exact ⟨fun hc => hparen (congrArg some hc), hhash,
            Place.not_standsAt_of_keyword? hesac⟩
    · rw [hopen.2] at hfits
      simpa [written, WrittenArm.text, WrittenArm.opening, Commands.text] using hfits
  have hending := stop.passes_pastEnding
  rw [Place.pastEnding, hpast] at hending
  refine ⟨written, Place.terminator stop.ahead, harm.trans hending, hread, ?_, ?_⟩
  · rwa [← hending.1]
  · by_cases hnone : Place.terminator stop.ahead = []
    · have hesac := (Place.endsBody_of_bodyEnd? he).resolve_left fun hends => hends hnone
      rw [hnone] at hending ⊢
      rw [hending.1, List.nil_append] at hesac
      rw [hending.2, List.reverse_nil, List.nil_append]
      exact .inr ⟨rfl, hesac⟩
    · exact .inl (ends_terminator hnone hending.1)

namespace Tiling

/-- A table that is there is read. -/
theorem readArms?_fits {tiling : Tiling} {behind after : Text} (h : tiling.Fits behind after) :
    readArms? ⟨behind, tiling.text ++ after⟩ =
      some (tiling.arms, ⟨tiling.text.reverse ++ behind, after⟩) := by
  induction tiling generalizing behind with
  | close gap =>
      obtain ⟨hgap, hesac⟩ := h
      rw [text, List.append_assoc, readArms?_gap hgap, readArms?_esac hesac, List.reverse_append,
        List.append_assoc]
      rfl
  | tile gap arm ending rest ih =>
      obtain ⟨hgap, harm, hends, hrest⟩ := h
      simp only [text, List.append_assoc, List.reverse_append]
      have hstop : Place.EndsBody ⟨arm.text.reverse ++ ((textOf gap).reverse ++ behind),
            ending ++ (rest.text ++ after)⟩ ∧
          Place.pastEnding ⟨arm.text.reverse ++ ((textOf gap).reverse ++ behind),
              ending ++ (rest.text ++ after)⟩ =
            ⟨ending.reverse ++ (arm.text.reverse ++ ((textOf gap).reverse ++ behind)),
              rest.text ++ after⟩ := by
        rcases hends with hends | ⟨rfl, rfl⟩
        · have hterminator := hends.terminator_eq
          constructor
          · refine Place.endsBody_of_terminates _ (Place.terminator_ne_nil_iff.mp ?_)
            rw [hterminator]
            exact hends.ne_nil
          · rw [Place.pastEnding, hterminator, Place.advance, List.take_left, List.drop_left]
        · exact ⟨Place.endsBody_of_esac hrest.2, Place.pastEnding_esac _ _⟩
      rw [readArms?_gap hgap, WrittenArm.readArms?_arm harm hstop.1, hstop.2, ih hrest]
      rfl

end Tiling

/-- One step of the reader: a gap, an arm and its ending. -/
theorem exists_tile {p r : Place} {arm : Arm} (hesac : p.skipGap.keyword? esacWord = none)
    (h : Arm.read? p.skipGap = some (arm, r)) :
    ∃ (gap : List Piece) (written : WrittenArm) (ending : Text),
      p.Passes (textOf gap ++ (written.text ++ ending)) r ∧ (∀ piece ∈ gap, piece.Skipped) ∧
      written.read = arm ∧ written.Fits ((textOf gap).reverse ++ p.behind) (ending ++ r.ahead) ∧
      (Ends ending r.ahead ∨ ending = [] ∧ StandsAt esacWord r.behind r.ahead) := by
  have hshorter := Arm.length_lt_of_read? h
  obtain ⟨gap, hgap, hpassed, hfront⟩ := Place.exists_gap_skipGap (p := p)
    (List.ne_nil_of_length_pos (Nat.zero_lt_of_lt hshorter))
  obtain ⟨written, ending, harm, hread, hfits, hends⟩ := exists_written_read? h hfront hesac
  rw [hpassed.2] at hfits
  exact ⟨gap, written, ending, hpassed.trans harm, hgap, hread, hfits, hends⟩

/-- Without an ending the `esac` is next. -/
theorem readArms?_of_standsAt {p : Place} (h : StandsAt esacWord p.behind p.ahead) :
    ∃ q, readArms? p = some ([], q) ∧ p.Passes esacWord q := by
  obtain ⟨after, hafter⟩ := h.2.1
  obtain ⟨behind, ahead⟩ := p
  subst hafter
  exact ⟨_, readArms?_esac h, rfl, rfl⟩

/-- A table is read exactly if it is there. -/
theorem readArms?_eq_some_iff {p q : Place} {arms : List Arm} :
    readArms? p = some (arms, q) ↔ ∃ tiling : Tiling, p.Passes tiling.text q ∧
      tiling.Fits p.behind q.ahead ∧ tiling.arms = arms := by
  constructor
  · intro h
    fun_induction readArms? p generalizing arms q with
    | case1 p r hr =>
        cases h
        have hesac := Place.passes_of_keyword? hr
        have hstands := Place.standsAt_of_keyword? hr
        obtain ⟨gap, hgap, hpassed, -⟩ := Place.exists_gap_skipGap (p := p) (by
          rw [hesac.1]
          simp [esacWord])
        rw [hpassed.2, hesac.1] at hstands
        exact ⟨.close gap, hpassed.trans hesac, ⟨hgap, hstands⟩, rfl⟩
    | case2 => cases h
    | case3 p hesac arm r hr ih =>
        obtain ⟨⟨rest, stop⟩, hrest, heq⟩ := Option.map_eq_some_iff.mp h
        obtain ⟨rfl, rfl⟩ := Prod.mk.inj heq
        obtain ⟨gap, written, ending, hpassed, hgap, hread, hfits, hends⟩ := exists_tile hesac hr
        obtain ⟨tiling, htext, hfitsRest, harms, hlast⟩ : ∃ tiling : Tiling,
            r.Passes tiling.text stop ∧ tiling.Fits r.behind stop.ahead ∧ tiling.arms = rest ∧
              (Ends ending r.ahead ∨ ending = [] ∧ tiling = .close []) := by
          rcases hends with hends | ⟨hnone, hstands⟩
          · obtain ⟨tiling, htext, hfitsRest, harms⟩ := ih hrest
            exact ⟨tiling, htext, hfitsRest, harms, .inl hends⟩
          · obtain ⟨q, hq, hclosed⟩ := readArms?_of_standsAt hstands
            cases hrest.symm.trans hq
            rw [hclosed.1] at hstands
            exact ⟨.close [], hclosed, ⟨by simp, hstands⟩, rfl, .inr ⟨hnone, rfl⟩⟩
        rw [htext.1] at hfits hlast
        rw [hpassed.2] at hfitsRest
        simp only [List.reverse_append, List.append_assoc] at hfitsRest
        refine ⟨.tile gap written ending tiling, ?_, ⟨hgap, hfits, hlast, hfitsRest⟩, ?_⟩
        · simpa [Tiling.text] using hpassed.trans htext
        · rw [Tiling.arms, hread, harms]
  · rintro ⟨tiling, hpassed, hfits, rfl⟩
    have hread := Tiling.readArms?_fits hfits
    rw [← hpassed.1, ← hpassed.2] at hread
    exact hread

/-- The arms that are read at the start of a table tile the text from there up
to its `esac`, and nothing else is read. A table that is not there is reported
with the offset that was asked for. The reader always ends, because an arm
takes at least one byte. -/
theorem armsAt_eq_ok_iff (before ahead : Text) :
    (∀ arms, armsAt (before ++ ahead) (Text.byteSize before) = .ok arms ↔
      ∃ (tiling : Tiling) (after : Text), ahead = tiling.text ++ after ∧
        tiling.Fits before.reverse after ∧ tiling.arms = arms) ∧
      (∀ start, (∃ arms, armsAt (before ++ ahead) start = .ok arms) ∨
        armsAt (before ++ ahead) start = .error (.unterminated start)) ∧
      ∀ p q arm, Arm.read? p = some (arm, q) → p.offset < q.offset := by
  refine ⟨fun arms => ?_, fun start => ?_, fun p q arm h => ?_⟩
  · rw [armsAt, Place.advanceBytes_start]
    constructor
    · intro h
      split at h
      · next read stop hread =>
          cases h
          obtain ⟨tiling, hpassed, hfits, harms⟩ := readArms?_eq_some_iff.mp hread
          exact ⟨tiling, stop.ahead, hpassed.1, hfits, harms⟩
      · cases h
    · rintro ⟨tiling, after, rfl, hfits, rfl⟩
      rw [Tiling.readArms?_fits hfits]
  · rw [armsAt]
    split
    · next read stop hread => exact .inl ⟨read, rfl⟩
    · exact .inr rfl
  · obtain ⟨s, hs, hne, -⟩ := Arm.read?_move h
    rw [hs.offset_eq]
    obtain ⟨c, u, rfl⟩ := List.exists_cons_of_ne_nil hne
    have := c.utf8Size_pos
    rw [Text.byteSize_cons]
    omega

/-- Two endings of three characters, and a last arm without one. -/
example : (readArms? (Place.start " # a)\n (a|b) p;;&c) q;&&d) r esac ;;".toList)).map Prod.fst =
    some [⟨["a".toList, "b".toList], " p".toList⟩, ⟨["c".toList], " q".toList⟩,
      ⟨["d".toList], " r ".toList⟩] := by
  decide +kernel

end CaseTable.Shell
