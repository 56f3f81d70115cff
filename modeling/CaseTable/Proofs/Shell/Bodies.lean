import CaseTable.Proofs.Shell.Grammar

/-!
# Where a body ends

`bodyEnd?` counts the open tables with a number, the grammar nests them in a
tree. The two agree because one nested table leaves the number where it was:
`bodyEnd?_commands` says that printed commands are passed over at any depth.
Only their being quiet depends on the depth. At depth zero nothing in them
may look like the end of an arm, which is what `Fits false` asks for.

What remains is where the passing stops: at the ending of the arm, or at the
`esac` of the table it belongs to.
-/

namespace CaseTable.Place

open CaseTable.Shell

theorem terminator_ne_nil_iff {ahead : Text} :
    terminator ahead ≠ [] ↔ Terminates ahead := by
  rw [Terminates]
  fun_cases terminator ahead with
  | case5 _ _ _ hstop hfall =>
      refine ⟨fun h => absurd rfl h, ?_⟩
      intro h
      rcases h with ⟨rest, rfl⟩ | ⟨rest, rfl⟩
      · exact absurd rfl (hstop rest)
      · exact absurd rfl (hfall rest)
  | _ => simp

/-- An ending is read whole. The ampersand of a longer one must not follow. -/
theorem terminator_ending (ending : Ending) {after : Text}
    (h : after.head? ≠ some '&') :
    terminator (ending.text ++ after) = ending.text := by
  have hnext : ∀ rest, after ≠ '&' :: rest := by
    intro rest hrest
    exact h (by rw [hrest]; rfl)
  cases ending with
  | stop =>
      show terminator (';' :: ';' :: after) = _
      rw [terminator]
      · rfl
      · exact fun rest heq => hnext rest heq
  | fallThrough =>
      show terminator (';' :: '&' :: after) = _
      rw [terminator]
      · rfl
      · exact fun rest heq => hnext rest heq
  | resume => rfl

/-! ## One step

One equation for each way on: over a `case`, at an `esac`, and where neither
stands. -/

theorem bodyEnd?_of_case {depth : Nat} {p q : Place} (h : p.keyword? caseWord = some q) :
    p.bodyEnd? depth = q.bodyEnd? (depth + 1) := by
  rw [bodyEnd?]
  split
  · next hsome =>
      cases h.symm.trans hsome
      rfl
  · next hnone => cases h.symm.trans hnone

/-- The keyword of a nested table is passed, that of the own table is not. -/
theorem bodyEnd?_of_esac (depth : Nat) {p q : Place} (hcase : p.keyword? caseWord = none)
    (h : p.keyword? esacWord = some q) :
    p.bodyEnd? depth = if depth = 0 then some p else q.bodyEnd? (depth - 1) := by
  rw [bodyEnd?]
  split
  · next hsome => cases hcase.symm.trans hsome
  · split
    · next hsome =>
        cases h.symm.trans hsome
        rfl
    · next hnone => cases h.symm.trans hnone

theorem bodyEnd?_of_keyword?_none (depth : Nat) {p : Place}
    (hcase : p.keyword? caseWord = none) (hesac : p.keyword? esacWord = none) :
    p.bodyEnd? depth =
      if depth = 0 ∧ terminator p.ahead ≠ [] then some p
      else p.piece?.bind fun (_, q) => q.bodyEnd? depth := by
  rw [bodyEnd?]
  split
  · next hsome => cases hcase.symm.trans hsome
  · split
    · next hsome => cases hesac.symm.trans hsome
    · split
      · rfl
      · split
        · next hnone => rw [hnone, Option.bind_none]
        · next hsome => rw [hsome, Option.bind_some]

theorem bodyEnd?_case {depth : Nat} {behind rest : Text}
    (h : StandsAt caseWord behind (caseWord ++ rest)) :
    (⟨behind, caseWord ++ rest⟩ : Place).bodyEnd? depth =
      (⟨caseWord.reverse ++ behind, rest⟩ : Place).bodyEnd? (depth + 1) :=
  bodyEnd?_of_case (keyword?_of_standsAt h)

theorem keyword?_case_of_esac (behind rest : Text) :
    (⟨behind, esacWord ++ rest⟩ : Place).keyword? caseWord = none :=
  keyword?_eq_none (not_standsAt_of_head (by simp [esacWord]))

theorem bodyEnd?_esac (depth : Nat) {behind rest : Text}
    (h : StandsAt esacWord behind (esacWord ++ rest)) :
    (⟨behind, esacWord ++ rest⟩ : Place).bodyEnd? depth =
      if depth = 0 then some ⟨behind, esacWord ++ rest⟩
      else (⟨esacWord.reverse ++ behind, rest⟩ : Place).bodyEnd? (depth - 1) :=
  bodyEnd?_of_esac depth (keyword?_case_of_esac behind rest) (keyword?_of_standsAt h)

/-- The body of an arm that has no table open ends here. -/
def EndsBody (p : Place) : Prop := p.bodyEnd? 0 = some p

/-- Where the ending of an arm has been passed, if it has one. -/
def pastEnding (p : Place) : Place := p.advance (terminator p.ahead).length

theorem endsBody_of_esac {behind rest : Text}
    (h : StandsAt esacWord behind (esacWord ++ rest)) :
    EndsBody ⟨behind, esacWord ++ rest⟩ := by
  rw [EndsBody, bodyEnd?_esac 0 h, if_pos rfl]

theorem pastEnding_esac (behind rest : Text) :
    pastEnding ⟨behind, esacWord ++ rest⟩ = ⟨behind, esacWord ++ rest⟩ := rfl

theorem endsBody_of_terminates (behind : Text) {ahead : Text}
    (h : Terminates ahead) : EndsBody ⟨behind, ahead⟩ := by
  have hhead : ahead.head? = some ';' := by
    rcases h with ⟨rest, rfl⟩ | ⟨rest, rfl⟩ <;> rfl
  have hcase : (⟨behind, ahead⟩ : Place).keyword? caseWord = none :=
    keyword?_eq_none (not_standsAt_of_head (by rw [hhead]; decide))
  have hesac : (⟨behind, ahead⟩ : Place).keyword? esacWord = none :=
    keyword?_eq_none (not_standsAt_of_head (by rw [hhead]; decide))
  rw [EndsBody, bodyEnd?_of_keyword?_none 0 hcase hesac,
    if_pos ⟨rfl, terminator_ne_nil_iff.mpr h⟩]

theorem terminates_ending (ending : Ending) (after : Text) :
    Terminates (ending.text ++ after) := by
  cases ending with
  | stop => exact .inl ⟨after, rfl⟩
  | fallThrough => exact .inr ⟨after, rfl⟩
  | resume => exact .inl ⟨'&' :: after, rfl⟩

theorem pastEnding_ending (ending : Ending) (behind : Text) {after : Text}
    (h : after.head? ≠ some '&') :
    pastEnding ⟨behind, ending.text ++ after⟩ =
      ⟨ending.text.reverse ++ behind, after⟩ := by
  rw [pastEnding, terminator_ending ending h, advance, List.take_left,
    List.drop_left]

theorem bodyEnd?_piece {nested : Bool} {depth : Nat} {behind rest : Text}
    {piece : Piece} (hpiece : piece.Complete (behind.head?.all endsBefore))
    (hquiet : Quiet nested behind (piece.text ++ rest))
    (hdepth : depth = 0 → nested = false) :
    (⟨behind, piece.text ++ rest⟩ : Place).bodyEnd? depth =
      (⟨piece.text.reverse ++ behind, rest⟩ : Place).bodyEnd? depth := by
  have hcase := keyword?_eq_none hquiet.1
  have hesac := keyword?_eq_none hquiet.2.1
  have hstop : ¬ (depth = 0 ∧ terminator (piece.text ++ rest) ≠ []) :=
    fun h => hquiet.2.2 (hdepth h.1) (terminator_ne_nil_iff.mp h.2)
  rw [bodyEnd?_of_keyword?_none depth hcase hesac, if_neg hstop,
    piece?_complete hpiece rest, Option.bind_some]

/-- Printed commands are passed over, whatever tables are nested in them and
whatever depth they are met at. -/
theorem bodyEnd?_commands {commands : Commands} {nested : Bool} {depth : Nat}
    {behind after : Text} (h : commands.Fits nested behind after)
    (hdepth : depth = 0 → nested = false) :
    (⟨behind, commands.text ++ after⟩ : Place).bodyEnd? depth =
      (⟨commands.text.reverse ++ behind, after⟩ : Place).bodyEnd? depth := by
  induction commands generalizing nested depth behind after with
  | nil => rfl
  | piece first rest ih =>
      obtain ⟨hpiece, hquiet, hrest⟩ := h
      rw [Commands.text, List.append_assoc, bodyEnd?_piece hpiece hquiet hdepth,
        ih hrest hdepth, List.reverse_append, List.append_assoc]
  | table inside rest ihInside ihRest =>
      obtain ⟨hopen, hinside, hclose, hrest⟩ := h
      -- the inside is met one level deeper, where arms may end
      have hdeeper : depth + 1 = 0 → true = false := fun h => by omega
      simp only [Commands.text, List.append_assoc, List.reverse_append]
      rw [bodyEnd?_case hopen, ihInside hinside hdeeper, bodyEnd?_esac _ hclose,
        if_neg (by omega), Nat.add_sub_cancel, ihRest hrest hdepth]

end CaseTable.Place

namespace CaseTable.Shell

/-- A body is read exactly, up to a place where bodies end. -/
theorem readBody?_commands {body : Commands} {behind after : Text}
    (hbody : body.Fits false behind after)
    (hend : Place.EndsBody ⟨body.text.reverse ++ behind, after⟩) :
    readBody? ⟨behind, body.text ++ after⟩ =
      some (body.text,
        Place.pastEnding ⟨body.text.reverse ++ behind, after⟩) := by
  have hpasses : (⟨behind, body.text ++ after⟩ : Place).Passes body.text
      ⟨body.text.reverse ++ behind, after⟩ := ⟨rfl, rfl⟩
  rw [Place.EndsBody] at hend
  rw [readBody?, Place.bodyEnd?_commands hbody fun _ => rfl, hend,
    Option.map_some, hpasses.upTo_eq]
  rfl

end CaseTable.Shell
