import CaseTable.Proofs.Extraction.TableFunction
import CaseTable.Proofs.Shell.Locality

/-!
# Inside the table function

The head of the case statement is looked for inside the body of the table
function, but the arms are read to the next `esac`, wherever it stands. If it
stands behind the closing brace, arms of later code belong to the table.

The measure of this is the script cut off after the closing brace. A direct
extraction stays inside the body if and only if the cut script gives the same;
otherwise the cut script has no table, since the case statement of the
function is not closed there (`extract_direct_inside`). It never goes astray
where no `esac` follows the function.
-/

namespace CaseTable.Shell

namespace Body

/-- The place lies inside the body, at its end at the latest. -/
def Holds (body : Body) (p : Place) : Prop :=
  ∃ s, s <+: body.text ∧ body.start.Passes s p

/-- The script up to the brace that closes the body, and with it. -/
def cut (body : Body) : Text :=
  body.start.behind.reverse ++ (body.text ++ (afterBody body.start).take 1)

theorem Holds.length_le {body : Body} {p : Place} (h : body.Holds p) :
    p.behind.length ≤ body.text.length + body.start.behind.length := by
  obtain ⟨s, hs, hpassed⟩ := h
  have hle := hs.length_le
  rw [hpassed.2, List.length_append, List.length_reverse]
  omega

end Body

/-- The body ends at the same brace if nothing follows it. -/
theorem afterBody_cut {start : Place} {text : Text}
    (h : start.ahead = text ++ afterBody start) :
    afterBody ⟨start.behind, text ++ (afterBody start).take 1⟩ =
      (afterBody start).take 1 := by
  cases hend : start.blockEnd? 0 with
  | none =>
      have hnil : afterBody start = [] := by
        rw [afterBody, hend]
        rfl
      have hsame : (⟨start.behind, text ++ (afterBody start).take 1⟩ : Place) = start := by
        rw [hnil] at h ⊢
        rw [List.take_nil, ← h]
      rw [hsame, hnil, List.take_nil]
  | some e =>
      obtain ⟨s, t, hs, ht, hmove⟩ := Place.blockEnd?_append hend
      have hafter : afterBody start = '\x7d' :: t := by
        rw [afterBody, hend, ← ht]
        rfl
      have htext : s = text := by
        rw [hs.1, ht, hafter] at h
        exact List.append_cancel_right h
      subst htext
      have hcut : (⟨start.behind, s ++ (afterBody start).take 1⟩ : Place).blockEnd? 0 =
          some ⟨e.behind, '\x7d' :: []⟩ := by
        rw [hafter]
        exact hmove []
      rw [afterBody, hcut, hafter]
      rfl

theorem functionBody?_cut {name source : Text} {body : Body}
    (h : functionBody? name source = some body) :
    functionBody? name body.cut =
      some ⟨⟨body.start.behind, body.text ++ (afterBody body.start).take 1⟩, body.text⟩ := by
  obtain ⟨hstart, hahead⟩ := functionBody?_eq_some_iff.mp h
  refine functionBody?_eq_some_iff.mpr ⟨?_, ?_⟩
  · exact (definition?_move hstart).2 _
  · rw [afterBody_cut hahead]

/-! ## The arms -/

/-- A keyword that ends behind a closing brace stands behind it. -/
theorem esac_infix_of_suffix {before after : Text}
    (h : esacWord <:+ before ++ '\x7d' :: after) : esacWord <:+: '\x7d' :: after := by
  rcases List.suffix_or_suffix_of_suffix h (List.suffix_append before _) with hin | hout
  · exact hin.isInfix
  · exact absurd (hout.subset List.mem_cons_self) (by decide)

/-- A table that is read across a closing brace has its `esac` behind it. One
that is not is read without what follows the brace. -/
theorem readArms?_before_brace {behind rest after : Text} {arms : List Arm} {stop : Place}
    (hafter : after.head?.all (· = '\x7d') = true)
    (h : readArms? ⟨behind, rest ++ after⟩ = some (arms, stop)) :
    (∃ s t, rest = s ++ t ∧ ∀ after', after'.head? = after.head? →
        readArms? ⟨behind, rest ++ after'⟩ =
          some (arms, ⟨s.reverse ++ behind, t ++ after'⟩)) ∨
      rest.length + behind.length < stop.behind.length ∧ esacWord <:+: after := by
  obtain ⟨s, hs, hesac, hdelimited, hmove⟩ := readArms?_move h
  have hsplit : s ++ stop.ahead = rest ++ after := hs.1.symm
  -- the table ends before the brace, or it passes at least the brace
  have hpassed : (∃ t, rest = s ++ t ∧ stop.ahead = t ++ after) ∨
      ∃ t, s = rest ++ '\x7d' :: t ∧ after = '\x7d' :: (t ++ stop.ahead) := by
    rcases List.append_eq_append_iff.mp hsplit with ⟨t, hrest, hahead⟩ | ⟨t, hpast, hbrace⟩
    · exact .inl ⟨t, hrest, hahead⟩
    · cases t with
      | nil => exact .inl ⟨[], by simpa using hpast.symm, by simpa using hbrace.symm⟩
      | cons c t =>
          rw [hbrace] at hafter
          have hc : c = '\x7d' := by simpa using hafter
          subst hc
          exact .inr ⟨t, hpast, hbrace⟩
  rcases hpassed with ⟨t, rfl, hahead⟩ | ⟨t, rfl, rfl⟩
  · refine .inl ⟨s, t, rfl, fun after' hhead => ?_⟩
    rw [List.append_assoc]
    refine hmove behind (t ++ after') rfl ?_
    rw [hahead, List.head?_append] at hdelimited
    rwa [List.head?_append, hhead]
  · refine .inr ⟨?_, ?_⟩
    · rw [hs.2]
      simp
      omega
    · exact (esac_infix_of_suffix hesac).trans (List.prefix_append _ _).isInfix

/-- What is read from the cut text is read from the whole. -/
theorem readArms?_of_cut {behind rest after : Text} {arms : List Arm} {stop : Place}
    (hafter : after.head?.all (· = '\x7d') = true)
    (h : readArms? ⟨behind, rest ++ after.take 1⟩ = some (arms, stop)) :
    ∃ s t, rest = s ++ t ∧
      readArms? ⟨behind, rest ++ after⟩ = some (arms, ⟨s.reverse ++ behind, t ++ after⟩) := by
  have hhead : after.head? = (after.take 1).head? := by
    cases after <;> rfl
  rcases readArms?_before_brace (by rw [← hhead]; exact hafter) h with
    ⟨s, t, hrest, hmove⟩ | ⟨-, hesac⟩
  · exact ⟨s, t, hrest, hmove after hhead⟩
  · have hlong : esacWord.length ≤ 1 :=
      Nat.le_trans hesac.length_le (List.length_take_le 1 after)
    exact absurd hlong (by decide)

theorem readArms?_cut_eq_none {behind rest after : Text} {arms : List Arm} {stop : Place}
    (hafter : after.head?.all (· = '\x7d') = true)
    (h : readArms? ⟨behind, rest ++ after⟩ = some (arms, stop))
    (hpast : rest.length + behind.length < stop.behind.length) :
    readArms? ⟨behind, rest ++ after.take 1⟩ = none := by
  refine Option.eq_none_iff_forall_ne_some.mpr fun read hcut => ?_
  obtain ⟨arms', stop'⟩ := read
  obtain ⟨s, t, rfl, hwhole⟩ := readArms?_of_cut hafter hcut
  cases h.symm.trans hwhole
  simp only [List.length_append, List.length_reverse] at hpast
  omega

end CaseTable.Shell

namespace CaseTable

open Extraction Shell

/-- The case statement starts at the same place in the cut script. -/
theorem tableStart_cut {function source passed rest : Text} {body : Body}
    (hbody : functionBody? function source = some body)
    (hcase : afterFirstCase? none body.text = some rest) (hne : passed ≠ [])
    (htext : body.text = passed ++ rest) :
    tableStart function body.cut =
      .ok ⟨passed.reverse ++ body.start.behind, rest ++ (afterBody body.start).take 1⟩ := by
  refine tableStart_eq_ok_iff.mpr
    ⟨_, passed, rest, functionBody?_cut hbody, hcase, hne, htext, ?_⟩
  rw [afterBody_cut (functionBody?_eq_some_iff.mp hbody).2]

/-- A direct extraction starts inside the body of the table function. It
ends there if and only if the script cut off after the function has the same
table. Otherwise the cut script has an unterminated case statement, and an
`esac` follows the function. -/
theorem extract_direct_inside {script : ScriptNames} {source : Text} {x : Extraction}
    (h : extract .direct script source = .ok x) :
    ∃ body start arms stop, functionBody? script.tableFunction source = some body ∧
      tableStart script.tableFunction source = .ok start ∧
      readArms? start = some (arms, stop) ∧ x = ofArms script.placeholder arms ∧
      body.Holds start ∧
      (body.Holds stop ∧ extract .direct script body.cut = .ok x ∨
        ¬ body.Holds stop ∧ esacWord <:+: afterBody body.start ∧
          extract .direct script body.cut =
            .error (.unterminated script.tableFunction start.line)) := by
  obtain ⟨start, arms, stop, hstart, hread, hx⟩ := extract_direct_eq_ok_iff.mp h
  obtain ⟨body, passed, rest, hbody, hcase, hne, htext, rfl⟩ :=
    tableStart_eq_ok_iff.mp hstart
  have hahead := (functionBody?_eq_some_iff.mp hbody).2
  have hbrace := head?_afterBody body.start
  have hcutStart := tableStart_cut hbody hcase hne htext
  refine ⟨body, _, arms, stop, hbody, hstart, hread, hx, ?_, ?_⟩
  · refine ⟨passed, htext ▸ List.prefix_append passed rest, ?_, rfl⟩
    rw [hahead, htext, List.append_assoc]
  · rcases readArms?_before_brace hbrace hread with ⟨s, t, hrest, hmove⟩ | ⟨hpast, hesac⟩
    · have hstop := hread.symm.trans (hmove _ rfl)
      cases hstop
      refine .inl ⟨⟨passed ++ s, ?_, ?_⟩, ?_⟩
      · rw [htext, hrest, ← List.append_assoc]
        exact List.prefix_append _ _
      · exact ⟨by rw [hahead, htext, hrest]; simp, by simp⟩
      · rw [hx]
        refine extract_direct_of_readArms? hcutStart (hmove _ ?_)
        cases afterBody body.start <;> rfl
    · have hout : ¬ body.Holds stop := by
        intro hholds
        have hle := hholds.length_le
        rw [htext] at hle
        simp only [List.length_append, List.length_reverse] at hle hpast
        omega
      have hunterminated := extract_direct_unterminated hcutStart
        (readArms?_cut_eq_none hbrace hread hpast)
      exact .inr ⟨hout, hesac, hunterminated⟩

/-- The table function and the `esac` of later code. -/
def borrowingScript : Text :=
  ("get_tcp_strategy_options() \x7b\n case $1 in\n  a) echo \"--a\" ;;\n\x7d\n" ++
    "case $2 in\n b) echo \"--b\" ;;\n c) echo \"--c\" ;;\nesac\n").toList

/-- The arms that are read from the script end behind the function. -/
theorem borrowingScript_past_body :
    (functionBody? ScriptNames.stock.tableFunction borrowingScript).bind (fun body =>
      ((tableStart ScriptNames.stock.tableFunction borrowingScript).toOption.bind
        readArms?).map fun read =>
          decide (read.2.behind.length ≤ body.text.length + body.start.behind.length)) =
      some false := by
  decide +kernel

theorem not_holds_borrowingScript {body : Body} {start stop : Place} {arms : List Arm}
    (hbody : functionBody? ScriptNames.stock.tableFunction borrowingScript = some body)
    (hstart : tableStart ScriptNames.stock.tableFunction borrowingScript = .ok start)
    (hread : readArms? start = some (arms, stop)) : ¬ body.Holds stop := by
  intro hholds
  have hpast := borrowingScript_past_body
  rw [hbody, hstart] at hpast
  change (readArms? start).map (fun read =>
    decide (read.2.behind.length ≤ body.text.length + body.start.behind.length)) =
      some false at hpast
  rw [hread] at hpast
  exact absurd hholds.length_le (of_decide_eq_false (Option.some.inj hpast))

/-- The last arm of later code is in the table; without that code there is no
table. -/
theorem extract_direct_inside_borrowing :
    ∃ (x : Extraction) (body : Body),
      extract .direct .stock borrowingScript = .ok x ∧
      x.table.names = ["a".toList, "c".toList] ∧
      functionBody? ScriptNames.stock.tableFunction borrowingScript = some body ∧
      esacWord <:+: afterBody body.start ∧
      extract .direct .stock body.cut =
        .error (.unterminated ScriptNames.stock.tableFunction 2) := by
  have hnames : (extract .direct .stock borrowingScript).toOption.map
      (fun x => x.table.names) = some ["a".toList, "c".toList] := by
    decide +kernel
  have hline : (tableStart ScriptNames.stock.tableFunction borrowingScript).toOption.map
      Place.line = some 2 := by
    decide +kernel
  cases hx : extract .direct .stock borrowingScript with
  | error cause =>
      rw [hx] at hnames
      cases hnames
  | ok x =>
      rw [hx] at hnames
      obtain ⟨body, start, arms, stop, hbody, hstart, hread, -, -, hinside⟩ :=
        extract_direct_inside hx
      rw [hstart] at hline
      have hline : start.line = 2 := Option.some.inj hline
      rw [hline] at hinside
      rcases hinside with ⟨hholds, -⟩ | ⟨-, hesac, hcut⟩
      · exact absurd hholds (not_holds_borrowingScript hbody hstart hread)
      · exact ⟨x, body, rfl, Option.some.inj hnames, hbody, hesac, hcut⟩

/-- The `esac` that closes the table need not lie inside the function. -/
theorem not_extract_direct_holds :
    ¬ ∀ (script : ScriptNames) (source : Text) (x : Extraction) (body : Body)
      (start stop : Place) (arms : List Arm), extract .direct script source = .ok x →
        functionBody? script.tableFunction source = some body →
        tableStart script.tableFunction source = .ok start →
        readArms? start = some (arms, stop) → body.Holds stop := by
  intro hall
  have hok : (extract .direct .stock borrowingScript).toOption.isSome = true := by
    decide +kernel
  cases hx : extract .direct .stock borrowingScript with
  | error cause =>
      rw [hx] at hok
      cases hok
  | ok x =>
      obtain ⟨start, arms, stop, hstart, hread, -⟩ := extract_direct_eq_ok_iff.mp hx
      obtain ⟨body, -, -, hbody, -⟩ := tableStart_eq_ok_iff.mp hstart
      exact not_holds_borrowingScript hbody hstart hread
        (hall .stock borrowingScript x body start stop arms hx hbody hstart hread)

end CaseTable
