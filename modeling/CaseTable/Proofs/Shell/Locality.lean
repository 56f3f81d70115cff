import CaseTable.Proofs.Shell.Readings

/-!
# Reading is local

What a reader makes of a script is decided by the text that it passes, with
little besides: whether a word may start where it begins, and a little of what
follows. A table of arms needs to know that a keyword may end where it ends
(`readArms?_move`). So the arms stay the same whatever is changed behind the
table or after it.

The readers inside a table look further ahead. At the end of a body four
characters tell a keyword or an ending, and of the fifth it matters whether it
delimits the keyword: texts that agree so far are `Alike`. The walk over the
arms never has to know more about what follows an arm, because an `esac` is
still to come.
-/

namespace CaseTable.Shell

/-! ## What is looked at -/

/-- The texts look the same to a reader that waits for a keyword. -/
def Alike (t u : Text) : Prop :=
  t.take 4 = u.take 4 ∧ (t.drop 4).head?.all endsAfter = (u.drop 4).head?.all endsAfter

theorem Alike.refl (t : Text) : Alike t t := ⟨rfl, rfl⟩

theorem Alike.symm {t u : Text} (h : Alike t u) : Alike u t := ⟨h.1.symm, h.2.symm⟩

/-- A keyword is four characters and the one that delimits it. -/
theorem Alike.take {t u : Text} (h : Alike t u) {n : Nat} (hn : n ≤ 4) :
    t.take n = u.take n := by
  have hcut := congrArg (List.take n) h.1
  rwa [List.take_take, List.take_take, Nat.min_eq_left hn] at hcut

theorem Alike.append {t u : Text} (h : Alike t u) (before : Text) :
    Alike (before ++ t) (before ++ u) := by
  constructor
  · rw [List.take_append, List.take_append, h.take (Nat.sub_le 4 _)]
  · rw [List.drop_append, List.drop_append]
    cases before with
    | nil => exact h.2
    | cons c before =>
        have hnext : t[3 - before.length]? = u[3 - before.length]? := by
          have hcut := congrArg (·[3 - before.length]?) h.1
          simpa [List.getElem?_take, Nat.lt_succ_of_le (Nat.sub_le 3 _)] using hcut
        have hlen : 4 - (c :: before).length = 3 - before.length := by
          rw [List.length_cons]
          omega
        rw [hlen, List.head?_append, List.head?_append, List.head?_drop, List.head?_drop,
          List.head?_drop, hnext]

/-- Behind four characters only the next one is seen. -/
theorem Alike.of_head {t u before : Text} (hlen : 4 ≤ before.length)
    (h : t.head?.all endsAfter = u.head?.all endsAfter) : Alike (before ++ t) (before ++ u) := by
  refine ⟨?_, ?_⟩
  · rw [List.take_append_of_le_length hlen, List.take_append_of_le_length hlen]
  · rw [List.drop_append_of_le_length hlen, List.drop_append_of_le_length hlen]
    cases before.drop 4 with
    | nil => exact h
    | cons c v => rfl

/-- Whether a word may start is a matter of the character before it. -/
theorem head?_append_congr {b b' : Text}
    (h : b.head?.all endsBefore = b'.head?.all endsBefore) (passed : Text) :
    (passed.reverse ++ b).head?.all endsBefore =
      (passed.reverse ++ b').head?.all endsBefore := by
  cases passed.reverse with
  | nil => exact h
  | cons c t => rfl

theorem standsAt_congr {word b b' a a' : Text} (hlen : word.length = 4)
    (hb : b.head?.all endsBefore = b'.head?.all endsBefore) (ha : Alike a a') :
    StandsAt word b a ↔ StandsAt word b' a' := by
  rw [StandsAt, StandsAt, hb, List.prefix_iff_eq_take, List.prefix_iff_eq_take, hlen, ha.1, ha.2]

end CaseTable.Shell

namespace CaseTable.Place

open CaseTable.Shell

theorem standsAt_of_keyword? {word : Text} {p q : Place} (h : p.keyword? word = some q) :
    StandsAt word p.behind p.ahead := by
  by_cases hstands : StandsAt word p.behind p.ahead
  · exact hstands
  · cases (keyword?_eq_none hstands).symm.trans h

theorem not_standsAt_of_keyword? {word : Text} {p : Place} (h : p.keyword? word = none) :
    ¬ StandsAt word p.behind p.ahead := by
  intro hstands
  obtain ⟨rest, hrest⟩ := hstands.2.1
  obtain ⟨behind, ahead⟩ := p
  subst hrest
  rw [keyword?_of_standsAt hstands] at h
  cases h

/-- A keyword that was read is there in every text that goes on alike. -/
theorem standsAt_move {word s t behind : Text} {p q e : Place} (hlen : word.length = 4)
    (hq : p.keyword? word = some q) (hs : q.Passes s e)
    (hstart : behind.head?.all endsBefore = p.behind.head?.all endsBefore)
    (ht : Alike t e.ahead) : StandsAt word behind (word ++ (s ++ t)) := by
  refine (standsAt_congr hlen hstart ?_).mpr (standsAt_of_keyword? hq)
  rw [(passes_of_keyword? hq).1, hs.1]
  exact (ht.append s).append word

theorem not_standsAt_move {word behind a : Text} {p : Place} (hlen : word.length = 4)
    (h : p.keyword? word = none)
    (hstart : behind.head?.all endsBefore = p.behind.head?.all endsBefore)
    (ha : Alike a p.ahead) : ¬ StandsAt word behind a := fun hstands =>
  not_standsAt_of_keyword? h ((standsAt_congr hlen hstart ha).mp hstands)

theorem terminator_take (t : Text) : terminator (t.take 3) = terminator t := by
  match t with
  | [] => rfl
  | [_] => rfl
  | [_, _] => rfl
  | a :: b :: c :: t =>
      change terminator [a, b, c] = terminator (a :: b :: c :: t)
      by_cases ha : a = ';'
      · by_cases hb : b = ';' ∨ b = '&'
        · by_cases hc : c = '&'
          · rcases hb with rfl | rfl <;> simp [terminator, ha, hc]
          · rcases hb with rfl | rfl <;> simp [terminator, ha, hc]
        · rw [not_or] at hb
          simp [terminator, ha, hb]
      · simp [terminator, ha]

theorem terminator_prefix_self (t : Text) : terminator t <+: t := by
  fun_cases terminator t with
  | case5 => exact List.nil_prefix
  | _ => simp

theorem passes_pastEnding (p : Place) : p.Passes (terminator p.ahead) p.pastEnding := by
  have hpass := p.passes_advance (terminator p.ahead).length
  rwa [← List.prefix_iff_eq_take.mp (terminator_prefix_self p.ahead)] at hpass

theorem terminator_congr {t u : Text} (h : Alike t u) : terminator t = terminator u := by
  rw [← terminator_take t, ← terminator_take u, h.take (by decide)]

theorem quiet_move {depth : Nat} {behind a : Text} {p : Place}
    (hcase : p.keyword? caseWord = none) (hesac : p.keyword? esacWord = none)
    (hend : ¬ (depth = 0 ∧ terminator p.ahead ≠ []))
    (hstart : behind.head?.all endsBefore = p.behind.head?.all endsBefore)
    (ha : Alike a p.ahead) : Quiet (depth ≠ 0) behind a := by
  refine ⟨not_standsAt_move rfl hcase hstart ha, not_standsAt_move rfl hesac hstart ha,
    fun hzero hterminates => hend ⟨by simpa using hzero, ?_⟩⟩
  rw [← terminator_congr ha]
  exact terminator_ne_nil_iff.mpr hterminates

theorem bodyEnd?_ne_nil {depth : Nat} {p e : Place} (h : p.bodyEnd? depth = some e) :
    e.ahead ≠ [] := by
  fun_induction bodyEnd? depth p with
  | case1 depth p r hr ih => exact ih h
  | case2 p hcase r hr =>
      cases h
      rw [(passes_of_keyword? hr).1]
      simp [esacWord]
  | case3 depth p hcase r hr hdepth ih => exact ih h
  | case4 depth p hcase hesac hend =>
      cases h
      intro hnil
      exact hend.2 (by rw [hnil]; rfl)
  | case5 => cases h
  | case6 depth p hcase hesac hend piece r hr ih => exact ih h

/-- The end of a body depends on what is passed, on whether a word may start
before it and on the look of what follows. -/
theorem bodyEnd?_move {depth : Nat} {p e : Place} (h : p.bodyEnd? depth = some e) :
    ∃ s, p.Passes s e ∧ ∀ behind t,
      behind.head?.all endsBefore = p.behind.head?.all endsBefore →
      Alike t e.ahead →
      (⟨behind, s ++ t⟩ : Place).bodyEnd? depth = some ⟨s.reverse ++ behind, t⟩ := by
  fun_induction bodyEnd? depth p with
  | case1 depth p r hr ih =>
      obtain ⟨s, hs, hmove⟩ := ih h
      have hword := passes_of_keyword? hr
      refine ⟨caseWord ++ s, hword.trans hs, fun behind t hstart ht => ?_⟩
      rw [List.append_assoc, bodyEnd?_case (standsAt_move rfl hr hs hstart ht),
        hmove _ t ?_ ht, List.reverse_append, List.append_assoc]
      rw [hword.2]
      exact head?_append_congr hstart caseWord
  | case2 p hcase r hr =>
      cases h
      refine ⟨[], Passes.refl _, fun behind t hstart ht => ?_⟩
      have hstands : StandsAt esacWord behind t :=
        (standsAt_congr rfl hstart ht).mpr (standsAt_of_keyword? hr)
      obtain ⟨rest, rfl⟩ := hstands.2.1
      exact endsBody_of_esac hstands
  | case3 depth p hcase r hr hdepth ih =>
      obtain ⟨s, hs, hmove⟩ := ih h
      have hword := passes_of_keyword? hr
      refine ⟨esacWord ++ s, hword.trans hs, fun behind t hstart ht => ?_⟩
      rw [List.append_assoc, bodyEnd?_esac depth (standsAt_move rfl hr hs hstart ht),
        if_neg hdepth, hmove _ t ?_ ht, List.reverse_append, List.append_assoc]
      rw [hword.2]
      exact head?_append_congr hstart esacWord
  | case4 depth p hcase hesac hend =>
      obtain ⟨rfl, hend⟩ := hend
      cases h
      refine ⟨[], Passes.refl _, fun behind t hstart ht => ?_⟩
      rw [← terminator_congr ht] at hend
      exact endsBody_of_terminates behind (terminator_ne_nil_iff.mp hend)
  | case5 => cases h
  | case6 depth p hcase hesac hend piece r hr ih =>
      obtain ⟨s, hs, hmove⟩ := ih h
      have hpiece := passes_of_take? hr
      refine ⟨piece.text ++ s, hpiece.trans hs, fun behind t hstart ht => ?_⟩
      have hfollowed : r.ahead ≠ [] := fun hnil =>
        bodyEnd?_ne_nil h (List.append_eq_nil_iff.mp (hs.1.symm.trans hnil)).2
      have hsame : Alike (piece.text ++ (s ++ t)) p.ahead := by
        rw [hpiece.1, hs.1]
        exact (ht.append s).append piece.text
      have hcomplete : piece.Complete (behind.head?.all endsBefore) := by
        rw [hstart]
        exact complete_of_take? hr hfollowed
      have hquiet : Quiet (depth ≠ 0) behind (piece.text ++ (s ++ t)) :=
        quiet_move hcase hesac hend hstart hsame
      rw [List.append_assoc, bodyEnd?_piece hcomplete hquiet (by simp), hmove _ t ?_ ht,
        List.reverse_append, List.append_assoc]
      rw [hpiece.2]
      exact head?_append_congr hstart piece.text

end CaseTable.Place

namespace CaseTable.Shell

theorem readBody?_move {p q : Place} {body : Text} (h : readBody? p = some (body, q)) :
    ∃ s, p.Passes s q ∧ ∀ behind t,
      behind.head?.all endsBefore = p.behind.head?.all endsBefore →
      Alike t q.ahead →
      readBody? ⟨behind, s ++ t⟩ = some (body, ⟨s.reverse ++ behind, t⟩) := by
  obtain ⟨e, he, heq⟩ := Option.map_eq_some_iff.mp h
  obtain ⟨rfl, rfl⟩ := Prod.mk.inj heq
  obtain ⟨s, hs, hmove⟩ := Place.bodyEnd?_move he
  have hending := e.passes_pastEnding
  refine ⟨s ++ Place.terminator e.ahead, hs.trans hending,
    fun behind t hstart ht => ?_⟩
  have hsame : Alike (Place.terminator e.ahead ++ t) e.ahead := by
    conv => rhs; rw [hending.1]
    exact ht.append _
  have hpassed : (⟨behind, s ++ (Place.terminator e.ahead ++ t)⟩ : Place).Passes s
      ⟨s.reverse ++ behind, Place.terminator e.ahead ++ t⟩ := ⟨rfl, rfl⟩
  rw [List.append_assoc, readBody?, hmove behind _ hstart hsame, Option.map_some,
    hpassed.upTo_eq, hs.upTo_eq, Place.terminator_congr hsame, Place.advance,
    List.take_left, List.drop_left, List.reverse_append, List.append_assoc]

theorem Arm.read?_eq_some_iff {p q : Place} {arm : Arm} :
    Arm.read? p = some (arm, q) ↔
      ∃ pattern body, readPattern? p = some (pattern, body) ∧
        arm.labels = Shell.labels pattern ∧ readBody? body = some (arm.body, q) := by
  constructor
  · intro h
    unfold Arm.read? at h
    split at h
    · cases h
    · next pattern r hpattern =>
        obtain ⟨⟨body, q'⟩, hbody, heq⟩ := Option.map_eq_some_iff.mp h
        obtain ⟨rfl, rfl⟩ := Prod.mk.inj heq
        exact ⟨pattern, r, hpattern, rfl, hbody⟩
  · rintro ⟨pattern, body, hpattern, hlabels, hbody⟩
    rw [Arm.read?, hpattern]
    simp only []
    rw [hbody, Option.map_some, ← hlabels]

theorem Arm.read?_move {p q : Place} {arm : Arm} (h : Arm.read? p = some (arm, q)) :
    ∃ s, p.Passes s q ∧ s ≠ [] ∧ ∀ behind t,
      behind.head?.all endsBefore = p.behind.head?.all endsBefore →
      Alike t q.ahead →
      Arm.read? ⟨behind, s ++ t⟩ = some (arm, ⟨s.reverse ++ behind, t⟩) := by
  have hshorter := Arm.length_lt_of_read? h
  obtain ⟨pattern, r, hpattern, hlabels, hbody⟩ := Arm.read?_eq_some_iff.mp h
  obtain ⟨s, hs, hpatternMove⟩ := readPattern?_move hpattern
  obtain ⟨u, hu, hbodyMove⟩ := readBody?_move hbody
  have hpassed := hs.trans hu
  refine ⟨s ++ u, hpassed, ?_, fun behind t hstart ht => ?_⟩
  · intro hnil
    have hlen := hpassed.length_eq
    rw [hnil, List.length_nil] at hlen
    omega
  · have hinside : (s.reverse ++ behind).head?.all endsBefore =
        r.behind.head?.all endsBefore := by
      rw [hs.2]
      exact head?_append_congr hstart s
    refine Arm.read?_eq_some_iff.mpr
      ⟨pattern, ⟨s.reverse ++ behind, u ++ t⟩, ?_, hlabels, ?_⟩
    · rw [List.append_assoc]
      exact hpatternMove behind (u ++ t)
    · rw [List.reverse_append, List.append_assoc]
      exact hbodyMove _ t hinside ht

/-- The gap before an arm is passed wherever it stands, if what follows it goes
on alike. -/
theorem skipGap_move {p r : Place} {s : Text} (hesac : p.skipGap.keyword? esacWord = none)
    (hs : p.skipGap.Passes s r) (hne : s ≠ []) :
    ∃ gap, p.Passes (gap ++ s) r ∧ ∀ behind t,
      behind.head?.all endsBefore = p.behind.head?.all endsBefore →
      Alike t r.ahead →
      (⟨behind, gap ++ (s ++ t)⟩ : Place).skipGap = ⟨gap.reverse ++ behind, s ++ t⟩ ∧
        (⟨gap.reverse ++ behind, s ++ t⟩ : Place).keyword? esacWord = none ∧
        (gap.reverse ++ behind).head?.all endsBefore = p.skipGap.behind.head?.all endsBefore := by
  obtain ⟨c, v, rfl⟩ := List.exists_cons_of_ne_nil hne
  obtain ⟨gap, hgap, hpassed, hstop⟩ := Place.exists_gap_skipGap (p := p) (by
    rw [hs.1]
    simp)
  obtain ⟨hblank, hhash⟩ := hstop c (v ++ r.ahead) hs.1
  refine ⟨textOf gap, hpassed.trans hs, fun behind t hstart ht => ?_⟩
  have hfront : ((textOf gap).reverse ++ behind).head?.all endsBefore =
      p.skipGap.behind.head?.all endsBefore := by
    rw [hpassed.2]
    exact head?_append_congr hstart (textOf gap)
  refine ⟨?_, ?_, hfront⟩
  · rw [Place.skipGap_gap hgap]
    exact Place.skipGap_of_head hblank hhash _ _
  · refine Place.keyword?_eq_none (Place.not_standsAt_move rfl hesac hfront ?_)
    rw [hs.1]
    exact ht.append (c :: v)

/-- One arm with the gap before it is read off the front wherever its text
stands, if the text goes on alike. -/
theorem readArms?_arm_move {p r : Place} {arm : Arm}
    (hesac : p.skipGap.keyword? esacWord = none) (hr : Arm.read? p.skipGap = some (arm, r)) :
    ∃ s, p.Passes s r ∧ ∀ behind t,
      behind.head?.all endsBefore = p.behind.head?.all endsBefore →
      Alike t r.ahead →
      readArms? ⟨behind, s ++ t⟩ =
        (readArms? ⟨s.reverse ++ behind, t⟩).map fun (arms, q) => (arm :: arms, q) := by
  obtain ⟨s, hs, hne, harmMove⟩ := Arm.read?_move hr
  obtain ⟨gap, hpassed, hgapMove⟩ := skipGap_move hesac hs hne
  refine ⟨gap ++ s, hpassed, fun behind t hstart ht => ?_⟩
  obtain ⟨hgap, hnone, hfront⟩ := hgapMove behind t hstart ht
  rw [List.append_assoc, readArms?_of_read? hgap hnone (harmMove _ t hfront ht),
    List.reverse_append, List.append_assoc]

/-- A table of arms, up to its `esac`, is read the same way wherever its text
stands, if a word may start before it or not as before and a keyword may end
after it. -/
theorem readArms?_move {p q : Place} {arms : List Arm}
    (h : readArms? p = some (arms, q)) :
    ∃ s, p.Passes s q ∧ esacWord <:+ s ∧ q.ahead.head?.all endsAfter = true ∧ ∀ behind t,
      behind.head?.all endsBefore = p.behind.head?.all endsBefore →
      t.head?.all endsAfter = true →
      readArms? ⟨behind, s ++ t⟩ = some (arms, ⟨s.reverse ++ behind, t⟩) := by
  fun_induction readArms? p generalizing arms q with
  | case1 p r hr =>
      cases h
      have hesac := Place.passes_of_keyword? hr
      have hstands := Place.standsAt_of_keyword? hr
      obtain ⟨gap, hgap, hpassed, -⟩ := Place.exists_gap_skipGap (p := p) (by
        rw [hesac.1]
        simp [esacWord])
      rw [hpassed.2, hesac.1, standsAt_append_iff] at hstands
      refine ⟨textOf gap ++ esacWord, hpassed.trans hesac, List.suffix_append _ _, hstands.2,
        fun behind t hstart ht => ?_⟩
      have hnew : StandsAt esacWord ((textOf gap).reverse ++ behind) (esacWord ++ t) := by
        rw [standsAt_append_iff, head?_append_congr hstart]
        exact ⟨hstands.1, ht⟩
      rw [List.append_assoc, readArms?_gap hgap, readArms?_esac hnew, List.reverse_append,
        List.append_assoc]
  | case2 => cases h
  | case3 p hesac arm r hr ih =>
      obtain ⟨⟨rest, q'⟩, hrest, heq⟩ := Option.map_eq_some_iff.mp h
      obtain ⟨rfl, rfl⟩ := Prod.mk.inj heq
      obtain ⟨u, hu, hlast, hdelimited, hrestMove⟩ := ih hrest
      obtain ⟨s, hs, harmMove⟩ := readArms?_arm_move hesac hr
      refine ⟨s ++ u, hs.trans hu, hlast.trans (List.suffix_append _ _), hdelimited,
        fun behind t hstart ht => ?_⟩
      -- an `esac` is still to come, so the text goes on alike behind the arm
      have halike : Alike (u ++ t) r.ahead := by
        rw [hu.1]
        exact Alike.of_head hlast.length_le (ht.trans hdelimited.symm)
      have hinside : (s.reverse ++ behind).head?.all endsBefore =
          r.behind.head?.all endsBefore := by
        rw [hs.2]
        exact head?_append_congr hstart s
      rw [List.append_assoc, harmMove behind (u ++ t) hstart halike,
        hrestMove _ t hinside ht, List.reverse_append, List.append_assoc]
      rfl

end CaseTable.Shell
