import CaseTable.Proofs.Shell.CaseHeads

/-!
# The case statements of a script

`caseStarts` goes from head to head. `CaseHeads` says without the search which
heads it finds (`exists_caseHeads`): they stand in order and do not overlap,
and no head is passed over but one that starts inside another. That leaves no
choice (`CaseHeads.unique`), because the first head ahead starts inside no
other. A head in the body of an arm, or behind a statement without its `esac`,
is a head like any other.
-/

namespace CaseTable.Place

open CaseTable.Shell

/-! ## Places in order -/

/-- A place is another one, or lies ahead of it. -/
def Leads (p q : Place) : Prop := ∃ s, p.Passes s q

/-- A place lies ahead of another. -/
def Precedes (p q : Place) : Prop := ∃ s, s ≠ [] ∧ p.Passes s q

theorem Leads.refl (p : Place) : p.Leads p := ⟨[], Passes.refl p⟩

theorem Leads.trans {p q r : Place} (h : p.Leads q) (h' : q.Leads r) : p.Leads r := by
  obtain ⟨s, hs⟩ := h
  obtain ⟨u, hu⟩ := h'
  exact ⟨s ++ u, hs.trans hu⟩

theorem Leads.eq_or_precedes {p q : Place} (h : p.Leads q) : p = q ∨ p.Precedes q := by
  obtain ⟨s, hs⟩ := h
  cases s with
  | nil =>
      obtain ⟨behind, ahead⟩ := p
      obtain ⟨behind', ahead'⟩ := q
      cases hs.1
      cases hs.2
      exact .inl rfl
  | cons c s => exact .inr ⟨c :: s, List.cons_ne_nil c s, hs⟩

theorem Precedes.not_leads {p q : Place} (h : p.Precedes q) : ¬ q.Leads p := by
  obtain ⟨s, hne, hs⟩ := h
  rintro ⟨u, hu⟩
  have hlength := congrArg List.length hs.1
  rw [hu.1, List.length_append, List.length_append] at hlength
  exact hne (List.length_eq_zero_iff.mp (by omega))

theorem Leads.antisymm {p q : Place} (h : p.Leads q) (h' : q.Leads p) : p = q :=
  h.eq_or_precedes.resolve_right fun hp => hp.not_leads h'

theorem Passes.eq {p q r : Place} {s u : Text} (hq : p.Passes s q) (hr : p.Passes u r)
    (h : q.ahead = r.ahead) : q = r := by
  obtain ⟨behind, ahead⟩ := q
  obtain ⟨behind', ahead'⟩ := r
  cases h
  cases List.append_cancel_right (hq.1.symm.trans hr.1)
  cases hq.2.trans hr.2.symm
  rfl

theorem Passes.advance_eq {p q : Place} {s : Text} (h : p.Passes s q) :
    p.advance (p.ahead.length - q.ahead.length) = q := by
  refine (passes_advance p _).eq h ?_
  rw [advance, h.1, List.length_append, Nat.add_sub_cancel]
  exact List.drop_left

/-- Of two places in one text, one leads to the other. -/
theorem Leads.total {p q r : Place} (hq : p.Leads q) (hr : p.Leads r) :
    q.Leads r ∨ r.Leads q := by
  obtain ⟨s, hs⟩ := hq
  obtain ⟨u, hu⟩ := hr
  rcases List.append_eq_append_iff.mp (hs.1.symm.trans hu.1) with ⟨v, rfl, hv⟩ | ⟨v, rfl, hv⟩
  · exact .inl ⟨v, hv, by rw [hu.2, hs.2, List.reverse_append, List.append_assoc]⟩
  · exact .inr ⟨v, hv, by rw [hs.2, hu.2, List.reverse_append, List.append_assoc]⟩

theorem leads_cons_iff {behind t : Text} {c : Char} {r : Place} :
    (⟨behind, c :: t⟩ : Place).Leads r ↔
      (⟨behind, c :: t⟩ : Place) = r ∨ (⟨c :: behind, t⟩ : Place).Leads r := by
  constructor
  · intro h
    refine h.eq_or_precedes.imp_right ?_
    rintro ⟨s, hne, hs⟩
    obtain ⟨d, s, rfl⟩ := List.exists_cons_of_ne_nil hne
    obtain ⟨rfl, ht⟩ := List.cons.inj hs.1
    refine ⟨s, ht, ?_⟩
    rw [hs.2, List.reverse_cons, List.append_assoc]
    rfl
  · rintro (rfl | h)
    · exact Leads.refl _
    · exact Leads.trans ⟨[c], rfl, rfl⟩ h

/-! ## Heads in order -/

/-- A head of a case statement stands between two places. -/
def IsCaseHead (p q : Place) : Prop :=
  p.Leads q ∧ afterCaseHead? p.previous? p.ahead = some q.ahead

/-- The heads ahead of a place, each with its start and its end. They stand in
order and do not overlap, and any other head starts inside one of them. -/
structure CaseHeads (p : Place) (heads : List (Place × Place)) : Prop where
  isHead : ∀ h ∈ heads, p.Leads h.1 ∧ IsCaseHead h.1 h.2
  apart : heads.Pairwise fun h k => h.2.Leads k.1
  complete : ∀ q r, p.Leads q → IsCaseHead q r →
    (q, r) ∈ heads ∨ ∃ h ∈ heads, h.1.Precedes q ∧ q.Precedes h.2

theorem IsCaseHead.unique {p q r : Place} (hq : IsCaseHead p q) (hr : IsCaseHead p r) :
    q = r := by
  obtain ⟨⟨s, hs⟩, hq⟩ := hq
  obtain ⟨⟨u, hu⟩, hr⟩ := hr
  exact hs.eq hu (Option.some.inj (hq.symm.trans hr))

theorem IsCaseHead.precedes {p q : Place} (h : IsCaseHead p q) : p.Precedes q := by
  obtain ⟨hleads, hhead⟩ := h
  refine hleads.eq_or_precedes.resolve_left ?_
  rintro rfl
  exact Nat.lt_irrefl _ (length_lt_of_afterCaseHead? hhead)

/-- No head starts at the end of a text. -/
theorem not_isCaseHead_of_ahead_nil {p q : Place} (h : p.ahead = []) : ¬ IsCaseHead p q := by
  intro hhead
  obtain ⟨s, hne, hs⟩ := hhead.precedes
  exact hne (List.append_eq_nil_iff.mp (hs.1.symm.trans h)).1

/-! ## The heads are determined -/

theorem CaseHeads.ne_nil {p g r : Place} {heads : List (Place × Place)}
    (h : CaseHeads p heads) (hg : p.Leads g) (hhead : IsCaseHead g r) : heads ≠ [] := by
  rintro rfl
  rcases h.complete g r hg hhead with hmem | ⟨k, hk, -⟩
  · cases hmem
  · cases hk

/-- The first of the heads is the first that starts ahead. -/
theorem CaseHeads.leads_of_isCaseHead {p f q g r : Place} {heads : List (Place × Place)}
    (h : CaseHeads p ((f, q) :: heads)) (hg : p.Leads g) (hhead : IsCaseHead g r) :
    f.Leads g := by
  have hfirst : ∀ k ∈ (f, q) :: heads, f.Leads k.1 := by
    intro k hk
    rcases List.mem_cons.mp hk with rfl | hk
    · exact Leads.refl f
    · exact (h.isHead _ List.mem_cons_self).2.1.trans (List.rel_of_pairwise_cons h.apart hk)
  rcases h.complete g r hg hhead with hmem | ⟨k, hk, ⟨s, -, hs⟩, -⟩
  · exact hfirst _ hmem
  · exact (hfirst k hk).trans ⟨s, hs⟩

/-- Behind the first head stand the others. -/
theorem CaseHeads.tail {p f q : Place} {heads : List (Place × Place)}
    (h : CaseHeads p ((f, q) :: heads)) : CaseHeads q heads where
  isHead k hk := ⟨List.rel_of_pairwise_cons h.apart hk, (h.isHead k (List.mem_cons_of_mem _ hk)).2⟩
  apart := h.apart.of_cons
  complete g r hg hhead := by
    obtain ⟨hf, hfq⟩ := h.isHead _ List.mem_cons_self
    rcases h.complete g r ((hf.trans hfq.1).trans hg) hhead with hmem | ⟨k, hk, hbehind, hinside⟩
    · rcases List.mem_cons.mp hmem with heq | hmem
      · cases heq
        exact absurd hg hfq.precedes.not_leads
      · exact .inl hmem
    · rcases List.mem_cons.mp hk with rfl | hk
      · exact absurd hg hinside.not_leads
      · exact .inr ⟨k, hk, hbehind, hinside⟩

/-- A first head, with the heads behind it. -/
theorem CaseHeads.cons {p f q : Place} {heads : List (Place × Place)} (h : CaseHeads q heads)
    (hf : p.Leads f) (hhead : IsCaseHead f q)
    (hfirst : ∀ g r, p.Leads g → IsCaseHead g r → f.Leads g) :
    CaseHeads p ((f, q) :: heads) where
  isHead k hk := by
    rcases List.mem_cons.mp hk with rfl | hk
    · exact ⟨hf, hhead⟩
    · exact ⟨(hf.trans hhead.1).trans (h.isHead k hk).1, (h.isHead k hk).2⟩
  apart := .cons (fun k hk => (h.isHead k hk).1) h.apart
  complete g r hg hghead := by
    rcases (hfirst g r hg hghead).eq_or_precedes with rfl | hbehind
    · cases hghead.unique hhead
      exact .inl List.mem_cons_self
    · -- a later head starts inside the first one, or is found behind it
      have hlater (hqg : q.Leads g) : (g, r) ∈ (f, q) :: heads ∨
          ∃ k ∈ (f, q) :: heads, k.1.Precedes g ∧ g.Precedes k.2 := by
        rcases h.complete g r hqg hghead with hmem | ⟨k, hmem, hinside⟩
        · exact .inl (List.mem_cons_of_mem _ hmem)
        · exact .inr ⟨k, List.mem_cons_of_mem _ hmem, hinside⟩
      rcases hg.total (hf.trans hhead.1) with hgq | hqg
      · rcases hgq.eq_or_precedes with rfl | hinside
        · exact hlater (Leads.refl g)
        · exact .inr ⟨(f, q), List.mem_cons_self, hbehind, hinside⟩
      · exact hlater hqg

/-- There is one list of the heads ahead of a place. -/
theorem CaseHeads.unique {p : Place} {heads heads' : List (Place × Place)}
    (h : CaseHeads p heads) (h' : CaseHeads p heads') : heads = heads' := by
  induction heads generalizing p heads' with
  | nil =>
      cases heads' with
      | nil => rfl
      | cons k heads' =>
          obtain ⟨hk, hhead⟩ := h'.isHead k List.mem_cons_self
          exact absurd rfl (h.ne_nil hk hhead)
  | cons k heads ih =>
      obtain ⟨f, q⟩ := k
      obtain ⟨hf, hhead⟩ := h.isHead _ List.mem_cons_self
      cases heads' with
      | nil => exact absurd rfl (h'.ne_nil hf hhead)
      | cons k' heads' =>
          obtain ⟨f', q'⟩ := k'
          obtain ⟨hf', hhead'⟩ := h'.isHead _ List.mem_cons_self
          cases (h.leads_of_isCaseHead hf' hhead').antisymm (h'.leads_of_isCaseHead hf hhead)
          cases hhead.unique hhead'
          rw [ih h.tail h'.tail]

/-! ## The search from head to head -/

/-- The search fails only where no head is ahead. -/
theorem not_isCaseHead_of_afterFirstCase? {behind t : Text}
    (h : afterFirstCase? behind.head? t = none) {q r : Place}
    (hq : (⟨behind, t⟩ : Place).Leads q) : ¬ IsCaseHead q r := by
  induction t generalizing behind with
  | nil =>
      obtain ⟨s, hs⟩ := hq
      exact not_isCaseHead_of_ahead_nil (List.append_eq_nil_iff.mp hs.1.symm).2
  | cons c t ih =>
      rw [afterFirstCase?] at h
      split at h
      · cases h
      · next hnone =>
          rcases leads_cons_iff.mp hq with rfl | hlater
          · rintro ⟨-, hhead⟩
            cases hnone.symm.trans hhead
          · exact ih (show afterFirstCase? (c :: behind).head? t = none from h) hlater

/-- The search finds the first head ahead. -/
theorem exists_isCaseHead_of_afterFirstCase? {behind t rest : Text}
    (h : afterFirstCase? behind.head? t = some rest) :
    ∃ f q, (⟨behind, t⟩ : Place).Leads f ∧ IsCaseHead f q ∧ q.ahead = rest ∧
      ∀ g r, (⟨behind, t⟩ : Place).Leads g → IsCaseHead g r → f.Leads g := by
  induction t generalizing behind with
  | nil => cases h
  | cons c t ih =>
      rw [afterFirstCase?] at h
      split at h
      · next found hfound =>
          cases h
          obtain ⟨s, hs⟩ := suffix_of_afterCaseHead? hfound
          exact ⟨_, ⟨s.reverse ++ behind, rest⟩, Leads.refl _, ⟨⟨s, hs.symm, rfl⟩, hfound⟩, rfl,
            fun g r hg _ => hg⟩
      · next hnone =>
          obtain ⟨f, q, hf, hhead, hrest, hfirst⟩ :=
            ih (show afterFirstCase? (c :: behind).head? t = some rest from h)
          refine ⟨f, q, leads_cons_iff.mpr (.inr hf), hhead, hrest, fun g r hg hghead => ?_⟩
          rcases leads_cons_iff.mp hg with rfl | hlater
          · obtain ⟨-, hhere⟩ := hghead
            cases hnone.symm.trans hhere
          · exact hfirst g r hlater hghead

/-- The search from head to head finds the heads in order. -/
theorem exists_caseHeads (p : Place) :
    ∃ heads, CaseHeads p heads ∧ heads.map Prod.snd = p.caseStarts := by
  fun_induction caseStarts p with
  | case1 p hnone =>
      refine ⟨[], ⟨by simp, .nil, fun q r hq hhead => ?_⟩, rfl⟩
      exact absurd hhead (not_isCaseHead_of_afterFirstCase? hnone hq)
  | case2 p rest hrest e ih =>
      obtain ⟨f, q, hf, hhead, rfl, hfirst⟩ := exists_isCaseHead_of_afterFirstCase? hrest
      obtain ⟨s, hs⟩ := hf.trans hhead.1
      have he : e = q := hs.advance_eq
      rw [he] at ih ⊢
      obtain ⟨heads, hheads, hstarts⟩ := ih
      exact ⟨(f, q) :: heads, hheads.cons hf hhead hfirst, by rw [List.map_cons, hstarts]⟩

end CaseTable.Place
