import CaseTable.Proofs.Shell.Definitions

/-!
# References to the placeholder

Cleaning deletes the references to the placeholder, and nothing else. Which
characters these are is said of the text as it stands, place by place
(`InReference`): a reference is the name in braces, or the bare name where no
character follows that would make it longer. `stripReferences` keeps the
characters at all other places, in their order.

A reference starts with a dollar sign and has no other. So no two of them
overlap (`ReferenceAt.disjoint`), and a scan that has passed the last character
of one is in none: this is what the induction over the text carries along. What
is left over can look like a reference, as when one stood inside a name, and is
not taken for one.
-/

namespace CaseTable.Arguments

open CaseTable.Shell (isNameChar_of_mem_identifier isBlank_of_mem_identifier)

def braced (name : Text) : Text := '$' :: '\x7b' :: (name ++ ['\x7d'])

def bare (name : Text) : Text := '$' :: name

/-- A text starts with a reference of `n` characters. -/
def StartsReference (name : Text) (n : Nat) (t : Text) : Prop :=
  (braced name <+: t ∧ n = (braced name).length) ∨
    (bare name <+: t ∧ n = (bare name).length ∧ (t.drop n).head?.any isNameChar = false)

/-- A reference of `n` characters stands at place `i` of a text. -/
def ReferenceAt (name raw : Text) (i n : Nat) : Prop := StartsReference name n (raw.drop i)

/-- The character at place `k` of a text belongs to a reference. -/
def InReference (name raw : Text) (k : Nat) : Prop :=
  ∃ i, i ≤ k ∧ ∃ n, n ≤ raw.length ∧ ReferenceAt name raw i n ∧ k < i + n

instance (name : Text) (n : Nat) (t : Text) : Decidable (StartsReference name n t) :=
  inferInstanceAs (Decidable (_ ∨ _))

instance (name raw : Text) (i n : Nat) : Decidable (ReferenceAt name raw i n) :=
  inferInstanceAs (Decidable (StartsReference _ _ _))

instance (name raw : Text) (k : Nat) : Decidable (InReference name raw k) :=
  inferInstanceAs (Decidable (∃ i, i ≤ k ∧ ∃ n, n ≤ raw.length ∧ ReferenceAt name raw i n ∧
    k < i + n))

/-- A text that holds a dollar sign and is no reference, with what follows it: the
name goes on, bare or in braces, or the name does not follow at all. The dollar
sign may stand before another one. -/
inductive Lookalike (name : Text) : Text → Text → Prop
    | longer {suffix : Text} (hne : suffix ≠ []) (h : ∀ c ∈ suffix, isNameChar c = true)
        (after : Text) : Lookalike name (bare (name ++ suffix)) after
    | bracedLonger {suffix : Text} (hne : suffix ≠ [])
        (h : ∀ c ∈ suffix, isNameChar c = true) (after : Text) :
        Lookalike name (braced (name ++ suffix)) after
    | lone {after : Text} (hbare : ¬ name <+: after)
        (hbraced : ¬ '\x7b' :: (name ++ ['\x7d']) <+: after) : Lookalike name ['$'] after

section

variable {name : Text} (hname : CommandLine.isIdentifier name = true)
include hname

theorem dollar_notMem_identifier : '$' ∉ name := fun h =>
  absurd (isNameChar_of_mem_identifier hname h) (by decide)

/-- A text that starts with a reference in braces starts with no bare one. -/
theorem not_bare_of_braced {other t : Text} (hbraced : braced other <+: t) :
    ¬ bare name <+: t := by
  cases hcons : name with
  | nil => rw [hcons] at hname; cases hname
  | cons c rest =>
      have hc := (isBlank_of_mem_identifier hname (c := c) (by simp [hcons])).2.2.2.1
      obtain ⟨u, rfl⟩ := hbraced
      rintro ⟨v, hv⟩
      simp only [bare, braced, List.cons_append, List.cons.injEq, true_and] at hv
      exact hc hv.1

/-- A reference starts with its only dollar sign. -/
theorem StartsReference.exists_append {n : Nat} {t : Text} (h : StartsReference name n t) :
    ∃ ref rest, t = '$' :: ref ++ rest ∧ n = ('$' :: ref).length ∧ '$' ∉ ref := by
  have hdollar := dollar_notMem_identifier hname
  rcases h with ⟨⟨rest, rfl⟩, rfl⟩ | ⟨⟨rest, rfl⟩, rfl, -⟩
  · exact ⟨'\x7b' :: (name ++ ['\x7d']), rest, rfl, rfl, by simp [hdollar]⟩
  · exact ⟨name, rest, rfl, rfl, hdollar⟩

theorem StartsReference.unique {n m : Nat} {t : Text} (h : StartsReference name n t)
    (h' : StartsReference name m t) : n = m := by
  rcases h with ⟨hbraced, rfl⟩ | ⟨hbare, rfl, -⟩ <;>
    rcases h' with ⟨hbraced', rfl⟩ | ⟨hbare', rfl, -⟩
  · rfl
  · exact absurd hbare' (not_bare_of_braced hname hbraced)
  · exact absurd hbare (not_bare_of_braced hname hbraced')
  · rfl

theorem ReferenceAt.head? {raw : Text} {i n : Nat} (h : ReferenceAt name raw i n) :
    (raw.drop i).head? = some '$' := by
  obtain ⟨ref, rest, hdrop, -, -⟩ := StartsReference.exists_append hname h
  rw [hdrop]
  rfl

/-- A later dollar sign stands behind a reference. -/
theorem ReferenceAt.add_le {raw : Text} {i n j : Nat} (h : ReferenceAt name raw i n)
    (hij : i < j) (hj : (raw.drop j).head? = some '$') : i + n ≤ j := by
  obtain ⟨ref, rest, hdrop, rfl, hdollar⟩ := StartsReference.exists_append hname h
  refine Nat.le_of_not_lt fun hlt => hdollar ?_
  obtain ⟨d, rfl⟩ := Nat.exists_eq_add_of_lt hij
  have hinside : d < ref.length := by
    simp only [List.length_cons] at hlt
    omega
  rw [Nat.add_assoc, ← List.drop_drop, hdrop, List.cons_append, List.drop_succ_cons,
    List.head?_drop, List.getElem?_append_left hinside] at hj
  exact List.mem_of_getElem? hj

/-- Two references are one, or do not overlap. -/
theorem ReferenceAt.disjoint {raw : Text} {i n j m : Nat} (h : ReferenceAt name raw i n)
    (h' : ReferenceAt name raw j m) : (i = j ∧ n = m) ∨ i + n ≤ j ∨ j + m ≤ i := by
  rcases Nat.lt_trichotomy i j with hij | rfl | hji
  · exact .inr (.inl (h.add_le hname hij (h'.head? hname)))
  · exact .inl ⟨rfl, StartsReference.unique hname h h'⟩
  · exact .inr (.inr (h'.add_le hname hji (h.head? hname)))

/-! ## The scan -/

theorem afterReference?_eq_some_iff {t rest : Text} :
    afterReference? name t = some rest ↔
      ∃ n, StartsReference name n ('$' :: t) ∧ rest = ('$' :: t).drop n := by
  constructor
  · intro h
    unfold afterReference? at h
    split at h
    · next hread =>
        cases h
        have hraw : '$' :: t = braced name ++ rest := by
          rw [Text.afterStart?_eq_some_iff.mp hread]
          rfl
        rw [hraw]
        exact ⟨_, .inl ⟨List.prefix_append _ rest, rfl⟩, List.drop_left.symm⟩
    · split at h
      · next after hread =>
          split at h
          · cases h
          · next hnext =>
              cases h
              have hraw : '$' :: t = bare name ++ rest := by
                rw [Text.afterStart?_eq_some_iff.mp hread]
                rfl
              rw [hraw]
              refine ⟨_, .inr ⟨List.prefix_append _ rest, rfl, ?_⟩, List.drop_left.symm⟩
              rw [List.drop_left]
              exact Bool.eq_false_iff.mpr hnext
      · cases h
  · rintro ⟨n, ⟨⟨after, hraw⟩, rfl⟩ | ⟨⟨after, hraw⟩, rfl, hnext⟩, rfl⟩
    · have hread : Text.afterStart? ('\x7b' :: name ++ ['\x7d']) t = some after :=
        Text.afterStart?_eq_some_iff.mpr (List.cons.inj hraw).2.symm
      rw [← hraw, List.drop_left, afterReference?, hread]
    · have hbraced : Text.afterStart? ('\x7b' :: name ++ ['\x7d']) t = none := by
        refine Option.eq_none_iff_forall_ne_some.mpr fun after' hread => ?_
        have hfront : braced name <+: '$' :: t := by
          rw [Text.afterStart?_eq_some_iff.mp hread]
          exact List.prefix_append (braced name) after'
        exact not_bare_of_braced hname hfront ⟨after, hraw⟩
      have hread : Text.afterStart? name t = some after :=
        Text.afterStart?_eq_some_iff.mpr (List.cons.inj hraw).2.symm
      rw [← hraw, List.drop_left] at hnext ⊢
      rw [afterReference?, hbraced, hread]
      exact if_neg (Bool.eq_false_iff.mp hnext)

theorem identifier_ne_nil : name ≠ [] := by
  rintro rfl
  cases hname

/-- A reference at the front is deleted. -/
theorem stripReferences_of_startsReference {n : Nat} {t : Text}
    (h : StartsReference name n t) :
    stripReferences name t = stripReferences name (t.drop n) := by
  obtain ⟨ref, rest, rfl, -⟩ := h.exists_append hname
  have hread := (afterReference?_eq_some_iff hname).mpr ⟨n, h, rfl⟩
  rw [List.cons_append, stripReferences, if_pos ⟨rfl, identifier_ne_nil hname⟩]
  split
  · next rest' hrest => rw [Option.some.inj (hrest.symm.trans hread)]; rfl
  · next hnone => cases hnone.symm.trans hread

/-- Any other character is kept. -/
theorem stripReferences_cons {c : Char} {t : Text}
    (h : ∀ n, ¬ StartsReference name n (c :: t)) :
    stripReferences name (c :: t) = c :: stripReferences name t := by
  rw [stripReferences]
  split
  · next hdollar =>
      obtain ⟨rfl, -⟩ := hdollar
      split
      · next rest hread =>
          obtain ⟨n, hstart, -⟩ := (afterReference?_eq_some_iff hname).mp hread
          exact absurd hstart (h n)
      · rfl
  · rfl

/-- No reference that starts before a place reaches past it. -/
def Passed (name raw : Text) (k : Nat) : Prop :=
  ∀ i n, ReferenceAt name raw i n → i < k → i + n ≤ k

theorem ReferenceAt.passed {raw : Text} {k n : Nat} (h : ReferenceAt name raw k n) :
    Passed name raw (k + n) := by
  intro i m hother hi
  rcases h.disjoint hname hother with ⟨rfl, rfl⟩ | hle | hle <;> omega

omit hname in
theorem Passed.not_inReference {raw : Text} {k : Nat} (h : Passed name raw k)
    (hnone : ∀ n, ¬ ReferenceAt name raw k n) : ¬ InReference name raw k := by
  rintro ⟨i, hi, n, -, href, hlt⟩
  rcases Nat.lt_or_eq_of_le hi with hi | rfl
  · exact absurd (h i n href hi) (by omega)
  · exact hnone n href

omit hname in
theorem Passed.succ {raw : Text} {k : Nat} (h : Passed name raw k)
    (hnone : ∀ n, ¬ ReferenceAt name raw k n) : Passed name raw (k + 1) := by
  intro i n href hi
  rcases Nat.lt_or_eq_of_le (Nat.le_of_lt_succ hi) with hi | rfl
  · exact Nat.le_succ_of_le (h i n href hi)
  · exact absurd href (hnone n)

/-- From a place that all references before it have ended at, the scan keeps what is
in none. -/
theorem stripReferences_eq_filter_of_passed (before t : Text)
    (hpassed : Passed name (before ++ t) before.length) :
    stripReferences name t = ((t.zipIdx before.length).filter fun x =>
      ¬ InReference name (before ++ t) x.2).map Prod.fst := by
  induction hlen : t.length using Nat.strongRecOn generalizing before t with
  | _ m ih =>
      subst hlen
      cases t with
      | nil =>
          rw [stripReferences]
          rfl
      | cons c t =>
          have hhere (n : Nat) : ReferenceAt name (before ++ c :: t) before.length n ↔
              StartsReference name n (c :: t) := by
            rw [ReferenceAt, List.drop_left]
          by_cases hstart : ∃ n, StartsReference name n (c :: t)
          · obtain ⟨n, hstart⟩ := hstart
            have href := (hhere n).mpr hstart
            rw [stripReferences_of_startsReference hname hstart]
            obtain ⟨ref, rest, ht, rfl, -⟩ := hstart.exists_append hname
            rw [ht] at ih href ⊢
            have hdeleted : ((('$' :: ref).zipIdx before.length).filter fun x =>
                ¬ InReference name (before ++ ('$' :: ref ++ rest)) x.2) = [] := by
              refine List.filter_eq_nil_iff.mpr fun x hx => ?_
              have hto := List.snd_lt_add_of_mem_zipIdx hx
              have hin : InReference name (before ++ ('$' :: ref ++ rest)) x.2 :=
                ⟨before.length, List.le_snd_of_mem_zipIdx hx, _,
                  by simp only [List.length_append]; omega, href, hto⟩
              exact fun hkept => of_decide_eq_true hkept hin
            have hnext := href.passed hname
            rw [← List.append_assoc, ← List.length_append] at hnext
            have hshorter : rest.length < ('$' :: ref ++ rest).length := by
              rw [List.length_append, List.length_cons]
              omega
            have hrest := ih rest.length hshorter (before ++ '$' :: ref) rest hnext rfl
            rw [List.drop_left, hrest, List.zipIdx_append, List.filter_append, hdeleted,
              List.nil_append, List.append_assoc, List.length_append]
          · have hnone : ∀ n, ¬ ReferenceAt name (before ++ c :: t) before.length n :=
              fun n href => hstart ⟨n, (hhere n).mp href⟩
            have hkept := hpassed.not_inReference hnone
            have hnext := hpassed.succ hnone
            rw [List.append_cons, show before.length + 1 = (before ++ [c]).length by simp] at hnext
            have hrest := ih t.length (by simp) (before ++ [c]) t hnext rfl
            rw [← List.append_cons, List.length_append] at hrest
            rw [stripReferences_cons hname (not_exists.mp hstart), List.zipIdx_cons,
              List.filter_cons_of_pos (by simpa using hkept), List.map_cons, hrest]
            rfl

theorem stripReferences_eq_filter (raw : Text) :
    stripReferences name raw =
      (raw.zipIdx.filter fun x => ¬ InReference name raw x.2).map Prod.fst :=
  stripReferences_eq_filter_of_passed hname [] raw fun _ _ _ h => absurd h (Nat.not_lt_zero _)

/-! ## What only looks like a reference -/

theorem Lookalike.exists_append {text after : Text} (h : Lookalike name text after) :
    ∃ tail, text = '$' :: tail ∧ '$' ∉ tail := by
  have hdollar := dollar_notMem_identifier hname
  have hsuffix {suffix : Text} (hs : ∀ c ∈ suffix, isNameChar c = true) : '$' ∉ suffix :=
    fun hmem => absurd (hs _ hmem) (by decide)
  cases h with
  | longer _ hs _ => exact ⟨_, rfl, by simp [hdollar, hsuffix hs]⟩
  | bracedLonger _ hs _ => exact ⟨_, rfl, by simp [hdollar, hsuffix hs]⟩
  | lone => exact ⟨[], rfl, List.not_mem_nil⟩

theorem Lookalike.not_startsReference {text after : Text} (h : Lookalike name text after)
    (n : Nat) : ¬ StartsReference name n (text ++ after) := by
  cases h with
  | longer hne hs after =>
      obtain ⟨d, suffix, rfl⟩ := List.exists_cons_of_ne_nil hne
      have htext : bare (name ++ d :: suffix) ++ after = bare name ++ (d :: suffix ++ after) := by
        simp [bare]
      rw [htext]
      rintro (⟨hbraced, -⟩ | ⟨-, rfl, hnext⟩)
      · exact not_bare_of_braced hname hbraced (List.prefix_append _ _)
      · rw [List.drop_left] at hnext
        simp [hs d List.mem_cons_self] at hnext
  | bracedLonger hne hs after =>
      obtain ⟨d, suffix, rfl⟩ := List.exists_cons_of_ne_nil hne
      rintro (⟨⟨rest, hrest⟩, -⟩ | ⟨hbare, -⟩)
      · have htail : name ++ '\x7d' :: rest = name ++ d :: (suffix ++ '\x7d' :: after) := by
          simpa [braced] using hrest
        have hd : '\x7d' = d := (List.cons.inj (List.append_cancel_left htail)).1
        exact absurd (hs d List.mem_cons_self) (by rw [← hd]; decide)
      · exact not_bare_of_braced hname (List.prefix_append _ after) hbare
  | lone hbare hbraced =>
      rintro (⟨hfront, -⟩ | ⟨hfront, -⟩)
      · exact hbraced (List.cons_prefix_cons.mp hfront).2
      · exact hbare (List.cons_prefix_cons.mp hfront).2

/-- Such a text stays: none of its characters belongs to a reference. -/
theorem Lookalike.not_inReference {before text after : Text} (h : Lookalike name text after)
    {k : Nat} (hfrom : before.length ≤ k) (hto : k < before.length + text.length) :
    ¬ InReference name (before ++ (text ++ after)) k := by
  rintro ⟨i, hi, n, -, href, hlt⟩
  obtain ⟨tail, htext, htail⟩ := h.exists_append hname
  rcases Nat.lt_trichotomy i before.length with hbefore | rfl | hinside
  · have hdollar : ((before ++ (text ++ after)).drop before.length).head? = some '$' := by
      rw [List.drop_left, htext]
      rfl
    have := href.add_le hname hbefore hdollar
    omega
  · rw [ReferenceAt, List.drop_left] at href
    exact h.not_startsReference hname n href
  · obtain ⟨d, rfl⟩ := Nat.exists_eq_add_of_lt hinside
    have hd : d < tail.length := by
      rw [htext, List.length_cons] at hto
      omega
    have hdollar := href.head? hname
    rw [Nat.add_assoc, ← List.drop_drop, List.drop_left, htext, List.cons_append,
      List.drop_succ_cons, List.head?_drop, List.getElem?_append_left hd] at hdollar
    exact htail (List.mem_of_getElem? hdollar)

end

/-- Cleaning keeps, in their order, the characters that belong to no reference to the
placeholder, and then normalises. The references are those of the text as it is, and
no two of them overlap. A longer name and a dollar sign without the name are left. -/
theorem clean_keeps_outside_references {name raw : Text}
    (hname : CommandLine.isIdentifier name = true) :
    clean name raw = normalize (stripReferences name raw) ∧
    stripReferences name raw =
      (raw.zipIdx.filter fun x => ¬ InReference name raw x.2).map Prod.fst ∧
    (∀ i n j m, ReferenceAt name raw i n → ReferenceAt name raw j m →
      (i = j ∧ n = m) ∨ i + n ≤ j ∨ j + m ≤ i) ∧
    ∀ before text after, raw = before ++ (text ++ after) → Lookalike name text after →
      ∀ k, before.length ≤ k → k < before.length + text.length → ¬ InReference name raw k := by
  refine ⟨rfl, stripReferences_eq_filter hname raw, ?_, ?_⟩
  · exact fun i n j m h h' => h.disjoint hname h'
  · rintro before text after rfl h k hfrom hto
    exact h.not_inReference hname hfrom hto

/-- References side by side all go. What is left over is not taken for another one. -/
theorem clean_keeps_outside_references_adjacent :
    let raw := "$p$p$\x7bp\x7d$p_x $$\x7bp\x7dp".toList
    CommandLine.isIdentifier ['p'] = true ∧
      (raw.zipIdx.filter fun x => ¬ InReference ['p'] raw x.2).map Prod.fst =
        "$p_x $p".toList ∧
      stripReferences ['p'] raw = "$p_x $p".toList := by
  intro raw
  have hname : CommandLine.isIdentifier ['p'] = true := by decide
  have hkept : (raw.zipIdx.filter fun x => ¬ InReference ['p'] raw x.2).map Prod.fst =
      "$p_x $p".toList := by decide +kernel
  exact ⟨hname, hkept, (clean_keeps_outside_references hname).2.1.trans hkept⟩

end CaseTable.Arguments
