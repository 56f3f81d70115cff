import CaseTable.Description
import CaseTable.Proofs.Text.Replacement

/-!
# Wordings bring in no line end

A description is worded from a name through some twenty replacements, a
change of case over tables of several hundred entries, and spaces for
underscores. What the writer needs to know about all of it is little: a
description holds a line feed only if the name does, and ends with a carriage
return only if the name does.

`Spares x f` says that about one step `f` and one character `x`. It passes
through composition, so `spares_describe` is put together from one fact for
each step. The case tables enter through a single bound: none of them maps
anything to a character below the space.
-/

namespace CaseTable

/-- A rewording that never brings in the character `x`, neither into a text
nor to its end, and never makes a text vanish. -/
structure Spares (x : Char) (f : Text → Text) : Prop where
  mem : ∀ {t : Text}, x ∈ f t → x ∈ t
  last : ∀ {t : Text}, (f t).getLast? = some x → t.getLast? = some x
  eq_nil : ∀ {t : Text}, f t = [] → t = []

theorem Spares.id (x : Char) : Spares x fun t => t :=
  ⟨fun h => h, fun h => h, fun h => h⟩

theorem Spares.comp {x : Char} {f g : Text → Text} (hg : Spares x g)
    (hf : Spares x f) : Spares x fun t => g (f t) :=
  ⟨fun h => hf.mem (hg.mem h), fun h => hf.last (hg.last h),
    fun h => hf.eq_nil (hg.eq_nil h)⟩

/-- What a control character is to the case tables: the line feed and the
carriage return are the two that matter. -/
def IsControl (x : Char) : Prop := 0 < x.toNat ∧ x.toNat < 0x20

instance (x : Char) : Decidable (IsControl x) :=
  inferInstanceAs (Decidable (_ ∧ _))

theorem isControl_newline : IsControl '\n' := by decide

theorem isControl_return : IsControl '\r' := by decide

theorem IsControl.ne_of_le {x : Char} (hx : IsControl x) {n : Nat}
    (hn : 0x20 ≤ n) : x ≠ Char.ofNat n := by
  rintro rfl
  -- a number that is no code point stands for the null character
  have hval : (Char.ofNat n).toNat = n ∨ (Char.ofNat n).toNat = 0 := by
    by_cases hvalid : n.isValidChar
    · have hchar : Char.ofNat n = Char.ofNatAux n hvalid := dif_pos hvalid
      exact .inl (congrArg Char.toNat hchar)
    · have hchar : Char.ofNat n = '\x00' := dif_neg hvalid
      exact .inr (congrArg Char.toNat hchar)
  obtain ⟨hpos, hlt⟩ := hx
  omega

/-! ## The change of case -/

theorem mapCase_spares {x : Char} (hx : IsControl x)
    {expansions : List (Nat × List Nat)} {runs : List CaseRun}
    (hexp : ∀ p ∈ expansions, p.2 ≠ [] ∧ ∀ n ∈ p.2, 0x20 ≤ n)
    (hruns : ∀ run ∈ runs, 0x20 ≤ run.target) (c : Char) :
    mapCase expansions runs c ≠ [] ∧
      (x ∈ mapCase expansions runs c → c = x) := by
  rw [mapCase]
  split
  · next several hlookup =>
      obtain ⟨l₁, l₂, hsplit, -⟩ := List.lookup_eq_some_iff.mp hlookup
      obtain ⟨hne, hge⟩ := hexp (c.toNat, several) (by simp [hsplit])
      refine ⟨by simpa using hne, fun hmem => ?_⟩
      obtain ⟨n, hn, rfl⟩ := List.mem_map.mp hmem
      exact absurd rfl (hx.ne_of_le (hge n hn))
  · split
    · next run hfind =>
        have htarget := hruns run (List.mem_of_find?_eq_some hfind)
        refine ⟨by simp, fun hmem => ?_⟩
        refine absurd (List.mem_singleton.mp hmem) (hx.ne_of_le ?_)
        rw [CaseRun.move]
        omega
    · exact ⟨by simp, fun hmem => (List.mem_singleton.mp hmem).symm⟩

theorem upperCase_spares {x : Char} (hx : IsControl x) (c : Char) :
    upperCase c ≠ [] ∧ (x ∈ upperCase c → c = x) :=
  mapCase_spares hx (by decide +kernel) (by decide +kernel) c

theorem lowerCase_spares {x : Char} (hx : IsControl x) (c : Char) :
    lowerCase c ≠ [] ∧ (x ∈ lowerCase c → c = x) :=
  mapCase_spares hx (by decide +kernel) (by decide +kernel) c

theorem spares_flatMap {x : Char} {f : Char → Text}
    (hf : ∀ c, f c ≠ [] ∧ (x ∈ f c → c = x)) : Spares x (List.flatMap f) where
  mem {t} h := by
    obtain ⟨c, hc, hx⟩ := List.mem_flatMap.mp h
    rwa [(hf c).2 hx] at hc
  last {t} h := by
    cases hlast : t.getLast? with
    | none =>
        rw [List.getLast?_eq_none_iff] at hlast
        simp [hlast] at h
    | some c =>
        obtain ⟨u, rfl⟩ := List.getLast?_eq_some_iff.mp hlast
        simp only [List.flatMap_append, List.flatMap_singleton,
          List.getLast?_append] at h
        cases hfc : (f c).getLast? with
        | none => exact absurd (List.getLast?_eq_none_iff.mp hfc) (hf c).1
        | some d =>
            rw [hfc, Option.some_or, Option.some.injEq] at h
            subst h
            rw [(hf c).2 (List.mem_of_getLast? hfc)]
  eq_nil {t} h := by
    cases t with
    | nil => rfl
    | cons c t =>
        rw [List.flatMap_cons, List.append_eq_nil_iff] at h
        exact absurd h.1 (hf c).1

/-- A capital at the front, and a rewording of the rest. -/
theorem spares_upperCase_cons {x : Char} (hx : IsControl x)
    {f g : Text → Text} (hg : Spares x g) (hnil : f [] = [])
    (hcons : ∀ c t, f (c :: t) = upperCase c ++ g t) : Spares x f where
  mem {t} h := by
    cases t with
    | nil => rwa [hnil] at h
    | cons c t =>
        rw [hcons, List.mem_append] at h
        rcases h with h | h
        · simp [(upperCase_spares hx c).2 h]
        · simp [hg.mem h]
  last {t} h := by
    cases t with
    | nil => rwa [hnil] at h
    | cons c t =>
        rw [hcons, List.getLast?_append] at h
        cases hlast : (g t).getLast? with
        | none =>
            obtain rfl := hg.eq_nil (List.getLast?_eq_none_iff.mp hlast)
            rw [hlast, Option.none_or] at h
            rw [(upperCase_spares hx c).2 (List.mem_of_getLast? h)]
            rfl
        | some d =>
            rw [hlast, Option.some_or, Option.some.injEq] at h
            subst h
            obtain ⟨u, rfl⟩ := List.getLast?_eq_some_iff.mp (hg.last hlast)
            rw [← List.cons_append, List.getLast?_concat]
  eq_nil {t} h := by
    cases t with
    | nil => rfl
    | cons c t =>
        rw [hcons, List.append_eq_nil_iff] at h
        exact absurd h.1 (upperCase_spares hx c).1

theorem spares_capitalizeFirst {x : Char} (hx : IsControl x) :
    Spares x Text.capitalizeFirst :=
  spares_upperCase_cons hx (Spares.id x) rfl fun _ _ => rfl

theorem spares_capitalizeWord {x : Char} (hx : IsControl x) :
    Spares x Text.capitalizeWord :=
  spares_upperCase_cons hx (spares_flatMap (lowerCase_spares hx)) rfl
    fun _ _ => rfl

/-! ## The replacements -/

theorem replaceAll_eq_nil {old new t : Text} (hnew : new ≠ [])
    (h : Text.replaceAll old new t = []) : t = [] := by
  cases t with
  | nil => rfl
  | cons c t =>
      rw [Text.replaceAll] at h
      split at h
      · simp at h
      · split at h
        · exact absurd (List.append_eq_nil_iff.mp h).1 hnew
        · cases h

theorem spares_replaceAll {x : Char} {old new : Text} (hold : old ≠ [])
    (hnew : new ≠ []) (hx : x ∉ new) : Spares x (Text.replaceAll old new) where
  mem {t} h := by
    induction t using Text.induction_occurrences hold with
    | nil => rwa [Text.replaceAll_nil hold] at h
    | occurrence t ih =>
        rw [Text.replaceAll_occurrence hold] at h
        rcases List.mem_append.mp h with h | h
        · exact absurd h hx
        · exact List.mem_append_right old (ih h)
    | cons c t hnone ih =>
        rw [Text.replaceAll_cons hold new hnone] at h
        rcases List.mem_cons.mp h with rfl | h
        · simp
        · exact List.mem_cons_of_mem c (ih h)
  last {t} h := by
    induction t using Text.induction_occurrences hold with
    | nil => rwa [Text.replaceAll_nil hold] at h
    | occurrence t ih =>
        rw [Text.replaceAll_occurrence hold, List.getLast?_append] at h
        cases hrest : (Text.replaceAll old new t).getLast? with
        | none =>
            rw [hrest, Option.none_or] at h
            exact absurd (List.mem_of_getLast? h) hx
        | some d =>
            rw [hrest, Option.some_or] at h
            rw [List.getLast?_append, ih (hrest.trans h), Option.some_or]
    | cons c t hnone ih =>
        rw [Text.replaceAll_cons hold new hnone, List.getLast?_cons] at h
        rw [List.getLast?_cons]
        cases hrest : (Text.replaceAll old new t).getLast? with
        | none =>
            obtain rfl := replaceAll_eq_nil hnew
              (List.getLast?_eq_none_iff.mp hrest)
            rw [hrest] at h
            exact h
        | some d =>
            rw [hrest] at h
            simp only [Option.getD_some, Option.some.injEq] at h
            subst h
            rw [ih hrest]
            rfl
  eq_nil := replaceAll_eq_nil hnew

namespace Description

theorem spares_spaced {x : Char} (hx : x ≠ ' ') : Spares x spaced where
  mem {t} h := by
    obtain ⟨c, hc, hcx⟩ := List.mem_map.mp h
    split at hcx
    · exact absurd hcx.symm hx
    · rwa [← hcx]
  last {t} h := by
    rw [spaced, List.getLast?_map] at h
    obtain ⟨c, hc, hcx⟩ := Option.map_eq_some_iff.mp h
    split at hcx
    · exact absurd hcx.symm hx
    · rwa [← hcx]
  eq_nil h := List.map_eq_nil_iff.mp h

theorem spares_spellOut {x : Char} (hx : IsControl x) :
    Spares x spellOut := by
  have hlong : ∀ p ∈ abbreviations, p.1 ≠ [] ∧ p.2 ≠ [] ∧
      ∀ c ∈ p.2, 0x20 ≤ c.toNat := by simp [abbreviations]
  have hfold : ∀ ps : List (Text × Text),
      (∀ p ∈ ps, p.1 ≠ [] ∧ p.2 ≠ [] ∧ ∀ c ∈ p.2, 0x20 ≤ c.toNat) →
      Spares x fun t =>
        ps.foldl (fun t p => Text.replaceAll p.1 p.2 t) t := by
    intro ps
    induction ps with
    | nil => exact fun _ => Spares.id x
    | cons p ps ih =>
        intro hps
        obtain ⟨hold, hnew, hge⟩ := hps p (by simp)
        refine (ih fun q hq => hps q (by simp [hq])).comp
          (spares_replaceAll hold hnew fun hmem => ?_)
        have := hge x hmem
        have := hx.2
        omega
  exact hfold abbreviations hlong

/-- Underscores cut a name into words, and spaces put it together again. -/
theorem join_splitOn (t : Text) :
    Text.join [' '] (t.splitOn '_') = spaced t := by
  induction t with
  | nil => rfl
  | cons c t ih =>
      obtain ⟨word, rest, hsplit⟩ :=
        List.exists_cons_of_ne_nil (List.splitOn_ne_nil '_' t)
      rw [hsplit] at ih
      rw [List.splitOn_cons_eq_if_modifyHead, hsplit]
      by_cases hc : c = '_'
      · rw [if_pos (by simpa using hc), Text.join,
          List.intercalate_cons_cons]
        rw [Text.join] at ih
        rw [ih, hc]
        rfl
      · rw [if_neg (by simpa using hc), List.modifyHead_cons]
        have hcons : Text.join [' '] ((c :: word) :: rest)
            = c :: Text.join [' '] (word :: rest) := by
          cases rest <;> simp [Text.join, List.intercalate_cons_cons]
        rw [hcons, ih, spaced, spaced, List.map_cons, if_neg hc]

/-- The simple style touches the first word; the rest is only spaced. -/
theorem simple_eq (name : Text) : ∃ word rest, name = word ++ rest ∧
    simple name = Text.capitalizeWord word ++ spaced rest := by
  by_cases hmem : '_' ∈ name
  · obtain ⟨word, rest, rfl, hword⟩ := List.eq_append_cons_of_mem hmem
    refine ⟨word, '_' :: rest, rfl, ?_⟩
    obtain ⟨next, more, hsplit⟩ :=
      List.exists_cons_of_ne_nil (List.splitOn_ne_nil '_' rest)
    have hjoin := join_splitOn rest
    rw [simple, List.splitOn_append_cons_self_of_not_mem hword]
    simp only []
    rw [hsplit] at hjoin ⊢
    rw [Text.join, List.intercalate_cons_cons, ← Text.join, hjoin]
    simp [spaced]
  · refine ⟨name, [], by simp, ?_⟩
    rw [simple, List.splitOn_eq_singleton hmem]
    simp [Text.join, spaced]

theorem spares_simple {x : Char} (hx : IsControl x) : Spares x simple := by
  have hspaced : Spares x spaced := spares_spaced fun h => by
    subst h
    exact absurd hx (by decide)
  have hword := spares_capitalizeWord hx
  constructor
  · intro t h
    obtain ⟨word, rest, rfl, hsimple⟩ := simple_eq t
    rw [hsimple, List.mem_append] at h
    rw [List.mem_append]
    exact h.imp hword.mem hspaced.mem
  · intro t h
    obtain ⟨word, rest, rfl, hsimple⟩ := simple_eq t
    rw [hsimple, List.getLast?_append] at h
    rw [List.getLast?_append]
    cases hrest : (spaced rest).getLast? with
    | none =>
        obtain rfl := hspaced.eq_nil (List.getLast?_eq_none_iff.mp hrest)
        rw [hrest, Option.none_or] at h
        rw [hword.last h]
        rfl
    | some d =>
        rw [hrest, Option.some_or] at h
        rw [hspaced.last (hrest.trans h)]
        rfl
  · intro t h
    obtain ⟨word, rest, rfl, hsimple⟩ := simple_eq t
    rw [hsimple, List.append_eq_nil_iff] at h
    rw [hword.eq_nil h.1, hspaced.eq_nil h.2]
    rfl

end Description

/-- No description brings in a line feed or a carriage return. -/
theorem spares_describe {x : Char} (hx : IsControl x)
    (style : DescriptionStyle) : Spares x (describe style) := by
  have hspaced : Spares x Description.spaced :=
    Description.spares_spaced fun h => by
      subst h
      exact absurd hx (by decide)
  cases style with
  | expanded =>
      exact (spares_capitalizeFirst hx).comp
        ((Description.spares_spellOut hx).comp hspaced)
  | simple => exact Description.spares_simple hx

end CaseTable
