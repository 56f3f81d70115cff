import CaseTable.Description
import CaseTable.Proofs.Text.Lines
import CaseTable.Proofs.Text.Replacement

/-!
# Descriptions go token by token

A name is worded token by token: the expansion of two texts with an underscore
between them is the expansions of both with a space between them. The exception
is `Joins`. An abbreviation of two words is found across the underscore, if one
text ends with the first word and the other starts with the second.

`Separable` is what this takes of an abbreviation and its wording, and all of
the table are separable (`separable_abbreviations`). One of them is replaced in
two texts as in the two together, and leaves no pair of words to be joined that
was not there (`Separable.replaceAll_append`, `Separable.joins_of_joins`). So the
replacements can be taken one after the other (`foldl_replaceAll_append`), and a row
of tokens token by token (`expansion_join`).
-/

namespace CaseTable.Description

/-- The first word of the abbreviations of two words. -/
def leader : Text := "tls".toList

/-- The second words. -/
def followers : List Text := ["google".toList, "max".toList]

/-- Side by side the two texts make up an abbreviation of two words. -/
def Joins (s t : Text) : Prop := leader <:+ s ∧ ∃ word ∈ followers, word <+: t

/-- A space in the abbreviation stands between the two words, and the wording does not
help to form one of them. -/
def Separable (short long : Text) : Prop :=
  (short ≠ [] ∧ ∀ n, n < short.length → short[n]? = some ' ' →
    short.take n = leader ∧ short.drop (n + 1) ∈ followers) ∧
  Text.KeepsEnd leader short long ∧ ∀ word ∈ followers, Text.KeepsStart word long

instance (s t : Text) : Decidable (Joins s t) := inferInstanceAs (Decidable (_ ∧ _))

instance (short long : Text) : Decidable (Separable short long) :=
  inferInstanceAs (Decidable (_ ∧ _))

theorem separable_abbreviations : ∀ rule ∈ abbreviations, Separable rule.1 rule.2 := by
  decide +kernel

namespace Separable

variable {short long s t : Text} (h : Separable short long)
include h

theorem replaceAll_append (hjoins : ¬ Joins s t) :
    Text.replaceAll short long (s ++ ' ' :: t) =
      Text.replaceAll short long s ++ ' ' :: Text.replaceAll short long t := by
  refine Text.replaceAll_append_cons h.1.1 fun u v hshort hu hv => hjoins ?_
  have hspace := h.1.2 u.length (by simp [hshort]) (by simp [hshort])
  rw [hshort, List.take_left, List.append_cons, List.drop_left' (by simp)] at hspace
  exact ⟨hspace.1 ▸ hu, v, hspace.2, hv⟩

theorem joins_of_joins
    (hjoins : Joins (Text.replaceAll short long s) (Text.replaceAll short long t)) :
    Joins s t := by
  obtain ⟨hleader, word, hword, hfollower⟩ := hjoins
  exact ⟨Text.suffix_of_suffix_replaceAll h.1.1 h.2.1 hleader, word, hword,
    Text.prefix_of_prefix_replaceAll h.1.1 (h.2.2 word hword) hfollower⟩

end Separable

/-- The replacements one after the other. -/
theorem foldl_replaceAll_append {rules : List (Text × Text)}
    (h : ∀ rule ∈ rules, Separable rule.1 rule.2) {s t : Text} (hjoins : ¬ Joins s t) :
    rules.foldl (fun t (short, long) => Text.replaceAll short long t) (s ++ ' ' :: t) =
      rules.foldl (fun t (short, long) => Text.replaceAll short long t) s ++
        ' ' :: rules.foldl (fun t (short, long) => Text.replaceAll short long t) t := by
  induction rules generalizing s t with
  | nil => rfl
  | cons rule rules ih =>
      obtain ⟨hrule, hrules⟩ := List.forall_mem_cons.mp h
      simp only [List.foldl_cons, hrule.replaceAll_append hjoins]
      exact ih hrules fun hlater => hjoins (hrule.joins_of_joins hlater)

/-! ## Underscores -/

theorem spaced_append (a b : Text) : spaced (a ++ '_' :: b) = spaced a ++ ' ' :: spaced b := by
  simp [spaced]

/-- A word without a space was not brought in by an underscore. -/
theorem eq_of_spaced_eq {t word : Text} (hword : ' ' ∉ word) (h : spaced t = word) :
    t = word := by
  have hkept : ∀ c ∈ t, (if c = '_' then ' ' else c) = id c := by
    intro c hc
    split
    · next hscore =>
        have hspace := List.mem_map_of_mem (f := fun c => if c = '_' then ' ' else c) hc
        rw [if_pos hscore] at hspace
        exact absurd (h ▸ hspace) hword
    · rfl
  rw [← h, spaced, List.map_congr_left hkept, List.map_id]

theorem joins_of_spaced {a b : Text} (h : Joins (spaced a) (spaced b)) : Joins a b := by
  have hwords : ' ' ∉ leader ∧ ∀ word ∈ followers, ' ' ∉ word := by decide
  obtain ⟨⟨front, hfront⟩, word, hmem, back, hback⟩ := h
  obtain ⟨a₁, a₂, rfl, -, ha⟩ := List.map_eq_append_iff.mp hfront.symm
  obtain ⟨b₁, b₂, rfl, hb, -⟩ := List.map_eq_append_iff.mp hback.symm
  rw [eq_of_spaced_eq hwords.1 ha, eq_of_spaced_eq (hwords.2 word hmem) hb]
  exact ⟨List.suffix_append a₁ leader, word, hmem, List.prefix_append word b₂⟩

theorem expansion_append {a b : Text} (h : ¬ Joins a b) :
    expansion (a ++ '_' :: b) = expansion a ++ ' ' :: expansion b := by
  rw [expansion, spaced_append, spellOut,
    foldl_replaceAll_append separable_abbreviations fun hjoins => h (joins_of_spaced hjoins)]
  rfl

/-! ## Rows of tokens -/

/-- No token of the row makes up an abbreviation with the one behind it. -/
def Apart : List Text → Prop
  | [] => True
  | [_] => True
  | token :: next :: tokens => ¬ Joins token next ∧ Apart (next :: tokens)

/-- The second word of an abbreviation holds no underscore, so it is looked for in the
next token only. -/
theorem joins_of_joins_join {token next : Text} {tokens : List Text}
    (h : Joins token (Text.join ['_'] (next :: tokens))) : Joins token next := by
  have hwords : ∀ word ∈ followers, '_' ∉ word := by decide
  obtain ⟨hleader, word, hword, hfollower⟩ := h
  refine ⟨hleader, word, hword, ?_⟩
  cases tokens with
  | nil => rwa [Text.join, List.intercalate_singleton] at hfollower
  | cons later tokens =>
      rw [Text.join_cons (List.cons_ne_nil later tokens)] at hfollower
      rcases Text.prefix_append_or hfollower with hnext | ⟨rest, rfl, hrest⟩
      · exact hnext
      · rcases List.prefix_cons_iff.mp hrest with rfl | ⟨more, rfl, -⟩
        · simp
        · exact absurd (by simp) (hwords _ hword)

theorem expansion_join {tokens : List Text} (h : Apart tokens) :
    expansion (Text.join ['_'] tokens) = Text.join [' '] (tokens.map expansion) := by
  induction tokens with
  | nil => decide +kernel
  | cons token tokens ih =>
      cases tokens with
      | nil => simp [Text.join]
      | cons next tokens =>
          have hmore : (next :: tokens).map expansion ≠ [] := by simp
          rw [Text.join_cons (List.cons_ne_nil next tokens),
            expansion_append fun hjoins => h.1 (joins_of_joins_join hjoins), ih h.2,
            List.map_cons (a := token), Text.join_cons hmore]

/-- The expanded wording goes over an underscore as over a space, in a row of
tokens too, unless an abbreviation of two words stands across it. The description is
that wording but for its first character. -/
theorem expansion_tokens :
    (∀ a b, ¬ Joins a b →
      expansion (a ++ '_' :: b) = expansion a ++ ' ' :: expansion b) ∧
    (∀ tokens, Apart tokens →
      expansion (Text.join ['_'] tokens) = Text.join [' '] (tokens.map expansion)) ∧
    ∀ name, (expansion name = [] ∧ describe .expanded name = []) ∨
      ∃ c t, expansion name = c :: t ∧ describe .expanded name = upperCase c ++ t := by
  refine ⟨fun a b => expansion_append, fun tokens => expansion_join, fun name => ?_⟩
  rw [describe, expanded]
  cases expansion name with
  | nil => exact .inl ⟨rfl, rfl⟩
  | cons c t => exact .inr ⟨c, t, rfl, rfl⟩

/-- Two words that go together may stand in one token. -/
theorem expansion_tokens_two_words :
    let tokens := ["syndata".toList, "tls_google".toList, "tls".toList, "700".toList]
    Apart tokens ∧ expansion (Text.join ['_'] tokens) =
      "SYN data TLS Google pattern tls 700".toList := by
  intro tokens
  have hapart : Apart tokens := ⟨by decide, by decide, by decide, trivial⟩
  exact ⟨hapart, (expansion_tokens.2.1 tokens hapart).trans (by decide +kernel)⟩

/-- Across two tokens they make the exception. -/
example : expansion "tls_google".toList = "TLS Google pattern".toList ∧
    expansion "tls".toList ++ ' ' :: expansion "google".toList = "tls google".toList := by
  decide +kernel

end CaseTable.Description
