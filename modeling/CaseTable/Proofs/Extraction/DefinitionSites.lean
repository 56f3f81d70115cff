import CaseTable.Extraction.Extract
import CaseTable.Proofs.Extraction.TableFunction
import CaseTable.Proofs.Shell.Arms

/-!
# Where a function is defined

A site is a place in the script where a definition may start and the head of
one stands. The search finds the first site, if there is any
(`definition?_eq_some_iff`), and no two heads start at one site, so the body
starts behind the brace of the head there. The body goes on to the brace that
`blockEndAt?` finds, or to the end of the script (`isRange_functionBody?`).

The name stands at a site as a word of its own: what touches it is a blank, a
semicolon, a parenthesis or a brace. So neither a longer name nor a call of the
function makes a site (`IsSite.exists_mention`), and where a definition of one
function stands there is none of another (`IsSite.name_eq`).
-/

namespace CaseTable.Text

/-- Of two fronts of a text that take the same number of bytes there is one. -/
theorem eq_of_isPrefix_of_byteSize {s t u : Text} (hs : s <+: u) (ht : t <+: u)
    (h : byteSize s = byteSize t) : s = t := by
  have heq : ∀ {v w : Text}, v <+: w → byteSize v = byteSize w → v = w := by
    rintro v w ⟨more, rfl⟩ hsize
    cases more with
    | nil => rw [List.append_nil]
    | cons c more =>
        have := c.utf8Size_pos
        rw [byteSize_append, byteSize_cons] at hsize
        omega
  rcases List.prefix_or_prefix_of_prefix hs ht with hst | hts
  · exact heq hst h
  · exact (heq hts h.symm).symm

end CaseTable.Text

namespace CaseTable.Shell

/-- Behind the text `before` stands a definition of the function, and `rest`
follows its opening brace. -/
structure IsSite (name source before head rest : Text) : Prop where
    source_eq : source = before ++ (head ++ rest)
    allowed : allowsDefinition before.getLast? = true
    isHead : IsHead name head

/-- The site behind the shortest text. -/
def IsFirstSite (name source before head rest : Text) : Prop :=
  IsSite name source before head rest ∧ ∀ before' head' rest',
    IsSite name source before' head' rest' → before.length ≤ before'.length

/-! ## The search finds the first site -/

theorem IsSite.exists_first {name source before head rest : Text}
    (h : IsSite name source before head rest) :
    ∃ before head rest, IsFirstSite name source before head rest := by
  induction hlen : before.length using Nat.strongRecOn generalizing before head rest with
  | _ n ih =>
      subst hlen
      by_cases hshorter : ∃ before' head' rest', IsSite name source before' head' rest' ∧
          before'.length < before.length
      · obtain ⟨before', head', rest', hsite, hlt⟩ := hshorter
        exact ih _ hlt hsite rfl
      · refine ⟨before, head, rest, h, fun before' head' rest' hsite => ?_⟩
        exact Nat.le_of_not_lt fun hlt => hshorter ⟨before', head', rest', hsite, hlt⟩

/-- The search passes a character at which there is no site. -/
theorem definition?_go_cons {name passed t : Text} {c : Char}
    (h : ∀ head rest, ¬ IsSite name (passed ++ c :: t) passed head rest) :
    definition?.go name passed.reverse (c :: t) =
      definition?.go name (passed ++ [c]).reverse t := by
  rw [List.reverse_concat]
  refine definition?_go_of_none fun hallowed => ?_
  rw [List.head?_reverse] at hallowed
  refine Option.eq_none_iff_forall_ne_some.mpr fun rest hrest => ?_
  obtain ⟨head, hhead, heq⟩ := afterHead?_eq_some_iff.mp hrest
  exact h head rest ⟨by rw [heq], hallowed, hhead⟩

theorem definition?_go_of_not_isSite {name t : Text} (passed : Text)
    (h : ∀ before head rest, ¬ IsSite name (passed ++ t) before head rest) :
    definition?.go name passed.reverse t = none := by
  induction t generalizing passed with
  | nil => rfl
  | cons c t ih =>
      rw [definition?_go_cons (h passed)]
      refine ih (passed ++ [c]) fun before head rest => ?_
      rw [List.append_assoc]
      exact h before head rest

theorem definition?_go_of_isFirstSite {name source before head rest : Text} (passed : Text)
    (h : IsFirstSite name source (passed ++ before) head rest) :
    definition?.go name passed.reverse (before ++ (head ++ rest)) =
      some ⟨(passed ++ before ++ head).reverse, rest⟩ := by
  induction before generalizing passed with
  | nil =>
      have hallowed : allowsDefinition passed.reverse.head? = true := by
        rw [List.head?_reverse, ← List.append_nil passed]
        exact h.1.allowed
      rw [List.nil_append, definition?_go_head h.1.isHead hallowed, List.append_nil,
        List.reverse_append]
  | cons c before ih =>
      have hnone : ∀ head' rest', ¬ IsSite name (passed ++ c :: (before ++ (head ++ rest)))
          passed head' rest' := by
        intro head' rest' hsite
        rw [← List.cons_append, ← List.append_assoc, ← h.1.source_eq] at hsite
        have hle := h.2 passed head' rest' hsite
        rw [List.length_append, List.length_cons] at hle
        omega
      have hsame : passed ++ c :: before = passed ++ [c] ++ before := by simp
      rw [hsame] at h ⊢
      rw [List.cons_append, definition?_go_cons hnone, ih (passed ++ [c]) h]

theorem definition?_of_isFirstSite {name source before head rest : Text}
    (h : IsFirstSite name source before head rest) :
    definition? name source = some ⟨(before ++ head).reverse, rest⟩ := by
  rw [h.1.source_eq]
  exact definition?_go_of_isFirstSite [] h

/-- The search finds nothing just where there is no site. -/
theorem definition?_eq_none_iff {name source : Text} :
    definition? name source = none ↔ ∀ before head rest, ¬ IsSite name source before head rest := by
  constructor
  · intro hnone before head rest hsite
    obtain ⟨_, _, _, hfirst⟩ := hsite.exists_first
    cases hnone.symm.trans (definition?_of_isFirstSite hfirst)
  · exact definition?_go_of_not_isSite []

/-- The search finds the first site. -/
theorem definition?_eq_some_iff {name source : Text} {p : Place} :
    definition? name source = some p ↔ ∃ before head rest,
      IsFirstSite name source before head rest ∧ p = ⟨(before ++ head).reverse, rest⟩ := by
  constructor
  · intro h
    by_cases hsite : ∃ before head rest, IsSite name source before head rest
    · obtain ⟨_, _, _, hsite⟩ := hsite
      obtain ⟨before, head, rest, hfirst⟩ := hsite.exists_first
      have hfound := h.symm.trans (definition?_of_isFirstSite hfirst)
      exact ⟨before, head, rest, hfirst, Option.some.inj hfound⟩
    · cases h.symm.trans (definition?_eq_none_iff.mpr fun before head rest hsite' =>
        hsite ⟨before, head, rest, hsite'⟩)
  · rintro ⟨before, head, rest, hfirst, rfl⟩
    exact definition?_of_isFirstSite hfirst

/-! ## The body -/

/-- A body that starts behind the text `before` and goes on to the brace that closes
it, or to the end of the script. -/
def IsRange (source before text : Text) : Prop :=
  before ++ text <+: source ∧ Text.byteSize (before ++ text) =
    (blockEndAt? source (Text.byteSize before)).getD (Text.byteSize source)

theorem isRange_functionBody? {name source : Text} {body : Body}
    (h : functionBody? name source = some body) :
    IsRange source body.start.behind.reverse body.text := by
  obtain ⟨hstart, hahead⟩ := functionBody?_eq_some_iff.mp h
  have hsource := (definition?_move hstart).1
  have hend : blockEndAt? source (Text.byteSize body.start.behind.reverse) =
      (body.start.blockEnd? 0).map Place.offset := by
    rw [blockEndAt?, hsource, Place.advanceBytes_start, List.reverse_reverse]
  refine ⟨⟨afterBody body.start, ?_⟩, ?_⟩
  · rw [hsource, hahead, List.append_assoc]
  · rw [hend]
    cases hblock : body.start.blockEnd? 0 with
    | none =>
        have hnil : afterBody body.start = [] := by rw [afterBody, hblock]; rfl
        rw [hnil, List.append_nil] at hahead
        rw [Option.map_none, Option.getD_none, hsource, hahead]
    | some e =>
        obtain ⟨s, hpassed⟩ := Place.exists_passes_blockEnd? hblock
        have hafter : afterBody body.start = e.ahead := by rw [afterBody, hblock]; rfl
        have hs : s = body.text := by
          rw [hafter] at hahead
          exact List.append_cancel_right (hpassed.1.symm.trans hahead)
        rw [Option.map_some, Option.getD_some, hpassed.offset_eq, hs, Place.offset,
          Text.byteSize_append, Text.byteSize_reverse]

theorem IsRange.unique {source before text text' : Text} (h : IsRange source before text)
    (h' : IsRange source before text') : text = text' :=
  List.append_cancel_left (Text.eq_of_isPrefix_of_byteSize h.1 h'.1 (h.2.trans h'.2.symm))

/-! ## What is no site -/

/-- The characters that cannot follow the name in the head of a definition. -/
def staysInWord (c : Char) : Bool := !isBlank c && c != '(' && c != '\x7b'

/-- The name stands in a longer word, as its end, its start or its middle. -/
def InLongerWord (before after : Text) : Prop :=
  allowsDefinition before.getLast? = false ∨ after.head?.any staysInWord = true

/-- The name stands as in a call: not before a pair of parentheses and a brace, and
not behind the word `function`. -/
def AsInCall (before after : Text) : Prop :=
  (∀ pair rest, IsPair pair → after ≠ pair ++ '\x7b' :: rest) ∧
    ∀ start gap, gap ≠ [] → IsBlanks gap → before ≠ start ++ ("function".toList ++ gap)

theorem head?_middle {middle : Text} (h : IsBlanks middle ∨ IsPair middle) (rest : Text) :
    (middle ++ '\x7b' :: rest).head?.all (!staysInWord ·) = true := by
  have hblanks {blanks : Text} (hblanks : IsBlanks blanks) {c : Char}
      (hc : staysInWord c = false) (t : Text) :
      (blanks ++ c :: t).head?.all (!staysInWord ·) = true := by
    cases blanks with
    | nil => simp [hc]
    | cons d blanks => simp [staysInWord, hblanks d List.mem_cons_self]
  rcases h with hmiddle | ⟨before, inside, after, hbefore, -, -, rfl⟩
  · exact hblanks hmiddle (by decide) rest
  · rw [List.append_assoc]
    exact hblanks hbefore (by decide) _

/-- The name stands at a site as a word of its own, and not as in a call. -/
theorem IsSite.exists_mention {name source before head rest : Text}
    (h : IsSite name source before head rest) : ∃ start after,
      source = start ++ (name ++ after) ∧ ¬ InLongerWord start after ∧
        ¬ AsInCall start after := by
  obtain ⟨hsource, hallowed, lead, middle, hframes, rfl⟩ := h
  refine ⟨before ++ lead, middle ++ '\x7b' :: rest, by simp [hsource], ?_, ?_⟩
  · have hmiddle : IsBlanks middle ∨ IsPair middle := by
      rcases hframes with ⟨-, hpair⟩ | ⟨-, -, -, -, hmiddle⟩
      · exact .inr hpair
      · exact hmiddle
    have hafter := head?_middle hmiddle rest
    rw [InLongerWord, not_or]
    constructor
    · rcases hframes with ⟨rfl, -⟩ | ⟨gap, hne, hgap, rfl, -⟩
      · simp [hallowed]
      · obtain ⟨c, hc⟩ := Option.ne_none_iff_exists'.mp
          (mt List.getLast?_eq_none_iff.mp hne)
        have hblank := hgap c (List.mem_of_getLast? hc)
        rw [List.getLast?_append, List.getLast?_append, hc, Option.some_or, Option.some_or]
        simp [allowsDefinition, hblank]
    · cases hcons : (middle ++ '\x7b' :: rest).head? with
      | none => simp
      | some c =>
          rw [hcons] at hafter
          simpa using hafter
  · rintro ⟨hnopair, hnokeyword⟩
    rcases hframes with ⟨-, hpair⟩ | ⟨gap, hne, hgap, rfl, -⟩
    · exact hnopair middle rest hpair rfl
    · exact hnokeyword before gap hne hgap rfl

theorem staysInWord_of_mem_identifier {name : Text}
    (hname : CommandLine.isIdentifier name = true) {c : Char} (hc : c ∈ name) :
    staysInWord c = true := by
  obtain ⟨hblank, hopen, -, hbrace, -⟩ := isBlank_of_mem_identifier hname hc
  simp [staysInWord, hblank, hopen, hbrace]

theorem Solid.head?_all {t : Text} (h : Solid t) : t.head?.all (!isBlank ·) = true := by
  obtain ⟨c, u, rfl, hc, -⟩ := h
  simp [hc]

/-- Before a pair of parentheses there is the name, and behind the word `function`. -/
theorem append_pair_ne_keyword {name other pair gap t t' : Text}
    (hname : CommandLine.isIdentifier name = true) (hother : Solid (other ++ t'))
    (hpair : IsPair pair) (hne : gap ≠ []) (hgap : IsBlanks gap) :
    name ++ (pair ++ '\x7b' :: t) ≠ "function".toList ++ (gap ++ (other ++ t')) := by
  intro heq
  have hafter : (gap ++ (other ++ t')).head?.all (!staysInWord ·) = true := by
    obtain ⟨c, gap, rfl⟩ := List.exists_cons_of_ne_nil hne
    simp [staysInWord, hgap c List.mem_cons_self]
  have hkeyword : "function".toList.all staysInWord = true := by decide
  obtain ⟨-, htail⟩ := Text.append_inj_of_forall
    (fun _ hc => staysInWord_of_mem_identifier hname hc) (List.all_eq_true.mp hkeyword)
    (head?_middle (.inr hpair) t) hafter heq
  obtain ⟨before, inside, after, hbefore, -, -, rfl⟩ := hpair
  rw [List.append_assoc, List.cons_append] at htail
  obtain ⟨-, hopen⟩ := Text.append_inj_of_forall hbefore hgap rfl
    hother.head?_all htail
  obtain ⟨c, u, hsolid, -, hc, -⟩ := hother
  exact hc (List.cons.inj (hopen.trans hsolid)).1.symm

/-- One place is not the site of two functions. -/
theorem IsSite.name_eq {name other source before head head' rest rest' : Text}
    (hname : CommandLine.isIdentifier name = true)
    (hother : CommandLine.isIdentifier other = true)
    (h : IsSite name source before head rest)
    (h' : IsSite other source before head' rest') : other = name := by
  obtain ⟨hsource, -, lead, middle, hframes, rfl⟩ := h
  obtain ⟨hsource', -, lead', middle', hframes', rfl⟩ := h'
  have heq := List.append_cancel_left (hsource.symm.trans hsource')
  simp only [List.append_assoc, List.singleton_append] at heq
  -- behind the same lead the names end where the word does
  have hnames (hmiddle : IsBlanks middle ∨ IsPair middle)
      (hmiddle' : IsBlanks middle' ∨ IsPair middle')
      (htail : name ++ (middle ++ '\x7b' :: rest) = other ++ (middle' ++ '\x7b' :: rest')) :
      other = name :=
    (Text.append_inj_of_forall (fun _ hc => staysInWord_of_mem_identifier hname hc)
      (fun _ hc => staysInWord_of_mem_identifier hother hc) (head?_middle hmiddle rest)
      (head?_middle hmiddle' rest') htail).1.symm
  rcases hframes with ⟨rfl, hpair⟩ | ⟨gap, hne, hgap, rfl, hmiddle⟩ <;>
    rcases hframes' with ⟨rfl, hpair'⟩ | ⟨gap', hne', hgap', rfl, hmiddle'⟩
  · exact hnames (.inr hpair) (.inr hpair') heq
  · rw [List.append_assoc] at heq
    exact absurd heq (append_pair_ne_keyword hname (solid_identifier hother _) hpair hne' hgap')
  · rw [List.append_assoc] at heq
    exact absurd heq.symm (append_pair_ne_keyword hother (solid_identifier hname _) hpair' hne hgap)
  · rw [List.append_assoc, List.append_assoc] at heq
    obtain ⟨-, htail⟩ := Text.append_inj_of_forall hgap hgap'
      (solid_identifier hname _).head?_all (solid_identifier hother _).head?_all
      (List.append_cancel_left heq)
    exact hnames hmiddle hmiddle' htail

end CaseTable.Shell

namespace CaseTable.Extraction

open CaseTable.Shell

theorem tableStart_eq_noFunction_iff {name source : Text} :
    tableStart name source = .error (.noFunction name) ↔ functionBody? name source = none := by
  unfold tableStart
  split
  · next hbody => simp [hbody]
  · next body hbody =>
      rw [hbody]
      split <;> simp

theorem listedWords_eq_noFunction_iff {name source : Text} :
    listedWords name source = .error (.noFunction name) ↔ functionBody? name source = none := by
  unfold listedWords
  split
  · next hbody => simp [hbody]
  · next body hbody =>
      rw [hbody]
      split <;> simp

/-- Without a site of its definition, and only then, the function is reported as not
found. Else its body starts behind the opening brace at the first site and goes on to
the brace that closes it, or to the end of the script. Longer names and calls make no
site, and the site of another function is none of this one. -/
theorem functionBody?_at_first_site (name source : Text) :
    ((functionBody? name source = none ↔
        ∀ before head rest, ¬ IsSite name source before head rest) ∧
      (tableStart name source = .error (.noFunction name) ↔ functionBody? name source = none) ∧
      (listedWords name source = .error (.noFunction name) ↔
        functionBody? name source = none)) ∧
    (∀ body, functionBody? name source = some body ↔ ∃ before head rest,
      IsFirstSite name source before head rest ∧
        body.start = ⟨(before ++ head).reverse, rest⟩ ∧
        IsRange source (before ++ head) body.text) ∧
    ((∀ start after, source = start ++ (name ++ after) →
        InLongerWord start after ∨ AsInCall start after) → functionBody? name source = none) ∧
    ∀ other before head head' rest rest', CommandLine.isIdentifier name = true →
      CommandLine.isIdentifier other = true → IsSite name source before head rest →
      IsSite other source before head' rest' → other = name := by
  have hnone : functionBody? name source = none ↔
      ∀ before head rest, ¬ IsSite name source before head rest := by
    rw [functionBody?, Option.map_eq_none_iff, definition?_eq_none_iff]
  refine ⟨⟨hnone, tableStart_eq_noFunction_iff, listedWords_eq_noFunction_iff⟩, ?_, ?_, ?_⟩
  · intro body
    constructor
    · intro h
      obtain ⟨before, head, rest, hfirst, hstart⟩ :=
        definition?_eq_some_iff.mp (functionBody?_eq_some_iff.mp h).1
      have hrange := isRange_functionBody? h
      rw [hstart, List.reverse_reverse] at hrange
      exact ⟨before, head, rest, hfirst, hstart, hrange⟩
    · rintro ⟨before, head, rest, hfirst, hstart, hrange⟩
      obtain ⟨text, hbody, -⟩ := exists_functionBody? (definition?_of_isFirstSite hfirst)
      have hrange' := isRange_functionBody? hbody
      rw [List.reverse_reverse] at hrange'
      obtain rfl : text = body.text := hrange'.unique hrange
      rw [hbody, ← hstart]
  · intro hmentions
    refine hnone.mpr fun before head rest hsite => ?_
    obtain ⟨start, after, hsource, hword, hcall⟩ := hsite.exists_mention
    exact (hmentions start after hsource).elim hword hcall
  · exact fun other before head head' rest rest' hname hother hsite hsite' =>
      hsite.name_eq hname hother hsite'

/-- The first three hold the name in a longer word or as a call. -/
example : (functionBody? ['f']
    "x-f() \x7b\x7d f \x7b\x7d function ff \x7b\x7d;f ( )\n\x7b :; \x7d".toList).map Body.text =
      some " :; ".toList := by
  decide +kernel

end CaseTable.Extraction
