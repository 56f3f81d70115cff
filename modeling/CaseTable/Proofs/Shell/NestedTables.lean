import CaseTable.Proofs.Shell.EchoSearch

/-!
# Nested tables

A table in the body of an arm is seen in two ways. The reader of arms counts
its keywords, so whatever stands between them is passed as one block: with
another inside, the body ends where it did (`readBody?_withInside`). The search
for an `echo` takes no notice of the keywords. It looks into the table, and an
`echo` that it finds there is the one that counts.

So two things have to be known for the arm to print the same with another
inside. Either it has printed before the table (`EchoBefore`), or it prints
behind the old table and the new one (`EchoBehind`).
-/

namespace CaseTable.Shell

/-! ## Commands -/

/-- An `echo` that is found in the passed text, with all of `after` behind it;
or else it is looked for from there. -/
def Searched (behind passed after : Text) : Prop :=
  (∃ p, (⟨behind, passed ++ after⟩ : Place).findEcho? = some p ∧ after <:+ p.ahead) ∨
    (⟨behind, passed ++ after⟩ : Place).findEcho? =
      (⟨passed.reverse ++ behind, after⟩ : Place).findEcho?

theorem Searched.append {behind first second after : Text}
    (hfirst : Searched behind first (second ++ after))
    (hsecond : Searched (first.reverse ++ behind) second after) :
    Searched behind (first ++ second) after := by
  rw [Searched, List.append_assoc, List.reverse_append, List.append_assoc]
  rcases hfirst with ⟨p, hecho, hbehind⟩ | hpassed
  · exact .inl ⟨p, hecho, (List.suffix_append second after).trans hbehind⟩
  · rw [hpassed]
    exact hsecond

/-- An `echo` does not reach past a word that ends. -/
theorem searched_of_standsAt {behind passed after : Text}
    (h : StandsAt echoWord behind (passed ++ after)) (hne : passed ≠ [])
    (hend : (passed.reverse ++ behind).head?.all endsBefore = true) :
    Searched behind passed after := by
  obtain ⟨rest, rfl⟩ := echoWord_prefix_of_standsAt h hne hend
  rw [List.append_assoc] at h
  have hfound := Place.findEcho?_echo h
  rw [← List.append_assoc] at hfound
  exact .inl ⟨_, hfound, List.suffix_append rest after⟩

theorem findEcho?_plain {c : Char} {behind t : Text} (hc : c ∉ ['\\', '\x27', '"', '#'])
    (hecho : ¬ StandsAt echoWord behind (c :: t)) :
    (⟨behind, c :: t⟩ : Place).findEcho? = (⟨c :: behind, t⟩ : Place).findEcho? := by
  have hcomplete : (Piece.plain c).Complete (behind.head?.all endsBefore) := by
    simp only [List.mem_cons, List.not_mem_nil, or_false, not_or] at hc
    exact ⟨hc.1, hc.2.1, hc.2.2.1, fun hhash => absurd hhash hc.2.2.2⟩
  exact Place.findEcho?_piece hcomplete hecho

/-- The keyword of a table is passed. -/
theorem searched_caseWord (behind after : Text) : Searched behind caseWord after := by
  have hinside : ¬ StandsAt echoWord ('s' :: 'a' :: 'c' :: behind) ('e' :: after) :=
    fun hstands => Bool.false_ne_true hstands.1
  refine .inr ?_
  change (⟨behind, 'c' :: 'a' :: 's' :: 'e' :: after⟩ : Place).findEcho? = _
  rw [findEcho?_plain (by decide) (not_standsAt_of_head (by simp)),
    findEcho?_plain (by decide) (not_standsAt_of_head (by simp)),
    findEcho?_plain (by decide) (not_standsAt_of_head (by simp)),
    findEcho?_plain (by decide) hinside]
  rfl

theorem searched_esacWord (behind after : Text) : Searched behind esacWord after := by
  have hother : ¬ StandsAt echoWord behind ('e' :: 's' :: 'a' :: 'c' :: after) := by
    rintro ⟨-, ⟨rest, hword⟩, -⟩
    exact absurd (List.cons.inj (List.cons.inj hword).2).1 (by decide)
  refine .inr ?_
  change (⟨behind, 'e' :: 's' :: 'a' :: 'c' :: after⟩ : Place).findEcho? = _
  rw [findEcho?_plain (by decide) hother,
    findEcho?_plain (by decide) (not_standsAt_of_head (by simp)),
    findEcho?_plain (by decide) (not_standsAt_of_head (by simp)),
    findEcho?_plain (by decide) (not_standsAt_of_head (by simp))]
  rfl

theorem searched_commands {commands : Commands} {nested : Bool} {behind after : Text}
    (h : commands.Fits nested behind after)
    (hend : (commands.text.reverse ++ behind).head?.all endsBefore = true) :
    Searched behind commands.text after := by
  induction commands generalizing nested behind after with
  | nil => exact .inr rfl
  | piece first rest ih =>
      obtain ⟨hcomplete, -, hrest⟩ := h
      by_cases hstands : StandsAt echoWord behind (first.text ++ (rest.text ++ after))
      · refine searched_of_standsAt ?_ ?_ hend
        · rwa [Commands.text, List.append_assoc]
        · exact mt List.append_eq_nil_iff.mp fun hnil => first.text_ne_nil hnil.1
      · rw [Commands.text, List.reverse_append, List.append_assoc] at hend
        exact Searched.append (.inr (Place.findEcho?_piece hcomplete hstands)) (ih hrest hend)
  | table inside rest ihInside ihRest =>
      obtain ⟨-, hinside, hclose, hrest⟩ := h
      simp only [Commands.text, List.reverse_append, List.append_assoc] at hend
      refine (searched_caseWord behind _).append (Searched.append ?_ ?_)
      · rw [List.append_assoc]
        exact ihInside hinside hclose.1
      · exact (searched_esacWord _ _).append (ihRest hrest hend)

/-! ## Where commands fit -/

theorem Quiet.congr {nested : Bool} {b b' a a' : Text} (h : Quiet nested b a)
    (hb : b'.head?.all endsBefore = b.head?.all endsBefore) (ha : Alike a' a) :
    Quiet nested b' a' := by
  obtain ⟨hcase, hesac, hends⟩ := h
  refine ⟨mt (standsAt_congr rfl hb ha).mp hcase, mt (standsAt_congr rfl hb ha).mp hesac,
    fun hnested hterminates => hends hnested ?_⟩
  rw [← Place.terminator_ne_nil_iff] at hterminates ⊢
  rwa [← Place.terminator_congr ha]

/-- Whether commands fit depends on the text before them and after them as
far as a reader can see it. -/
theorem Commands.Fits.congr {commands : Commands} {nested : Bool} {b b' a a' : Text}
    (h : commands.Fits nested b a) (hb : b'.head?.all endsBefore = b.head?.all endsBefore)
    (ha : Alike a' a) : commands.Fits nested b' a' := by
  induction commands generalizing nested b b' a a' with
  | nil => trivial
  | piece first rest ih =>
      obtain ⟨hcomplete, hquiet, hrest⟩ := h
      rw [← hb] at hcomplete
      exact ⟨hcomplete, hquiet.congr hb ((ha.append rest.text).append first.text),
        ih hrest (head?_append_congr hb first.text) ha⟩
  | table inside rest ihInside ihRest =>
      obtain ⟨hopen, hinside, hclose, hrest⟩ := h
      have hclosed := (ha.append rest.text).append esacWord
      have hopened := head?_append_congr hb caseWord
      have hpassed := head?_append_congr hopened inside.text
      exact ⟨(standsAt_congr rfl hb ((hclosed.append inside.text).append caseWord)).mpr hopen,
        ihInside hinside hopened hclosed, (standsAt_congr rfl hpassed hclosed).mpr hclose,
        ihRest hrest (head?_append_congr hpassed esacWord) ha⟩

namespace Commands

/-- A table and nothing else. -/
def block (inside : Commands) : Commands := .table inside .nil

theorem text_block (inside : Commands) :
    (block inside).text = caseWord ++ (inside.text ++ esacWord) := by
  simp [block, text]

/-- Before and after the inside of a table its keywords are delimited. -/
theorem fits_block_iff {inside : Commands} {nested : Bool} {behind after : Text} :
    (block inside).Fits nested behind after ↔
      behind.head?.all endsBefore = true ∧
        (inside.text ++ (esacWord ++ after)).head?.all endsAfter = true ∧
        inside.Fits true (caseWord.reverse ++ behind) (esacWord ++ after) ∧
        (inside.text.reverse ++ (caseWord.reverse ++ behind)).head?.all endsBefore = true ∧
        after.head?.all endsAfter = true := by
  simp [block, Fits, text, standsAt_append_iff, and_assoc]

/-- A reader in front of a table does not see what is inside. -/
theorem alike_block {inside inside' : Commands} {nested nested' : Bool}
    {behind behind' after after' : Text} (h : (block inside).Fits nested behind after)
    (h' : (block inside').Fits nested' behind' after') :
    Alike ((block inside').text ++ after') ((block inside).text ++ after) := by
  have hdelimited := (fits_block_iff.mp h).2.1
  have hdelimited' := (fits_block_iff.mp h').2.1
  simp only [text_block, List.append_assoc]
  exact Alike.of_head (Nat.le_refl 4) (hdelimited'.trans hdelimited.symm)

theorem head?_reverse_block (inside : Commands) (behind : Text) :
    ((block inside).text.reverse ++ behind).head? = some 'c' := by
  simp [text_block, esacWord]

end Commands

/-- What stands in a body before one of its nested tables: commands and, if
that table stands in another one, its keyword and what stands in there before
the table. -/
inductive Lead
    | commands (before : Commands)
    | inside (before : Commands) (lead : Lead)

namespace Lead

def text : Lead → Text
  | commands before => before.text
  | inside before lead => before.text ++ (caseWord ++ lead.text)

/-- How many tables are open. -/
def depth : Lead → Nat
  | commands _ => 0
  | inside _ lead => lead.depth + 1

def Fits (nested : Bool) : Lead → Text → Text → Prop
  | commands before, behind, after => before.Fits nested behind after
  | inside before lead, behind, after =>
      let opened := caseWord ++ (lead.text ++ after)
      let passed := before.text.reverse ++ behind
      before.Fits nested behind opened ∧ StandsAt caseWord passed opened ∧
        lead.Fits true (caseWord.reverse ++ passed) after

instance decidableFits (nested : Bool) : (lead : Lead) → (behind after : Text) →
    Decidable (lead.Fits nested behind after)
  | commands _, _, _ => inferInstanceAs (Decidable (Commands.Fits _ _ _ _))
  | inside _ lead, _, after =>
      have := fun behind => decidableFits true lead behind after
      inferInstanceAs (Decidable (_ ∧ _ ∧ _))

theorem Fits.congr {lead : Lead} {nested : Bool} {b b' a a' : Text} (h : lead.Fits nested b a)
    (hb : b'.head?.all endsBefore = b.head?.all endsBefore) (ha : Alike a' a) :
    lead.Fits nested b' a' := by
  induction lead generalizing nested b b' with
  | commands before => exact Commands.Fits.congr h hb ha
  | inside before lead ih =>
      obtain ⟨hbefore, hopen, hlead⟩ := h
      have hopened := (ha.append lead.text).append caseWord
      have hpassed := head?_append_congr hb before.text
      exact ⟨hbefore.congr hb hopened, (standsAt_congr rfl hpassed hopened).mpr hopen,
        ih hlead (head?_append_congr hpassed caseWord)⟩

/-- On the way to the nested table the tables around it are opened. -/
theorem bodyEnd?_eq {lead : Lead} {nested : Bool} {depth : Nat} {behind after : Text}
    (h : lead.Fits nested behind after) (hdepth : depth = 0 → nested = false) :
    (⟨behind, lead.text ++ after⟩ : Place).bodyEnd? depth =
      (⟨lead.text.reverse ++ behind, after⟩ : Place).bodyEnd? (depth + lead.depth) := by
  induction lead generalizing nested depth behind with
  | commands before => exact Place.bodyEnd?_commands h hdepth
  | inside before lead ih =>
      obtain ⟨hbefore, hopen, hlead⟩ := h
      have hdeeper : depth + 1 = 0 → true = false := fun h => by omega
      simp only [text, Lead.depth, List.append_assoc, List.reverse_append]
      rw [Place.bodyEnd?_commands hbefore hdepth, Place.bodyEnd?_case hopen, ih hlead hdeeper,
        Nat.add_assoc, Nat.add_comm 1]

theorem Fits.searched {lead : Lead} {nested : Bool} {behind after : Text}
    (h : lead.Fits nested behind after)
    (hend : (lead.text.reverse ++ behind).head?.all endsBefore = true) :
    Searched behind lead.text after := by
  induction lead generalizing nested behind with
  | commands before => exact searched_commands h hend
  | inside before lead ih =>
      obtain ⟨hbefore, hopen, hlead⟩ := h
      simp only [text, List.append_assoc, List.reverse_append] at hend
      refine Searched.append ?_ ((searched_caseWord _ _).append (ih hlead hend))
      rw [List.append_assoc]
      exact searched_commands hbefore hopen.1

end Lead

/-- A nested table in the body that starts at a place. -/
structure NestedTable (body : Place) where
    lead : Lead
    inside : Commands
    rest : Text
    ahead_eq : body.ahead = lead.text ++ ((Commands.block inside).text ++ rest)
    lead_fits : lead.Fits false body.behind ((Commands.block inside).text ++ rest)
    block_fits : (Commands.block inside).Fits false (lead.text.reverse ++ body.behind) rest

namespace NestedTable

variable {body : Place} (nested : NestedTable body)

/-- Another inside fits where the inside of the table stands. -/
def Admits (inside : Commands) : Prop :=
  (Commands.block inside).Fits false (nested.lead.text.reverse ++ body.behind) nested.rest

instance (inside : Commands) : Decidable (nested.Admits inside) :=
  inferInstanceAs (Decidable (Commands.Fits _ _ _ _))

/-- The text from the start of the body on, with another inside. -/
def withInside (inside : Commands) : Text :=
  nested.lead.text ++ ((Commands.block inside).text ++ nested.rest)

/-- The text of the body with another inside, if `tail` is what follows the
table in it. -/
def bodyWith (inside : Commands) (tail : Text) : Text :=
  nested.lead.text ++ ((Commands.block inside).text ++ tail)

theorem admits_inside : nested.Admits nested.inside := nested.block_fits

theorem withInside_inside : nested.withInside nested.inside = body.ahead := nested.ahead_eq.symm

section

variable {nested} {inside : Commands} (h : nested.Admits inside)
include h

theorem lead_fits_of_admits :
    nested.lead.Fits false body.behind ((Commands.block inside).text ++ nested.rest) :=
  nested.lead_fits.congr rfl (Commands.alike_block nested.block_fits h)

theorem alike_withInside : Alike (nested.withInside inside) body.ahead := by
  rw [nested.ahead_eq]
  exact (Commands.alike_block nested.block_fits h).append nested.lead.text

theorem bodyEnd?_withInside :
    (⟨body.behind, nested.withInside inside⟩ : Place).bodyEnd? 0 =
      (⟨(Commands.block inside).text.reverse ++ (nested.lead.text.reverse ++ body.behind),
        nested.rest⟩ : Place).bodyEnd? nested.lead.depth := by
  rw [withInside, Lead.bodyEnd?_eq (lead_fits_of_admits h) fun _ => rfl, Nat.zero_add,
    Place.bodyEnd?_commands h fun _ => rfl]

end

/-- The body is read to the same end whatever the inside of the table is. -/
theorem readBody?_withInside {text : Text} {q : Place} (h : readBody? body = some (text, q)) :
    ∃ tail, text = nested.bodyWith nested.inside tail ∧ tail <+: nested.rest ∧
      ∀ inside, nested.Admits inside → ∃ behind, behind.head? = q.behind.head? ∧
        readBody? ⟨body.behind, nested.withInside inside⟩ =
          some (nested.bodyWith inside tail, ⟨behind, q.ahead⟩) := by
  obtain ⟨e, he, heq⟩ := Option.map_eq_some_iff.mp h
  obtain ⟨rfl, rfl⟩ := Prod.mk.inj heq
  have hwalk := bodyEnd?_withInside nested.admits_inside
  rw [withInside_inside, he] at hwalk
  obtain ⟨tail, htail, hmove⟩ := Place.bodyEnd?_move hwalk.symm
  have hrest : nested.rest = tail ++ e.ahead := htail.1
  -- the table ends in the same character
  have hlast (inside : Commands) : (tail.reverse ++ ((Commands.block inside).text.reverse ++
      (nested.lead.text.reverse ++ body.behind))).head? = e.behind.head? := by
    rw [htail.2]
    refine head?_append_right_congr ?_ tail.reverse
    rw [Commands.head?_reverse_block, Commands.head?_reverse_block]
  refine ⟨tail, ?_, hrest ▸ List.prefix_append tail e.ahead, fun inside hinside => ?_⟩
  · have hpassed : body.Passes (nested.bodyWith nested.inside tail) e :=
      ⟨by simp [nested.ahead_eq, bodyWith, hrest], by simp [htail.2, bodyWith]⟩
    exact hpassed.upTo_eq
  · have hend : (⟨body.behind, nested.withInside inside⟩ : Place).bodyEnd? 0 =
        some ⟨tail.reverse ++ ((Commands.block inside).text.reverse ++
          (nested.lead.text.reverse ++ body.behind)), e.ahead⟩ := by
      rw [bodyEnd?_withInside hinside, hrest]
      refine hmove _ _ ?_ (Alike.refl _)
      rw [Commands.head?_reverse_block, Commands.head?_reverse_block]
    have hpassed : (⟨body.behind, nested.withInside inside⟩ : Place).Passes
        (nested.bodyWith inside tail) ⟨tail.reverse ++ ((Commands.block inside).text.reverse ++
          (nested.lead.text.reverse ++ body.behind)), e.ahead⟩ :=
      ⟨by simp [withInside, bodyWith, hrest], by simp [bodyWith]⟩
    refine ⟨_, head?_append_right_congr (hlast inside)
      (e.ahead.take (Place.terminator e.ahead).length).reverse, ?_⟩
    rw [readBody?, hend, Option.map_some, hpassed.upTo_eq]
    rfl

end NestedTable

/-! ## What the arm prints -/

/-- If a body has an `echo`, the first one stands in its end `tail`. -/
def EchoBehind (body tail : Text) : Prop :=
  ∀ p, (Place.start body).findEcho? = some p → p.ahead <:+ tail

namespace NestedTable

variable {body : Place} (nested : NestedTable body)

section

variable {nested} {inside : Commands} {tail : Text} (h : nested.Admits inside)
  (htail : tail <+: nested.rest) (hstart : body.behind.head?.all endsBefore = true)
include h htail

theorem delimited_tail : tail.head?.all endsAfter = true := by
  obtain ⟨after, hrest⟩ := htail
  have hdelimited := (Commands.fits_block_iff.mp h).2.2.2.2
  cases tail with
  | nil => rfl
  | cons c tail =>
      rw [← hrest] at hdelimited
      exact hdelimited

include hstart

/-- The body can be taken out of the script. -/
theorem fits_bodyWith :
    nested.lead.Fits false [] ((Commands.block inside).text ++ tail) ∧
      (Commands.block inside).Fits false (nested.lead.text.reverse ++ []) tail := by
  obtain ⟨hbefore, hopen, hinside, hclose, hafter⟩ := Commands.fits_block_iff.mp h
  have hfront : ([] : Text).head?.all endsBefore = body.behind.head?.all endsBefore := hstart.symm
  have hdelimited := delimited_tail h htail
  have hblock : (Commands.block inside).Fits false (nested.lead.text.reverse ++ []) tail := by
    refine Commands.fits_block_iff.mpr ⟨?_, ?_, ?_, ?_, hdelimited⟩
    · rw [head?_append_congr hfront, hbefore]
    · rw [← hopen]
      exact congrArg _ (head?_append_right_congr (by rfl) inside.text)
    · exact hinside.congr rfl (Alike.of_head (Nat.le_refl 4) (hdelimited.trans hafter.symm))
    · rw [← hclose]
      exact congrArg _ (head?_append_right_congr (by rfl) inside.text.reverse)
  exact ⟨(lead_fits_of_admits h).congr hfront (Commands.alike_block h hblock), hblock⟩

/-- Where the first `echo` stands behind the table, the table is passed by the
search. -/
theorem exists_printed?_of_echoBehind (hecho : EchoBehind (nested.bodyWith inside tail) tail) :
    ∃ b, b.head?.all endsBefore = true ∧
      echoed? (nested.bodyWith inside tail) = printed? ⟨b, esacWord ++ tail⟩ := by
  obtain ⟨hlead, hblock⟩ := fits_bodyWith h htail hstart
  obtain ⟨hbefore, -, hinside, hclose, -⟩ := Commands.fits_block_iff.mp hblock
  rw [Commands.text_block, List.append_assoc, List.append_assoc, ← List.append_assoc caseWord]
    at hlead
  have hsearched := (hlead.searched hbefore).append
    ((searched_caseWord _ _).append (searched_commands hinside hclose))
  have htext : nested.bodyWith inside tail =
      nested.lead.text ++ (caseWord ++ inside.text) ++ (esacWord ++ tail) := by
    simp [bodyWith, Commands.text_block]
  rw [htext] at hecho ⊢
  rcases hsearched with ⟨p, hfound, hbehind⟩ | hpassed
  · have hlength := (hbehind.trans (hecho p hfound)).length_le
    simp only [List.length_append, esacWord, List.length_cons] at hlength
    omega
  · refine ⟨(nested.lead.text ++ (caseWord ++ inside.text)).reverse ++ [], ?_, ?_⟩
    · simpa using hclose
    · rw [echoed?, Place.start, hpassed]
      rfl

end

/-- With another inside the arm prints the same if it has printed before the
table, or if it prints behind it with the one and with the other. -/
theorem echoed?_bodyWith {inside : Commands} {tail : Text} (h : nested.Admits inside)
    (htail : tail <+: nested.rest) (hstart : body.behind.head?.all endsBefore = true)
    (hecho : EchoBefore (nested.bodyWith nested.inside tail)
        ((Commands.block nested.inside).text ++ tail) ∨
      EchoBehind (nested.bodyWith nested.inside tail) tail ∧
        EchoBehind (nested.bodyWith inside tail) tail) :
    echoed? (nested.bodyWith inside tail) = echoed? (nested.bodyWith nested.inside tail) := by
  rcases hecho with hbefore | ⟨hold, hnew⟩
  · exact echoed?_of_echoBefore hbefore
  · obtain ⟨b, hb, hprinted⟩ := exists_printed?_of_echoBehind nested.admits_inside htail hstart hold
    obtain ⟨b', hb', hprinted'⟩ := exists_printed?_of_echoBehind h htail hstart hnew
    rw [hprinted, hprinted', printed?_congr (hb'.trans hb.symm)]

end NestedTable

/-! ## The arm -/

/-- The arms before an arm are read one by one, then its pattern. Its body
starts here. -/
inductive ReachesBody : Place → List Arm → List Text → Place → Prop
    | pattern {p body : Place} {pattern : Text} (hesac : p.skipGap.keyword? esacWord = none)
        (hpattern : readPattern? p.skipGap = some (pattern, body)) :
        ReachesBody p [] (labels pattern) body
    | arm {p q body : Place} {first : Arm} {before : List Arm} {names : List Text}
        (hesac : p.skipGap.keyword? esacWord = none)
        (harm : Arm.read? p.skipGap = some (first, q)) (hrest : ReachesBody q before names body) :
        ReachesBody p (first :: before) names body

/-- Every arm that is read has its body somewhere. -/
theorem exists_reachesBody {p stop : Place} {before after : List Arm} {arm : Arm}
    (h : readArms? p = some (before ++ arm :: after, stop)) :
    ∃ body q, ReachesBody p before arm.labels body ∧ readBody? body = some (arm.body, q) ∧
      readArms? q = some (after, stop) := by
  generalize harms : before ++ arm :: after = arms at h
  fun_induction readArms? p generalizing before arms stop with
  | case1 p q hq =>
      cases h
      simp at harms
  | case2 => cases h
  | case3 p hesac first q hq ih =>
      obtain ⟨⟨rest, stop'⟩, hrest, heq⟩ := Option.map_eq_some_iff.mp h
      obtain ⟨rfl, rfl⟩ := Prod.mk.inj heq
      cases before with
      | nil =>
          obtain ⟨rfl, rfl⟩ := List.cons.inj harms
          obtain ⟨pattern, body, hpattern, hlabels, hbody⟩ := Arm.read?_eq_some_iff.mp hq
          exact ⟨body, q, hlabels ▸ .pattern hesac hpattern, hbody, hrest⟩
      | cons first' before =>
          obtain ⟨rfl, hlater⟩ := List.cons.inj harms
          obtain ⟨body, r, hreach, hbody, hafter⟩ := ih rest hlater hrest
          exact ⟨body, r, .arm hesac hq hreach, hbody, hafter⟩

/-- Before the first body there is its pattern only. -/
theorem ReachesBody.exists_readPattern? {p body : Place} {names : List Text}
    (h : ReachesBody p [] names body) :
    ∃ pattern, readPattern? p.skipGap = some (pattern, body) := by
  cases h with
  | pattern hesac hpattern => exact ⟨_, hpattern⟩

theorem head?_behind_of_readPattern? {p q : Place} {pattern : Text}
    (h : readPattern? p = some (pattern, q)) : q.behind.head? = some ')' := by
  obtain ⟨e, he, heq⟩ := Option.map_eq_some_iff.mp h
  obtain ⟨-, rfl⟩ := Prod.mk.inj heq
  obtain ⟨-, -, -, rest, hnext⟩ := Place.exists_pieces_patternEnd? he
  rw [Place.advance, hnext]
  rfl

/-- A body stands behind a parenthesis. -/
theorem ReachesBody.head?_behind {p body : Place} {before : List Arm} {names : List Text}
    (h : ReachesBody p before names body) : body.behind.head? = some ')' := by
  induction h with
  | pattern hesac hpattern => exact head?_behind_of_readPattern? hpattern
  | arm hesac harm hrest ih => exact ih

/-- The body may become another one that looks the same to the reader before
it. -/
theorem ReachesBody.readArms?_move {p body : Place} {before : List Arm} {names : List Text}
    (h : ReachesBody p before names body) :
    ∃ s, p.Passes s body ∧ s ≠ [] ∧ ∀ t text q, Alike t body.ahead →
      readBody? ⟨body.behind, t⟩ = some (text, q) →
      readArms? ⟨p.behind, s ++ t⟩ =
        (readArms? q).map fun (after, stop) => (before ++ ⟨names, text⟩ :: after, stop) := by
  induction h with
  | @pattern p body pattern hesac hpattern =>
      obtain ⟨s, hs, hmove⟩ := readPattern?_move hpattern
      have hne : s ≠ [] := by
        rintro rfl
        have hlength := length_lt_of_readPattern? hpattern
        rw [hs.1] at hlength
        exact absurd hlength (Nat.lt_irrefl _)
      obtain ⟨gap, hpassed, hgapMove⟩ := skipGap_move hesac hs hne
      refine ⟨gap ++ s, hpassed, List.append_ne_nil_of_right_ne_nil gap hne, ?_⟩
      intro t text q ht hbody
      obtain ⟨hgap, hnone, -⟩ := hgapMove p.behind t rfl ht
      have hmoved := hmove (gap.reverse ++ p.behind) t
      rw [← List.append_assoc, ← List.reverse_append, ← hpassed.2] at hmoved
      have harm : Arm.read? ⟨gap.reverse ++ p.behind, s ++ t⟩ = some (⟨labels pattern, text⟩, q) :=
        Arm.read?_eq_some_iff.mpr ⟨pattern, _, hmoved, rfl, hbody⟩
      rw [List.append_assoc, readArms?_of_read? hgap hnone harm]
      rfl
  | arm hesac harm hrest ih =>
      obtain ⟨u, hu, hne, hmove⟩ := ih
      obtain ⟨s, hs, harmMove⟩ := readArms?_arm_move hesac harm
      refine ⟨s ++ u, hs.trans hu, List.append_ne_nil_of_right_ne_nil s hne, ?_⟩
      intro t text q ht hbody
      have halike := ht.append u
      rw [← hu.1] at halike
      rw [List.append_assoc, harmMove _ _ rfl halike, ← hs.2, hmove t text q ht hbody,
        Option.map_map]
      rfl

end CaseTable.Shell
