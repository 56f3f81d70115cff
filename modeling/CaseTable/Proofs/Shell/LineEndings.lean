import CaseTable.Proofs.Shell.Blocks
import CaseTable.Proofs.Shell.EchoSearch
import CaseTable.Proofs.Text.LineEndings

/-!
# Reading across line ends of two characters

`Place.crlf` is the same place in the text with the new line ends, and the
readers commute with it.

One piece of the old text can be two of the new one: a line feed becomes two
characters, and a backslash before it hides only the first of them. Either way
a line feed is left over, and it is passed as a piece of its own
(`exists_take?_crlf`). No reader stops there.

The search for a closing brace and the search for an `echo` are the two that
look at nothing but pieces and keywords. The readers of arms follow in a module
of their own.
-/

namespace CaseTable.Shell.Piece

open CaseTable.Text

theorem splitSingle?_crlf (t : Text) :
    splitSingle? (crlf t) = (splitSingle? t).map (Prod.map crlf crlf) := by
  induction t with
  | nil => rfl
  | cons c t ih =>
      by_cases hc : c = '\n'
      · subst hc
        rw [crlf_newline, splitSingle?, if_neg (by decide), splitSingle?,
          if_neg (by decide), splitSingle?, if_neg (by decide), ih]
        cases splitSingle? t <;> rfl
      · rw [crlf_cons_of_ne hc, splitSingle?, splitSingle?, ih]
        split
        · rfl
        · cases splitSingle? t with
          | none => rfl
          | some split => simp [crlf_cons_of_ne hc]

theorem splitDouble?_plain {c : Char} (hquote : c ≠ '"') (hslash : c ≠ '\\') (t : Text) :
    splitDouble? (c :: t) =
      (splitDouble? t).map fun (content, rest) => (c :: content, rest) := by
  rw [splitDouble?]
  · exact hquote
  · exact fun _ _ heq _ => hslash heq

theorem splitDouble?_crlf (t : Text) :
    splitDouble? (crlf t) = (splitDouble? t).map (Prod.map crlf crlf) := by
  fun_induction splitDouble? t with
  | case1 => rfl
  | case2 t => rfl
  | case3 c t ih =>
      by_cases hc : c = '\n'
      · subst hc
        rw [crlf_cons_of_ne (by decide), crlf_newline, splitDouble?,
          splitDouble?_plain (by decide) (by decide), ih]
        cases splitDouble? t <;> rfl
      · rw [crlf_cons_of_ne (by decide), crlf_cons_of_ne hc, splitDouble?, ih]
        cases splitDouble? t with
        | none => rfl
        | some split => simp [crlf_cons_of_ne hc, crlf_cons_of_ne (show '\\' ≠ '\n' by decide)]
  | case4 c t hquote hescape ih =>
      by_cases hc : c = '\n'
      · subst hc
        rw [crlf_newline, splitDouble?_plain (by decide) (by decide),
          splitDouble?_plain (by decide) (by decide), ih]
        cases splitDouble? t <;> rfl
      · by_cases hslash : c = '\\'
        · subst hslash
          cases t with
          | nil => rfl
          | cons d t => exact absurd rfl (hescape d t rfl)
        · rw [crlf_cons_of_ne hc, splitDouble?_plain hquote hslash, ih]
          cases splitDouble? t with
          | none => rfl
          | some split => simp [crlf_cons_of_ne hc]

theorem splitLine_crlf (t : Text) :
    splitLine (crlf t) = (crlf (splitLine t).1, crlf (splitLine t).2) := by
  fun_induction splitLine t with
  | case1 => rfl
  | case2 t => rfl
  | case3 c t hc line rest hsplit ih =>
      have hc : c ≠ '\n' := hc
      rw [crlf_cons_of_ne hc, splitLine]
      · rw [ih, hsplit, crlf_cons_of_ne hc]
      · exact hc

/-- The first piece of the new text is the piece of the old one with the new
line ends, up to a line feed that is left over. The plain pieces that are no
blanks stay. -/
def FirstCrlf (comments : Bool) (t : Text) (piece : Piece) (rest : Text) : Prop :=
  ∃ piece' rest', first? comments (crlf t) = some (piece', rest') ∧
    (crlf piece.text = piece'.text ∧ rest' = crlf rest ∨
      crlf piece.text = piece'.text ++ ['\n'] ∧ rest' = '\n' :: crlf rest) ∧
    ∀ c, isBlank c = false → (piece' = .plain c ↔ piece = .plain c)

section

variable (comments : Bool)

/-- A hidden line feed is left over behind a hidden carriage return. -/
theorem firstCrlf_escape (c : Char) (t : Text) :
    FirstCrlf comments ('\\' :: c :: t) (.escape c) t := by
  by_cases hc : c = '\n'
  · subst hc
    exact ⟨.escape '\r', '\n' :: crlf t, rfl, .inr ⟨rfl, rfl⟩, by simp⟩
  · refine ⟨.escape c, crlf t, ?_, .inl ⟨?_, rfl⟩, by simp⟩
    · rw [crlf_cons_of_ne (by decide), crlf_cons_of_ne hc, first?]
    · exact (crlf_cons_of_ne (by decide) _).trans
        (congrArg ('\\' :: ·) (crlf_cons_of_ne hc []))

theorem firstCrlf_single {t content rest : Text} (h : splitSingle? t = some (content, rest)) :
    FirstCrlf comments ('\x27' :: t) (.single content) rest := by
  have hsplit := splitSingle?_crlf t
  rw [h] at hsplit
  refine ⟨.single (crlf content), crlf rest, ?_, .inl ⟨?_, rfl⟩, by simp⟩
  · simp [crlf_cons_of_ne, first?, hsplit]
  · simp [crlf_cons_of_ne, text]

theorem firstCrlf_unclosed_single {t : Text} (h : splitSingle? t = none) :
    FirstCrlf comments ('\x27' :: t) (.unclosed '\x27' t) [] := by
  have hsplit := splitSingle?_crlf t
  rw [h] at hsplit
  refine ⟨.unclosed '\x27' (crlf t), [], ?_, .inl ⟨?_, rfl⟩, by simp⟩
  · simp [crlf_cons_of_ne, first?, hsplit]
  · simp [crlf_cons_of_ne, text]

theorem firstCrlf_double {t content rest : Text} (h : splitDouble? t = some (content, rest)) :
    FirstCrlf comments ('"' :: t) (.double content) rest := by
  have hsplit := splitDouble?_crlf t
  rw [h] at hsplit
  refine ⟨.double (crlf content), crlf rest, ?_, .inl ⟨?_, rfl⟩, by simp⟩
  · simp [crlf_cons_of_ne, first?, hsplit]
  · simp [crlf_cons_of_ne, text]

theorem firstCrlf_unclosed_double {t : Text} (h : splitDouble? t = none) :
    FirstCrlf comments ('"' :: t) (.unclosed '"' t) [] := by
  have hsplit := splitDouble?_crlf t
  rw [h] at hsplit
  refine ⟨.unclosed '"' (crlf t), [], ?_, .inl ⟨?_, rfl⟩, by simp⟩
  · simp [crlf_cons_of_ne, first?, hsplit]
  · simp [crlf_cons_of_ne, text]

end

theorem firstCrlf_comment (t : Text) :
    FirstCrlf true ('#' :: t) (.comment (splitLine t).1) (splitLine t).2 := by
  refine ⟨.comment (crlf (splitLine t).1), _, ?_, .inl ⟨?_, rfl⟩, by simp⟩
  · simp [crlf_cons_of_ne, first?, splitLine_crlf]
  · simp [crlf_cons_of_ne, text]

/-- A line feed becomes two pieces. -/
theorem firstCrlf_plain {comments : Bool} {c : Char} (hslash : c ≠ '\\')
    (hsingle : c ≠ '\x27') (hdouble : c ≠ '"') (hcomment : ¬ (c = '#' && comments) = true)
    (t : Text) : FirstCrlf comments (c :: t) (.plain c) t := by
  by_cases hc : c = '\n'
  · subst hc
    refine ⟨.plain '\r', _, ?_, .inr ⟨rfl, rfl⟩, fun c hblank => ?_⟩
    · simp [first?]
    · constructor
      · rintro ⟨⟩
        cases hblank
      · rintro ⟨⟩
        cases hblank
  · refine ⟨.plain c, crlf t, ?_, .inl ⟨?_, rfl⟩, fun _ _ => Iff.rfl⟩
    · simp [crlf_cons_of_ne hc, first?, hslash, hsingle, hdouble, hcomment]
    · simp [crlf_cons_of_ne hc, text]

theorem firstCrlf_of_first? {comments : Bool} {t rest : Text} {piece : Piece}
    (h : first? comments t = some (piece, rest)) : FirstCrlf comments t piece rest := by
  unfold first? at h
  split at h
  · cases h
  · cases h
    exact ⟨.backslash, [], rfl, .inl ⟨rfl, rfl⟩, by simp⟩
  · cases h
    exact firstCrlf_escape comments _ _
  · next c t hlone hescape =>
      have hslash : c ≠ '\\' := ne_backslash hlone hescape
      split at h
      · next hsingle =>
          subst hsingle
          split at h
          · next hclosed =>
              cases h
              exact firstCrlf_single comments hclosed
          · next hopen =>
              cases h
              exact firstCrlf_unclosed_single comments hopen
      · next hsingle =>
          split at h
          · next hdouble =>
              subst hdouble
              split at h
              · next hclosed =>
                  cases h
                  exact firstCrlf_double comments hclosed
              · next hopen =>
                  cases h
                  exact firstCrlf_unclosed_double comments hopen
          · next hdouble =>
              split at h
              · next hcomment =>
                  cases h
                  rw [Bool.and_eq_true, decide_eq_true_eq] at hcomment
                  obtain ⟨rfl, rfl⟩ := hcomment
                  exact firstCrlf_comment t
              · next hcomment =>
                  cases h
                  exact firstCrlf_plain hslash hsingle hdouble hcomment _

end CaseTable.Shell.Piece

namespace CaseTable.Place

open CaseTable.Text CaseTable.Shell

/-- The same place in the text with the new line ends. -/
def crlf (p : Place) : Place := ⟨crlfBehind p.behind, Text.crlf p.ahead⟩

theorem head?_crlfBehind (b : Text) : (crlfBehind b).head? = b.head? := by
  cases b with
  | nil => rfl
  | cons c b =>
      by_cases hc : c = '\n'
      · rw [hc]
        rfl
      · rw [crlfBehind_cons_of_ne hc]
        rfl

theorem previous?_crlf (p : Place) : p.crlf.previous? = p.previous? := head?_crlfBehind _

theorem atWordStart_crlf (p : Place) : p.crlf.atWordStart = p.atWordStart := by
  rw [atWordStart, atWordStart, previous?_crlf]

theorem Passes.crlf {p q : Place} {s : Text} (h : p.Passes s q) :
    p.crlf.Passes (Text.crlf s) q.crlf := by
  refine ⟨?_, ?_⟩
  · rw [Place.crlf, h.1, crlf_append]
    rfl
  · rw [Place.crlf, h.2, crlfBehind_append, ← reverse_crlf]
    rfl

theorem upTo_crlf {p q : Place} {s : Text} (h : p.Passes s q) :
    p.crlf.upTo q.crlf = Text.crlf (p.upTo q) := by
  rw [h.crlf.upTo_eq, h.upTo_eq]

theorem line_crlf (p : Place) : p.crlf.line = p.line := by
  have hcount (b : Text) : (crlfBehind b).count '\n' = b.count '\n' := by
    induction b with
    | nil => rfl
    | cons c b ih =>
        by_cases hc : c = '\n'
        · subst hc
          rw [crlfBehind_cons, List.count_append, ih, List.count_cons_self]
          exact Nat.add_comm 1 _
        · rw [crlfBehind_cons_of_ne hc, List.count_cons_of_ne hc, List.count_cons_of_ne hc, ih]
  rw [line, line, crlf, hcount]

theorem advance_crlf {p : Place} {word rest : Text} (hword : OneLine word)
    (h : p.ahead = word ++ rest) :
    p.crlf.advance word.length = (p.advance word.length).crlf := by
  have hcrlf : p.crlf.ahead = word ++ Text.crlf rest := by
    rw [crlf, h, crlf_append, crlf_of_notMem hword.1]
  have hbehind : crlfBehind word.reverse = word.reverse := by
    rw [← reverse_crlf, crlf_of_notMem hword.1]
  rw [advance, advance, hcrlf, h, List.take_left, List.drop_left, List.take_left,
    List.drop_left]
  simp only [crlf, crlfBehind_append, hbehind]

/-- A place is reached over a line feed at most. -/
def OverNewline (p q : Place) : Prop :=
  p = q ∨ ∃ b t, p = ⟨b, '\n' :: t⟩ ∧ q = ⟨'\n' :: b, t⟩

theorem OverNewline.congr {α : Type} {read : Place → α}
    (h : ∀ b t, read ⟨b, '\n' :: t⟩ = read ⟨'\n' :: b, t⟩) {p q : Place}
    (hover : p.OverNewline q) : read p = read q := by
  rcases hover with rfl | ⟨b, t, rfl, rfl⟩
  · rfl
  · exact h b t

theorem exists_take?_crlf {comments : Bool} {p q : Place} {piece : Piece}
    (h : p.take? comments = some (piece, q)) :
    ∃ piece' r, p.crlf.take? comments = some (piece', r) ∧ r.OverNewline q.crlf ∧
      ∀ c, isBlank c = false → (piece' = .plain c ↔ piece = .plain c) := by
  obtain ⟨⟨piece, rest⟩, hfirst, heq⟩ := Option.map_eq_some_iff.mp h
  cases heq
  obtain ⟨piece', rest', hfirst', hrest, hplain⟩ := Piece.firstCrlf_of_first? hfirst
  have htake : p.crlf.take? comments =
      some (piece', ⟨piece'.text.reverse ++ crlfBehind p.behind, rest'⟩) :=
    congrArg (Option.map _) hfirst'
  refine ⟨piece', _, htake, ?_, hplain⟩
  rw [crlf, crlfBehind_append, ← reverse_crlf]
  rcases hrest with ⟨htext, rfl⟩ | ⟨htext, rfl⟩
  · exact .inl (by rw [htext])
  · exact .inr ⟨_, _, rfl, by rw [htext]; simp⟩

theorem take?_crlf_of_none {comments : Bool} {p : Place} (h : p.take? comments = none) :
    p.crlf.take? comments = none := by
  have hnil := Piece.eq_nil_of_first? (Option.map_eq_none_iff.mp h)
  rw [take?, crlf, hnil]
  rfl

theorem exists_piece?_crlf {p q : Place} {piece : Piece} (h : p.piece? = some (piece, q)) :
    ∃ piece' r, p.crlf.piece? = some (piece', r) ∧ r.OverNewline q.crlf ∧
      ∀ c, isBlank c = false → (piece' = .plain c ↔ piece = .plain c) := by
  rw [piece?, atWordStart_crlf]
  exact exists_take?_crlf h

theorem piece?_crlf_of_none {p : Place} (h : p.piece? = none) : p.crlf.piece? = none := by
  rw [piece?, atWordStart_crlf]
  exact take?_crlf_of_none h

/-- A line feed is a piece of its own. -/
theorem take?_newline (comments : Bool) (b t : Text) :
    (⟨b, '\n' :: t⟩ : Place).take? comments = some (.plain '\n', ⟨'\n' :: b, t⟩) :=
  take?_complete (show (Piece.plain '\n').Complete comments by simp [Piece.Complete]) b t

/-! ## Braces -/

theorem blockEnd?_newline (depth : Nat) (b t : Text) :
    (⟨b, '\n' :: t⟩ : Place).blockEnd? depth = (⟨'\n' :: b, t⟩ : Place).blockEnd? depth :=
  blockEnd?_of_piece? (take?_newline _ b t)

theorem blockEnd?_crlf (depth : Nat) (p : Place) :
    p.crlf.blockEnd? depth = (p.blockEnd? depth).map crlf := by
  have hopen : isBlank '\x7b' = false := by decide
  have hclose : isBlank '\x7d' = false := by decide
  fun_induction blockEnd? depth p with
  | case1 depth p hnone =>
      rw [blockEnd?_of_piece?_none (piece?_crlf_of_none hnone)]
      rfl
  | case2 depth p q hq ih =>
      obtain ⟨piece, r, hr, hover, hsame⟩ := exists_piece?_crlf hq
      rw [blockEnd?_of_piece? hr, if_pos ((hsame _ hopen).mpr rfl), ← ih]
      exact hover.congr (blockEnd?_newline _)
  | case3 p q hq =>
      obtain ⟨piece, r, hr, hover, hsame⟩ := exists_piece?_crlf hq
      rw [blockEnd?_of_piece? hr, (hsame _ hclose).mpr rfl]
      rfl
  | case4 depth p q hq hdepth ih =>
      obtain ⟨piece, r, hr, hover, hsame⟩ := exists_piece?_crlf hq
      rw [blockEnd?_of_piece? hr, (hsame _ hclose).mpr rfl, if_neg (by decide), if_pos rfl,
        if_neg hdepth, ← ih]
      exact hover.congr (blockEnd?_newline _)
  | case5 depth p piece q hnotOpen hnotClose hq ih =>
      obtain ⟨piece', r, hr, hover, hsame⟩ := exists_piece?_crlf hq
      rw [blockEnd?_of_piece? hr, if_neg fun heq => hnotOpen ((hsame _ hopen).mp heq),
        if_neg fun heq => hnotClose ((hsame _ hclose).mp heq), ← ih]
      exact hover.congr (blockEnd?_newline _)

/-! ## Keywords -/

theorem head?_all_crlf {p : Char → Bool} (h : p '\r' = p '\n') (t : Text) :
    (Text.crlf t).head?.all p = t.head?.all p := by
  cases t with
  | nil => rfl
  | cons c t =>
      by_cases hc : c = '\n'
      · rw [hc]
        exact h
      · rw [crlf_cons_of_ne hc]
        rfl

theorem keyword?_crlf {word : Text} (h : OneLine word) (p : Place) :
    p.crlf.keyword? word = (p.keyword? word).map crlf := by
  have hword : Text.afterStart? word p.crlf.ahead =
      (Text.afterStart? word p.ahead).map Text.crlf := afterStart?_crlf h p.ahead
  rw [keyword?, keyword?, atWordStart_crlf, hword]
  split
  · cases hstart : Text.afterStart? word p.ahead with
    | none => rfl
    | some rest =>
        have hplace := advance_crlf h (Text.afterStart?_eq_some_iff.mp hstart)
        have hedge : (Text.crlf rest).head?.all endsAfter = rest.head?.all endsAfter :=
          head?_all_crlf rfl rest
        simp only [Option.map_some, hedge, hplace]
        split <;> rfl
  · rfl

theorem oneLine_caseWord : OneLine caseWord := by decide

theorem oneLine_esacWord : OneLine esacWord := by decide

theorem oneLine_echoWord : OneLine echoWord := by decide

theorem keyword?_newline {c : Char} (hc : c ≠ '\n') (word b t : Text) :
    (⟨b, '\n' :: t⟩ : Place).keyword? (c :: word) = none := by
  refine keyword?_eq_none (not_standsAt_of_head ?_)
  simpa using Ne.symm hc

/-! ## Echoes -/

theorem findEcho?_newline (b t : Text) :
    (⟨b, '\n' :: t⟩ : Place).findEcho? = (⟨'\n' :: b, t⟩ : Place).findEcho? :=
  findEcho?_of_piece? (keyword?_newline (by decide) _ b t) (take?_newline _ b t)

theorem findEcho?_crlf (p : Place) : p.crlf.findEcho? = p.findEcho?.map crlf := by
  fun_induction findEcho? p with
  | case1 p q hq =>
      rw [findEcho?, keyword?_crlf oneLine_echoWord, hq]
      rfl
  | case2 p hword hnone =>
      rw [findEcho?, keyword?_crlf oneLine_echoWord, hword]
      simp only [Option.map_none]
      split
      · rfl
      · next hsome => cases (piece?_crlf_of_none hnone).symm.trans hsome
  | case3 p hword piece q hq ih =>
      obtain ⟨piece', r, hr, hover, -⟩ := exists_piece?_crlf hq
      have hword' : p.crlf.keyword? echoWord = none := by
        rw [keyword?_crlf oneLine_echoWord, hword]
        rfl
      rw [findEcho?_of_piece? hword' hr, ← ih]
      exact hover.congr findEcho?_newline

end CaseTable.Place
