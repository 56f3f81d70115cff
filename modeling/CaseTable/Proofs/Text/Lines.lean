import CaseTable.Text

/-!
# Lines written and read back

A text that is written line by line, a line feed between each two lines, is
read back as the same lines, with one exception: a carriage return at the
end of a line counts as part of the line end and is lost. `dropReturn` is
that exception, and `lines_join` the whole statement. The last line is empty
in everything this library writes, so it leaves no line of its own.

No line that is read holds a line feed (`newline_notMem_of_mem_lines`). That
is the other half: whatever a text holds, a value with a line feed in it
never comes back.
-/

namespace CaseTable.Text

/-- A line as it is read back: one carriage return at its end is lost. -/
def dropReturn (line : Text) : Text :=
  if line.getLast? = some '\r' then line.dropLast else line

theorem dropReturn_of_getLast? {line : Text} (h : line.getLast? ≠ some '\r') :
    dropReturn line = line :=
  if_neg h

@[simp] theorem dropReturn_nil : dropReturn [] = [] := rfl

theorem dropReturn_cons {c : Char} {t : Text} (h : t ≠ []) :
    dropReturn (c :: t) = c :: dropReturn t := by
  obtain ⟨d, u, rfl⟩ := List.exists_cons_of_ne_nil h
  simp only [dropReturn, List.getLast?_cons_cons, List.dropLast_cons_cons]
  split
  · rfl
  · rfl

/-- Only the end of a line is at stake: what it starts with stays. -/
theorem dropReturn_append {start rest : Text} (h : start.getLast? ≠ some '\r') :
    dropReturn (start ++ rest) = start ++ dropReturn rest := by
  by_cases hrest : rest = []
  · subst hrest
    rw [List.append_nil, dropReturn_nil, List.append_nil,
      dropReturn_of_getLast? h]
  · clear h
    induction start with
    | nil => rfl
    | cons c start ih =>
        rw [List.cons_append, dropReturn_cons (by simp [hrest]), ih]
        rfl

theorem dropReturn_eq_self_iff {line : Text} :
    dropReturn line = line ↔ line.getLast? ≠ some '\r' := by
  constructor
  · intro h hlast
    rw [dropReturn, if_pos hlast] at h
    have hlen := congrArg List.length h
    have hpos : 0 < line.length := by
      cases line with
      | nil => simp at hlast
      | cons c t => simp
    rw [List.length_dropLast] at hlen
    omega
  · exact dropReturn_of_getLast?

theorem lines_append_newline {line : Text} (h : '\n' ∉ line) (rest : Text) :
    lines (line ++ '\n' :: rest) = dropReturn line :: lines rest := by
  induction line with
  | nil => rw [List.nil_append, lines, dropReturn_nil]
  | cons c t ih =>
      have hc : c ≠ '\n' := fun hc => h (by simp [hc])
      have ht : '\n' ∉ t := fun ht => h (by simp [ht])
      cases t with
      | nil =>
          by_cases hr : c = '\r'
          · subst hr
            simp [lines, dropReturn]
          · rw [dropReturn_of_getLast? (by simpa using hr)]
            simp [lines, hr]
      | cons d u =>
          have hd : d ≠ '\n' := fun hd => ht (by simp [hd])
          rw [dropReturn_cons (by simp), List.cons_append, lines, ih ht]
          · exact fun hn => absurd hn hc
          · rintro x rfl hx
            exact hd (List.cons.inj hx).1

theorem join_cons {mark : Char} {piece : Text} {more : List Text} (hmore : more ≠ []) :
    join [mark] (piece :: more) = piece ++ mark :: join [mark] more := by
  obtain ⟨next, rest, rfl⟩ := List.exists_cons_of_ne_nil hmore
  rw [join, List.intercalate_cons_cons, List.append_assoc]
  rfl

/-- A text whose last line is empty is read back line by line. -/
theorem lines_join {ls : List Text} (hlast : ls.getLast? = some [])
    (h : ∀ line ∈ ls, '\n' ∉ line) :
    lines (join ['\n'] ls) = ls.dropLast.map dropReturn := by
  induction ls with
  | nil => simp at hlast
  | cons line rest ih =>
      cases rest with
      | nil =>
          obtain rfl : line = [] := by simpa using hlast
          rfl
      | cons next rest =>
          have ih := ih (by simpa using hlast) fun l hl => h l (by simp [hl])
          rw [join_cons (List.cons_ne_nil next rest),
            lines_append_newline (h line (by simp)), ih]
          rfl

/-- A text is one line, or a line, a line feed and a text. -/
@[elab_as_elim]
theorem induction_lines {motive : Text → Prop} (line : ∀ t, '\n' ∉ t → motive t)
    (cut : ∀ t rest, '\n' ∉ t → motive rest → motive (t ++ '\n' :: rest)) (t : Text) :
    motive t := by
  by_cases hmem : '\n' ∈ t
  · obtain ⟨first, rest, ht, hfirst⟩ := List.eq_append_cons_of_mem hmem
    have hshorter : rest.length < t.length := by
      rw [ht, List.length_append, List.length_cons]
      omega
    exact ht ▸ cut first rest hfirst (induction_lines line cut rest)
  · exact line t hmem
termination_by t.length

/-- A text that is cut behind a line feed has the lines of its two parts. -/
theorem lines_append_newline_append (t rest : Text) :
    lines (t ++ '\n' :: rest) = lines (t ++ ['\n']) ++ lines rest := by
  induction t using induction_lines with
  | line t h =>
      rw [lines_append_newline h, lines_append_newline h]
      rfl
  | cut t more h ih =>
      rw [List.append_assoc, List.append_assoc, List.cons_append, List.cons_append,
        lines_append_newline h, lines_append_newline h, ih, List.cons_append]

theorem length_lines_newline (t : Text) :
    (lines (t ++ ['\n'])).length = t.count '\n' + 1 := by
  induction t using induction_lines with
  | line t h =>
      rw [lines_append_newline h, List.count_eq_zero_of_not_mem h]
      rfl
  | cut t rest h ih =>
      rw [List.append_assoc, List.cons_append, lines_append_newline h, List.length_cons,
        ih, List.count_append, List.count_eq_zero_of_not_mem h, List.count_cons_self,
        Nat.zero_add]

/-- Lines in front of a text that was written line by line are read back in
front of it. -/
theorem lines_join_append {ls more : List Text} (h : ∀ line ∈ ls, '\n' ∉ line)
    (hmore : more ≠ []) :
    lines (join ['\n'] (ls ++ more)) =
      ls.map dropReturn ++ lines (join ['\n'] more) := by
  induction ls with
  | nil => rfl
  | cons line ls ih =>
      have ih := ih fun l hl => h l (List.mem_cons_of_mem line hl)
      rw [List.cons_append,
        join_cons (List.append_ne_nil_of_right_ne_nil ls hmore),
        lines_append_newline (h line List.mem_cons_self), ih]
      rfl

theorem newline_notMem_of_mem_lines {t line : Text} (h : line ∈ lines t) :
    '\n' ∉ line := by
  fun_induction lines t generalizing line with
  | case1 => cases h
  | case2 t ih =>
      rcases List.mem_cons.mp h with rfl | h
      · simp
      · exact ih h
  | case3 t ih =>
      rcases List.mem_cons.mp h with rfl | h
      · simp
      · exact ih h
  | case4 c t hc _ hnil ih =>
      obtain rfl : line = [c] := by simpa using h
      simpa using fun hn => hc hn.symm
  | case5 c t hc _ first rest hlines ih =>
      rcases List.mem_cons.mp h with rfl | h
      · intro hmem
        rcases List.mem_cons.mp hmem with hn | hmem
        · exact hc hn.symm
        · exact ih (by simp [hlines]) hmem
      · exact ih (by simp [hlines, h])

end CaseTable.Text
