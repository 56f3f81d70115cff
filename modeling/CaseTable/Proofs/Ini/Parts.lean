import CaseTable.Proofs.Ini.Acceptance

/-!
# Reading a document in parts

The reader takes a list of lines, the number of the first one and the section
that is open. Neither of the two is a part of what the lines say.

The number only shows in an error (`readLines_add`). The open section only
shows until the next header: lines that are silent up to their first header
close it and are then read on their own. Those are the `Opening` ones, and a
document is cut in front of them (`readLines_append_opening`).
-/

namespace CaseTable.Ini

/-- The same fault, so many lines further down. -/
def Error.later (k : Nat) (e : Error) : Error := ⟨e.line + k, e.cause⟩

theorem Error.later_eq_later_iff {e : Error} {j k : Nat} : e.later j = e.later k ↔ j = k := by
  rw [later, later, Error.mk.injEq, Nat.add_left_cancel_iff, and_iff_left rfl]

namespace Document

/-- Where the lines start only shows in the number of a line that breaks a rule. -/
theorem readLines_add (k : Nat) (ls : List Text) : ∀ (n : Nat) (current : Option Section),
    readLines (n + k) current ls = (readLines n current ls).mapError (Error.later k) := by
  induction ls with
  | nil => exact fun n current => rfl
  | cons line ls ih =>
      intro n current
      have hnext (current : Option Section) : readLines (n + k + 1) current ls =
          (readLines (n + 1) current ls).mapError (Error.later k) := by
        rw [Nat.add_right_comm, ih]
      rw [readLines, readLines]
      cases Line.read line with
      | error cause => rfl
      | ok said =>
          cases said with
          | silent => exact hnext current
          | header name =>
              simp only [hnext]
              cases readLines (n + 1) (some ⟨name, []⟩) ls with
              | error cause => rfl
              | ok later => rfl
          | pair key value =>
              cases current with
              | none => rfl
              | some s =>
                  simp only [hnext]
                  split
                  · rfl
                  · rfl

/-! ## Cutting in front of a header -/

/-- Lines that close the section that is open, if any, before they say anything else. -/
def Opening (ls : List Text) : Prop :=
  ∀ (n : Nat) (current : Option Section),
    readLines n current ls = (readLines n none ls).map fun later => current.toList ++ later

theorem opening_header {line name : Text} (h : Line.read line = .ok (.header name))
    (rest : List Text) : Opening (line :: rest) := by
  intro n current
  rw [readLines, readLines, h]
  simp only
  cases readLines (n + 1) (some ⟨name, []⟩) rest with
  | error cause => rfl
  | ok later => rfl

/-- Lines that close what is open are read on their own, after those before
them. -/
theorem readLines_append_opening {rest : List Text} (hrest : Opening rest) (ls : List Text) :
    ∀ (n : Nat) (current : Option Section),
      readLines n current (ls ++ rest) = (readLines n current ls).bind fun own =>
        (readLines (n + ls.length) none rest).map fun later => own ++ later := by
  induction ls with
  | nil => exact fun n current => hrest n current
  | cons line ls ih =>
      intro n current
      have hnext (current : Option Section) : readLines (n + 1) current (ls ++ rest) =
          (readLines (n + 1) current ls).bind fun own =>
            (readLines (n + (ls.length + 1)) none rest).map fun later => own ++ later := by
        rw [ih, Nat.add_assoc, Nat.add_comm 1]
      rw [List.cons_append, readLines, readLines, List.length_cons]
      cases Line.read line with
      | error cause => rfl
      | ok said =>
          cases said with
          | silent => exact hnext current
          | header name =>
              simp only [hnext]
              cases readLines (n + 1) (some ⟨name, []⟩) ls with
              | error cause => rfl
              | ok own =>
                  cases readLines (n + (ls.length + 1)) none rest with
                  | error cause => rfl
                  | ok later => simp [Except.bind, Except.map]
          | pair key value =>
              cases current with
              | none => rfl
              | some s =>
                  simp only [hnext]
                  split
                  · rfl
                  · rfl

/-- Only silent lines hold no section at all. -/
theorem readLines_eq_nil_iff {ls : List Text} : ∀ {n : Nat},
    readLines n none ls = .ok [] ↔ ∀ line ∈ ls, Line.read line = .ok .silent := by
  induction ls with
  | nil => simp [readLines]
  | cons line ls ih =>
      intro n
      rw [List.forall_mem_cons, readLines]
      cases Line.read line with
      | error cause => simp
      | ok said =>
          cases said with
          | silent => simp [ih]
          | header name =>
              constructor
              · intro h
                cases hrest : readLines (n + 1) (some ⟨name, []⟩) ls with
                | error cause =>
                    simp only [hrest] at h
                    cases h
                | ok later =>
                    simp only [hrest] at h
                    exact absurd (Except.ok.inj h) (ne_nil_of_readLines hrest)
              · rintro ⟨⟨⟩, -⟩
          | pair key value => simp

end Document

end CaseTable.Ini
