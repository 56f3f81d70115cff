import CaseTable.Table

/-!
# Looking up a strategy

A table is looked up by the position of a name among its names. That is the
first entry of that name (`get?_eq_find?`), so what a look-up gives after an
insertion can be said without positions: an old name keeps what it had, a new
one has what was inserted (`get?_insert`).
-/

namespace CaseTable.Table

theorem bind_idxOf?_eq_find? (entries : List Entry) (name : Text) :
    (((entries.map Entry.name).idxOf? name).bind fun i => entries[i]?) =
      entries.find? fun e => e.name = name := by
  induction entries with
  | nil => rfl
  | cons e entries ih =>
      rw [List.map_cons, List.idxOf?_cons, List.find?_cons]
      by_cases hname : e.name = name
      · simp [hname]
      · rw [if_neg (by simpa using hname), ← ih, Option.bind_map]
        simp only [Function.comp_def, List.getElem?_cons_succ, hname, decide_false]

/-- A look-up finds the first entry of the name. -/
theorem get?_eq_find? (t : Table) (name : Text) :
    t.get? name = (t.entries.find? fun e => e.name = name).map Entry.args := by
  rw [← bind_idxOf?_eq_find?, Option.map_bind]
  rfl

theorem get?_empty (name : Text) : (∅ : Table).get? name = none := rfl

theorem get?_eq_none_iff {t : Table} {name : Text} :
    t.get? name = none ↔ name ∉ t.names := by
  rw [get?_eq_find?, Option.map_eq_none_iff, List.find?_eq_none]
  simp [names]

/-- The first insertion of a name wins. -/
theorem get?_insert (t : Table) (name args other : Text) :
    (t.insert name args).1.get? other =
      (t.get? other).or (if name = other then some args else none) := by
  rw [insert]
  split
  · next taken =>
      split
      · next hsame =>
          subst hsame
          have hheld : t.get? name ≠ none := fun hnone =>
            get?_eq_none_iff.mp hnone ((t.contains_iff_mem name).mp taken)
          obtain ⟨held, hheld⟩ := Option.ne_none_iff_exists'.mp hheld
          rw [hheld, Option.some_or]
      · rw [Option.or_none]
  · rw [get?_eq_find?, get?_eq_find?, append, List.find?_append, Option.map_or,
      List.find?_singleton]
    by_cases hsame : name = other
    · simp [hsame]
    · simp [hsame]

end CaseTable.Table
