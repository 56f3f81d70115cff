import CaseTable.Proofs.CheckedAccess
import CaseTable.Proofs.Extraction.Names
import Mathlib.Data.List.Induction
import Mathlib.Data.List.Nodup

/-!
# Tables with an index

A table is kept as the list of its entries and, beside it, a hash map from each
name to the position of its entry. An insertion looks at the map alone and then
writes both; a look-up takes a position from the map and trusts that the list
has an entry there.

That the two agree is one equivalence: the map has a position for a name
exactly if the entry at that position has the name (`Coherent`). It holds of the
empty table and every insertion keeps it (`Coherent.insert`). Two entries of one
name would have one position, so the names are pairwise different, and no
look-up leaves the list (`Coherent.get`).

An indexed table that is coherent is a table (`Coherent.table`), and insertions
do the same to both. So what a run of insertions leaves can be said about the
table: `ofList_spec`.
-/

namespace CaseTable

/-- A text is hashed as the list of its characters. -/
instance : Hashable Text := @instHashableList Char instHashableChar

/-- The entries of a table in order, and the position of each by its name. -/
structure IndexedTable where
    entries : List Entry
    positions : Std.HashMap Text Nat

namespace IndexedTable

def empty : IndexedTable := ⟨[], ∅⟩

/-- Inserts a strategy unless the map has its name, and says whether it did. -/
def insert (t : IndexedTable) (name args : Text) : IndexedTable × Bool :=
  if t.positions.contains name then
    (t, false)
  else
    (⟨t.entries ++ [⟨name, args⟩], t.positions.insert name t.entries.length⟩, true)

/-- The arguments of a strategy, from the entry at the position in the map. -/
def get (t : IndexedTable) (name : Text) : Except BadAccess (Option Text) :=
  match t.positions[name]? with
  | none => .ok none
  | some i => (Checked.index t.entries i).map fun entry => some entry.args

def contains (t : IndexedTable) (name : Text) : Bool := t.positions.contains name

def size (t : IndexedTable) : Nat := t.entries.length

def isEmpty (t : IndexedTable) : Bool := t.entries.isEmpty

def firstName? (t : IndexedTable) : Option Text := t.entries.head?.map Entry.name

def names (t : IndexedTable) : List Text := t.entries.map Entry.name

/-- The names with their arguments, in order. -/
def iter (t : IndexedTable) : List (Text × Text) := t.entries.map fun e => (e.name, e.args)

/-- The insertions one after the other into an empty table. -/
def ofList (insertions : List Entry) : IndexedTable :=
  insertions.foldl (fun t entry => (t.insert entry.name entry.args).1) empty

theorem getElem?_concat_eq_some_iff {names : List Text} {name other : Text} {i : Nat} :
    (names ++ [name])[i]? = some other ↔
      names[i]? = some other ∨ i = names.length ∧ name = other := by
  rw [List.getElem?_append]
  split
  · next hlt => simp [Nat.ne_of_lt hlt]
  · next hge =>
      rw [List.getElem?_singleton, List.getElem?_eq_none (Nat.le_of_not_lt hge)]
      by_cases hi : i = names.length
      · simp [hi]
      · have : i - names.length ≠ 0 := by omega
        simp [hi, this]

/-- The map has the names of the entries, each with its own position. -/
def Coherent (t : IndexedTable) : Prop :=
  ∀ (name : Text) (i : Nat), t.positions[name]? = some i ↔ t.names[i]? = some name

theorem coherent_empty : Coherent empty := by
  intro name i
  simp [empty, names]

namespace Coherent

variable {t : IndexedTable}

theorem contains_iff (h : t.Coherent) (name : Text) :
    t.contains name = true ↔ name ∈ t.names := by
  rw [contains, Std.HashMap.contains_eq_isSome_getElem?, Option.isSome_iff_exists,
    List.mem_iff_getElem?]
  exact exists_congr (h name)

theorem nodup (h : t.Coherent) : t.names.Nodup := by
  rw [List.nodup_iff_getElem?_ne_getElem?]
  intro i j hij hj hsame
  obtain ⟨name, hname⟩ : ∃ name, t.names[j]? = some name := ⟨_, List.getElem?_eq_getElem hj⟩
  have hboth : some i = some j :=
    ((h name i).mpr (hsame.trans hname)).symm.trans ((h name j).mpr hname)
  exact Nat.ne_of_lt hij (Option.some.inj hboth)

theorem insert_of_mem (h : t.Coherent) {name : Text} (hheld : name ∈ t.names) (args : Text) :
    t.insert name args = (t, false) :=
  if_pos ((h.contains_iff name).mpr hheld)

theorem insert_of_notMem (h : t.Coherent) {name : Text} (hnew : name ∉ t.names) (args : Text) :
    t.insert name args =
      (⟨t.entries ++ [⟨name, args⟩], t.positions.insert name t.entries.length⟩, true) :=
  if_neg (mt (h.contains_iff name).mp hnew)

/-- An insertion gives the new name the position at the end of the list. -/
theorem insert (h : t.Coherent) (name args : Text) : (t.insert name args).1.Coherent := by
  by_cases hheld : name ∈ t.names
  · rw [h.insert_of_mem hheld]
    exact h
  · rw [h.insert_of_notMem hheld]
    intro other i
    have hlength : t.entries.length = t.names.length := (List.length_map _).symm
    rw [names, List.map_append, List.map_singleton, hlength, Std.HashMap.getElem?_insert]
    change _ ↔ (t.names ++ [name])[i]? = some other
    rw [getElem?_concat_eq_some_iff, ← h other i]
    split
    · next hsame =>
        obtain rfl := beq_iff_eq.mp hsame
        have hnone : t.positions[name]? ≠ some i := fun hi =>
          hheld (List.mem_of_getElem? ((h name i).mp hi))
        simp [hnone, eq_comm]
    · next hother =>
        simp only [beq_iff_eq] at hother
        simp [hother]

/-! ## The table that is kept -/

/-- A coherent table with an index keeps a table. -/
def table (h : t.Coherent) : Table := ⟨t.entries, h.nodup⟩

theorem contains_eq (h : t.Coherent) (name : Text) :
    t.contains name = h.table.contains name := by
  rw [Bool.eq_iff_iff, h.contains_iff, Table.contains_iff_mem]
  rfl

/-- The map has the positions that a search of the list finds. -/
theorem position_eq (h : t.Coherent) (name : Text) :
    t.positions[name]? = h.table.position? name := by
  refine Option.ext fun i => ?_
  rw [h name i, Table.position?, List.idxOf?_eq_some_iff, List.getElem?_eq_some_iff]
  refine exists_congr fun hi => ⟨fun hname => ⟨hname, fun j hj hsame => ?_⟩, And.left⟩
  exact Nat.ne_of_lt hj ((h.nodup.getElem_inj_iff).mp (hsame.trans hname.symm))

/-- No look-up leaves the list. -/
theorem get_eq (h : t.Coherent) (name : Text) : t.get name = .ok (h.table.get? name) := by
  rw [get, Table.get?, h.position_eq]
  cases hposition : h.table.position? name with
  | none => rfl
  | some i =>
      have hname : (t.entries.map Entry.name)[i]? = some name :=
        (h name i).mp ((h.position_eq name).trans hposition)
      rw [List.getElem?_map, Option.map_eq_some_iff] at hname
      obtain ⟨entry, hentry, -⟩ := hname
      rw [Option.bind_some, show h.table.entries = t.entries from rfl, hentry]
      exact congrArg (Except.map _) (Checked.index_of_getElem? hentry)

/-- What the list has under a name is what a look-up gives. -/
theorem get_of_getElem? (h : t.Coherent) {i : Nat} {e : Entry} (he : t.entries[i]? = some e) :
    t.get e.name = .ok (some e.args) := by
  have hposition : t.positions[e.name]? = some i := by
    rw [h e.name i, names, List.getElem?_map, he]
    rfl
  rw [get, hposition]
  exact congrArg (Except.map _) (Checked.index_of_getElem? he)

theorem getElem?_iter (h : t.Coherent) (i : Nat) (name args : Text) :
    t.iter[i]? = some (name, args) ↔
      t.names[i]? = some name ∧ t.get name = .ok (some args) := by
  rw [iter, names, List.getElem?_map, List.getElem?_map, Option.map_eq_some_iff,
    Option.map_eq_some_iff]
  constructor
  · rintro ⟨e, he, hpair⟩
    obtain ⟨rfl, rfl⟩ := Prod.mk.inj hpair
    exact ⟨⟨e, he, rfl⟩, h.get_of_getElem? he⟩
  · rintro ⟨⟨e, he, rfl⟩, hargs⟩
    have hsame := Except.ok.inj ((h.get_of_getElem? he).symm.trans hargs)
    exact ⟨e, he, congrArg (Prod.mk e.name) (Option.some.inj hsame)⟩

theorem insert_eq (h : t.Coherent) (name args : Text) :
    (t.insert name args).1.entries = (h.table.insert name args).1.entries ∧
      (t.insert name args).2 = (h.table.insert name args).2 := by
  by_cases hheld : name ∈ t.names
  · rw [h.insert_of_mem hheld, Table.insert,
      dif_pos ((h.table.contains_iff_mem name).mpr hheld)]
    exact ⟨rfl, rfl⟩
  · rw [h.insert_of_notMem hheld, Table.insert_of_notMem (t := h.table) hheld]
    exact ⟨rfl, rfl⟩

end Coherent

/-! ## Runs of insertions -/

theorem ofList_concat (insertions : List Entry) (e : Entry) :
    ofList (insertions ++ [e]) = ((ofList insertions).insert e.name e.args).1 := by
  rw [ofList, List.foldl_append]
  rfl

theorem coherent_ofList (insertions : List Entry) : (ofList insertions).Coherent := by
  induction insertions using List.reverseRecOn with
  | nil => exact coherent_empty
  | append_singleton insertions e ih =>
      rw [ofList_concat]
      exact ih.insert e.name e.args

end IndexedTable

namespace Table

theorem eq_of_entries {t u : Table} (h : t.entries = u.entries) : t = u := by
  cases t
  cases u
  cases h
  rfl

theorem ofList_concat (insertions : List Entry) (e : Entry) :
    ofList (insertions ++ [e]) = ((ofList insertions).insert e.name e.args).1 := by
  rw [ofList, List.foldl_append]
  rfl

/-- The names are in the order in which each was first inserted. -/
theorem names_ofList (insertions : List Entry) :
    (ofList insertions).names = (insertions.map Entry.name).eraseDups := by
  induction insertions using List.reverseRecOn with
  | nil => rfl
  | append_singleton insertions e ih =>
      have hmem : e.name ∈ (insertions.map Entry.name).eraseDups ↔
          e.name ∈ insertions.map Entry.name := List.mem_eraseDups
      rw [ofList_concat, names_insert, ih, List.map_append, List.eraseDups_append,
        List.map_singleton, List.removeAll, List.filter_singleton]
      by_cases hheld : e.name ∈ insertions.map Entry.name
      · rw [if_pos (hmem.mpr hheld)]
        simp [hheld]
      · rw [if_neg (mt hmem.mp hheld)]
        simp [hheld, List.eraseDups_cons]

/-- A name has the arguments of its first insertion. -/
theorem get?_ofList (insertions : List Entry) (name : Text) :
    (ofList insertions).get? name =
      (insertions.find? fun e => e.name = name).map Entry.args := by
  induction insertions using List.reverseRecOn with
  | nil => rfl
  | append_singleton insertions e ih =>
      rw [ofList_concat, get?_insert, ih, List.find?_append, Option.map_or, List.find?_singleton]
      by_cases hsame : e.name = name <;> simp [hsame]

end Table

namespace IndexedTable

/-- With an index or without one, a run of insertions leaves the same table. -/
theorem table_ofList (insertions : List Entry) :
    (coherent_ofList insertions).table = Table.ofList insertions := by
  induction insertions using List.reverseRecOn with
  | nil => rfl
  | append_singleton insertions e ih =>
      have hentries := ((coherent_ofList insertions).insert_eq e.name e.args).1
      rw [ih, ← ofList_concat, ← Table.ofList_concat] at hentries
      exact Table.eq_of_entries hentries

/-- After every run of insertions the map has just the names of the entries,
each with its position. The names are pairwise different and stand in the order
of their first insertions. A further insertion succeeds exactly if its name is
new, a look-up gives the arguments of the first insertion of the name and never
leaves the list, and all other readings are readings of the list. All of this is
as in the table without an index. -/
theorem ofList_spec (insertions : List Entry) :
    let t := ofList insertions
    let table := Table.ofList insertions
    (∀ (name : Text) (i : Nat), t.positions[name]? = some i ↔
      t.entries[i]?.map Entry.name = some name) ∧
    t.names.Nodup ∧ t.names = (insertions.map Entry.name).eraseDups ∧
    (∀ name args, (t.insert name args).2 = true ↔ name ∉ insertions.map Entry.name) ∧
    (∀ name, t.get name = .ok ((insertions.find? fun e => e.name = name).map Entry.args)) ∧
    (∀ name, t.contains name = true ↔ name ∈ t.names) ∧
    (∀ (i : Nat) (name args : Text), t.iter[i]? = some (name, args) ↔
      t.names[i]? = some name ∧ t.get name = .ok (some args)) ∧
    (t.size = t.names.length ∧ t.firstName? = t.names.head? ∧
      (t.isEmpty = true ↔ t.names = [])) ∧
    (t.entries = table.entries ∧ (∀ name, t.get name = .ok (table.get? name)) ∧
      (∀ name args, (t.insert name args).2 = (table.insert name args).2) ∧
      (∀ name, t.contains name = table.contains name) ∧ t.size = table.size ∧
      t.names = table.names ∧ t.firstName? = table.firstName? ∧
      t.isEmpty = table.isEmpty) := by
  intro t table
  have hcoherent : t.Coherent := coherent_ofList insertions
  have htable : hcoherent.table = table := table_ofList insertions
  have hentries : t.entries = table.entries := congrArg Table.entries htable
  have hnames : t.names = (insertions.map Entry.name).eraseDups := by
    rw [← Table.names_ofList, Table.names, names, hentries]
  have hget (name : Text) : t.get name = .ok (table.get? name) := htable ▸ hcoherent.get_eq name
  have hinsert (name args : Text) : (t.insert name args).2 = (table.insert name args).2 :=
    htable ▸ (hcoherent.insert_eq name args).2
  refine ⟨fun name i => ?_, hcoherent.nodup, hnames, fun name args => ?_, fun name => ?_,
    hcoherent.contains_iff, hcoherent.getElem?_iter, ⟨?_, ?_, ?_⟩, hentries, hget, hinsert,
    fun name => htable ▸ hcoherent.contains_eq name, ?_, ?_, ?_, ?_⟩
  · rw [hcoherent name i, names, List.getElem?_map]
  · have hmem : name ∈ t.names ↔ name ∈ insertions.map Entry.name := by
      rw [hnames, List.mem_eraseDups]
    rw [← hmem]
    by_cases hheld : name ∈ t.names
    · simp [hcoherent.insert_of_mem hheld, hheld]
    · simp [hcoherent.insert_of_notMem hheld, hheld]
  · rw [hget, Table.get?_ofList]
  · exact (List.length_map _).symm
  · rw [firstName?, names, List.head?_map]
  · rw [isEmpty, names, List.isEmpty_iff, List.map_eq_nil_iff]
  · rw [size, hentries, Table.size]
  · rw [names, hentries, Table.names]
  · rw [firstName?, hentries, Table.firstName?, Table.names, List.head?_map]
  · rw [isEmpty, hentries, Table.isEmpty]

end IndexedTable

end CaseTable
