import CaseTable.Text

/-!
# Strategy tables

A table holds strategies in the order in which they were first inserted, and no name twice. The
first insertion of a name wins: a later one is refused and changes nothing. That the names are
pairwise different is part of the type.
-/

namespace CaseTable

/-- A strategy: its name and its arguments. -/
structure Entry where
    name : Text
    args : Text
    deriving DecidableEq, Repr

/-- The strategies in order of insertion, each name once. -/
structure Table where
    entries : List Entry
    nodup : (entries.map Entry.name).Nodup

namespace Table

def empty : Table := ⟨[], by simp⟩

instance : EmptyCollection Table := ⟨empty⟩

instance : Inhabited Table := ⟨empty⟩

def names (t : Table) : List Text := t.entries.map Entry.name

def size (t : Table) : Nat := t.entries.length

def isEmpty (t : Table) : Bool := t.entries.isEmpty

def firstName? (t : Table) : Option Text := t.names.head?

def position? (t : Table) (name : Text) : Option Nat := t.names.idxOf? name

def contains (t : Table) (name : Text) : Bool := (t.position? name).isSome

def get? (t : Table) (name : Text) : Option Text :=
  (t.position? name).bind fun i => t.entries[i]?.map Entry.args

theorem contains_iff_mem (t : Table) (name : Text) : t.contains name = true ↔ name ∈ t.names := by
  simp [contains, position?]

/-- The table with one more strategy at its end, for a name that it does not hold yet. -/
def append (t : Table) (name args : Text) (new : name ∉ t.names) : Table where
    entries := t.entries ++ [⟨name, args⟩]
    nodup := by
      simp only [List.map_append, List.map_cons, List.map_nil, List.nodup_append]
      refine ⟨t.nodup, by simp, ?_⟩
      intro a ha b hb
      rw [List.mem_singleton.1 hb]
      exact fun same => new (same ▸ ha)

/-- Inserts a strategy unless its name is taken, and says whether it did. -/
def insert (t : Table) (name args : Text) : Table × Bool :=
  if taken : t.contains name = true then
    (t, false)
  else
    (t.append name args fun held => taken ((t.contains_iff_mem name).2 held), true)

/-- The table of the given strategies; of a repeated name the first one stays. -/
def ofList (strategies : List Entry) : Table :=
  strategies.foldl (fun t entry => (t.insert entry.name entry.args).1) ∅

end Table

end CaseTable
