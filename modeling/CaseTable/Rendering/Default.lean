import CaseTable.Table

/-!
# The default strategy

The default is the strategy that was asked for, if the table holds it. If none was asked for, it is
the well-known one, or else the first of the table.
-/

namespace CaseTable

/-- What a rendering leaves out. -/
inductive RenderingWarning
    | noSuchDefault (name : Text)
    | reservedName (name : Text)
    deriving DecidableEq, Repr

namespace RenderingWarning

def message : RenderingWarning → String
  | noSuchDefault name =>
      s!"requested default strategy '{name.toString}' not found; no [default] section written"
  | reservedName name =>
      s!"strategy '{name.toString}' clashes with a reserved section and was skipped"

end RenderingWarning

namespace Table

/-- The strategy that is the default where none is asked for. -/
def wellKnownDefault : Text := "syndata_multisplit_tls_google_700".toList

/-- The default strategy of a table. -/
def default? (t : Table) (asked : Option Text) : Option Text :=
  match asked with
  | some name => if t.contains name then some name else none
  | none => if t.contains wellKnownDefault then some wellKnownDefault else t.firstName?

def defaultWarnings (t : Table) (asked : Option Text) : List RenderingWarning :=
  match asked with
  | some name => if t.contains name then [] else [.noSuchDefault name]
  | none => []

end Table

end CaseTable
