import CaseTable.Text.Blank

/-!
# Lines of an INI file

A line is one of four things once the blanks at its start are gone: empty, a comment, a section
header in brackets, or a key and a value around the first equals sign. The key is trimmed and the
value is kept as it is, blanks at its end included.
-/

namespace CaseTable.Ini

/-- What is wrong with a line. -/
inductive LineError
    /-- A line that starts with a bracket is no header with a name. -/
    | badHeader
    | noEquals
    | emptyKey
    /-- A key stands before the first header. -/
    | strayKey
    /-- A key repeats one of its section. -/
    | duplicateKey (key sectionName : Text)
    deriving DecidableEq, Repr

namespace LineError

def message : LineError → String
  | badHeader => "bad section header"
  | noEquals => "expected key=value"
  | emptyKey => "empty key"
  | strayKey => "key outside of any section"
  | duplicateKey key s => s!"duplicate key '{key.toString}' in [{s.toString}]"

end LineError

inductive Line
    /-- A line that says nothing: it is empty or a comment. -/
    | silent
    | header (name : Text)
    | pair (key value : Text)
    deriving DecidableEq, Repr

namespace Line

/-- The name in a header, given what follows its opening bracket. -/
def headerName? (t : Text) : Option Text :=
  match Text.beforeEnd? [']'] t.trimEnd with
  | none => none
  | some inside => if Text.trim inside = [] then none else some (Text.trim inside)

/-- What stands before and after the first equals sign. -/
def splitEquals? : Text → Option (Text × Text)
  | [] => none
  | c :: t =>
      if c = '=' then some ([], t)
      else (splitEquals? t).map fun (key, value) => (c :: key, value)

def read (line : Text) : Except LineError Line :=
  match line.trimStart with
  | [] => .ok silent
  | '#' :: _ => .ok silent
  | ';' :: _ => .ok silent
  | '[' :: t =>
      match headerName? t with
      | some name => .ok (header name)
      | none => .error .badHeader
  | t =>
      match splitEquals? t with
      | none => .error .noEquals
      | some (key, value) =>
          if key.trim = [] then .error .emptyKey else .ok (pair key.trim value)

end Line

end CaseTable.Ini
