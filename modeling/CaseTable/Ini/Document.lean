import CaseTable.Ini.Line

/-!
# INI documents

A document is a list of sections in the order of their headers. A section has a name, which another
section may share, and pairs of a key and a value, no key twice. Reading stops at the first line
that breaks a rule and reports its number, counted from 1.
-/

namespace CaseTable.Ini

/-- A section: its name and its pairs in order. -/
structure Section where
    name : Text
    pairs : List (Text × Text)
    deriving DecidableEq, Repr

namespace Section

def get? (s : Section) (key : Text) : Option Text := s.pairs.lookup key

def add (s : Section) (key value : Text) : Section :=
  { s with pairs := s.pairs ++ [(key, value)] }

end Section

/-- A line that breaks a rule, by its number. -/
structure Error where
    line : Nat
    cause : LineError
    deriving DecidableEq, Repr

namespace Error

/-- The number of the line and what is wrong with it. -/
def message (e : Error) : String := s!"line {e.line}: {e.cause.message}"

end Error

structure Document where
    sections : List Section
    deriving DecidableEq, Repr

namespace Document

/-- Reads the lines from number `line` on, the section `current` being open. -/
def readLines (line : Nat) (current : Option Section) :
    List Text → Except Error (List Section)
  | [] => .ok current.toList
  | raw :: rest =>
      match Line.read raw with
      | .error cause => .error ⟨line, cause⟩
      | .ok .silent => readLines (line + 1) current rest
      | .ok (.header name) =>
          (readLines (line + 1) (some ⟨name, []⟩) rest).map fun later => current.toList ++ later
      | .ok (.pair key value) =>
          match current with
          | none => .error ⟨line, .strayKey⟩
          | some s =>
              if (s.get? key).isSome then
                .error ⟨line, .duplicateKey key s.name⟩
              else
                readLines (line + 1) (some (s.add key value)) rest

def parse (t : Text) : Except Error Document := (readLines 1 none t.lines).map Document.mk

def find? (d : Document) (name : Text) : Option Section :=
  d.sections.find? fun s => s.name = name

end Document

end CaseTable.Ini
