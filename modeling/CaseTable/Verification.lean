import CaseTable.Ini.Document
import CaseTable.Rendering.Section
import CaseTable.Text.Quoted

/-!
# Verifying a written file

A written file is read back and compared with the sections that it should hold: as many as there
should be, every one under its name, and each with the two values that were written.
-/

namespace CaseTable

/-- The two keys of a section. -/
inductive SectionKey
    | desc
    | args
    deriving DecidableEq, Repr

namespace SectionKey

/-- The key as it is written. -/
def name : SectionKey → Text
  | desc => "desc".toList
  | args => "args".toList

/-- The value that a section has for a key. -/
def valueIn (s : StrategySection) : SectionKey → Text
  | desc => s.desc
  | args => s.args

end SectionKey

/-- Why a text does not hold the sections that it should. -/
inductive VerificationError
    | malformed (cause : Ini.Error)
    | sectionCount (expected found : Nat)
    | missingSection (name : Text)
    /-- A value differs or is missing. -/
    | mismatch (name : Text) (key : SectionKey) (expected : Text) (found : Option Text)
    deriving DecidableEq, Repr

namespace VerificationError

def message : VerificationError → String
  | malformed cause => s!"written file is not valid INI: {cause.message}"
  | sectionCount expected found =>
      s!"written file has {found} sections, expected {expected}"
  | missingSection name => s!"section [{name.toString}] is missing from the written file"
  | mismatch name key expected found =>
      s!"[{name.toString}] {key.name.toString} does not round-trip: wrote " ++
        s!"{expected.quoted.toString}, read back {(Text.quotedOption found).toString}"

end VerificationError

namespace Ini.Document

/-- Compares one value with what the document has for it. -/
def checkKey (d : Ini.Section) (s : StrategySection) (key : SectionKey) :
    Except VerificationError Unit :=
  if d.get? key.name = some (key.valueIn s) then
    .ok ()
  else
    .error (.mismatch s.name key (key.valueIn s) (d.get? key.name))

/-- Compares one section with the first section of its name. -/
def checkSection (d : Document) (s : StrategySection) : Except VerificationError Unit :=
  match d.find? s.name with
  | none => .error (.missingSection s.name)
  | some found =>
      match checkKey found s .desc with
      | .ok () => checkKey found s .args
      | .error cause => .error cause

def checkSections (d : Document) : List StrategySection → Except VerificationError Unit
  | [] => .ok ()
  | s :: rest =>
      match d.checkSection s with
      | .ok () => checkSections d rest
      | .error cause => .error cause

end Ini.Document

/-- Confirms that a text holds exactly the given sections with their values. -/
def verify (sections : List StrategySection) (t : Text) : Except VerificationError Unit :=
  match Ini.Document.parse t with
  | .error cause => .error (.malformed cause)
  | .ok d =>
      if d.sections.length = sections.length then
        d.checkSections sections
      else
        .error (.sectionCount sections.length d.sections.length)

end CaseTable
