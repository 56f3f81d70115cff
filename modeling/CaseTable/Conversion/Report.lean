import CaseTable.Conversion.Palette
import CaseTable.Extraction
import CaseTable.Rendering.Default
import CaseTable.Storage.Fault
import CaseTable.Verification

/-!
# Reports

What a conversion tells its user: progress on one channel, warnings on the other, and at the end
perhaps why it failed. A dry run is silent on the first channel but for the document itself.
-/

namespace CaseTable

/-- A step of a conversion that is announced. -/
inductive Progress
    | reading (input : Text)
    | parsing
    | found (count : Nat) (policy : Policy)
    | default (name : Text)
    | written (count : Nat) (output : Text)
    | done
    deriving DecidableEq, Repr

namespace Progress

def line (p : Palette) : Progress → String
  | reading input => s!"Reading: {p.path}{input.toString}{p.reset}"
  | parsing => "Parsing strategies..."
  | found count policy =>
      s!"Found {p.count}{count}{p.reset} TCP strategies ({policy.name.toString} policy)"
  | default name => s!"Default strategy: {name.toString}"
  | written count output =>
      s!"Written {p.count}{count}{p.reset} strategies to {p.path}{output.toString}{p.reset}"
  | done => "Done!"

end Progress

/-- A warning of a conversion. -/
inductive Warning
    | noTable (cause : ExtractionError)
    | extraction (warning : ExtractionWarning)
    | rendering (warning : RenderingWarning)
    deriving DecidableEq, Repr

namespace Warning

def message : Warning → String
  | noTable cause => cause.message
  | extraction warning => warning.message
  | rendering warning => warning.message

def line (p : Palette) (w : Warning) : String := s!"{p.warning}warning:{p.reset} {w.message}"

end Warning

/-- Why a conversion failed. -/
inductive ConversionError
    | inputMissing (path : Text)
    | unreadable (path : Text) (cause : Fault)
    /-- The script gives no strategy. -/
    | nothingFound
    | noTemporary (directory : Text) (cause : Fault)
    | unwritable (path : Text) (cause : Fault)
    | unflushable (path : Text) (cause : Fault)
    | irreplaceable (path : Text) (cause : Fault)
    | unverifiable (path : Text) (cause : Fault)
    | roundTrip (cause : VerificationError)
    deriving DecidableEq, Repr

namespace ConversionError

/-- The message with the chain of its causes. A failed move and a malformed output each count as a
cause of their own, so that their reason is said twice. -/
def message : ConversionError → String
  | inputMissing path => s!"{path.toString} not found"
  | unreadable path cause => s!"failed to read {path.toString}: {cause.message}"
  | nothingFound => "No strategies found"
  | noTemporary directory cause =>
      s!"failed to create a temporary file in {directory.toString}: {cause.message}"
  | unwritable path cause => s!"failed to write {path.toString}: {cause.message}"
  | unflushable path cause => s!"failed to flush {path.toString}: {cause.message}"
  | irreplaceable path cause =>
      s!"failed to replace {path.toString}: failed to persist temporary file: " ++
        s!"{cause.message}: {cause.message}"
  | unverifiable path cause => s!"failed to re-read {path.toString}: {cause.message}"
  | roundTrip cause =>
      match cause with
      | .malformed e => s!"{cause.message}: {e.message}"
      | _ => cause.message

end ConversionError

structure Report where
    progress : List Progress
    /-- The document that a dry run prints. -/
    document : Option Text
    warnings : List Warning
    failure : Option ConversionError
    deriving DecidableEq, Repr

def unlines (lines : List String) : Text := lines.flatMap fun line => line.toList ++ ['\n']

namespace Report

/-- What goes to the first channel. -/
def out (p : Palette) (r : Report) : Text :=
  unlines (r.progress.map (Progress.line p)) ++ r.document.getD []

/-- What goes to the second channel, the failure left out. -/
def err (p : Palette) (r : Report) : Text := unlines (r.warnings.map (Warning.line p))

end Report

end CaseTable
