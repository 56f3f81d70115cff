import CaseTable.Conversion.Report
import CaseTable.Extraction.Extract
import CaseTable.Rendering
import CaseTable.Storage
import CaseTable.Storage.Path

/-!
# Converting a script

A conversion reads a script, extracts its table, renders it and writes the output. Between reading
and writing nothing touches the file system: `draft` is all of that part. The output replaces the
old file in one step, is read back, and must hold the sections that were rendered; a dry run checks
the rendered text instead and prints it.
-/

namespace CaseTable

/-- What to convert and how. -/
structure ConversionOptions where
    input : Text
    output : Text
    policy : Policy
    script : ScriptNames
    style : DescriptionStyle
    layout : Layout
    default : Option Text
    dryRun : Bool
    deriving DecidableEq, Repr

/-- What is ready to be written. -/
structure Draft where
    extraction : Extraction
    rendering : Rendering

namespace Draft

/-- The warnings of the extraction, then those of the rendering. -/
def warnings (d : Draft) : List Warning :=
  d.extraction.warnings.map .extraction ++ d.rendering.warnings.map .rendering

def progress (d : Draft) : List Progress :=
  .found d.extraction.table.size d.extraction.policy ::
    (d.rendering.default.map Progress.default).toList

end Draft

namespace Conversion

/-- The name of the script for the head of the output. -/
def sourceName (input : Text) : Text := (Path.fileName? input).getD input

/-- Extracts and renders a script, or says with which warnings it gives no strategy. -/
def draft (o : ConversionOptions) (source : Text) : Except (List Warning) Draft :=
  match extract o.policy o.script source with
  | .error cause => .error [.noTable cause]
  | .ok e =>
      if e.table.isEmpty then
        .error (e.warnings.map .extraction)
      else
        .ok ⟨e, render e.table ⟨o.default, o.layout, o.style, sourceName o.input⟩⟩

def report (o : ConversionOptions) (progress : List Progress) (warnings : List Warning)
    (failure : Option ConversionError) : Report where
    progress := if o.dryRun then [] else progress
    document := none
    warnings := warnings
    failure := failure

variable {m : Type → Type} [Monad m] [Storage m]

def readText (path : Text) : m (Except Fault Text) := do
  match ← Storage.read path with
  | .error f => return .error f
  | .ok bytes =>
      match Text.ofBytes? bytes with
      | some t => return .ok t
      | none => return .error .notText

/-- Gives up on a temporary file. -/
def abandon (temporary : Storage.Temporary m) (cause : ConversionError) :
    m (Except ConversionError Unit) := do
  Storage.discard temporary
  return .error cause

/-- Replaces a file by a text through a temporary file in the same directory. -/
def replaceFile (path : Text) (t : Text) : m (Except ConversionError Unit) := do
  match ← Storage.createTemporary (m := m) (Path.directory path) with
  | .error f => return .error (.noTemporary (Path.directory path) f)
  | .ok temporary =>
      match ← Storage.write temporary (Text.toBytes t) with
      | .error f => abandon temporary (.unwritable (Storage.temporaryPath temporary) f)
      | .ok () =>
          match ← Storage.flush temporary with
          | .error f => abandon temporary (.unflushable (Storage.temporaryPath temporary) f)
          | .ok () =>
              match ← Storage.replace temporary path with
              | .error f => abandon temporary (.irreplaceable path f)
              | .ok () => return .ok ()

def writeVerified (path : Text) (r : Rendering) : m (Except ConversionError Unit) := do
  match ← replaceFile path r.text with
  | .error cause => return .error cause
  | .ok () =>
      match ← readText path with
      | .error f => return .error (.unverifiable path f)
      | .ok written =>
          match verify r.sections written with
          | .error cause => return .error (.roundTrip cause)
          | .ok () => return .ok ()

/-- Finishes a conversion from its draft. -/
def finish (o : ConversionOptions) (d : Draft) : m Report := do
  let begun := [.reading o.input, .parsing] ++ d.progress
  if o.dryRun then
    match verify d.rendering.sections d.rendering.text with
    | .error cause => return report o begun d.warnings (some (.roundTrip cause))
    | .ok () => return { report o begun d.warnings none with document := some d.rendering.text }
  else
    match ← writeVerified o.output d.rendering with
    | .error cause => return report o begun d.warnings (some cause)
    | .ok () =>
        let count := d.extraction.table.size
        return report o (begun ++ [.written count o.output, .done]) d.warnings none

end Conversion

def convert {m : Type → Type} [Monad m] [Storage m] (o : ConversionOptions) : m Report := do
  if ← Storage.exists? o.input then
    match ← Conversion.readText o.input with
    | .error f =>
        return Conversion.report o [.reading o.input] [] (some (.unreadable o.input f))
    | .ok source =>
        match Conversion.draft o source with
        | .error warnings =>
            return Conversion.report o [.reading o.input, .parsing] warnings (some .nothingFound)
        | .ok d => Conversion.finish o d
  else
    return Conversion.report o [.reading o.input] [] (some (.inputMissing o.input))

end CaseTable
