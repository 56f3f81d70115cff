import CaseTable.Extraction.Names

/-!
# Extracting a table

The policy `auto` reads the arms first. Only if they cannot be read, or give no strategy, the list
of names is used, and a first warning says so. If the list does not work either, the outcome of
reading the arms stands.
-/

namespace CaseTable

namespace Extraction

/-- What `auto` makes of arms that gave no strategy. -/
def afterEmptyArms (script : ScriptNames) (source : Text) (arms : Extraction) : Extraction :=
  match byNames script source with
  | .ok names =>
      let fellBack := .armsEmpty script.tableFunction script.listFunction
      { names with warnings := fellBack :: arms.warnings ++ names.warnings }
  | .error cause => { arms with warnings := arms.warnings ++ [.listFailed cause] }

/-- What `auto` makes of arms that could not be read. -/
def afterFailedArms (script : ScriptNames) (source : Text) (cause : ExtractionError) :
    Except ExtractionError Extraction :=
  match byNames script source with
  | .ok names =>
      .ok { names with warnings := .armsFailed cause script.listFunction :: names.warnings }
  | .error _ => .error cause

/-- The arms if they give a strategy, and otherwise the list of names. -/
def auto (script : ScriptNames) (source : Text) : Except ExtractionError Extraction :=
  match direct script source with
  | .ok arms =>
      if arms.table.isEmpty then .ok (afterEmptyArms script source arms) else .ok arms
  | .error cause => afterFailedArms script source cause

end Extraction

def extract (policy : Policy) (script : ScriptNames) (source : Text) :
    Except ExtractionError Extraction :=
  match policy with
  | .direct => Extraction.direct script source
  | .names => Extraction.byNames script source
  | .auto => Extraction.auto script source

end CaseTable
