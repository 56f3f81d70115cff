import CaseTable.Extraction.Direct

/-!
# Looking up the names of the list function

The list function echoes the names of the strategies. Each is looked up among the arms of all case
statements of the script, nested ones included: the first arm that carries the name as a label
gives the arguments. A name is never dropped: without an arm, or with an arm that prints nothing,
it stays in the table with empty arguments and a warning.
-/

namespace CaseTable.Extraction

open CaseTable.Shell

/-- The words that the list function echoes, lone backslashes left out. -/
def listedWords (function source : Text) : Except ExtractionError (List Text) :=
  match functionBody? function source with
  | none => .error (.noFunction function)
  | some body =>
      match echoed? body.text with
      | none => .error (.noList function)
      | some list => .ok (list.words.filter fun word => word ≠ ['\\'])

/-- The arms of every case statement of a script, in the order of their heads, with a warning for
each statement without an `esac`. -/
def allArms (source : Text) : List Arm × List ExtractionWarning :=
  let read := (Place.start source).caseStarts.map fun start => (start, readArms? start)
  (read.flatMap fun (_, arms) => (arms.map Prod.fst).getD [],
    read.filterMap fun (start, arms) =>
      if arms.isNone then some (.unterminatedCase start.line) else none)

/-- The arguments of a listed name, with a warning if there are none to be found. -/
def lookUp (placeholder : Text) (arms : List Arm) (name : Text) :
    Text × List ExtractionWarning :=
  match arms.find? fun arm => arm.labels.contains name with
  | none => ([], [.noArm name])
  | some arm =>
      match argsOf? placeholder arm.body with
      | none => ([], [.noEcho name])
      | some args => (args, [])

def takeWord (script : ScriptNames) (arms : List Arm) (state : Table × List ExtractionWarning)
    (word : Text) : Table × List ExtractionWarning :=
  if isStrategyName word then
    let (args, missing) := lookUp script.placeholder arms word
    let (table, isNew) := state.1.insert word args
    (table, state.2 ++ missing ++ if isNew then [] else [.listedTwice word])
  else
    (state.1, state.2 ++ [.notAName word script.listFunction])

/-- The table of the names of the list function. -/
def byNames (script : ScriptNames) (source : Text) : Except ExtractionError Extraction :=
  match listedWords script.listFunction source with
  | .error cause => .error cause
  | .ok words =>
      let (arms, skipped) := allArms source
      let (table, warnings) := words.foldl (takeWord script arms) (∅, skipped)
      .ok ⟨table, .names, warnings⟩

end CaseTable.Extraction
