import CaseTable.Arguments
import CaseTable.Extraction
import CaseTable.Shell.Echo
import CaseTable.Shell.Function
import CaseTable.Shell.Header

/-!
# Reading the arms of the table function

Every arm of the first case statement in the table function offers one strategy per label, with the
arguments that its echo prints. An arm that prints nothing, or nothing but the placeholder, offers
none. Of two offers with one name the first is taken.
-/

namespace CaseTable.Extraction

open CaseTable.Shell

/-- The arguments that the body of an arm prints. -/
def argsOf? (placeholder body : Text) : Option Text :=
  (echoed? body).map (Arguments.clean placeholder)

/-- The strategies that an arm offers. -/
def offers (placeholder : Text) (arm : Arm) : List Entry :=
  match argsOf? placeholder arm.body with
  | none => []
  | some [] => []
  | some args => (arm.labels.filter isStrategyName).map fun label => ⟨label, args⟩

/-- Takes one offer, or warns that its name is taken. -/
def takeOffer (state : Table × List ExtractionWarning) (offer : Entry) :
    Table × List ExtractionWarning :=
  let (table, isNew) := state.1.insert offer.name offer.args
  (table, if isNew then state.2 else state.2 ++ [.duplicateArm offer.name])

def ofArms (placeholder : Text) (arms : List Arm) : Extraction :=
  let (table, warnings) := (arms.flatMap (offers placeholder)).foldl takeOffer (∅, [])
  ⟨table, .direct, warnings⟩

/-- Where the arms of the first case statement in the table function start. -/
def tableStart (function source : Text) : Except ExtractionError Place :=
  match functionBody? function source with
  | none => .error (.noFunction function)
  | some body =>
      match afterFirstCase? none body.text with
      | none => .error (.noCase function)
      | some rest => .ok (body.start.advance (body.text.length - rest.length))

def direct (script : ScriptNames) (source : Text) : Except ExtractionError Extraction :=
  match tableStart script.tableFunction source with
  | .error cause => .error cause
  | .ok start =>
      match readArms? start with
      | none => .error (.unterminated script.tableFunction start.line)
      | some (arms, _) => .ok (ofArms script.placeholder arms)

end CaseTable.Extraction
