import CaseTable.CommandLine.Grammar
import CaseTable.Conversion
import CaseTable.Text.Quoted

/-!
# Choices

The settings of a command line as typed choices, with defaults that fit the stock scripts. Names of
functions and of the placeholder must be shell identifiers; only the placeholder may be empty,
which keeps the arguments as they are.
-/

namespace CaseTable.CommandLine

/-- Why a value is refused. -/
inductive ValueError
    | notIdentifier (option value : Text)
    /-- The value says neither yes nor no. -/
    | notColour (word : Text)
    | notChoice (option : Text)
    deriving DecidableEq, Repr

namespace ValueError

def message : ValueError → String
  | notIdentifier option value =>
      s!"invalid value for --{option.toString}: {value.quoted.toString} is not a shell identifier"
  | notColour word => s!"invalid value for --colour: {word.toString}"
  | notChoice option => s!"invalid value for --{option.toString}"

end ValueError

/-- Whether a text is a shell identifier: a letter or an underscore, then letters, digits and
underscores, all ASCII. -/
def isIdentifier : Text → Bool
  | [] => false
  | c :: t => (c.isAlpha || c = '_') && t.all fun c => c.isAlphanum || c = '_'

def readIdentifier (option value : Text) : Except ValueError Text :=
  if isIdentifier value then .ok value else .error (.notIdentifier option value)

/-- Reads the word for colours, in any mixture of ASCII cases; the empty word asks for nothing. -/
def readColour (value : Text) : Except ValueError (Option Bool) :=
  let word := value.toLowerAscii
  if word = [] then .ok none
  else if word = "true".toList ∨ word = "yes".toList then .ok (some true)
  else if word = "false".toList ∨ word = "no".toList then .ok (some false)
  else .error (.notColour word)

/-- Reads a choice, or takes the default where none is made. -/
def readChoice {α : Type} (option : Text) (read : Text → Option α) (unset : α) :
    Option Text → Except ValueError α
  | none => .ok unset
  | some word =>
      match read word with
      | some choice => .ok choice
      | none => .error (.notChoice option)

/-- The choices that a command line makes. -/
structure Choices where
    input : Option Text
    output : Option Text
    policy : Policy
    style : DescriptionStyle
    layout : Layout
    default : Option Text
    script : ScriptNames
    dryRun : Bool
    colour : Option Bool
    version : Bool
    deriving DecidableEq, Repr

inductive MissingPath
    | input
    | output
    deriving DecidableEq, Repr

namespace MissingPath

def message : MissingPath → String
  | input => "INPUT path is required"
  | output => "OUTPUT path is required"

end MissingPath

namespace Choices

/-- The choices in a list of settings. The placeholder is looked at first, then the two functions,
then the colours. -/
def ofMatches (m : Matches) : Except ValueError Choices := do
  let policy ← readChoice "policy".toList Policy.ofName? .auto (m.value? .policy)
  let style ← readChoice "describe".toList DescriptionStyle.ofName? .expanded (m.value? .describe)
  let layout ← readChoice "layout".toList Layout.ofName? .grouped (m.value? .layout)
  let stock := ScriptNames.stock
  let placeholder ←
    match m.value? .placeholder with
    | none => .ok stock.placeholder
    | some [] => .ok []
    | some name => readIdentifier "placeholder".toList name
  let tableFunction ← readIdentifier "table-function".toList
    ((m.value? .tableFunction).getD stock.tableFunction)
  let listFunction ← readIdentifier "list-function".toList
    ((m.value? .listFunction).getD stock.listFunction)
  let colour ← readColour ((m.value? .colour).getD [])
  return {
    input := m.value? .input
    output := m.value? .output
    policy := policy
    style := style
    layout := layout
    default := m.value? .default
    script := ⟨tableFunction, listFunction, placeholder⟩
    dryRun := m.has .dryRun
    colour := colour
    version := m.has .version }

def conversion (c : Choices) : Except MissingPath ConversionOptions :=
  match c.input, c.output with
  | none, _ => .error .input
  | some _, none => .error .output
  | some input, some output =>
      .ok ⟨input, output, c.policy, c.script, c.style, c.layout, c.default, c.dryRun⟩

end Choices

end CaseTable.CommandLine
