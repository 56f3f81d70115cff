import CaseTable.Table

/-!
# Extractions

An extraction is the table found in a script, together with the policy that found it and the
warnings about what was passed over. The script names two functions: the table function holds the
case statement, the list function echoes the names of the strategies. A third name is the variable
that is dropped from the arguments.
-/

namespace CaseTable

/-- How strategies are looked for: among the arms of the table function, by the names of the list
function, or by the names only if the arms give nothing. -/
inductive Policy
    | auto
    | direct
    | names
    deriving DecidableEq, Repr

namespace Policy

def name : Policy → Text
  | auto => "auto".toList
  | direct => "direct".toList
  | names => "names".toList

def ofName? (word : Text) : Option Policy :=
  [auto, direct, names].find? fun policy => policy.name = word.toLowerAscii

end Policy

/-- The names that an extraction looks for in a script. -/
structure ScriptNames where
    tableFunction : Text
    listFunction : Text
    placeholder : Text
    deriving DecidableEq, Repr

namespace ScriptNames

/-- The names used by the stock scripts. -/
def stock : ScriptNames where
    tableFunction := "get_tcp_strategy_options".toList
    listFunction := "list_tcp_strategies".toList
    placeholder := "filter".toList

end ScriptNames

/-- Why a script holds no table. -/
inductive ExtractionError
    | noFunction (function : Text)
    | noCase (function : Text)
    | noList (function : Text)
    /-- The case statement of the function, whose head ends on this line, has no `esac`. -/
    | unterminated (function : Text) (line : Nat)
    deriving DecidableEq, Repr

namespace ExtractionError

def message : ExtractionError → String
  | noFunction f => s!"could not find {f.toString}() in the source"
  | noCase f => s!"could not find case statement in {f.toString}()"
  | noList f => s!"could not find strategy list in {f.toString}()"
  | unterminated f line =>
      s!"case statement in {f.toString}() starting on line {line} is not terminated by esac"

end ExtractionError

/-- What an extraction passed over or fell back to. -/
inductive ExtractionWarning
    /-- An arm repeats a strategy that an earlier arm gave. -/
    | duplicateArm (name : Text)
    /-- A listed word is not the name of a strategy. -/
    | notAName (word listFunction : Text)
    | noArm (name : Text)
    | noEcho (name : Text)
    | listedTwice (name : Text)
    /-- A case statement, whose head ends on this line, has no `esac`. -/
    | unterminatedCase (line : Nat)
    /-- The arms gave no strategy, so the list of names is used. -/
    | armsEmpty (tableFunction listFunction : Text)
    /-- The arms could not be read, so the list of names is used. -/
    | armsFailed (cause : ExtractionError) (listFunction : Text)
    /-- The arms gave no strategy and the list of names could not be used. -/
    | listFailed (cause : ExtractionError)
    deriving DecidableEq, Repr

namespace ExtractionWarning

def message : ExtractionWarning → String
  | duplicateArm name => s!"duplicate arm for strategy '{name.toString}' ignored"
  | notAName word f => s!"ignoring '{word.toString}' in {f.toString}(): not a strategy name"
  | noArm name => s!"could not find args for strategy '{name.toString}'"
  | noEcho name => s!"no echo in the arm for strategy '{name.toString}'"
  | listedTwice name => s!"strategy '{name.toString}' listed twice"
  | unterminatedCase line => s!"skipping unterminated case statement on line {line}"
  | armsEmpty table list =>
      s!"{table.toString}() yielded no strategies; using the name list from {list.toString}()"
  | armsFailed cause list => s!"{cause.message}; using the name list from {list.toString}()"
  | listFailed cause => s!"name list fallback failed: {cause.message}"

end ExtractionWarning

/-- A table found in a script, the policy that found it, and the warnings in order. -/
structure Extraction where
    table : Table
    policy : Policy
    warnings : List ExtractionWarning

/-- Whether a word can name a strategy: one or more ASCII letters, digits, underscores and
hyphens. -/
def isStrategyName (word : Text) : Bool :=
  !word.isEmpty && word.all fun c => c.isAlphanum || c = '_' || c = '-'

end CaseTable
