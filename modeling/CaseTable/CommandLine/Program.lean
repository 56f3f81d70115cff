import CaseTable.CommandLine.Choices

/-!
# The program

A run of the program takes its arguments and gives two texts and an exit status: 0 for success, 1
for a failed conversion or a refused value, 2 for arguments that are not accepted. Colours are used
if they are asked for, or if the output is a terminal and nothing is asked. A refused value is
reported before that is known, and so in colour.
-/

namespace CaseTable.CommandLine

/-- What a run leaves behind. -/
structure Outcome where
    status : Nat
    out : Text
    err : Text
    deriving DecidableEq, Repr

def versionLine : String := "strategies2ini 0.1.0 (branch:main, commit:0000000)"

def usage : List String := [
    "Convert the TCP strategy case table of a shell script into an INI file",
    "",
    "Usage: strategies2ini [OPTIONS] <INPUT> <OUTPUT>",
    "",
    "  --policy <auto|direct|names>    where strategies are looked for",
    "  --describe <expanded|simple>    how descriptions are worded",
    "  --layout <grouped|flat>         the order of the sections",
    "  --default <NAME>                the strategy for the section [default]",
    "  --table-function <NAME>         the function with the case table",
    "  --list-function <NAME>          the function that echoes the names",
    "  --placeholder <VAR>             the variable dropped from arguments",
    "  --dry-run                       print the document, write nothing",
    "  --colour [<yes|no>]             force coloured diagnostics",
    "  --version                       print the version",
    "  -h, --help                      print this help"]

namespace UsageError

def message : UsageError → String
  | helpRequested => ""
  | unknownArgument argument => s!"unexpected argument '{argument.toString}'"
  | unneededValue _ => "a value is given to an option that takes none"
  | invalidValue _ => "a value is missing or not accepted"
  | repeated _ => "an option is given more than once"
  | missingPath => "both paths are required"

end UsageError

def errorLine (p : Palette) (message : String) : String := s!"{p.error}error:{p.reset} {message}"

def failed (p : Palette) (status : Nat) (message : String) : Outcome :=
  ⟨status, [], unlines [errorLine p message]⟩

def Outcome.ofReport (p : Palette) (r : Report) : Outcome :=
  match r.failure with
  | none => ⟨0, r.out p, r.err p⟩
  | some cause => ⟨1, r.out p, r.err p ++ unlines [errorLine p cause.message]⟩

/-- Runs the program; `terminal` says whether the output goes to one. -/
def run {m : Type → Type} [Monad m] [Storage m] (terminal : Bool) (arguments : List Text) :
    m Outcome := do
  match Matches.parse arguments with
  | .error .helpRequested => return ⟨0, unlines usage, []⟩
  | .error e => return failed .plain 2 e.message
  | .ok settings =>
      match Choices.ofMatches settings with
      | .error e => return failed .coloured 1 e.message
      | .ok choices =>
          if choices.version then
            return ⟨0, unlines [versionLine], []⟩
          else
            let palette := Palette.select (choices.colour.getD terminal)
            match choices.conversion with
            | .error e => return failed palette 1 e.message
            | .ok options => return Outcome.ofReport palette (← convert options)

end CaseTable.CommandLine
