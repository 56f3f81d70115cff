import CaseTable.Description
import CaseTable.Extraction
import CaseTable.Rendering

/-!
# Command line arguments

The command line is read argument by argument into settings. An argument that starts with two
hyphens names an option, and its value may follow an equals sign or be the next argument; all other
arguments are the two paths, in order. Two hyphens alone end the options.

A setting is settled when the next one begins: only then its value is looked at, so of several
faults the one that is reached first in this sense is reported. An unknown option is reported at
once, whatever was waiting to be settled.
-/

namespace CaseTable.CommandLine

/-- What the command line can set. -/
inductive Setting
    | input
    | output
    | policy
    | describe
    | layout
    | default
    | tableFunction
    | listFunction
    | placeholder
    | dryRun
    | colour
    | version
    | help
    deriving DecidableEq, Repr

inductive Arity
    | flag
    | value
    /-- One value, or the given one if there is none. -/
    | optionalValue (missing : Text)
    deriving DecidableEq, Repr

namespace Setting

def arity : Setting → Arity
  | dryRun | version | help => .flag
  | colour => .optionalValue "true".toList
  | _ => .value

def options : List (Text × Setting) := [
    ("policy".toList, policy),
    ("describe".toList, describe),
    ("layout".toList, layout),
    ("default".toList, default),
    ("table-function".toList, tableFunction),
    ("list-function".toList, listFunction),
    ("placeholder".toList, placeholder),
    ("dry-run".toList, dryRun),
    ("colour".toList, colour),
    ("version".toList, version),
    ("help".toList, help)]

def ofPosition? : Nat → Option Setting
  | 0 => some input
  | 1 => some output
  | _ => none

/-- Whether a value can be given to a setting: a choice must be spelled exactly, and a path must
not be empty. -/
def accepts (s : Setting) (value : Text) : Bool :=
  match s with
  | policy => [Policy.auto, .direct, .names].any fun choice => choice.name = value
  | describe => [DescriptionStyle.expanded, .simple].any fun choice => choice.name = value
  | layout => [Layout.grouped, .flat].any fun choice => choice.name = value
  | input | output => value ≠ []
  | _ => true

end Setting

/-- Why the arguments are not accepted. -/
inductive UsageError
    | helpRequested
    /-- An option that does not exist, or a third path. -/
    | unknownArgument (argument : Text)
    /-- A value for a setting that takes none. -/
    | unneededValue (setting : Setting)
    /-- A value that the setting does not accept, or none where one is needed. -/
    | invalidValue (setting : Setting)
    /-- A setting is given again. -/
    | repeated (setting : Setting)
    | missingPath
    deriving DecidableEq, Repr

/-- The settings with their values, in order. A flag has an empty value. -/
abbrev Matches := List (Setting × Text)

namespace Matches

def value? (m : Matches) (s : Setting) : Option Text := m.lookup s

def has (m : Matches) (s : Setting) : Bool := (m.lookup s).isSome

/-- Settles a setting: looks at the number of its values, then whether it is new, then at the
value. -/
def settle (m : Matches) (s : Setting) (given : Option Text) : Except UsageError Matches :=
  let value := match s.arity, given with
    | .flag, _ => some []
    | .value, given => given
    | .optionalValue missing, given => some (given.getD missing)
  match value with
  | none => .error (.invalidValue s)
  | some v =>
      if m.has s then .error (.repeated s)
      else if s.accepts v then .ok (m ++ [(s, v)])
      else .error (.invalidValue s)

end Matches

/-- Reading between two arguments: what is settled, the setting that is not yet, the number of
paths, and whether options are over. -/
structure State where
    settled : Matches
    pending : Option (Setting × Option Text)
    paths : Nat
    optionsOver : Bool
    deriving DecidableEq, Repr

namespace State

def initial : State := ⟨[], none, 0, false⟩

/-- Settles what is pending. -/
def resolve (s : State) : Except UsageError Matches :=
  match s.pending with
  | none => .ok s.settled
  | some (setting, given) => s.settled.settle setting given

/-- Settles what is pending and goes on with another setting. -/
def begin (s : State) (setting : Setting) (given : Option Text) : Except UsageError State :=
  match s.resolve with
  | .error e => .error e
  | .ok settled => .ok { s with settled := settled, pending := some (setting, given) }

/-- Settles what is pending and then a setting that is complete. -/
def complete (s : State) (setting : Setting) (given : Option Text) : Except UsageError State :=
  match s.resolve with
  | .error e => .error e
  | .ok settled =>
      match settled.settle setting given with
      | .error e => .error e
      | .ok settled => .ok { s with settled := settled, pending := none }

/-- Gives the help that was asked for, once what is pending is settled. -/
def askHelp (s : State) : Except UsageError State :=
  match s.resolve with
  | .error e => .error e
  | .ok _ => .error .helpRequested

def readPath (s : State) (argument : Text) : Except UsageError State :=
  match Setting.ofPosition? s.paths with
  | none => .error (.unknownArgument argument)
  | some setting => { s with paths := s.paths + 1 }.begin setting (some argument)

/-- An option's name and the value attached to it. -/
def splitOption (t : Text) : Text × Option Text :=
  match t.dropWhile (fun c => c ≠ '=') with
  | [] => (t, none)
  | _ :: value => (t.takeWhile fun c => c ≠ '=', some value)

/-- Reads an option, given what follows its two hyphens. -/
def readOption (s : State) (t : Text) : Except UsageError State :=
  let (name, attached) := splitOption t
  match Setting.options.lookup name with
  | none => .error (.unknownArgument ('-' :: '-' :: t))
  | some setting =>
      match setting.arity, attached with
      | .flag, some _ => .error (.unneededValue setting)
      | .flag, none => if setting = .help then s.askHelp else s.complete setting none
      | _, some value => s.complete setting (some value)
      | _, none => s.begin setting none

/-- Reads an argument that is neither an option nor the end of the options: the value that the
option before it waits for, or a path. -/
def readPlain (s : State) (argument : Text) : Except UsageError State :=
  match s.pending with
  | some (setting, none) => .ok { s with pending := some (setting, some argument) }
  | _ => s.readPath argument

def read (s : State) (argument : Text) : Except UsageError State :=
  if s.optionsOver then
    s.readPath argument
  else
    match argument with
    | ['-', '-'] => .ok { s with optionsOver := true }
    | '-' :: '-' :: t => s.readOption t
    | '-' :: 'h' :: _ => s.askHelp
    | '-' :: _ :: _ => .error (.unknownArgument argument)
    | _ => s.readPlain argument

def readAll (s : State) : List Text → Except UsageError State
  | [] => .ok s
  | argument :: rest =>
      match s.read argument with
      | .error e => .error e
      | .ok s => s.readAll rest

end State

/-- Reads a command line. Both paths are needed unless the version is asked for. -/
def Matches.parse (arguments : List Text) : Except UsageError Matches :=
  match State.initial.readAll arguments with
  | .error e => .error e
  | .ok s =>
      match s.resolve with
      | .error e => .error e
      | .ok m =>
          if m.has .version || (m.has .input && m.has .output) then .ok m
          else .error .missingPath

end CaseTable.CommandLine
