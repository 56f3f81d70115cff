import CaseTable.Storage
import CaseTable.Storage.Path

/-!
# A file system in memory

A disk holds files and directories by their locations, a location being the list of names from the
root down, and has a working directory where relative paths start. `node?` is the view of it: what
lies at a location.

A path is followed segment by segment, and every segment needs a directory to be looked up in. So a
slash at the end of a path asks for a directory, and two dots lead out of a directory that must
exist.

A device can refuse an operation for reasons of its own; `refuses` says which ones it does.
-/

namespace CaseTable

/-- The names on the way from the root. -/
abbrev Location := List Text

/-- What can lie at a location. -/
inductive Node
    | file (content : Bytes)
    | directory
    deriving DecidableEq, Repr

/-- An operation that a device may refuse. -/
inductive DiskRequest
    | read (path : Text)
    | create (directory : Text)
    | write
    | flush
    | replace (path : Text)
    deriving DecidableEq, Repr

/-- A file system in memory. -/
structure Disk where
    nodes : List (Location × Node)
    working : Location
    refuses : DiskRequest → Option Fault := fun _ => none

namespace Disk

/-- The longest name in bytes. -/
def maxName : Nat := 255

/-- The shortest path in bytes that is too long. -/
def pathLimit : Nat := 4096

/-- What lies at a location; the root is a directory. -/
def node? (d : Disk) (l : Location) : Option Node :=
  if l = [] then some .directory else d.nodes.lookup l

def isDirectory (d : Disk) (l : Location) : Bool := d.node? l = some .directory

/-- The disk with a node put at a location. -/
def put (d : Disk) (l : Location) (n : Node) : Disk :=
  { d with nodes := d.nodes.filter (fun e => e.1 ≠ l) ++ [(l, n)] }

def erase (d : Disk) (l : Location) : Disk :=
  { d with nodes := d.nodes.filter fun e => e.1 ≠ l }

/-- Follows one segment of a path from a location. -/
def step (d : Disk) (l : Location) (segment : Text) : Except Fault Location :=
  if !d.isDirectory l then .error .notADirectory
  else if segment = [] ∨ segment = ['.'] then .ok l
  else if segment = ['.', '.'] then .ok l.dropLast
  else if Text.byteSize segment > maxName then .error .nameTooLong
  else if (d.node? (l ++ [segment])).isSome then .ok (l ++ [segment])
  else .error .noSuchFile

/-- Follows segments from a location, one after the other. -/
def follow (d : Disk) (l : Location) : List Text → Except Fault Location
  | [] => .ok l
  | segment :: rest =>
      match d.step l segment with
      | .error f => .error f
      | .ok l => follow d l rest

/-- Where a path starts. -/
def origin (d : Disk) (path : Text) : Location :=
  if Path.isAbsolute path then [] else d.working

/-- What is wrong with a path as such. -/
def pathFault? (path : Text) : Option Fault :=
  if path.contains '\x00' then some .nulInPath
  else if path = [] then some .noSuchFile
  else if Text.byteSize path ≥ pathLimit then some .nameTooLong
  else none

/-- The location that a path leads to. -/
def resolve (d : Disk) (path : Text) : Except Fault Location :=
  match pathFault? path with
  | some f => .error f
  | none => d.follow (d.origin path) (Path.segments path)

def read (d : Disk) (path : Text) : Except Fault Bytes :=
  match d.refuses (.read path) with
  | some f => .error f
  | none =>
      match d.resolve path with
      | .error f => .error f
      | .ok l =>
          match d.node? l with
          | some (.file content) => .ok content
          | some .directory => .error .isADirectory
          | none => .error .noSuchFile

def temporaryName (n : Nat) : Text := ".tmp".toList ++ (Nat.repr n).toList

/-- A free location for a temporary file in a directory: of more names than the disk has nodes, one
is free. -/
def freeLocation? (d : Disk) (l : Location) : Option Location :=
  ((List.range (d.nodes.length + 1)).map fun n => l ++ [temporaryName n]).find? fun l =>
    (d.node? l).isNone

def createTemporary (d : Disk) (path : Text) : Except Fault (Location × Disk) :=
  match d.refuses (.create path) with
  | some f => .error f
  | none =>
      match d.resolve path with
      | .error f => .error f
      | .ok l =>
          if d.isDirectory l then
            match d.freeLocation? l with
            | some l => .ok (l, d.put l (.file []))
            | none => .error .noFreeName
          else
            .error .notADirectory

/-- The segments of a path without the empty ones at its end. -/
def coreSegments (path : Text) : List Text :=
  ((Path.segments path).reverse.dropWhile (fun segment => segment = [])).reverse

/-- Where a file that is moved to a path will lie. The directory must exist, the last name must be
one that a file can have, and no directory may lie there. -/
def target (d : Disk) (path : Text) : Except Fault Location :=
  match pathFault? path with
  | some f => .error f
  | none =>
      let core := coreSegments path
      match core.getLast? with
      | none => .error .busy
      | some name =>
          match d.follow (d.origin path) core.dropLast with
          | .error f => .error f
          | .ok l =>
              if !d.isDirectory l then .error .notADirectory
              else if name = ['.'] ∨ name = ['.', '.'] then .error .busy
              else if Text.byteSize name > maxName then .error .nameTooLong
              else if path.getLast? = some '/' then .error .notADirectory
              else if d.isDirectory (l ++ [name]) then .error .isADirectory
              else .ok (l ++ [name])

/-- Moves the file at a location to a path. -/
def replace (d : Disk) (l : Location) (path : Text) : Except Fault Disk :=
  match d.refuses (.replace path) with
  | some f => .error f
  | none =>
      match d.target path, d.node? l with
      | .error f, _ => .error f
      | .ok t, some n => .ok ((d.erase l).put t n)
      | .ok _, none => .error .noSuchFile

/-- A disk as the state of a computation is a storage. -/
instance : Storage (StateM Disk) where
  Temporary := Location
  exists? path := do
    let d ← get
    match d.resolve path with
    | .ok _ => return true
    | .error _ => return false
  read path := do
    return (← get).read path
  createTemporary path := do
    match (← get).createTemporary path with
    | .error f => return .error f
    | .ok (l, d) =>
        set d
        return .ok l
  temporaryPath l := '/' :: Text.join ['/'] l
  write l content := do
    let d ← get
    match d.refuses .write with
    | some f => return .error f
    | none =>
        set (d.put l (.file content))
        return .ok ()
  flush _ := do
    match (← get).refuses .flush with
    | some f => return .error f
    | none => return .ok ()
  replace l path := do
    match (← get).replace l path with
    | .error f => return .error f
    | .ok d =>
        set d
        return .ok ()
  discard l := modify fun d => d.erase l

end Disk

end CaseTable
