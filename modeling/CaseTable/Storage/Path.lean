import CaseTable.Text

/-!
# Paths

A path is cut at its slashes into segments. An empty segment and a segment of one dot lead nowhere,
except that a dot at the front of a relative path counts as a step. The last step names the file,
unless it is a dot or two dots; the segments up to the step before it name its directory.
-/

namespace CaseTable.Path

def segments (path : Text) : List Text := path.splitOn '/'

def isAbsolute (path : Text) : Bool := path.head? = some '/'

/-- The steps of a path, each with its number among the segments. -/
def steps (path : Text) : List (Text × Nat) :=
  (segments path).zipIdx.filter fun (segment, i) => segment ≠ [] && (segment ≠ ['.'] || i = 0)

def fileName? (path : Text) : Option Text :=
  ((steps path).getLast?.map Prod.fst).filter fun name => name ≠ ['.'] && name ≠ ['.', '.']

def directory (path : Text) : Text :=
  match (steps path).reverse with
  | _ :: (_, i) :: _ => Text.join ['/'] ((segments path).take (i + 1))
  | [_] => if isAbsolute path then ['/'] else ['.']
  | [] => ['.']

end CaseTable.Path
