import CaseTable.Storage.Fault
import CaseTable.Text.Utf8

/-!
# Storage

What a conversion needs of a file system. A file is replaced in four steps: a temporary file is
created in the same directory, written, flushed, and moved over the old file; a temporary file that
did not get that far is removed. Each operation either does what it says or fails and changes
nothing.
-/

namespace CaseTable

/-- A file system as a monad `m` offers it. -/
class Storage (m : Type → Type) where
    Temporary : Type
    /-- Whether a path leads to a file or a directory. -/
    exists? : Text → m Bool
    read : Text → m (Except Fault Bytes)
    /-- Creates an empty temporary file in a directory. -/
    createTemporary : Text → m (Except Fault Temporary)
    temporaryPath : Temporary → Text
    /-- Writes the content of a temporary file. -/
    write : Temporary → Bytes → m (Except Fault Unit)
    /-- Makes sure that the content is stored. -/
    flush : Temporary → m (Except Fault Unit)
    /-- Moves a temporary file to a path, over the file that may be there. -/
    replace : Temporary → Text → m (Except Fault Unit)
    /-- Removes a temporary file. -/
    discard : Temporary → m Unit

end CaseTable
