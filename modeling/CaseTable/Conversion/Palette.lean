/-!
# Colours

The sequences that colour a terminal's text, by their use. The plain palette has none.
-/

namespace CaseTable

/-- What switches a colour on, by use, and what switches colours off again. -/
structure Palette where
    reset : String
    warning : String
    error : String
    path : String
    count : String
    deriving DecidableEq, Repr

namespace Palette

def coloured : Palette where
    reset := "\x1b[0m"
    warning := "\x1b[33m"
    error := "\x1b[31m"
    path := "\x1b[95m"
    count := "\x1b[38;5;81m"

def plain : Palette := ⟨"", "", "", "", ""⟩

def select (inColour : Bool) : Palette := if inColour then coloured else plain

end Palette

end CaseTable
