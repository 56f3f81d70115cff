import CaseTable.Text

/-!
# Sections of the written file

A strategy is written as a section of three lines and an empty one. Two sections have fixed names:
`disabled`, which every file starts with, and `default`, which repeats one strategy.
-/

namespace CaseTable

/-- A section of the written file: its name and the values of its two keys. -/
structure StrategySection where
    name : Text
    desc : Text
    args : Text
    deriving DecidableEq, Repr

namespace StrategySection

def disabledName : Text := "disabled".toList

def defaultName : Text := "default".toList

def isReserved (name : Text) : Bool := name = disabledName || name = defaultName

/-- The section that every file starts with. -/
def disabled : StrategySection := ⟨disabledName, "TCP bypass disabled".toList, []⟩

/-- The section that repeats a strategy as the default. -/
def defaultOf (name args : Text) : StrategySection :=
  ⟨defaultName, "Default TCP bypass strategy (".toList ++ name ++ [')'], args⟩

def lines (s : StrategySection) : List Text :=
  [['['] ++ s.name ++ [']'], "desc=".toList ++ s.desc, "args=".toList ++ s.args, []]

end StrategySection

end CaseTable
