import CaseTable.Text

/-!
# Groups of strategies

A grouped file puts strategies together by the first part of their names. A name belongs to a group
if it is the group's stem, or starts with the stem and an underscore; of several stems the longest
decides. The groups have a fixed order, and what belongs to none comes last.
-/

namespace CaseTable

/-- A group: the stem of its names and its title. -/
structure Group where
    stem : Text
    title : Text
    deriving DecidableEq, Repr

namespace Group

def all : List Group := [
    ⟨"syndata".toList, "SYNDATA STRATEGIES".toList⟩,
    ⟨"seqovl".toList, "SEQUENCE OVERLAP STRATEGIES".toList⟩,
    ⟨"multisplit".toList, "MULTISPLIT STRATEGIES".toList⟩,
    ⟨"multidisorder".toList, "MULTIDISORDER STRATEGIES".toList⟩,
    ⟨"fake".toList, "FAKE PACKET STRATEGIES".toList⟩,
    ⟨"tls".toList, "TLS-SPECIFIC STRATEGIES".toList⟩,
    ⟨"dis".toList, "DISORDER STRATEGIES".toList⟩,
    ⟨"general".toList, "GENERAL STRATEGIES".toList⟩,
    ⟨"censorliber".toList, "CENSORLIBER STRATEGIES".toList⟩]

def otherTitle : Text := "OTHER STRATEGIES".toList

def holds (g : Group) (name : Text) : Bool :=
  name = g.stem || (g.stem ++ ['_']).isPrefixOf name

/-- The slot after the last group, for names that belong to none. -/
def otherSlot : Nat := all.length

/-- Of two numbered groups the one with the longer stem; of equal stems the later. -/
def longer (best : Option (Group × Nat)) (candidate : Group × Nat) : Option (Group × Nat) :=
  match best with
  | none => some candidate
  | some (g, slot) =>
      if g.stem.length ≤ candidate.1.stem.length then some candidate else some (g, slot)

/-- The slot of a name: the number of its group in the order. -/
def slotOf (name : Text) : Nat :=
  match (all.zipIdx.filter fun (g, _) => g.holds name).foldl longer none with
  | some (_, slot) => slot
  | none => otherSlot

def titleOf (slot : Nat) : Text := (all[slot]?.map Group.title).getD otherTitle

end Group

end CaseTable
