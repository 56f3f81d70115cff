import CaseTable.Description
import CaseTable.Rendering.Default
import CaseTable.Rendering.Group
import CaseTable.Rendering.Section

/-!
# Rendering a table

The written file is a head of comment lines, the section `disabled`, the section `default` if there
is a default, and then one section for every other strategy. Strategies with the name of a fixed
section are left out with a warning. A flat file keeps the order of the table. A grouped file has
the groups in their order, each under a title and sorted by name, and no title for an empty group.

After its head the file is a list of blocks, headings and sections; the text and the list of sections
are two readings of it.
-/

namespace CaseTable

/-- The order of the sections. -/
inductive Layout
    | grouped
    | flat
    deriving DecidableEq, Repr

namespace Layout

def name : Layout → Text
  | grouped => "grouped".toList
  | flat => "flat".toList

def ofName? (word : Text) : Option Layout :=
  [grouped, flat].find? fun layout => layout.name = word.toLowerAscii

end Layout

/-- How a table is to be rendered: the default asked for, the layout, the style of the
descriptions, and the name of the script for the head. -/
structure RenderingOptions where
    default : Option Text
    layout : Layout
    style : DescriptionStyle
    sourceName : Text
    deriving DecidableEq, Repr

/-- A part of the written file after its head. -/
inductive Block
    | heading (title : Text)
    | body (content : StrategySection)
    deriving DecidableEq, Repr

namespace Block

def lines : Block → List Text
  | heading t => ["# ==================== ".toList ++ t ++ " ====================".toList, []]
  | body s => s.lines

def content? : Block → Option StrategySection
  | heading _ => none
  | body s => some s

end Block

/-- A rendered table: the text, its sections in order, the default, and the warnings in order. -/
structure Rendering where
    text : Text
    sections : List StrategySection
    default : Option Text
    warnings : List RenderingWarning
    deriving DecidableEq, Repr

namespace Rendering

/-- The comment lines at the head of the file. -/
def head (sourceName : Text) : List Text := [
    "# ===============================".toList,
    "# TCP Strategies for nfqws2".toList,
    "# ===============================".toList,
    "# Auto-generated from ".toList ++ sourceName,
    "# Each section [strategy_name] contains:".toList,
    "# - desc: Description of strategy".toList,
    ("# - args: Lua desync arguments (WITHOUT --filter-tcp, --hostlist - " ++
      "they come from categories)").toList,
    "#".toList,
    "# Usage: These strategies are applied to TCP/TLS traffic".toList,
    ("# Filter arguments (--filter-tcp, --hostlist, --ipset) " ++
      "are added by categories.txt").toList,
    []]

/-- The sections that come first: `disabled`, and `default` if there is one. -/
def leading (t : Table) (default : Option Text) : List StrategySection :=
  .disabled :: (default.map fun name => .defaultOf name ((t.get? name).getD [])).toList

/-- The strategies other than the default. -/
def others (t : Table) (default : Option Text) : List Entry :=
  t.entries.filter fun e => some e.name ≠ default

/-- The strategies that get a section under their own name. -/
def remaining (t : Table) (default : Option Text) : List Entry :=
  (others t default).filter fun e => !StrategySection.isReserved e.name

/-- The warnings about strategies that get none. -/
def reservedWarnings (t : Table) (default : Option Text) : List RenderingWarning :=
  ((others t default).filter fun e => StrategySection.isReserved e.name).map fun e =>
    .reservedName e.name

def sectionOf (style : DescriptionStyle) (e : Entry) : StrategySection :=
  ⟨e.name, describe style e.name, e.args⟩

/-- The strategies of one slot, sorted by name. -/
def bucket (entries : List Entry) (slot : Nat) : List Entry :=
  (entries.filter fun e => Group.slotOf e.name = slot).mergeSort fun a b => a.name.isLe b.name

/-- The blocks of one slot: a title and the sections, or nothing. -/
def slotBlocks (style : DescriptionStyle) (entries : List Entry) (slot : Nat) : List Block :=
  match bucket entries slot with
  | [] => []
  | e :: rest =>
      .heading (Group.titleOf slot) :: (e :: rest).map fun e => .body (sectionOf style e)

/-- The blocks after the leading sections. -/
def bodyBlocks (layout : Layout) (style : DescriptionStyle) (entries : List Entry) : List Block :=
  match layout with
  | .flat => entries.map fun e => .body (sectionOf style e)
  | .grouped => (List.range (Group.otherSlot + 1)).flatMap (slotBlocks style entries)

def blocks (t : Table) (o : RenderingOptions) : List Block :=
  let default := t.default? o.default
  (leading t default).map .body ++ bodyBlocks o.layout o.style (remaining t default)

end Rendering

def render (t : Table) (o : RenderingOptions) : Rendering where
    text := Text.join ['\n']
      (Rendering.head o.sourceName ++ (Rendering.blocks t o).flatMap Block.lines)
    sections := (Rendering.blocks t o).filterMap Block.content?
    default := t.default? o.default
    warnings := t.defaultWarnings o.default ++ Rendering.reservedWarnings t (t.default? o.default)

end CaseTable
