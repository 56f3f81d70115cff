import CaseTable.Text.Casing

/-!
# Descriptions

A strategy's description is worded from its name. The expanded style writes underscores as spaces,
spells out known abbreviations one after the other, each in what the earlier ones left, and starts
with a capital. The simple style changes the case of the first word only.
-/

namespace CaseTable

namespace Text

/-- The text with its first character in upper case. -/
def capitalizeFirst : Text → Text
  | [] => []
  | c :: t => upperCase c ++ t

/-- The text with its first character in upper case and the others in lower case. -/
def capitalizeWord : Text → Text
  | [] => []
  | c :: t => upperCase c ++ t.flatMap lowerCase

end Text

/-- How descriptions are worded. -/
inductive DescriptionStyle
  | expanded
  | simple
  deriving DecidableEq, Repr

namespace DescriptionStyle

def name : DescriptionStyle → Text
  | expanded => "expanded".toList
  | simple => "simple".toList

def ofName? (word : Text) : Option DescriptionStyle :=
  [expanded, simple].find? fun style => style.name = word.toLowerAscii

end DescriptionStyle

namespace Description

/-- The known abbreviations with their wordings, in the order in which they are replaced. -/
def abbreviations : List (Text × Text) := [
    ("syndata".toList, "SYN data".toList),
    ("multisplit".toList, "multi-split".toList),
    ("multidisorder".toList, "multi-disorder".toList),
    ("tls google".toList, "TLS Google pattern".toList),
    ("tls max".toList, "TLS Max.ru pattern".toList),
    ("seqovl".toList, "sequence overlap".toList),
    ("midsld".toList, "mid-SLD position".toList),
    ("sniext".toList, "SNI extension".toList),
    ("autottl".toList, "auto TTL".toList),
    ("badseq".toList, "bad sequence".toList),
    ("md5sig".toList, "MD5 signature".toList),
    ("tcpack".toList, "TCP ACK manipulation".toList),
    ("fakedsplit".toList, "fake+split".toList),
    ("fakeddisorder".toList, "fake+disorder".toList),
    ("datanoack".toList, "data without ACK".toList),
    ("ipfrag".toList, "IP fragmentation".toList),
    ("udplen".toList, "UDP length".toList),
    ("wssize".toList, "window size".toList)]

def spaced (name : Text) : Text := name.map fun c => if c = '_' then ' ' else c

def spellOut (t : Text) : Text :=
  abbreviations.foldl (fun t (short, long) => Text.replaceAll short long t) t

/-- The expanded wording, still without its capital. -/
def expansion (name : Text) : Text := spellOut (spaced name)

/-- The expanded description. -/
def expanded (name : Text) : Text := (expansion name).capitalizeFirst

def simple (name : Text) : Text :=
  match name.splitOn '_' with
  | [] => []
  | word :: rest => Text.join [' '] (Text.capitalizeWord word :: rest)

end Description

/-- The description of a strategy in a style. -/
def describe : DescriptionStyle → Text → Text
  | .expanded => Description.expanded
  | .simple => Description.simple

end CaseTable
