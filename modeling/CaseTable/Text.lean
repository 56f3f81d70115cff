/-!
# Text

A text is the list of its characters, so that everything read or written here can be taken apart
by pattern matching and proved by induction. `String` is used for fixed wordings only.

The file holds what the readers and the writer share: cutting a known start or end off a text,
replacing, splitting into lines, the order that sections are sorted by, and the size in UTF-8, which
is the unit of every offset that is shown to a user.
-/

namespace CaseTable

/-- A text, as the list of its characters. -/
abbrev Text := List Char

namespace Text

def toString (t : Text) : String := String.ofList t

/-- How many bytes the text takes in UTF-8. -/
def byteSize (t : Text) : Nat := t.foldr (fun c size => c.utf8Size + size) 0

@[simp] theorem byteSize_nil : byteSize [] = 0 := rfl

@[simp] theorem byteSize_cons (c : Char) (t : Text) :
    byteSize (c :: t) = c.utf8Size + byteSize t := rfl

@[simp] theorem byteSize_append (s t : Text) : byteSize (s ++ t) = byteSize s + byteSize t := by
  induction s with
  | nil => simp
  | cons c s ih => rw [List.cons_append, byteSize_cons, ih, byteSize_cons, Nat.add_assoc]

@[simp] theorem byteSize_reverse (t : Text) : byteSize t.reverse = byteSize t := by
  induction t with
  | nil => rfl
  | cons c t ih =>
      rw [List.reverse_cons, byteSize_append, ih, byteSize_cons, byteSize_cons, byteSize_nil,
        Nat.add_zero, Nat.add_comm]

/-- Whether a text stands no later than another. Their first different characters decide, by code
point. -/
def isLe : Text → Text → Bool
  | [], _ => true
  | _ :: _, [] => false
  | c :: s, d :: t => c.toNat < d.toNat || c = d && isLe s t

/-- What follows `start` in a text that starts with it. -/
def afterStart? : Text → Text → Option Text
  | [], t => some t
  | _ :: _, [] => none
  | c :: start, d :: t => if c = d then afterStart? start t else none

theorem afterStart?_eq_some_iff {start t rest : Text} :
    afterStart? start t = some rest ↔ t = start ++ rest := by
  induction start generalizing t with
  | nil => simp [afterStart?]
  | cons c start ih =>
      cases t with
      | nil => simp [afterStart?]
      | cons d t =>
          by_cases h : c = d
          · simp [afterStart?, h, ih]
          · simp [afterStart?, h, Ne.symm h]

/-- What precedes `finish` in a text that ends with it. -/
def beforeEnd? (finish t : Text) : Option Text :=
  (afterStart? finish.reverse t.reverse).map List.reverse

theorem beforeEnd?_eq_some_iff {finish t rest : Text} :
    beforeEnd? finish t = some rest ↔ t = rest ++ finish := by
  simp only [beforeEnd?, Option.map_eq_some_iff, afterStart?_eq_some_iff]
  constructor
  · rintro ⟨r, h, rfl⟩
    simpa using congrArg List.reverse h
  · rintro rfl
    exact ⟨rest.reverse, by simp, by simp⟩

/-- Replaces the occurrences of `old`, found from left to right and never overlapping. The empty
text occurs before every character and at the end. -/
def replaceAll (old new : Text) : Text → Text
  | [] => if old = [] then new else []
  | c :: t =>
      if old = [] then
        new ++ c :: replaceAll old new t
      else if old.isPrefixOf (c :: t) then
        new ++ replaceAll old new (t.drop (old.length - 1))
      else
        c :: replaceAll old new t
termination_by t => t.length
decreasing_by all_goals simp; try omega

/-- The lines of a text. A line ends at a line feed, and a carriage return directly before it
belongs to the line end; the last line may do without. -/
def lines : Text → List Text
  | [] => []
  | '\n' :: t => [] :: lines t
  | '\r' :: '\n' :: t => [] :: lines t
  | c :: t =>
      match lines t with
      | [] => [[c]]
      | line :: rest => (c :: line) :: rest

/-- The pieces with `separator` between each two. -/
def join (separator : Text) (pieces : List Text) : Text := separator.intercalate pieces

def toLowerAscii (t : Text) : Text := t.map Char.toLower

end Text

end CaseTable
