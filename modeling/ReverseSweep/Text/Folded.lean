/-! The folding of a quoted text that is written over several lines. Blanks around a line break do
not count; a single plain break joins two lines by a space, and a break that is followed by further
ones gives way to them. -/

namespace ReverseSweep.Text

/-- The line break that a character makes. The separators of lines and of paragraphs stay what they
are. A line feed inside a quoted text is escaped, so it makes none. -/
def lineBreak? (c : Char) : Option Char :=
  if c = '\u0085' then some '\n'
  else if c = '\u2028' ∨ c = '\u2029' then some c
  else none

/-- Where the reading of a text stands: in a line, after some blanks, or before the next line, after
a break and later ones, the latest first. -/
inductive Margin
  | inLine (blanks : Nat)
  | afterBreak (first : Char) (later : List Char)
deriving DecidableEq, Repr

namespace Margin

/-- What it comes to once the line goes on, or ends with the text. -/
def chars : Margin → List Char
  | inLine blanks => List.replicate blanks ' '
  | afterBreak first [] => if first = '\n' then [' '] else [first]
  | afterBreak first later => if first = '\n' then later.reverse else first :: later.reverse

/-- The place after one more character, if that is a blank or a break. -/
def extend? (m : Margin) (c : Char) : Option Margin :=
  match m, lineBreak? c with
  | inLine _, some b => some (afterBreak b [])
  | afterBreak first later, some b => some (afterBreak first (b :: later))
  | inLine blanks, none => if c = ' ' then some (inLine (blanks + 1)) else none
  | afterBreak _ _, none => if c = ' ' then some m else none

end Margin

def foldedFrom : Margin → List Char → List Char
  | m, [] => m.chars
  | m, c :: rest =>
    match m.extend? c with
    | some m => foldedFrom m rest
    | none => m.chars ++ c :: foldedFrom (.inLine 0) rest

def folded (text : String) : String := String.ofList (foldedFrom (.inLine 0) text.toList)

end ReverseSweep.Text
