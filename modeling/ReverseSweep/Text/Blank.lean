/-! Unicode white space, and texts without it at either end. -/

namespace ReverseSweep.Text

def blankRanges : List (Nat × Nat) :=
  [(0x09, 0x0d), (0x1c, 0x20), (0x85, 0x85), (0xa0, 0xa0), (0x1680, 0x1680), (0x2000, 0x200a),
   (0x2028, 0x2029), (0x202f, 0x202f), (0x205f, 0x205f), (0x3000, 0x3000)]

def isBlank (c : Char) : Bool :=
  blankRanges.any fun (low, high) => low ≤ c.toNat && c.toNat ≤ high

def trim (text : String) : String :=
  String.ofList (((text.toList.dropWhile isBlank).reverse.dropWhile isBlank).reverse)

/-- The part of `text` before a closing `ending`, if it has one. -/
def beforeEnding? (ending text : String) : Option String :=
  let kept := text.toList.length - ending.toList.length
  if ending.toList.length ≤ text.toList.length ∧ text.toList.drop kept = ending.toList then
    some (String.ofList (text.toList.take kept))
  else none

end ReverseSweep.Text
