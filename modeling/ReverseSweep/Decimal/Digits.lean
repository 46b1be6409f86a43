/-! Decimal numerals of naturals and integers, without separators or leading zeros,
and the reading of a run of digits. -/

namespace ReverseSweep.Decimal

def digit (d : Nat) : Char := Char.ofNat ('0'.toNat + d)

def digitValue (c : Char) : Nat := c.toNat - '0'.toNat

def tenTo (k : Nat) : Nat := Nat.pow 10 k

def digits (n : Nat) : List Char :=
  if n < 10 then [digit n] else digits (n / 10) ++ [digit (n % 10)]

def ofDigits (cs : List Char) : Nat :=
  cs.foldl (fun n c => 10 * n + digitValue c) 0

def integerChars : Int → List Char
  | .ofNat n => digits n
  | .negSucc n => '-' :: digits (n + 1)

def integer (n : Int) : String := String.ofList (integerChars n)

def natural (n : Nat) : String := String.ofList (digits n)

def padZeros (width : Nat) (cs : List Char) : List Char :=
  List.replicate (width - cs.length) '0' ++ cs

def alignRight (width : Nat) (text : String) : String :=
  String.ofList (List.replicate (width - text.length) ' ') ++ text

def paddedNatural (width n : Nat) : String := String.ofList (padZeros width (digits n))

def integerList (ns : List Int) : String :=
  "[" ++ ", ".intercalate (ns.map integer) ++ "]"

end ReverseSweep.Decimal
