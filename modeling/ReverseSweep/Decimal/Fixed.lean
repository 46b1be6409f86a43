import ReverseSweep.Binary64
import ReverseSweep.Decimal.Digits

/-! Numbers with a fixed count of decimal places. The exact value of the double is rounded, a half
to the even digit, and the sign of a rounded zero is kept. -/

namespace ReverseSweep.Decimal

def pointed (places n : Nat) : List Char :=
  let whole := digits (n / tenTo places)
  if places = 0 then whole
  else whole ++ '.' :: padZeros places (digits (n % tenTo places))

def signed (negative : Bool) (cs : List Char) : List Char :=
  if negative then '-' :: cs else cs

def fixedChars (places : Nat) (x : Float) : List Char :=
  match Binary64.read x with
  | .finite negative significand exponent =>
    signed negative (pointed places (roundScaled (significand * tenTo places) exponent))
  | .infinite negative => signed negative ['i', 'n', 'f']
  | .notANumber => ['n', 'a', 'n']

def fixed (places : Nat) (x : Float) : String := String.ofList (fixedChars places x)

end ReverseSweep.Decimal
