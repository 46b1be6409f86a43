/-! Double-precision numbers read as sign, significand and power of two, and the double
nearest to a quotient of integers of any size. -/

namespace ReverseSweep

/-- The nearest whole number to `num / den`; a half goes to the even neighbour. -/
def roundQuotient (num den : Nat) : Nat :=
  let q := num / den
  let r := num % den
  if 2 * r < den then q else if den < 2 * r then q + 1 else q + q % 2

def twoTo (e : Nat) : Nat := Nat.pow 2 e

namespace Binary64

def fractionBits : Nat := 52
def leadingBit : Nat := 0x10000000000000
def leastExponent : Int := -1074
def infinityBits : Nat := 0x7ff0000000000000
def signBit : Nat := 0x8000000000000000

/-- What the 64 bits say: a finite number is `significand * 2 ^ exponent` with a sign. -/
inductive Reading
  | finite (negative : Bool) (significand : Nat) (exponent : Int)
  | infinite (negative : Bool)
  | notANumber
deriving DecidableEq, Repr

def read (x : Float) : Reading :=
  let bits := x.toBits.toNat
  let negative := decide (signBit ≤ bits)
  let magnitude := bits % signBit
  let field := magnitude / leadingBit
  let fraction := magnitude % leadingBit
  if field = 0x7ff then
    if fraction = 0 then .infinite negative else .notANumber
  else if field = 0 then
    .finite negative fraction leastExponent
  else
    .finite negative (leadingBit + fraction) (leastExponent + field - 1)

def signed (negative : Bool) (n : Nat) : Int := if negative then -n else n

namespace Reading

/-- Whether the number is less than `n`. What is not a number compares with nothing. -/
def below (n : Int) : Reading → Bool
  | finite negative m (.ofNat e) => signed negative (m * twoTo e) < n
  | finite negative m (.negSucc e) => signed negative m < n * twoTo (e + 1)
  | infinite negative => negative
  | notANumber => false

def above (n : Int) : Reading → Bool
  | finite negative m (.ofNat e) => n < signed negative (m * twoTo e)
  | finite negative m (.negSucc e) => n * twoTo (e + 1) < signed negative m
  | infinite negative => !negative
  | notANumber => false

def atMost (n : Int) : Reading → Bool
  | notANumber => false
  | r => !r.above n

end Reading

def Reading.cut? : Reading → Option Int
  | .finite negative m (.ofNat e) => some (signed negative (m * twoTo e))
  | .finite negative m (.negSucc e) => some (signed negative (m / twoTo (e + 1)))
  | _ => none

/-- `num * 2 ^ (-e) / den` as a quotient of naturals. -/
def scaled (num den : Nat) : Int → Nat × Nat
  | .ofNat e => (num, den * twoTo e)
  | .negSucc e => (num * twoTo (e + 1), den)

/-- The exponent at which a positive `num / den` has a significand of 53 bits, or the least
exponent there is. -/
def exponentOf (num den : Nat) : Int :=
  let k : Int := (num.log2 : Int) - den.log2
  let (n, d) := scaled num den k
  max leastExponent (if d ≤ n then k - fractionBits else k - fractionBits - 1)

/-- A significand of 53 bits carries its leading bit into the exponent field by addition, and so
does one that rounding has made a power of two. -/
def magnitudeBits (num den : Nat) : Nat :=
  if num = 0 then 0
  else
    let e := exponentOf num den
    let (n, d) := scaled num den e
    min infinityBits ((e - leastExponent).toNat * leadingBit + roundQuotient n d)

end Binary64

open Binary64 in
/-- The double nearest to `num / den`; a half goes to the even significand. -/
def nearestQuotient (num : Int) (den : Nat) : Float :=
  let magnitude := magnitudeBits num.natAbs den
  Float.ofBits (UInt64.ofNat (if num < 0 then signBit + magnitude else magnitude))

/-- The whole number nearest to `significand * 2 ^ exponent`; a half goes to the even one. -/
def roundScaled (significand : Nat) : Int → Nat
  | .ofNat e => significand * twoTo e
  | .negSucc e => roundQuotient significand (twoTo (e + 1))

def notANumber : Float := Float.ofBits 0x7ff8000000000000

/-- What is left of `x` after division by `y` toward zero, exactly. It has the sign of `x`. Nothing
is left of a division by zero. -/
def remainder (x y : Float) : Float :=
  match Binary64.read x, Binary64.read y with
  | .finite _ _ _, .finite _ 0 _ => notANumber
  | .finite negative m e, .finite _ n f =>
    let g := min e f
    let rest := m * twoTo (e - g).toNat % (n * twoTo (f - g).toNat)
    let size := nearestQuotient (rest * twoTo g.toNat : Nat) (twoTo (-g).toNat)
    if negative then -size else size
  | .finite _ _ _, .infinite _ => x
  | _, _ => notANumber

/-- What is left of `x` after division by `y` downward. It has the sign of `y`. -/
def floorRemainder (x y : Float) : Float :=
  let rest := remainder x y
  if rest == 0 then (if y < 0 then -0.0 else 0.0)
  else if decide (y < 0) == decide (rest < 0) then rest
  else rest + y

/-- Rounds to four decimal places by way of ten thousandths. -/
def roundedToFour (x : Float) : Float :=
  match Binary64.read (x * 10000) with
  | .finite negative significand exponent =>
    let n : Int := roundScaled significand exponent
    nearestQuotient (if negative then -n else n) 10000
  | _ => x

end ReverseSweep
