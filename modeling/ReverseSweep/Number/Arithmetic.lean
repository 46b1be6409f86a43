import ReverseSweep.Fault

/-! Sums, products and remainders of numbers. Those of whole numbers and truth values are exact;
once a floating number takes part, everything is floating. -/

namespace ReverseSweep.Number

def toFloat : Number → Except Fault Float
  | float x => .ok x
  | whole n =>
    let x := nearestQuotient n 1
    if x.isInf then .error .tooLargeForFloat else .ok x
  | truth b => .ok (nearestQuotient (truthValue b) 1)

def combine (exact : Int → Int → Int) (rounded : Float → Float → Float) (a b : Number) :
    Except Fault Number :=
  match a.whole?, b.whole? with
  | some m, some n => .ok (whole (exact m n))
  | _, _ => do
    let x ← a.toFloat
    let y ← b.toFloat
    .ok (float (rounded x y))

def add (a b : Number) : Except Fault Number := combine (· + ·) (· + ·) a b

def multiply (a b : Number) : Except Fault Number := combine (· * ·) (· * ·) a b

def modulo (a b : Number) : Except Fault Number :=
  match a.whole?, b.whole? with
  | some _, some 0 => .error .zeroModulus
  | some m, some n => .ok (whole (m.fmod n))
  | _, _ => do
    let x ← a.toFloat
    let y ← b.toFloat
    if y == 0 then .error .zeroFloatModulus else .ok (float (floorRemainder x y))

end ReverseSweep.Number
