import ReverseSweep.Binary64
import ReverseSweep.Decimal.Digits

/-! The fewest decimal digits that read back as a given double, and their layout. Of several
numerals with that many digits the nearest is taken, an exact tie going to the even one. -/

namespace ReverseSweep.Decimal

/-- `coefficient * 10 ^ exponent`. -/
structure Numeral where
  coefficient : Nat
  exponent : Int
deriving DecidableEq, Repr

/-- Compares `a * 10 ^ g` with `b * 2 ^ e`. -/
def compareScales (a : Nat) (g : Int) (b : Nat) (e : Int) : Ordering :=
  compare (a * tenTo g.toNat * twoTo (-e).toNat) (b * twoTo e.toNat * tenTo (-g).toNat)

/-- The numbers that round to one double, in units of a quarter of its last place. The lower half
is narrower where the significand is a power of two, and the ends belong to an even one. -/
structure Interval where
  low : Nat
  middle : Nat
  high : Nat
  exponent : Int
  closed : Bool

def Interval.around (significand : Nat) (exponent : Int) : Interval where
  low := if significand = Binary64.leadingBit ∧ Binary64.leastExponent < exponent
    then 4 * significand - 1 else 4 * significand - 2
  middle := 4 * significand
  high := 4 * significand + 2
  exponent := exponent - 2
  closed := significand % 2 = 0

def Interval.holds (i : Interval) (a : Nat) (g : Int) : Bool :=
  let above := compareScales a g i.low i.exponent
  let below := compareScales a g i.high i.exponent
  (above == .gt || (i.closed && above == .eq)) && (below == .lt || (i.closed && below == .eq))

/-- The greatest `a` with `a * 10 ^ g` at most the middle. -/
def Interval.floorAt (i : Interval) (g : Int) : Nat :=
  (i.middle * twoTo i.exponent.toNat * tenTo (-g).toNat) /
    (tenTo g.toNat * twoTo (-i.exponent).toNat)

/-- The neighbour of the middle on the grid of multiples of `10 ^ g` that lies in the interval, the
nearer one if both do. -/
def Interval.onGrid? (i : Interval) (g : Int) : Option Nat :=
  let a := i.floorAt g
  match i.holds a g, i.holds (a + 1) g with
  | true, false => some a
  | false, true => some (a + 1)
  | false, false => none
  | true, true =>
    match compareScales (2 * a + 1) g (2 * i.middle) i.exponent with
    | .gt => some a
    | .lt => some (a + 1)
    | .eq => some (a + a % 2)

/-- The exponent `p` with `10 ^ (p - 1) ≤ middle < 10 ^ p`, near to `guess`. -/
def Interval.pointOf (i : Interval) : Int :=
  let bits : Int := (i.middle.log2 : Int) + i.exponent
  let guess := bits * 30103 / 100000
  if compareScales 1 (guess + 1) i.middle i.exponent == .gt then guess + 1 else guess + 2

/-- Grids from coarse to fine; the last one is fine enough to tell any two doubles apart. -/
def Interval.search (i : Interval) (point : Int) : Nat → Nat → Numeral
  | 0, count => ⟨i.floorAt (point - count), point - count⟩
  | tries + 1, count =>
    match i.onGrid? (point - count) with
    | some a => ⟨a, point - count⟩
    | none => i.search point tries (count + 1)

def Interval.fewest (i : Interval) : Numeral := i.search i.pointOf 17 1

/-- Drops zeros at the end of the coefficient, which only a carry can leave. -/
def Numeral.trimmed : Nat → Numeral → Numeral
  | 0, x => x
  | tries + 1, x =>
    if x.coefficient ≠ 0 ∧ x.coefficient % 10 = 0 then
      trimmed tries ⟨x.coefficient / 10, x.exponent + 1⟩
    else x

/-- How a numeral is set: plainly while its point lies in a range of places, else with an exponent
of at least two digits and a sign; and how what is not finite is spelt. -/
structure Layout where
  leastPoint : Int
  greatestPoint : Int
  infinity : String
  notANumber : String

def exponentChars (e : Int) : List Char :=
  (if e < 0 then '-' else '+') :: padZeros 2 (digits e.natAbs)

def Layout.numeral (l : Layout) (x : Numeral) : List Char :=
  let cs := digits x.coefficient
  let point : Int := cs.length + x.exponent
  if l.leastPoint ≤ point ∧ point ≤ l.greatestPoint then
    if point ≤ 0 then '0' :: '.' :: List.replicate (-point).toNat '0' ++ cs
    else
      let whole := cs.take point.toNat ++ List.replicate x.exponent.toNat '0'
      let rest := cs.drop point.toNat
      whole ++ '.' :: (if rest = [] then ['0'] else rest)
  else
    let rest := cs.drop 1
    cs.take 1 ++ (if rest = [] then [] else '.' :: rest) ++ 'e' :: exponentChars (point - 1)

def Layout.chars (l : Layout) (x : Float) : List Char :=
  match Binary64.read x with
  | .finite negative significand exponent =>
    let cs :=
      if significand = 0 then ['0', '.', '0']
      else l.numeral (Numeral.trimmed 17 (Interval.around significand exponent).fewest)
    if negative then '-' :: cs else cs
  | .infinite negative => (if negative then ['-'] else []) ++ l.infinity.toList
  | .notANumber => l.notANumber.toList

end ReverseSweep.Decimal
