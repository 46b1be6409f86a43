import ReverseSweep.Decimal.Shortest

/-! Numbers as settings hold them: whole numbers, truth values that count as 0 and 1, and floating
numbers. Each kind keeps its own way to be shown. -/

namespace ReverseSweep

inductive Number
  | whole (n : Int)
  | truth (b : Bool)
  | float (x : Float)
deriving DecidableEq, Repr

def truthValue (b : Bool) : Int := if b then 1 else 0

namespace Number

/-- The whole number that it counts as, unless it is floating. -/
def whole? : Number → Option Int
  | whole n => some n
  | truth b => some (truthValue b)
  | float _ => none

def below (n : Int) : Number → Bool
  | whole m => m < n
  | truth b => truthValue b < n
  | float x => (Binary64.read x).below n

def above (n : Int) : Number → Bool
  | whole m => n < m
  | truth b => n < truthValue b
  | float x => (Binary64.read x).above n

def atMost (n : Int) : Number → Bool
  | whole m => m ≤ n
  | truth b => truthValue b ≤ n
  | float x => (Binary64.read x).atMost n

def succ : Number → Number
  | whole n => whole (n + 1)
  | truth b => whole (truthValue b + 1)
  | float x => float (x + 1)

/-- `n` for each one of it. -/
def share (n : Int) : Number → Float
  | whole m => nearestQuotient n m.toNat
  | truth b => nearestQuotient n (truthValue b).toNat
  | float x => nearestQuotient n 1 / x

/-- Whether a count is a multiple of it. It is at least 1, or not a number. -/
def divides (count : Nat) : Number → Bool
  | whole m => (count : Int) % m == 0
  | truth b => b
  | float x => floorRemainder (nearestQuotient count 1) x == 0

def layout : Decimal.Layout where
  leastPoint := -3
  greatestPoint := 16
  infinity := "inf"
  notANumber := "nan"

def display : Number → String
  | whole n => Decimal.integer n
  | truth true => "True"
  | truth false => "False"
  | float x => String.ofList (layout.chars x)

end Number
end ReverseSweep
