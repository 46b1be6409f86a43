import ReverseSweep.Binary64

/-! Sums of floating numbers. They depend on the order of the additions: one after another, or in
pairs of partial sums. -/

namespace ReverseSweep

def runningSum : List Float → Float
  | [] => 0
  | x :: rest => rest.foldl (· + ·) x

namespace Summation

/-- The number of partial sums that are kept side by side. -/
def lanes : Nat := 8

/-- The most numbers that are added without a division into halves. -/
def blockSize : Nat := 128

/-- Adds the numbers to the partial sums, as many at a time as there are of those. What is left over
at the end is returned. The fuel is at least the length of the list. -/
def addRounds : Nat → List Float → List Float → List Float × List Float
  | 0, sums, xs => (sums, xs)
  | fuel + 1, sums, xs =>
    if xs.length < lanes then (sums, xs)
    else addRounds fuel (List.zipWith (· + ·) sums (xs.take lanes)) (xs.drop lanes)

def pairUp : List Float → List Float
  | x :: y :: rest => (x + y) :: pairUp rest
  | rest => rest

/-- A sum by eight partial sums, joined in pairs; what does not fill them comes last. -/
def blockSum (xs : List Float) : Float :=
  if xs.length < lanes then runningSum xs
  else
    let (sums, rest) := addRounds xs.length (xs.take lanes) (xs.drop lanes)
    rest.foldl (· + ·) (runningSum (pairUp (pairUp (pairUp sums))))

def firstHalf (n : Nat) : Nat := n / 2 - n / 2 % lanes

/-- Long lists are divided into halves. The fuel is at least the length of the list. -/
def halvedSum : Nat → List Float → Float
  | 0, xs => blockSum xs
  | fuel + 1, xs =>
    if xs.length ≤ blockSize then blockSum xs
    else
      let half := firstHalf xs.length
      halvedSum fuel (xs.take half) + halvedSum fuel (xs.drop half)

end Summation

/-- A sum in pairs of partial sums, which keeps rounding errors small. -/
def pairwiseSum (xs : List Float) : Float := Summation.halvedSum xs.length xs

end ReverseSweep
