import ReverseSweep.Binary64
import ReverseSweep.Fault
import ReverseSweep.Nested

/-! Computations on whole vectors, recorded for their gradients. The gradients and the hyperbolic
tangent are those of whoever differentiates; here stands one way to do so, which is exact. -/

namespace ReverseSweep.RecurrenceGradient

abbrev Vector := List Int

/-- The component that a value stands for. Floating numbers lose their decimal places. -/
def component : Json → Except Fault Int
  | .int n => (Number.whole n).toFloat.map fun _ => n
  | .bool b => .ok (truthValue b)
  | .float x =>
    match (Binary64.read x).cut? with
    | some n => .ok n
    | none => .error .entryNotWhole
  | value => .error (.notReal value.kindName)

def dot : Vector → Vector → Int
  | a :: as, b :: bs => a * b + dot as bs
  | _, _ => 0

def total (a : Vector) : Int := a.foldl (· + ·) 0

/-- A vector with one component stands for vectors of every length with this component. -/
def add (a b : Vector) : Except Fault Vector :=
  if a.length = b.length then .ok (List.zipWith (· + ·) a b)
  else
    match a, b with
    | [x], b => .ok (b.map (x + ·))
    | a, [y] => .ok (a.map (· + y))
    | a, b => .error (.unequalTerms a.length b.length)

/-- A matrix by its rows, or a row that is given by itself. -/
inductive Weight
  | matrix (vectors : List Vector)
  | row (vector : Vector)

namespace Weight

def rows : Weight → List Vector
  | matrix vectors => vectors
  | row vector => [vector]

def columns (w : Weight) : Nat := (w.rows.head?.map List.length).getD 0

def product (w : Weight) (x : Vector) : Except Fault Vector :=
  if w.columns = x.length then .ok (w.rows.map (dot · x))
  else
    match w with
    | matrix vectors => .error (.unequalFactors vectors.length w.columns x.length)
    | row vector => .error (.unequalVectors vector.length x.length)

/-- The components of the transposed product with `y`, as many as asked for. -/
def transposedProduct (w : Weight) (count : Nat) (y : Vector) : Vector :=
  (List.range count).map fun j => dot (w.rows.map fun row => row.getD j 0) y

/-- A weight of numbers in a single row, or in rows. -/
def ofNested? (n : Nested Int) : Option Weight := n.row?.map row <|> n.matrix?.map matrix

end Weight

/-- A computation on a vector, as it is recorded. -/
inductive Graph
  | leaf
  | product (weight : Weight) (g : Graph)
  | sum (g : Graph) (bias : Vector)
  | tanh (g : Graph)

/-- What products and sums do not give: the hyperbolic tangent, the gradient of a computation for a
cotangent of its result, and the gradient of half the squared norm of its result. -/
class Differentiator where
  tanh : Int → Int
  pullback : Graph → Vector → Vector → Vector
  gradient : Graph → Vector → Vector

/-- What is computed of `x`. -/
def Graph.value [Differentiator] : Graph → Vector → Except Fault Vector
  | leaf, x => .ok x
  | product w g, x => do w.product (← g.value x)
  | sum g bias, x => do add (← g.value x) bias
  | tanh g, x => do .ok ((← g.value x).map Differentiator.tanh)

section Exact

/-- What is computed of `x`, with the hyperbolic tangent as a sign, and the way back: what a
cotangent of it comes to at `x`. A component that was used for all is all of them on the way back. -/
def Graph.trace : Graph → Vector → Vector × (Vector → Vector)
  | leaf, x => (x, id)
  | product w g, x =>
    let (y, back) := g.trace x
    (w.rows.map (dot · y), fun v => back (w.transposedProduct y.length v))
  | sum g bias, x =>
    let (y, back) := g.trace x
    ((add y bias).toOption.getD y, fun v => back (if y.length = 1 then [total v] else v))
  | tanh g, x =>
    let (y, back) := g.trace x
    let t := y.map Int.sign
    (t, fun v => back (List.zipWith (fun a c => (1 - a * a) * c) t v))

/-- Exact where the hyperbolic tangent is: at 0 and far from 0. -/
instance Differentiator.exact : Differentiator where
  tanh := Int.sign
  pullback g x := (g.trace x).2
  gradient g x := (g.trace x).2 (g.trace x).1

end Exact
end ReverseSweep.RecurrenceGradient
