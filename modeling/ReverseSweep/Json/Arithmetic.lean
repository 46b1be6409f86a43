import ReverseSweep.Json.Display
import ReverseSweep.Number.Arithmetic

/-! Values taken as numbers, truth values, counts or sequences, and the sums, products and
remainders of values: numbers are added, texts and lists are joined to their like and repeated by
whole numbers. -/

namespace ReverseSweep.Json

def number? : Json → Option Number
  | int n => some (.whole n)
  | bool b => some (.truth b)
  | float x => some (.float x)
  | _ => none

def ofNumber : Number → Json
  | .whole n => int n
  | .truth b => bool b
  | .float x => float x

/-- Whether a value stands for something: null, zero and what is empty do not. -/
def isTruthy : Json → Bool
  | null => false
  | bool b => b
  | int n => n != 0
  | float x => x != 0
  | str text => text != ""
  | list items => !items.isEmpty
  | object fields => !fields.isEmpty

/-- What can be compared with a number. -/
def number (value : Json) : Except Fault Number :=
  match value.number? with
  | some n => .ok n
  | none => .error (.notComparable value.kindName)

def whole? (value : Json) : Option Int := value.number?.bind Number.whole?

/-- The greatest index that there can be. -/
def greatestIndex : Int := 0x7fffffffffffffff

/-- How many steps to take. Less than none is none, and more cannot be counted than there are
indices. -/
def count (value : Json) : Except Fault Nat :=
  match value.whole? with
  | some n => if greatestIndex < n then .error .tooManySteps else .ok n.toNat
  | none => .error (.notWhole value.kindName)

/-- The items of a list, the characters of a text, or the names in an object. -/
def items? : Json → Option (List Json)
  | list items => some items
  | str text => some (text.toList.map fun c => str (String.singleton c))
  | object fields => some (fields.map fun field => str field.1)
  | _ => none

def items (value : Json) : Except Fault (List Json) :=
  match value.items? with
  | some items => .ok items
  | none => .error (.notIterable value.kindName)

def add (a b : Json) : Except Fault Json :=
  match a.number?, b.number? with
  | some x, some y => (x.add y).map ofNumber
  | _, _ =>
    match a, b with
    | str s, str t => .ok (str (s ++ t))
    | list s, list t => .ok (list (s ++ t))
    | str _, _ | list _, _ => .error (.notJoinable a.kindName b.kindName)
    | _, _ => .error (.badOperands "+" a.kindName b.kindName)

/-- A product: a number, or a text or list that is repeated. -/
inductive Product
  | number (n : Number)
  | repeated (sequence : Json) (times : Int)

/-- The length of what can be repeated. -/
def repeatable? : Json → Option Nat
  | str text => some text.length
  | list items => some items.length
  | _ => none

/-- Lengths that no memory holds. -/
def hugeText : Nat := 0x1000000000
def hugeList : Nat := 0x200000000

/-- Repeats a sequence of the given length, if there is room for that. Fewer than no times is none.
The number of times is given with the kind of value that it came from. -/
def repeated (sequence : Json) (length : Nat) (times : Int) (kind : String) :
    Except Fault Product :=
  let total := length * times.toNat
  if times < -greatestIndex - 1 ∨ greatestIndex < times then .error (.tooLargeForIndex kind)
  else if sequence.str?.isSome then
    if greatestIndex < total then .error .tooLongText
    else if hugeText ≤ total then .error .outOfMemory
    else .ok (.repeated sequence times)
  else if hugeList ≤ total then .error .outOfMemory
  else .ok (.repeated sequence times)

/-- A sequence is repeated from either side; of two, the second one would have to be a number. -/
def multiply (a b : Json) : Except Fault Product :=
  match a.number?, b.number? with
  | some x, some y => (x.multiply y).map .number
  | _, _ =>
    let (sequence, other) := if a.repeatable?.isSome then (a, b) else (b, a)
    match sequence.repeatable?, other.whole? with
    | none, _ => .error (.badOperands "*" a.kindName b.kindName)
    | some _, none => .error (.notRepeatable other.kindName)
    | some length, some times => sequence.repeated length times other.kindName

def modulo (a b : Json) : Except Fault Json :=
  match a.number?, b.number? with
  | some x, some y => (x.modulo y).map ofNumber
  | _, _ => .error (.badOperands "%" a.kindName b.kindName)

end ReverseSweep.Json
