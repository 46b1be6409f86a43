import ReverseSweep.Device
import ReverseSweep.Nested

/-! States of a sweep that come from outside: structured values, which stay where they are, and
blocks of numbers, which live on a device. -/

namespace ReverseSweep

/-- A number in a block: of 64 bits, with arithmetic that wraps, or floating, of 32 bits. -/
inductive Component
  | whole (n : Int64)
  | real (x : Float32)

namespace Component

def isWhole : Component → Bool
  | whole _ => true
  | real _ => false

def toReal : Component → Float32
  | whole n => n.toFloat32
  | real x => x

def toJson : Component → Json
  | whole n => .int n.toInt
  | real x => .float x.toFloat

/-- The first number above those of a word with a sign, and above those of one without. -/
def signedEnd : Int := 0x8000000000000000
def unsignedEnd : Int := 0x10000000000000000

/-- A floating number is cut to a whole one, if that fits a word. -/
def cut (x : Float) : Except Fault Component :=
  match (Binary64.read x).cut? with
  | some n =>
    if n < -signedEnd ∨ signedEnd < n then .error .entryNotWhole else .ok (whole (Int64.ofInt n))
  | none => .error .entryNotWhole

def ofJson : Json → Except Fault Component
  | .int n =>
    if n < -signedEnd ∨ signedEnd ≤ n then .error .entryOutOfRange
    else .ok (whole (Int64.ofInt n))
  | .bool b => .ok (whole (Int64.ofInt (truthValue b)))
  | .float x => cut x
  | value => .error (.notWhole value.kindName)

/-- A whole operand has to fit a word, with a sign or without. -/
def checkOperand (k : Number) : Except Fault Unit :=
  match k.whole? with
  | none => .ok ()
  | some n =>
    if n < -signedEnd then .error .negativeForWord
    else if unsignedEnd ≤ n then .error .tooLargeForWord
    else .ok ()

def operand : Number → Float32
  | .float x => x.toFloat32
  | k =>
    let n := k.whole?.getD 0
    if n < signedEnd then (Int64.ofInt n).toFloat32 else (UInt64.ofInt n).toFloat32

/-- Whole numbers stay among themselves, and a whole operand wraps there. -/
def combine (exact : Int64 → Int64 → Int64) (rounded : Float32 → Float32 → Float32)
    (c : Component) (k : Number) : Component :=
  match c, k.whole? with
  | whole m, some n => whole (exact m (Int64.ofInt n))
  | c, _ => real (rounded c.toReal (operand k))

def wholeRemainder (m n : Int64) : Int64 :=
  let rest := m % n
  if rest ≠ 0 ∧ (rest < 0) ≠ (n < 0) then rest + n else rest

/-- What is left after division downward; a rest of zero has the sign of `x`. -/
def realRemainder (x y : Float32) : Float32 :=
  let rest := (remainder x.toFloat y.toFloat).toFloat32
  if rest != 0 && decide (rest < 0) != decide (y < 0) then rest + y else rest

def add : Component → Number → Component := combine (· + ·) (· + ·)

def multiply : Component → Number → Component := combine (· * ·) (· * ·)

def modulo : Component → Number → Component := combine wholeRemainder realRemainder

end Component

abbrev Block := Nested Component

namespace Block

/-- The number in a block that has only this one, if it is whole. -/
def index? (b : Block) : Option Int :=
  match b.flat with
  | [.whole n] => some n.toInt
  | _ => none

/-- Whole numbers cannot be divided by zero, floating ones can. -/
def modulo (b : Block) (k : Number) : Except Fault Block :=
  if k.whole? = some 0 ∧ b.flat.any Component.isWhole then .error .zeroBlockModulus
  else .ok (b.map (·.modulo k))

end Block

inductive Payload
  | plain (value : Json)
  | block (b : Placed Block)

namespace Payload

/-- An object with a single field of this name stands for a block. -/
def blockField : String := "tensor"

def ofJson : Json → Except Fault Payload
  | .object [(name, data)] =>
    if name = blockField then
      (Nested.ofJson Component.ofJson data).map fun b => block (.data b)
    else .ok (plain (.object [(name, data)]))
  | value => .ok (plain value)

def moveTo (device : String) : Payload → Except Fault Payload
  | plain value => .ok (plain value)
  | block b => (b.moveTo device).map block

instance : Movable Payload := ⟨moveTo⟩

def blockKind : String := "Tensor"

/-- The sum of the state and a value. A block takes numbers only, component by component. -/
def add (state : Payload) (value : Json) : Except Fault Payload :=
  match state, value.number? with
  | plain x, _ => (x.add value).map plain
  | block b, some k => do
    Component.checkOperand k
    .ok (block (b.map (·.map (·.add k))))
  | block _, none => .error (.badOperands "+" blockKind value.kindName)

def modulo (state : Payload) (value : Json) : Except Fault Payload :=
  match state, value.number? with
  | plain x, _ => (x.modulo value).map plain
  | block b, some k => do
    Component.checkOperand k
    match b with
    | .data b => (b.modulo k).map fun b => block (.data b)
    | .shape => .ok (block .shape)
  | block _, none => .error (.badOperands "%" blockKind value.kindName)

/-- A product with a state. A repeated sequence is not built: what can be done with it depends on
its kind alone. -/
inductive Scaled
  | state (p : Payload)
  | sequence (s : Json)

def Scaled.ofProduct : Json.Product → Scaled
  | .number n => state (plain (.ofNumber n))
  | .repeated s _ => sequence s

/-- The value times the state. A sequence is repeated as often as a block with a single whole number
says. -/
def scale (value : Json) (state : Payload) : Except Fault Scaled :=
  match state, value.number? with
  | plain x, _ => (value.multiply x).map .ofProduct
  | block b, some k => do
    Component.checkOperand k
    .ok (.state (block (b.map (·.map (·.multiply k)))))
  | block b, none =>
    match value.repeatable?, b with
    | none, _ => .error (.badOperands "*" value.kindName blockKind)
    | some length, .data b =>
      match b.index? with
      | some times => (value.repeated length times blockKind).map .ofProduct
      | none => .error .notAnIndex
    | some _, .shape => .error .notAnIndex

def Scaled.add (s : Scaled) (value : Json) : Except Fault Scaled :=
  match s with
  | state p => (p.add value).map state
  | sequence s => (s.add value).map sequence

def Scaled.modulo (s : Scaled) (value : Json) : Except Fault Payload :=
  match s with
  | state p => p.modulo value
  | sequence s => (s.modulo value).map plain

end Payload

/-- Rules for the next state, from the step and the number of updates so far. -/
inductive UpdateRule
  | add (k : Json)
  | affine (a b m : Json)
  | append
  | concat (separator : Json)
  | count
  | const (value : Json)
  | pair

/-- The next state, unless the rule does not fit the state. -/
def UpdateRule.apply (rule : UpdateRule) (step : Int) (calls : Nat) (state : Payload) :
    Except Fault Payload :=
  match rule with
  | add k => state.add k
  | affine a b m => do
    let scaled ← Payload.scale a state
    let shifted ← scaled.add b
    let stepped ← shifted.add (.int step)
    stepped.modulo m
  | append => state.add (.list [.int step])
  | concat separator => do
    let joined ← state.add separator
    joined.add (.str (Decimal.integer step))
  | count => .ok (.plain (.list [.int step, .int calls]))
  | const value => .ok (.plain value)
  | pair =>
    .ok (.block (.data (.rows [.single (.whole (Int64.ofInt step)),
      .single (.whole (Int64.ofNat calls))])))

end ReverseSweep
