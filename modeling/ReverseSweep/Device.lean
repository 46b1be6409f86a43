import ReverseSweep.Fault

/-! Devices that blocks of numbers live on, the reading of their names, which are a type with an
index behind a colon if there is one, and data that is placed on a device. -/

namespace ReverseSweep

/-- The host keeps numbers. The other device keeps no more than shapes. -/
inductive Device
  | host | shapes
deriving DecidableEq, Repr

namespace Device

def name : Device → String
  | host => "cpu"
  | shapes => "meta"

def isTypeChar (c : Char) : Bool := c.isAlpha || c == '_'

def isIndex (digits : List Char) : Bool :=
  digits = ['0'] || (digits ≠ [] && digits.head? != some '0' && digits.all Char.isDigit)

def greatestIndex : Nat := 0x7fffffff

/-- The types whose devices are set up before they are used. -/
def setUpTypes : List String := ["cuda", "xpu", "mtia", "hpu", "privateuseone"]

def ofType (type : String) : Except Fault Device :=
  if type = host.name then .ok host
  else if type = shapes.name then .ok shapes
  else if setUpTypes.contains type then .error (.deviceNotSupported type)
  else if Fault.deviceTypes.contains type then .error (.deviceNotLinked type)
  else .error (.unknownDevice type)

def ofName (name : String) : Except Fault Device :=
  let cs := name.toList
  let type := cs.takeWhile isTypeChar
  if cs = [] then .error .emptyDevice
  else if type = [] then .error (.invalidDevice name)
  else
    match cs.dropWhile isTypeChar with
    | [] => ofType (String.ofList type)
    | colon :: index =>
      if colon ≠ ':' ∨ ¬ isIndex index then .error (.invalidDevice name)
      else if greatestIndex < Decimal.ofDigits index then
        .error (.deviceIndexTooLarge (String.ofList index) name)
      else ofType (String.ofList type)

end Device

class Movable (α : Type) where
  moveTo : String → α → Except Fault α

/-- Data on a device. On the one that keeps shapes there is none. -/
inductive Placed (β : Type)
  | data (b : β)
  | shape
deriving DecidableEq, Repr

namespace Placed

variable {β : Type}

def device : Placed β → Device
  | data _ => .host
  | shape => .shapes

def map (f : β → β) : Placed β → Placed β
  | data b => data (f b)
  | shape => shape

/-- The data, which is lost once there is only a shape. -/
def onHost : Placed β → Except Fault β
  | data b => .ok b
  | shape => .error .noData

def move (p : Placed β) : Device → Except Fault (Placed β)
  | .host => p.onHost.map data
  | .shapes => .ok shape

def moveTo (name : String) (p : Placed β) : Except Fault (Placed β) :=
  (Device.ofName name).bind p.move

instance : Movable (Placed β) := ⟨moveTo⟩

end Placed
end ReverseSweep
