import ReverseSweep.Json.Arithmetic

/-! Nested rows of items, as deep and as wide everywhere, and their reading from structured values.
The first items of a value tell its sizes, which then hold for all its rows. -/

namespace ReverseSweep

inductive Nested (β : Type)
  | single (item : β)
  | rows (items : List (Nested β))

namespace Nested

variable {β γ : Type}

mutual

def map (f : β → γ) : Nested β → Nested γ
  | single item => single (f item)
  | rows items => rows (mapRows f items)

def mapRows (f : β → γ) : List (Nested β) → List (Nested γ)
  | [] => []
  | item :: items => map f item :: mapRows f items

end

mutual

def flat : Nested β → List β
  | single item => [item]
  | rows items => flatRows items

def flatRows : List (Nested β) → List β
  | [] => []
  | item :: items => flat item ++ flatRows items

end

def item? : Nested β → Option β
  | single item => some item
  | rows _ => none

def row? : Nested β → Option (List β)
  | single _ => none
  | rows items => items.mapM item?

def matrix? : Nested β → Option (List (List β))
  | single _ => none
  | rows items => items.mapM row?

mutual

def toJson (f : β → Json) : Nested β → Json
  | single item => f item
  | rows items => .list (rowsToJson f items)

def rowsToJson (f : β → Json) : List (Nested β) → List Json
  | [] => []
  | item :: items => toJson f item :: rowsToJson f items

end

def greatestDepth : Nat := 128

/-- What has a length and a first item, if it is not empty. -/
def sequence? : Json → Option (List Json)
  | .object _ => none
  | value => value.items?

/-- The sizes along the first items, from the outermost rows on. -/
def sizes : Nat → Json → Except Fault (List Nat)
  | depth, value =>
    match depth, sequence? value with
    | _, none => .ok []
    | 0, some _ => .error (.tooDeep value.kindName)
    | _, some [] => .ok [0]
    | depth + 1, some (first :: rest) => (sizes depth first).map ((rest.length + 1) :: ·)

def hollow : List Nat → Nested β
  | [] => rows []
  | size :: sizes => rows (List.replicate size (hollow sizes))

/-- Reads rows of the given sizes, the items one after another. -/
def fill (item : Json → Except Fault β) : List Nat → Nat → Json → Except Fault (Nested β)
  | [], _, value => (item value).map single
  | size :: sizes, dimension, value =>
    match value.items? with
    | none => .error .notASequence
    | some items =>
      if items.length = size then
        (items.mapM fun value => fill item sizes (dimension + 1) value).map rows
      else .error (.unequalRows size dimension items.length)

/-- Where a size is zero there are no items, and none is looked at. -/
def ofJson (item : Json → Except Fault β) (value : Json) : Except Fault (Nested β) :=
  match value with
  | .str _ => .error (.notBlockData value.kindName)
  | value => do
    let sizes ← sizes greatestDepth value
    if sizes.contains 0 then .ok (hollow sizes) else fill item sizes 0 value

end Nested
end ReverseSweep
