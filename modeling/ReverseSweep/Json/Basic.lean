/-! Structured values: null, truth values, whole and floating numbers, texts, lists, and objects
whose fields keep their order. -/

namespace ReverseSweep

inductive Json
  | null
  | bool (b : Bool)
  | int (n : Int)
  | float (x : Float)
  | str (text : String)
  | list (items : List Json)
  | object (fields : List (String × Json))
deriving Inhabited

namespace Json

def int? : Json → Option Int
  | int n => some n
  | _ => none

def bool? : Json → Option Bool
  | bool b => some b
  | _ => none

def str? : Json → Option String
  | str text => some text
  | _ => none

def list? : Json → Option (List Json)
  | list items => some items
  | _ => none

def fields? : Json → Option (List (String × Json))
  | object fields => some fields
  | _ => none

end Json
end ReverseSweep
