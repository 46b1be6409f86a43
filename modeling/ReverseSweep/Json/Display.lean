import ReverseSweep.Json.Basic
import ReverseSweep.Number
import ReverseSweep.Text.Quoted

/-! How messages name the kind of a structured value, and how they show it. -/

namespace ReverseSweep.Json

def kindName : Json → String
  | null => "NoneType"
  | bool _ => "bool"
  | int _ => "int"
  | float _ => "float"
  | str _ => "str"
  | list _ => "list"
  | object _ => "dict"

mutual

/-- A value inside another one, texts between quotes. -/
def shown : Json → String
  | null => "None"
  | bool true => "True"
  | bool false => "False"
  | int n => Decimal.integer n
  | float x => (Number.float x).display
  | str text => Text.quoted text
  | list [] => "[]"
  | list (item :: items) => "[" ++ shown item ++ shownItems items ++ "]"
  | object [] => "\x7b\x7d"
  | object ((name, value) :: fields) =>
    "\x7b" ++ Text.quoted name ++ ": " ++ shown value ++ shownFields fields ++ "\x7d"

def shownItems : List Json → String
  | [] => ""
  | item :: items => ", " ++ shown item ++ shownItems items

def shownFields : List (String × Json) → String
  | [] => ""
  | (name, value) :: fields =>
    ", " ++ Text.quoted name ++ ": " ++ shown value ++ shownFields fields

end

/-- A value by itself: a text stands as it is. -/
def display : Json → String
  | str text => text
  | value => value.shown

/-- A value in a table cell: null leaves the cell empty. -/
def cell : Json → List Char
  | null => []
  | value => value.display.toList

end ReverseSweep.Json
