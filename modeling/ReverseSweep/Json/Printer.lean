import ReverseSweep.Decimal.Shortest
import ReverseSweep.Json.Basic
import ReverseSweep.Text.Hex

/-! The text of a structured value, in ASCII: what is not printable ASCII is escaped in units of
UTF-16. Objects and lists are set over indented lines, or all on one line. -/

namespace ReverseSweep.Json

/-- What stands before each item at a depth, and between a name and its value. -/
structure Spacing where
  lineAt : Nat → List Char
  colon : List Char

def Spacing.indented : Spacing where
  lineAt depth := '\n' :: List.replicate (2 * depth) ' '
  colon := [':', ' ']

def Spacing.compact : Spacing where
  lineAt _ := []
  colon := [':']

/-- Floating numbers have a point or an exponent; from 10 to the 16th and below 10 to the -4th they
have an exponent. -/
def numberLayout : Decimal.Layout where
  leastPoint := -3
  greatestPoint := 16
  infinity := "Infinity"
  notANumber := "NaN"

def unitEscape (unit : Nat) : List Char := '\\' :: 'u' :: Text.hexDigits 4 unit

/-- A code point beyond the first plane is written as two surrogates. -/
def codeEscape (code : Nat) : List Char :=
  if code < 0x10000 then unitEscape code
  else
    unitEscape (0xd800 + (code - 0x10000) / 0x400) ++ unitEscape (0xdc00 + (code - 0x10000) % 0x400)

def escapedChar (c : Char) : List Char :=
  if c = '"' then ['\\', '"']
  else if c = '\\' then ['\\', '\\']
  else if c = '\n' then ['\\', 'n']
  else if c = '\r' then ['\\', 'r']
  else if c = '\t' then ['\\', 't']
  else if c = '\x08' then ['\\', 'b']
  else if c = '\x0c' then ['\\', 'f']
  else if ' ' ≤ c ∧ c ≤ '~' then [c]
  else codeEscape c.toNat

def textChars (text : String) : List Char :=
  '"' :: text.toList.flatMap escapedChar ++ ['"']

mutual

def chars (s : Spacing) (depth : Nat) : Json → List Char
  | null => ['n', 'u', 'l', 'l']
  | bool true => ['t', 'r', 'u', 'e']
  | bool false => ['f', 'a', 'l', 's', 'e']
  | int n => Decimal.integerChars n
  | float x => numberLayout.chars x
  | str text => textChars text
  | list [] => ['[', ']']
  | list (item :: items) =>
    '[' :: s.lineAt (depth + 1) ++ chars s (depth + 1) item ++
      (itemChars s (depth + 1) items ++ s.lineAt depth ++ [']'])
  | object [] => ['{', '}']
  | object ((name, value) :: fields) =>
    '{' :: s.lineAt (depth + 1) ++ textChars name ++ s.colon ++ chars s (depth + 1) value ++
      (fieldChars s (depth + 1) fields ++ s.lineAt depth ++ ['}'])

/-- Each item after the first, with the comma before it. -/
def itemChars (s : Spacing) (depth : Nat) : List Json → List Char
  | [] => []
  | item :: items => ',' :: s.lineAt depth ++ chars s depth item ++ itemChars s depth items

def fieldChars (s : Spacing) (depth : Nat) : List (String × Json) → List Char
  | [] => []
  | (name, value) :: fields =>
    ',' :: s.lineAt depth ++ textChars name ++ s.colon ++ chars s depth value ++
      fieldChars s depth fields

end

def indented (value : Json) : String := String.ofList (value.chars .indented 0)

def compact (value : Json) : String := String.ofList (value.chars .compact 0)

end ReverseSweep.Json
