import ReverseSweep.Binary64
import ReverseSweep.Decimal.Digits
import ReverseSweep.Json.Basic
import ReverseSweep.Text.Hex

/-! Reading the text of a structured value. A number with a point or an exponent is a floating one.
Surrogates count only in pairs. On request infinities and what is not a number can be read too. -/

namespace ReverseSweep.Json

def isSpace (c : Char) : Bool := c == ' ' || c == '\n' || c == '\r' || c == '\t'

def skipSpace (cs : List Char) : List Char := cs.dropWhile isSpace

def isDigit (c : Char) : Bool := '0' ≤ c && c ≤ '9'

/-- The number of four hexadecimal digits, and what follows. -/
def readUnit? : List Char → Option (Nat × List Char)
  | a :: b :: c :: d :: rest => do
    let a ← Text.hexValue? a
    let b ← Text.hexValue? b
    let c ← Text.hexValue? c
    let d ← Text.hexValue? d
    some (((a * 16 + b) * 16 + c) * 16 + d, rest)
  | _ => none

/-- The character of an escape by code point, the second half of a pair included. -/
def readCode? (cs : List Char) : Option (Char × List Char) := do
  let (high, rest) ← readUnit? cs
  if 0xd800 ≤ high ∧ high < 0xdc00 then
    match rest with
    | '\\' :: 'u' :: rest =>
      let (low, rest) ← readUnit? rest
      if 0xdc00 ≤ low ∧ low < 0xe000 then
        some (Char.ofNat (0x10000 + (high - 0xd800) * 0x400 + (low - 0xdc00)), rest)
      else none
    | _ => none
  else if 0xdc00 ≤ high ∧ high < 0xe000 then none
  else some (Char.ofNat high, rest)

/-- What a letter after a backslash stands for, other than a code point. -/
def unescape? : Char → Option Char
  | '"' => some '"'
  | '\\' => some '\\'
  | '/' => some '/'
  | 'b' => some '\x08'
  | 'f' => some '\x0c'
  | 'n' => some '\n'
  | 'r' => some '\r'
  | 't' => some '\t'
  | _ => none

/-- The characters up to the closing quote. The fuel is more than the length of the text. -/
def readChars? : Nat → List Char → Option (List Char × List Char)
  | 0, _ => none
  | fuel + 1, cs =>
    match cs with
    | [] => none
    | '"' :: rest => some ([], rest)
    | '\\' :: 'u' :: rest => do
      let (c, rest) ← readCode? rest
      let (cs, rest) ← readChars? fuel rest
      some (c :: cs, rest)
    | '\\' :: letter :: rest => do
      let c ← unescape? letter
      let (cs, rest) ← readChars? fuel rest
      some (c :: cs, rest)
    | c :: rest =>
      if c = '\\' ∨ c < ' ' then none
      else do
        let (cs, rest) ← readChars? fuel rest
        some (c :: cs, rest)

/-- Digits without a leading zero. -/
def readNatural? (cs : List Char) : Option (Nat × List Char) :=
  let ds := cs.takeWhile isDigit
  if ds = [] ∨ (ds.length ≠ 1 ∧ ds.head? = some '0') then none
  else some (Decimal.ofDigits ds, cs.dropWhile isDigit)

/-- The double nearest to `coefficient * 10 ^ exponent`. -/
def floatOfScientific (negative : Bool) (coefficient : Nat) (exponent : Int) : Float :=
  let x := nearestQuotient (coefficient * Decimal.tenTo exponent.toNat : Nat)
    (Decimal.tenTo (-exponent).toNat)
  if negative then -x else x

def readFraction? : List Char → Option (List Char × List Char)
  | '.' :: rest =>
    let ds := rest.takeWhile isDigit
    if ds = [] then none else some (ds, rest.dropWhile isDigit)
  | cs => some ([], cs)

def readExponent? (cs : List Char) : Option (Option Int × List Char) :=
  let signedDigits (sign : Int) (cs : List Char) : Option (Option Int × List Char) :=
    let ds := cs.takeWhile isDigit
    if ds = [] then none else some (some (sign * Decimal.ofDigits ds), cs.dropWhile isDigit)
  match cs with
  | c :: rest =>
    if c = 'e' ∨ c = 'E' then
      match rest with
      | '+' :: rest => signedDigits 1 rest
      | '-' :: rest => signedDigits (-1) rest
      | rest => signedDigits 1 rest
    else some (none, cs)
  | [] => some (none, [])

/-- Which numbers a text may hold. -/
inductive Numerals
  | finite | all
deriving DecidableEq, Repr

def readNumber? (negative : Bool) (cs : List Char) : Option (Json × List Char) := do
  let (whole, rest) ← readNatural? cs
  let (fraction, rest) ← readFraction? rest
  let (exponent?, rest) ← readExponent? rest
  if fraction = [] ∧ exponent? = none then
    some (int (if negative then -whole else whole), rest)
  else
    let coefficient := whole * Decimal.tenTo fraction.length + Decimal.ofDigits fraction
    let exponent := exponent?.getD 0 - fraction.length
    some (float (floatOfScientific negative coefficient exponent), rest)

/-- The words for numbers that have no digits. -/
def readWord? (negative : Bool) : List Char → Option (Json × List Char)
  | 'I' :: 'n' :: 'f' :: 'i' :: 'n' :: 'i' :: 't' :: 'y' :: rest =>
    some (float (nearestQuotient (if negative then -1 else 1) 1 / 0), rest)
  | 'N' :: 'a' :: 'N' :: rest => if negative then none else some (float notANumber, rest)
  | _ => none

def readNumeral? (n : Numerals) (negative : Bool) (cs : List Char) : Option (Json × List Char) :=
  match n with
  | .finite => readNumber? negative cs
  | .all => (readWord? negative cs).or (readNumber? negative cs)

mutual

/-- A value after white space, and what follows. The fuel is more than the length of the text. -/
def readValue? (n : Numerals) : Nat → List Char → Option (Json × List Char)
  | 0, _ => none
  | fuel + 1, cs =>
    match skipSpace cs with
    | 'n' :: 'u' :: 'l' :: 'l' :: rest => some (null, rest)
    | 't' :: 'r' :: 'u' :: 'e' :: rest => some (bool true, rest)
    | 'f' :: 'a' :: 'l' :: 's' :: 'e' :: rest => some (bool false, rest)
    | '"' :: rest => do
      let (text, rest) ← readChars? fuel rest
      some (str (String.ofList text), rest)
    | '[' :: rest =>
      match skipSpace rest with
      | ']' :: rest => some (list [], rest)
      | rest => do
        let (item, rest) ← readValue? n fuel rest
        let (items, rest) ← readItems? n fuel rest
        some (list (item :: items), rest)
    | '{' :: rest =>
      match skipSpace rest with
      | '}' :: rest => some (object [], rest)
      | rest => do
        let (field, rest) ← readField? n fuel rest
        let (fields, rest) ← readFields? n fuel rest
        some (object (field :: fields), rest)
    | '-' :: rest => readNumeral? n true rest
    | rest => readNumeral? n false rest

/-- The items after the first, up to the closing bracket. -/
def readItems? (n : Numerals) : Nat → List Char → Option (List Json × List Char)
  | 0, _ => none
  | fuel + 1, cs =>
    match skipSpace cs with
    | ']' :: rest => some ([], rest)
    | ',' :: rest => do
      let (item, rest) ← readValue? n fuel rest
      let (items, rest) ← readItems? n fuel rest
      some (item :: items, rest)
    | _ => none

def readField? (n : Numerals) : Nat → List Char → Option ((String × Json) × List Char)
  | 0, _ => none
  | fuel + 1, cs =>
    match skipSpace cs with
    | '"' :: rest => do
      let (name, rest) ← readChars? fuel rest
      match skipSpace rest with
      | ':' :: rest =>
        let (value, rest) ← readValue? n fuel rest
        some ((String.ofList name, value), rest)
      | _ => none
    | _ => none

def readFields? (n : Numerals) : Nat → List Char → Option (List (String × Json) × List Char)
  | 0, _ => none
  | fuel + 1, cs =>
    match skipSpace cs with
    | '}' :: rest => some ([], rest)
    | ',' :: rest => do
      let (field, rest) ← readField? n fuel rest
      let (fields, rest) ← readFields? n fuel rest
      some (field :: fields, rest)
    | _ => none

end

/-- The value of a text that holds one value and white space. -/
def parseWith (n : Numerals) (text : String) : Option Json := do
  let cs := text.toList
  let (value, rest) ← readValue? n (cs.length + 1) cs
  if skipSpace rest = [] then some value else none

def parse (text : String) : Option Json := parseWith .finite text

end ReverseSweep.Json
