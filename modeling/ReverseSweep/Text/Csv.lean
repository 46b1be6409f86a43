/-! Tables as text: fields separated by commas, rows ended by a carriage return and a line feed,
quotes only around a field that needs them. `encodeRow` writes a row, `decode` reads a text. -/

namespace ReverseSweep.Csv

def special (c : Char) : Bool := c == ',' || c == '"' || c == '\r' || c == '\n'

def doubleQuotes : List Char → List Char
  | [] => []
  | c :: cs => if c = '"' then '"' :: '"' :: doubleQuotes cs else c :: doubleQuotes cs

def encodeField (cs : List Char) : List Char :=
  if cs.any special then '"' :: doubleQuotes cs ++ ['"'] else cs

/-- Rows have two fields or more: a row of one empty field would read as a blank line. -/
def encodeRow : List (List Char) → List Char
  | [] => ['\r', '\n']
  | [f] => encodeField f ++ ['\r', '\n']
  | f :: fs => encodeField f ++ ',' :: encodeRow fs

def encode (rows : List (List (List Char))) : List Char := rows.flatMap encodeRow

/-- Where the reader stands: before a field, inside a plain or a quoted one, after a quote in a
quoted one, or after a carriage return. -/
inductive Place
  | before | plain | inQuotes | afterQuote | afterReturn
deriving DecidableEq

structure Reader where
  place : Place := .before
  field : List Char := []
  row : List (List Char) := []
  rows : List (List (List Char)) := []

def Reader.endField (r : Reader) : Reader :=
  ⟨.before, [], r.row ++ [r.field], r.rows⟩

def Reader.endRow (r : Reader) : Reader :=
  ⟨.before, [], [], r.rows ++ [r.row ++ [r.field]]⟩

def Reader.take (r : Reader) (place : Place) (c : Char) : Reader :=
  ⟨place, r.field ++ [c], r.row, r.rows⟩

def Reader.goTo (r : Reader) (place : Place) : Reader := ⟨place, r.field, r.row, r.rows⟩

def Reader.step (r : Reader) (c : Char) : Option Reader :=
  match r.place with
  | .inQuotes => if c = '"' then some (r.goTo .afterQuote) else some (r.take .inQuotes c)
  | .afterReturn => if c = '\n' then some r.endRow else none
  | .afterQuote =>
    if c = '"' then some (r.take .inQuotes c)
    else if c = ',' then some r.endField
    else if c = '\r' then some (r.goTo .afterReturn)
    else none
  | _ =>
    if c = ',' then some r.endField
    else if c = '\r' then some (r.goTo .afterReturn)
    else if c = '\n' then none
    else if c = '"' then
      if r.place = .before then some (r.goTo .inQuotes) else none
    else some (r.take .plain c)

def Reader.run : Reader → List Char → Option Reader
  | r, [] => some r
  | r, c :: cs => (r.step c).bind (run · cs)

def decode (text : List Char) : Option (List (List (List Char))) :=
  match Reader.run {} text with
  | some ⟨.before, [], [], rows⟩ => some rows
  | _ => none

end ReverseSweep.Csv
