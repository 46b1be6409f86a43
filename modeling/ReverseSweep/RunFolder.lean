import ReverseSweep.Calendar
import ReverseSweep.Json.Arithmetic

/-! Folders for the output of runs. Each run gets a folder of its own, named for its start and a
label, with a number behind the name if that is taken. A label may have slashes; then the name is a
path, and its last part is made where the others lead. -/

namespace ReverseSweep

/-- A file or folder that is there. Its place is given from the inside out, from the entry to the
base folder. -/
structure Entry where
  place : List String
  isFolder : Bool
deriving DecidableEq, Repr

namespace RunFolder

/-- The parts between slashes. What was read of the first one is given in reverse. -/
def partsFrom (part : List Char) : List Char → List String
  | [] => [String.ofList part.reverse]
  | c :: rest =>
    if c = '/' then String.ofList part.reverse :: partsFrom [] rest else partsFrom (c :: part) rest

def parts (text : String) : List String := partsFrom [] text.toList

def isName (part : String) : Bool := part != "" && part != "."

def up : String := ".."

/-- The folder around a place. Above the base folder there are only further ones up. -/
def around : List String → List String
  | [] => [up]
  | name :: outer => if name = up then up :: name :: outer else outer

/-- The entry at a place, unless it is the base folder or one around it. -/
def find? (entries : List Entry) (place : List String) : Option Entry :=
  entries.find? (·.place == place)

/-- Where a path leads from the base folder. -/
def placeOf (path : String) : List String :=
  ((parts path).filter isName).foldl
    (fun place name => if name = up then around place else name :: place) []

def namesIn (entries : List Entry) (place : List String) : List String :=
  entries.filterMap fun e =>
    match e.place with
    | [] => none
    | name :: outer => if outer = place then some name else none

/-- The folder that the parts of a path lead to from a place. The text of the path is for
messages. -/
def walk (entries : List Entry) (text : String) :
    List String → List String → Except Fault (List String)
  | place, [] => .ok place
  | place, name :: rest =>
    if name = up then walk entries text (around place) rest
    else
      match find? entries (name :: place) with
      | none => .error (.missingFolder text)
      | some entry =>
        if entry.isFolder then walk entries text (name :: place) rest else .error (.notAFolder text)

def stem (start : Moment) (label : Option String) : String :=
  match label with
  | none => start.stamp
  | some label => if label = "" then start.stamp else start.stamp ++ "_" ++ label

def numbered (stem : String) : Nat → String
  | 0 => stem
  | k + 1 => stem ++ "_" ++ Decimal.natural (k + 1)

/-- The first free name from number `k` on. A taken name is crossed off, so the search ends. -/
def firstFree (stem : String) (k : Nat) (taken : List String) : String :=
  if numbered stem k ∈ taken then firstFree stem (k + 1) (taken.erase (numbered stem k))
  else numbered stem k
termination_by taken.length
decreasing_by
  rename_i h
  rw [List.length_erase_of_mem h]
  have := List.length_pos_of_mem h
  omega

/-- A folder that was made: the path to it from the base folder, and its place. -/
structure Made where
  folders : List String
  name : String
  place : List String
deriving DecidableEq, Repr

def Made.isInBase (m : Made) : Bool := m.folders.isEmpty

/-- The folder without a number, if its name is free. The way up is never free. -/
def plain? (entries : List Entry) (stem : String) : Except Fault (Option Made) :=
  let names := (parts stem).filter isName
  let folders := names.dropLast
  let name := names.getLastD ""
  (walk entries stem [] folders).map fun place =>
    if name = up ∨ name ∈ namesIn entries place then none else some ⟨folders, name, name :: place⟩

/-- The folder with the first free number. The number stands behind the last slash, even if nothing
else does. -/
def withNumber (entries : List Entry) (stem : String) : Except Fault Made :=
  let folders := (parts stem).dropLast.filter isName
  (walk entries stem [] folders).map fun place =>
    let name := firstFree ((parts stem).getLastD "") 1 (namesIn entries place)
    ⟨folders, name, name :: place⟩

def create (entries : List Entry) (start : Moment) (label : Option String) :
    Except Fault (Made × List Entry) := do
  let stem := stem start label
  if stem.toList.contains '\x00' then .error .nullCharacter
  else
    let made ←
      match ← plain? entries stem with
      | some made => .ok made
      | none => withNumber entries stem
    .ok (made, entries ++ [⟨made.place, true⟩])

def createTimes (start : Moment) (label : Option String) :
    Nat → List Entry → Except Fault (List Made × List Entry)
  | 0, entries => .ok ([], entries)
  | count + 1, entries => do
    let (made, entries) ← create entries start label
    let (others, entries) ← createTimes start label count entries
    .ok (made :: others, entries)

def listing (entries : List Entry) : List String :=
  (namesIn entries []).mergeSort fun a b => decide (a ≤ b)

/-- The label that a value gives. What stands for nothing gives none. -/
def label? (value : Json) : Option String := if value.isTruthy then some value.display else none

def pathKind : String := "PosixPath"

/-- Whether a value names a folder to put the folders of runs in. It is the base folder, and taken to
be there. -/
def checkBase : Json → Except Fault Unit
  | .str _ => .ok ()
  | value => .error (.badOperands "/" pathKind value.kindName)

/-- Whether a first run with this label has a folder. When it starts does not matter. -/
def check (base label : Json) : Except Fault Unit := do
  checkBase base
  let _ ← create [] { year := 1, month := 1, day := 1 } (label? label)
  .ok ()

end RunFolder
end ReverseSweep
