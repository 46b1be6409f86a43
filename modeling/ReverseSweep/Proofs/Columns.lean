import ReverseSweep.Journal
import ReverseSweep.Proofs.Reading
import ReverseSweep.Proofs.Tables

/-! Tables by the names of their columns, and the whole numbers that stand there. The text of a
journal reads back as its rows. -/

namespace ReverseSweep

theorem Json.parse_integerChars (n : Int) :
    Json.parse (String.ofList (Decimal.integerChars n)) = some (.int n) := by
  have hparse := Json.parse_ofList Json.Spacing.indented_blank (Json.IsExact.int n)
  rwa [Json.chars] at hparse

theorem Json.cell_int (n : Int) : (Json.int n).cell = Decimal.integerChars n :=
  String.toList_ofList

namespace Csv

variable {header row : List (List Char)} {name : String} {n : Int}

/-- What stands in a row under a name of the header. -/
def column? (header row : List (List Char)) (name : String) : Option (List Char) :=
  (header.zip row).lookup name.toList

/-- What stands in a row under a name reads as the number. -/
def Shows (header row : List (List Char)) (name : String) (n : Int) : Prop :=
  ∃ cs, column? header row name = some cs ∧ Json.parse (String.ofList cs) = some (.int n)

theorem shows_of_integerChars (h : column? header row name = some (Decimal.integerChars n)) :
    Shows header row name n := ⟨_, h, Json.parse_integerChars n⟩

theorem shows_of_cell {value : Json} (h : column? header row name = some value.cell)
    (hvalue : value = .int n) : Shows header row name n :=
  shows_of_integerChars (by rw [h, hvalue, Json.cell_int])

end Csv

namespace Journal

def column? (row : List (List Char)) (name : String) : Option (List Char) :=
  Csv.column? header row name

def Shows (row : List (List Char)) (name : String) (n : Int) : Prop := Csv.Shows header row name n

theorem decode_text (j : Journal) :
    Csv.decode j.text.toList = some (header :: j.rows.map Row.fields) := by
  rw [text, String.toList_ofList, textChars]
  refine Csv.decode_encode (List.forall_mem_cons.mpr ⟨List.cons_ne_nil _ _, fun row hrow => ?_⟩)
  obtain ⟨r, _, rfl⟩ := List.mem_map.mp hrow
  exact List.cons_ne_nil _ _

end Journal
end ReverseSweep
