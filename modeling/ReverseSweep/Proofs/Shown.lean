import ReverseSweep.Proofs.Averages
import ReverseSweep.Proofs.Cells
import ReverseSweep.Proofs.Columns
import ReverseSweep.Proofs.Places

/-! What can be read of a cell in a report: the fields of its row, and its word in the table. -/

namespace ReverseSweep.BudgetGrid

variable {c : Cell} {n m : ℤ}

/-- Recomputed steps for each step forward, exactly. -/
def Cell.share (c : Cell) (n : ℤ) : ℚ := c.counters.recomputations / (max n 1 : ℤ)

/-- What can be read in the row of a cell. -/
structure Cell.Told (c : Cell) (row : List (List Char)) (n m : ℤ) : Prop where
  length : row.length = header.length
  steps : Csv.Shows header row "num_steps" n
  storageSize : Csv.Shows header row "storage_size" m
  stores : Csv.Shows header row "stores" (n + 1 + c.counters.recomputations)
  evictions : Csv.Shows header row "evictions" c.counters.recomputations
  recomputations : Csv.Shows header row "recomputations" c.counters.recomputations
  ratio : ∃ cs, Csv.column? header row "recompute_ratio" = some cs ∧
    Decimal.Near 4 cs (c.share n)

namespace Cell.Accounts

theorem share_bounds (h : c.Accounts n m) :
    c.share n = 0 ∨ 1 / 2 ^ 64 ≤ c.share n ∧ c.share n ≤ 2 ^ 64 := by
  have hn := h.range
  have hmost := h.most
  rcases h.nonneg.eq_or_lt with hzero | hpos
  · exact .inl (by rw [share, ← hzero, Int.cast_zero, zero_div])
  · have hsteps : 1 ≤ n := by
      by_contra hlt
      obtain rfl : n = 0 := by omega
      omega
    have hmax : max n 1 = n := max_eq_left hsteps
    have hn' : (0 : ℚ) < n := by exact_mod_cast hsteps
    have hless : (n : ℚ) ≤ 2 ^ 63 := by
      have hle : n ≤ 2 ^ 63 := by
        have := hn.2
        simp only [noStep] at this
        omega
      exact_mod_cast hle
    have hone : (1 : ℚ) ≤ c.counters.recomputations := by exact_mod_cast hpos
    have hmost' : (2 * c.counters.recomputations : ℚ) ≤ n * (n - 1) := by exact_mod_cast hmost
    rw [share, hmax]
    refine .inr ⟨?_, ?_⟩
    · rw [le_div_iff₀ hn']
      linarith
    · rw [div_le_iff₀ hn']
      nlinarith

theorem exists_read_ratio (h : c.Accounts n m) :
    ∃ (s : ℕ) (e : ℤ), Binary64.read c.ratio = .finite false s e ∧
      |(s : ℚ) * 2 ^ e - c.share n| ≤ c.share n / 2 ^ 53 := by
  have hbounds := h.share_bounds
  obtain ⟨recomputed, hrecomputed⟩ := Int.eq_ofNat_of_zero_le h.nonneg
  have hforward : ((max n 1).toNat : ℤ) = max n 1 := Int.toNat_of_nonneg (by omega)
  have hshare : c.share n = recomputed / (max n 1).toNat := by
    rw [share, hrecomputed, ← hforward]
    push_cast
    rfl
  rw [hshare] at hbounds ⊢
  rw [h.ratio, hrecomputed]
  refine Binary64.exists_read_nearestQuotient (by omega) ?_ ?_
  · exact hbounds.imp_right fun hb => by linarith [hb.1]
  · exact hbounds.elim (fun hzero => by rw [hzero]; positivity) fun hb => by linarith [hb.2]

theorem nearlyIs_ratio (h : c.Accounts n m) : NearlyIs c.ratio (c.share n) := by
  obtain ⟨s, e, hread, hnear⟩ := h.exists_read_ratio
  exact nearlyIs_of_read hread hnear

theorem near_ratio (h : c.Accounts n m) {places : ℕ} (hp : 0 < places) :
    Decimal.Near places (Decimal.fixedChars places c.ratio) (c.share n) := by
  obtain ⟨s, e, hread, hnear⟩ := h.exists_read_ratio
  exact Decimal.near_fixedChars hp hread hnear

theorem told (h : c.Accounts n m) : c.Told c.fields n m where
  length := rfl
  steps := Csv.shows_of_cell rfl h.steps
  storageSize := Csv.shows_of_cell rfl h.storageSize
  stores := Csv.shows_of_integerChars (h.stores ▸ rfl)
  evictions := Csv.shows_of_integerChars (h.evictions ▸ rfl)
  recomputations := Csv.shows_of_integerChars rfl
  ratio := ⟨_, rfl, h.near_ratio (by decide)⟩

end Cell.Accounts

section Table

def title : String := "Recompute ratio (rows: num_steps, columns: storage_size)"

def sizesLine (ms : List ℤ) : String :=
  "  " ++ " ".intercalate (ms.map fun m => Decimal.alignRight 8 (Decimal.integer m))

def ratiosLine (n : ℤ) (ratios : List Float) : String :=
  "  " ++ Decimal.alignRight 8 (Decimal.integer n) ++ " " ++
    " ".intercalate (ratios.map Report.ratioText)

theorem isWord_integer (n : ℤ) : Text.IsWord (Decimal.integer n).toList := by
  rw [Decimal.integer, String.toList_ofList]
  exact Text.isWord_integerChars n

theorem isWord_fixed (places : ℕ) (x : Float) : Text.IsWord (Decimal.fixed places x).toList := by
  rw [Decimal.fixed, String.toList_ofList]
  exact Text.isWord_fixedChars places x

theorem sizesLine_eq (ms : List ℤ) : sizesLine ms =
    "  " ++ " ".intercalate ((ms.map Decimal.integer).map (Decimal.alignRight 8)) := by
  rw [sizesLine, List.map_map]
  rfl

theorem ratiosLine_eq (n : ℤ) (ratios : List Float) : ratiosLine n ratios =
    "  " ++ Decimal.alignRight 8 (Decimal.integer n) ++ " " ++
      " ".intercalate ((ratios.map (Decimal.fixed 2)).map (Decimal.alignRight 8)) := by
  rw [ratiosLine, List.map_map]
  rfl

theorem isWord_of_mem_sizes {ms : List ℤ} {text : String} (h : text ∈ ms.map Decimal.integer) :
    Text.IsWord text.toList := by
  obtain ⟨m, _, rfl⟩ := List.mem_map.mp h
  exact isWord_integer m

theorem isWord_of_mem_ratios {ratios : List Float} {text : String}
    (h : text ∈ ratios.map (Decimal.fixed 2)) : Text.IsWord text.toList := by
  obtain ⟨x, _, rfl⟩ := List.mem_map.mp h
  exact isWord_fixed 2 x

theorem words_sizesLine (ms : List ℤ) :
    Text.words (sizesLine ms).toList = ms.map Decimal.integerChars := by
  have hindent : "  ".toList = List.replicate 2 ' ' := rfl
  rw [sizesLine_eq, String.toList_append, hindent, Text.words_blanks,
    Text.words_columns 8 fun _ => isWord_of_mem_sizes, List.map_map]
  exact List.map_congr_left fun m _ => String.toList_ofList

theorem words_ratiosLine (n : ℤ) (ratios : List Float) :
    Text.words (ratiosLine n ratios).toList =
      Decimal.integerChars n :: ratios.map (Decimal.fixedChars 2) := by
  have hindent : "  ".toList = List.replicate 2 ' ' := rfl
  have hblank : " ".toList = [' '] := rfl
  rw [ratiosLine_eq, String.toList_append, String.toList_append, String.toList_append, hindent,
    hblank, List.append_assoc, List.append_assoc, Text.words_blanks, List.singleton_append,
    Text.words_append_blank, (isWord_integer n).words_alignRight,
    Text.words_columns 8 fun _ => isWord_of_mem_ratios, List.map_map, List.singleton_append,
    Decimal.integer, String.toList_ofList]
  exact congrArg _ (List.map_congr_left fun x _ => String.toList_ofList)

theorem notMem_sizesLine (ms : List ℤ) : '\n' ∉ (sizesLine ms).toList := by
  rw [sizesLine_eq, String.toList_append, List.mem_append]
  rintro (h | h)
  · exact absurd h (by decide)
  · exact Text.notMem_columns 8 (fun _ => isWord_of_mem_sizes) h

theorem notMem_ratiosLine (n : ℤ) (ratios : List Float) :
    '\n' ∉ (ratiosLine n ratios).toList := by
  rw [ratiosLine_eq, String.toList_append, String.toList_append, String.toList_append,
    List.mem_append, List.mem_append, List.mem_append]
  rintro (((h | h) | h) | h)
  · exact absurd h (by decide)
  · exact (isWord_integer n).notMem_alignRight 8 h
  · exact absurd h (by decide)
  · exact Text.notMem_columns 8 (fun _ => isWord_of_mem_ratios) h

end Table
end ReverseSweep.BudgetGrid
