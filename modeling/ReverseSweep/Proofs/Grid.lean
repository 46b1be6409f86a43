import Mathlib.Data.List.ProdSigma
import ReverseSweep.Proofs.Overriding
import ReverseSweep.Proofs.Shown

/-! The report over a grid of step counts and storage sizes. Its rows, its table and its means are
all made of the same cells, and the first pair without a cell decides what the run ends with. -/

namespace ReverseSweep.BudgetGrid

variable {s : Settings} {ns ms : List Int} {cell : Int → Int → Cell} {a : Averaging}

section Lists

variable {α β γ : Type} {f : α → Except Fault β} {fault : Fault} {l before after : List α} {x : α}

theorem mapM_eq_ok {g : α → β} (h : ∀ x ∈ l, f x = .ok (g x)) : l.mapM f = .ok (l.map g) := by
  induction l with
  | nil => rfl
  | cons x l ih =>
    obtain ⟨hx, hl⟩ := List.forall_mem_cons.mp h
    rw [List.mapM_cons, hx, ih hl]
    rfl

theorem mapM_eq_error (hbefore : ∀ y ∈ before, ∃ z, f y = .ok z) (hx : f x = .error fault) :
    (before ++ x :: after).mapM f = .error fault := by
  induction before with
  | nil =>
    rw [List.nil_append, List.mapM_cons, hx]
    rfl
  | cons y before ih =>
    obtain ⟨⟨z, hz⟩, hrest⟩ := List.forall_mem_cons.mp hbefore
    rw [List.cons_append, List.mapM_cons, hz, ih hrest]
    rfl

theorem mapM_map {g : γ → α} (l : List γ) : (l.map g).mapM f = l.mapM fun x => f (g x) := by
  induction l with
  | nil => rfl
  | cons x l ih => rw [List.map_cons, List.mapM_cons, List.mapM_cons, ih]

/-- The pair of row `i` and column `j`, with row after row. -/
theorem getElem?_product {xs : List α} {ys : List β} {i j : Nat} {y : β} (hx : xs[i]? = some x)
    (hy : ys[j]? = some y) : (xs ×ˢ ys)[i * ys.length + j]? = some (x, y) := by
  obtain ⟨hj, _⟩ := List.getElem?_eq_some_iff.mp hy
  induction xs generalizing i with
  | nil => simp at hx
  | cons x' xs ih =>
    rw [List.product_cons]
    cases i with
    | zero =>
      obtain rfl : x' = x := by simpa using hx
      rw [Nat.zero_mul, Nat.zero_add, List.getElem?_append_left (by simpa using hj)]
      simp [hy]
    | succ i =>
      have hshift : (i + 1) * ys.length + j - ys.length = i * ys.length + j := by
        rw [Nat.succ_mul]
        omega
      have hle : ys.length ≤ (i + 1) * ys.length + j := by
        rw [Nat.succ_mul]
        omega
      rw [List.getElem?_append_right (by simpa using hle), List.length_map, hshift]
      exact ih (by simpa using hx)

theorem eraseDups_map [BEq α] [LawfulBEq α] [BEq β] [LawfulBEq β] {g : α → β}
    (hg : Function.Injective g) (l : List α) : (l.map g).eraseDups = l.eraseDups.map g := by
  match l with
  | [] => rfl
  | a :: l =>
    have hsame : ((l.map g).filter fun b => !b == g a) = (l.filter fun b => !b == a).map g := by
      rw [List.filter_map]
      refine congrArg _ (List.filter_congr fun b _ => ?_)
      by_cases hb : b = a
      · simp [hb]
      · simp [hb, hg.ne hb]
    rw [List.map_cons, List.eraseDups_cons, List.eraseDups_cons, List.map_cons, hsame,
      eraseDups_map hg]
termination_by l.length
decreasing_by exact Nat.lt_succ_of_le (List.length_filter_le _ _)

end Lists

/-- The settings of a run over these step counts and storage sizes. -/
structure Asks (s : Settings) (ns ms : List Int) : Prop where
  output : ∃ path : String, s.get "output_dir" = .str path
  strategy : s.get "checkpoint_strategy" = .str Schedule.knownStrategy
  steps : s.get "num_steps" = .list (ns.map .int)
  storageSizes : s.get "storage_sizes" = .list (ms.map .int)

def configOf (ns ms : List Int) : Config :=
  ⟨.str Schedule.knownStrategy, ns.map .int, ms.map .int⟩

theorem cells_configOf (ns ms : List Int) :
    (configOf ns ms).cells = (ns ×ˢ ms).mapM fun pair => measured pair.1 pair.2 := by
  have hgrid : (configOf ns ms).grid = (ns ×ˢ ms).map fun pair => (.int pair.1, .int pair.2) := by
    simp [configOf, Config.grid, SProd.sprod, List.product, List.map_flatMap, List.flatMap_map,
      Function.comp_def]
  rw [Config.cells, hgrid, mapM_map]
  rfl

theorem check_knownStrategy (path : String) :
    RunFolder.check (.str path) (.str Schedule.knownStrategy) = .ok () := by
  have hbase : RunFolder.checkBase (.str path) = .ok () := rfl
  have hlabel : (RunFolder.create [] { year := 1, month := 1, day := 1 }
      (RunFolder.label? (.str Schedule.knownStrategy))).isOk := by decide +kernel
  rw [RunFolder.check, hbase]
  cases hmade : RunFolder.create [] { year := 1, month := 1, day := 1 }
      (RunFolder.label? (.str Schedule.knownStrategy)) with
  | error fault => simp [hmade, Except.isOk, Except.toBool] at hlabel
  | ok made => rfl

theorem Asks.run_eq (h : Asks s ns ms) : run s = report (configOf ns ms) := by
  obtain ⟨path, hpath⟩ := h.output
  rw [run, hpath, h.strategy, check_knownStrategy]
  simp [Config.ofSettings, h.steps, h.storageSizes, h.strategy, Json.items, Json.items?, configOf,
    Bind.bind, Except.bind]

/-- The exact ratios of a column. -/
def shares (ns : List Int) (cell : Int → Int → Cell) (m : Int) : List ℚ :=
  ns.map fun n => (cell n m).share n

/-- What can be read in the table of ratios, line by line and word by word. -/
def TableTold (text : String) (ns ms : List Int) (cell : Int → Int → Cell) : Prop :=
  ∃ sizes rows, Text.lines text = title.toList :: sizes :: rows ∧
    Text.words sizes = ms.map Decimal.integerChars ∧ rows.length = ns.length ∧
    ∀ (i : Nat) (n : Int), ns[i]? = some n → ∃ row words, rows[i]? = some row ∧
      Text.words row = Decimal.integerChars n :: words ∧ words.length = ms.length ∧
      ∀ (j : Nat) (m : Int), ms[j]? = some m → ∃ word, words[j]? = some word ∧
        Decimal.Near 2 word ((cell n m).share n)

/-- What a report shows of the cells that it is made of, read from its texts: the fields of the rows,
the words of the table, and the means as the numbers that they stand for. -/
structure Report.Shows (a : Averaging) (r : Report) (ns ms : List Int) (cell : Int → Int → Cell) :
    Prop where
  config : r.config = configOf ns ms
  csv : ∃ rows, Csv.decode r.csv.toList = some (header :: rows) ∧
    rows.length = ns.length * ms.length ∧
    ∀ i n, ns[i]? = some n → ∀ j m, ms[j]? = some m → ∃ row,
      rows[i * ms.length + j]? = some row ∧ row = (cell n m).fields ∧ (cell n m).Told row n m
  tableLines : r.tableLines = .ok (title :: sizesLine ms ::
    ns.map fun n => ratiosLine n (ms.map fun m => (cell n m).ratio))
  table : ∃ text, r.table = .ok text ∧ TableTold text ns ms cell
  column : ∀ j m, ms[j]? = some m → r.column j = ns.map fun n => (cell n m).ratio
  exact : ∀ n ∈ ns, ∀ m ∈ ms, NearlyIs (cell n m).ratio ((cell n m).share n)
  names : Settings.names r.means = ms.eraseDups.map Decimal.integer
  mean : ∀ j m, ms[j]? = some m → r.means.get? (Decimal.integer m) =
    some (.float (a.rounded (a.mean ms.length (r.column j))))
  near : ns ≠ [] → ns.length ≤ 2 ^ 48 → ∀ m ∈ ms, ∃ x v,
    r.means.get? (Decimal.integer m) = some (.float x) ∧ Binary64.value? x = some v ∧
    |v - (shares ns cell m).sum / ns.length| ≤ 1 / 20000 + (shares ns cell m).sum / 2 ^ 50

section Reports

def reportOf (ns ms : List Int) (cell : Int → Int → Cell) : Report :=
  ⟨configOf ns ms, (ns ×ˢ ms).map fun pair => cell pair.1 pair.2⟩

theorem exists_decode_csv (h : ∀ n ∈ ns, ∀ m ∈ ms, (cell n m).Accounts n m) :
    ∃ rows, Csv.decode (reportOf ns ms cell).csv.toList = some (header :: rows) ∧
      rows.length = ns.length * ms.length ∧
      ∀ i n, ns[i]? = some n → ∀ j m, ms[j]? = some m → ∃ row,
        rows[i * ms.length + j]? = some row ∧ row = (cell n m).fields ∧
          (cell n m).Told row n m := by
  refine ⟨(reportOf ns ms cell).cells.map Cell.fields, ?_, ?_, ?_⟩
  · rw [Report.csv, String.toList_ofList]
    refine Csv.decode_encode (List.forall_mem_cons.mpr ⟨by simp [header], ?_⟩)
    simp [Cell.fields]
  · rw [reportOf, List.length_map, List.length_map, List.length_product]
  · intro i n hn j m hm
    refine ⟨_, ?_, rfl, (h n (List.mem_of_getElem? hn) m (List.mem_of_getElem? hm)).told⟩
    rw [reportOf, List.getElem?_map, List.getElem?_map, getElem?_product hn hm]
    rfl

/-- Cutting the cells into rows undoes the order of the pairs. -/
theorem ratioRows_product (ns ms : List Int) (cell : Int → Int → Cell) :
    Report.ratioRows ms.length (ns.map .int) ((ns ×ˢ ms).map fun pair => cell pair.1 pair.2) =
      ns.map fun n => ms.map fun m => (cell n m).ratio := by
  induction ns with
  | nil => rfl
  | cons n ns ih =>
    rw [List.product_cons, List.map_append, List.map_map, List.map_cons, Report.ratioRows,
      List.take_left' (by simp), List.drop_left' (by simp), ih, List.map_cons, List.map_map]
    rfl

theorem rows_reportOf (ns ms : List Int) (cell : Int → Int → Cell) :
    (reportOf ns ms cell).rows = ns.map fun n => ms.map fun m => (cell n m).ratio := by
  rw [← ratioRows_product, Report.rows, reportOf, configOf, List.length_map]

theorem column_reportOf {j : Nat} {m : Int} (hm : ms[j]? = some m) :
    (reportOf ns ms cell).column j = ns.map fun n => (cell n m).ratio := by
  rw [Report.column, rows_reportOf, List.map_map]
  refine List.map_congr_left fun n _ => ?_
  simp [hm]

theorem tableRow_int (n : Int) (ratios : List Float) :
    Report.tableRow (.int n) ratios = .ok (ratiosLine n ratios) := rfl

theorem tableLines_reportOf (ns ms : List Int) (cell : Int → Int → Cell) :
    (reportOf ns ms cell).tableLines = .ok (title :: sizesLine ms ::
      ns.map fun n => ratiosLine n (ms.map fun m => (cell n m).ratio)) := by
  have hsizes : (reportOf ns ms cell).config.storageSizes.mapM Report.wholeText =
      .ok (ms.map Decimal.integer) := by
    rw [reportOf, configOf, mapM_map]
    exact mapM_eq_ok fun m _ => rfl
  have hzip : (reportOf ns ms cell).config.steps.zip (reportOf ns ms cell).rows =
      ns.map fun n => (.int n, ms.map fun m => (cell n m).ratio) := by
    rw [rows_reportOf, reportOf, configOf, List.zip_map']
  have hrows := mapM_eq_ok (l := ns) fun n _ => tableRow_int n (ms.map fun m => (cell n m).ratio)
  rw [Report.tableLines, hsizes, hzip, mapM_map]
  simp only [hrows, Bind.bind, Except.bind, List.map_map, Function.comp_def, title, sizesLine]

theorem exists_table (h : ∀ n ∈ ns, ∀ m ∈ ms, (cell n m).Accounts n m) :
    ∃ text, (reportOf ns ms cell).table = .ok text ∧ TableTold text ns ms cell := by
  have hlines : ∀ l ∈ title :: sizesLine ms ::
      ns.map fun n => ratiosLine n (ms.map fun m => (cell n m).ratio), '\n' ∉ l.toList := by
    refine List.forall_mem_cons.mpr ⟨by decide, List.forall_mem_cons.mpr ⟨notMem_sizesLine ms, ?_⟩⟩
    intro l hl
    obtain ⟨n, _, rfl⟩ := List.mem_map.mp hl
    exact notMem_ratiosLine n _
  refine ⟨_, by rw [Report.table, tableLines_reportOf]; rfl, _, _,
    Text.lines_intercalate (List.cons_ne_nil _ _) hlines, words_sizesLine ms, by simp, ?_⟩
  intro i n hn
  refine ⟨_, _, by rw [List.getElem?_map, List.getElem?_map, hn]; rfl, words_ratiosLine n _,
    by simp, ?_⟩
  intro j m hm
  have hcell := h n (List.mem_of_getElem? hn) m (List.mem_of_getElem? hm)
  exact ⟨_, by rw [List.getElem?_map, List.getElem?_map, hm]; rfl, hcell.near_ratio (by decide)⟩

/-- The means before those of equal sizes are brought together. -/
theorem means_reportOf (ns ms : List Int) (cell : Int → Int → Cell) :
    (reportOf ns ms cell).means = Settings.ofPairs (ms.zipIdx.map fun (m, j) =>
      (Decimal.integer m,
        .float (a.rounded (a.mean ms.length ((reportOf ns ms cell).column j))))) := by
  rw [Report.means]
  simp only [reportOf, configOf, List.length_map, List.zipIdx_map, List.map_map]
  rfl

theorem names_means (ns ms : List Int) (cell : Int → Int → Cell) :
    Settings.names (reportOf ns ms cell).means = ms.eraseDups.map Decimal.integer := by
  have hfirst : ms.zipIdx.map (fun pair => Decimal.integer pair.1) = ms.map Decimal.integer := by
    rw [← Function.comp_def, ← List.map_map, List.zipIdx_map_fst]
  rw [means_reportOf, Settings.ofPairs, Settings.names_update,
    ← eraseDups_map Decimal.integer_injective, ← hfirst]
  simp [Settings.names, Function.comp_def]

/-- Equal sizes have equal columns, so that it does not matter which of them counts. -/
theorem get?_means {j : Nat} {m : Int} (hm : ms[j]? = some m) :
    (reportOf ns ms cell).means.get? (Decimal.integer m) =
      some (.float (a.rounded (a.mean ms.length ((reportOf ns ms cell).column j)))) := by
  rw [means_reportOf, Settings.ofPairs, Settings.get?_update, Settings.get?_eq_some, Option.some_or]
  · rw [Settings.names, List.mem_map]
    exact ⟨_, List.mem_reverse.mpr (List.mem_map.mpr
      ⟨(m, j), List.mem_zipIdx_iff_getElem?.mpr hm, rfl⟩), rfl⟩
  · intro field hfield hname
    obtain ⟨⟨m', j'⟩, hpair, rfl⟩ := List.mem_map.mp (List.mem_reverse.mp hfield)
    obtain rfl := Decimal.integer_injective hname
    have hm' : ms[j']? = some m' := List.mem_zipIdx_iff_getElem?.mp hpair
    dsimp only
    rw [column_reportOf hm, column_reportOf hm']

/-- Whatever averages, the mean of a column is near to that of its exact ratios. -/
theorem exists_near_means (ha : a.Accurate) (h : ∀ n ∈ ns, ∀ m ∈ ms, (cell n m).Accounts n m)
    (hne : ns ≠ []) (hlength : ns.length ≤ 2 ^ 48) {m : Int} (hm : m ∈ ms) :
    ∃ x v, (reportOf ns ms cell).means.get? (Decimal.integer m) = some (.float x) ∧
      Binary64.value? x = some v ∧
      |v - (shares ns cell m).sum / ns.length| ≤ 1 / 20000 + (shares ns cell m).sum / 2 ^ 50 := by
  obtain ⟨j, hj⟩ := List.getElem?_of_mem hm
  obtain ⟨v, hv, hnear⟩ := ha.exists_mean_near ms.length hne hlength
    (fun n hn => (h n hn m hm).nearlyIs_ratio) fun n hn => (h n hn m hm).share_bounds
  exact ⟨_, v, by rw [get?_means hj, column_reportOf hj], hv, hnear⟩

theorem shows_reportOf (ha : a.Accurate) (h : ∀ n ∈ ns, ∀ m ∈ ms, (cell n m).Accounts n m) :
    (reportOf ns ms cell).Shows a ns ms cell where
  config := rfl
  csv := exists_decode_csv h
  tableLines := tableLines_reportOf ns ms cell
  table := exists_table h
  column := fun _ _ hm => column_reportOf hm
  exact := fun n hn m hm => (h n hn m hm).nearlyIs_ratio
  names := names_means ns ms cell
  mean := fun _ _ hm => get?_means hm
  near := fun hne hlength _ hm => exists_near_means ha h hne hlength hm

end Reports

theorem Asks.run_eq_ok (h : Asks s ns ms)
    (hcell : ∀ n ∈ ns, ∀ m ∈ ms, measured n m = .ok (cell n m)) :
    run s = .ok (reportOf ns ms cell) := by
  have hcells : (configOf ns ms).cells = .ok ((ns ×ˢ ms).map fun pair => cell pair.1 pair.2) := by
    rw [cells_configOf]
    refine mapM_eq_ok fun pair hpair => ?_
    obtain ⟨hn, hm⟩ := List.mem_product.mp hpair
    exact hcell _ hn _ hm
  rw [h.run_eq, report, hcells]
  rfl

theorem Asks.run_eq_error (h : Asks s ns ms) {before after : List (Int × Int)} {n m : Int}
    {fault : Fault} (hpairs : ns ×ˢ ms = before ++ (n, m) :: after)
    (hbefore : ∀ pair ∈ before, fault? pair.1 pair.2 = none) (hfault : fault? n m = some fault) :
    run s = .error fault := by
  have hcells : (configOf ns ms).cells = .error fault := by
    rw [cells_configOf, hpairs]
    refine mapM_eq_error (fun pair hpair => ?_) (measured_of_fault hfault)
    obtain ⟨c, hc, _⟩ := exists_measured (hbefore pair hpair)
    exact ⟨c, hc⟩
  rw [h.run_eq, report, hcells]
  rfl

/-- If every pair has a cell, all that the report shows is made of these cells, whose counters
balance. Otherwise the first pair without one, row by row, is what the run ends with. -/
theorem Asks.run_agrees (h : Asks s ns ms) (ha : a.Accurate) :
    ((∀ n ∈ ns, ∀ m ∈ ms, fault? n m = none) →
      ∃ r cell, run s = .ok r ∧ r.Shows a ns ms cell ∧
        ∀ n ∈ ns, ∀ m ∈ ms, measured n m = .ok (cell n m) ∧ (cell n m).Accounts n m) ∧
    ((∃ n ∈ ns, ∃ m ∈ ms, fault? n m ≠ none) →
      ∃ before n m after fault, ns ×ˢ ms = before ++ (n, m) :: after ∧
        (∀ pair ∈ before, fault? pair.1 pair.2 = none) ∧ fault? n m = some fault ∧
        measured n m = .error fault ∧ run s = .error fault) := by
  constructor
  · intro hnone
    have hcells : ∀ n m, ∃ c, n ∈ ns → m ∈ ms → measured n m = .ok c ∧ c.Accounts n m := by
      intro n m
      by_cases hpair : n ∈ ns ∧ m ∈ ms
      · obtain ⟨c, hc⟩ := exists_measured (hnone n hpair.1 m hpair.2)
        exact ⟨c, fun _ _ => hc⟩
      · exact ⟨⟨.int n, .int m, {}, 0⟩, fun hn hm => absurd ⟨hn, hm⟩ hpair⟩
    choose cell hcell using hcells
    exact ⟨_, cell, h.run_eq_ok fun n hn m hm => (hcell n m hn hm).1,
      shows_reportOf ha fun n hn m hm => (hcell n m hn hm).2, fun n hn m hm => hcell n m hn hm⟩
  · rintro ⟨n, hn, m, hm, hsome⟩
    have hfound : (ns ×ˢ ms).findSome? (fun pair => fault? pair.1 pair.2) ≠ none := fun hnone =>
      hsome (List.findSome?_eq_none_iff.mp hnone (n, m) (List.mem_product.mpr ⟨hn, hm⟩))
    obtain ⟨fault, hfault⟩ := Option.ne_none_iff_exists'.mp hfound
    obtain ⟨before, ⟨n, m⟩, after, hpairs, hfirst, hbefore⟩ :=
      List.findSome?_eq_some_iff.mp hfault
    exact ⟨before, n, m, after, fault, hpairs, hbefore, hfirst, measured_of_fault hfirst,
      h.run_eq_error hpairs hbefore hfirst⟩

def settingsFor (ns ms : List Int) : Settings :=
  defaults.override [("num_steps", .list (ns.map .int)), ("storage_sizes", .list (ms.map .int))]

theorem asks_settingsFor (ns ms : List Int) : Asks (settingsFor ns ms) ns ms :=
  ⟨⟨"outputs/capacity_sweep", rfl⟩, rfl, rfl, rfl⟩

theorem Asks.run_agrees_repeated :
    (∃ r cell, run (settingsFor [0, 7] [3, 2, 3]) = .ok r ∧
      r.Shows .summing [0, 7] [3, 2, 3] cell ∧
      r.column 0 = r.column 2 ∧ Settings.names (@Report.means .summing r) = ["3", "2"] ∧
      measured 7 2 = .ok (cell 7 2) ∧ (cell 0 2).counters.recomputations = 0 ∧
      ∃ k : Int, k ≠ 0 ∧
        (∃ rows row, Csv.decode r.csv.toList = some (header :: rows) ∧ rows[4]? = some row ∧
          Csv.Shows header row "recomputations" k ∧ Csv.Shows header row "stores" (8 + k)) ∧
        ∃ x v, (@Report.means .summing r).get? "2" = some (.float x) ∧
          Binary64.value? x = some v ∧ |v - k / 14| ≤ 1 / 20000 + k / 7 / 2 ^ 50) ∧
    run (settingsFor [1, -1] [1, 0, -1]) = .error (.replayDropped 1) := by
  constructor
  · obtain ⟨r, cell, hrun, hshows, hcells⟩ :=
      ((asks_settingsFor [0, 7] [3, 2, 3]).run_agrees Averaging.summing_accurate).1 (by decide)
    obtain ⟨hmeasured, haccounts⟩ := hcells 7 (by decide) 2 (by decide)
    have hfree := (hcells 0 (by decide) 2 (by decide)).2.free_iff.mpr (by decide)
    obtain ⟨rows, hdecode, _, hrows⟩ := hshows.csv
    obtain ⟨row, hrow, _, htold⟩ := hrows 1 7 rfl 1 2 rfl
    obtain ⟨x, v, hx, hv, hnear⟩ := hshows.near (by decide) (by decide) 2 (by decide)
    have hshares : shares [0, 7] cell 2 = [0, ((cell 7 2).counters.recomputations : ℚ) / 7] := by
      simp [shares, Cell.share, hfree]
    have htwo : Decimal.integer 2 = "2" := by decide +kernel
    have hmean : ((cell 7 2).counters.recomputations : ℚ) / 7 / 2 =
        (cell 7 2).counters.recomputations / 14 := by ring
    rw [htwo] at hx
    simp only [hshares, List.sum_cons, List.sum_nil, zero_add, add_zero, List.length_cons,
      List.length_nil, Nat.reduceAdd, Nat.cast_ofNat, hmean] at hnear
    refine ⟨r, cell, hrun, hshows, ?_, ?_, hmeasured, hfree, (cell 7 2).counters.recomputations, ?_,
      ⟨rows, row, hdecode, hrow, htold.recomputations, htold.stores⟩, x, v, hx, hv, hnear⟩
    · rw [hshows.column 0 3 rfl, hshows.column 2 3 rfl]
    · rw [hshows.names]
      decide +kernel
    · exact fun hzero => absurd (haccounts.free_iff.mp hzero) (by decide)
  · obtain ⟨before, n, m, after, fault, hpairs, hbefore, hfault, _, hrun⟩ :=
      ((asks_settingsFor [1, -1] [1, 0, -1]).run_agrees Averaging.summing_accurate).2
        ⟨1, by decide, 0, by decide, by decide⟩
    -- the first pair has a cell, and the second one has none
    rcases before with _ | ⟨first, _ | ⟨second, before⟩⟩
    · cases hpairs
      cases hfault
    · cases hpairs
      rw [hrun, ← Option.some.inj hfault]
    · obtain rfl : (1, 0) = second := (List.cons.inj (List.cons.inj hpairs).2).1
      cases hbefore (1, 0) (by simp)

/-- More steps than there are indices cannot be run, whatever the storage size is. -/
theorem not_run_agrees_of_many_steps :
    Asks (settingsFor [2 ^ 63] [2 ^ 63]) [2 ^ 63] [2 ^ 63] ∧
      run (settingsFor [2 ^ 63] [2 ^ 63]) = .error .tooManySteps := by
  refine ⟨asks_settingsFor _ _, ?_⟩
  have hpairs : ([2 ^ 63] : List Int) ×ˢ ([2 ^ 63] : List Int) = [] ++ [(2 ^ 63, 2 ^ 63)] := rfl
  exact (asks_settingsFor _ _).run_eq_error hpairs (List.forall_mem_nil _) rfl

end ReverseSweep.BudgetGrid
