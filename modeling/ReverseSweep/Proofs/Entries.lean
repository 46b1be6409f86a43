import ReverseSweep.Proofs.Overflow
import ReverseSweep.Proofs.Rows

/-! What is logged reads back from the text of the journal: the header, and then a row of fourteen
fields for each call that was not refused, in the order of the calls. Rows are only added behind the
others, so that a text is the beginning of every later one. -/

namespace ReverseSweep

open Binary64 (overflowBound)

variable {α : Type}

section Values

/-- What statistics report under a name. What they leave out counts as zero. -/
def Settings.reported (s : Settings) (name : String) : Json := (s.get? name).getD (.int 0)

/-- A number that a double can hold. -/
def Json.fitsDouble : Json → Bool
  | .int n => n.natAbs < overflowBound
  | .bool _ | .float _ => true
  | _ => false

namespace Reported

theorem decimal_int (n : Int) : decimal (.int n) =
    if n.natAbs < overflowBound then .ok (nearestQuotient n 1) else .error .tooLargeForFloat :=
  Number.toFloat_whole n

theorem fitsDouble_iff (value : Json) :
    value.fitsDouble = true ↔ ∃ x, decimal value = .ok x := by
  cases value with
  | int n =>
    rw [decimal_int]
    by_cases h : n.natAbs < overflowBound <;> simp [Json.fitsDouble, h]
  | _ => simp [Json.fitsDouble, decimal, Json.number?, Number.toFloat]

/-- What is reported of two sets of statistics, once the utilization is a double. -/
def given (schedule store : Settings) (utilization : Float) : Reported :=
  ⟨schedule.reported "size", schedule.reported "capacity", utilization,
    schedule.reported "stores", schedule.reported "evictions",
    schedule.reported "recomputations", store.reported "size"⟩

theorem ofSettings_eq (schedule store : Settings) : ofSettings schedule store =
    (decimal (schedule.reported "utilization")).map (given schedule store) := by
  simp only [ofSettings, Settings.reported]
  cases decimal _ <;> rfl

end Reported

end Values

namespace Journal

variable {j k : Journal}

/-- The row that is logged with the counts as they are. -/
def rowOf (j : Journal) (now : Float) (index : Int) (phase : String) (step : Int)
    (reported : Reported) : Row :=
  ⟨index, phase, step, j.forward, j.recomputed, j.reverse, reported, now - j.start⟩

theorem rows_log (j : Journal) (now : Float) (index : Int) (phase : String) (step : Int)
    (reported : Reported) : (j.log now index phase step reported).rows =
      j.rows ++ [j.rowOf now index phase step reported] := by
  rw [rows, rows, log, List.reverse_cons]
  rfl

/-- The columns of whole numbers that the statistics of the schedule report, and their names there. -/
def scheduleColumns : List (String × String) :=
  [("strategy_size", "size"), ("strategy_capacity", "capacity"), ("stores", "stores"),
   ("evictions", "evictions"), ("recomputations", "recomputations")]

/-- What can be read in the row of a call to log. -/
structure Records (row : List (List Char)) (index : Int) (phase : String) (step : Int)
    (forward recomputed reverse : Nat) (schedule store : Settings) (elapsed : Float) : Prop where
  length : row.length = 14
  index : Shows row "checkpoint_idx" index
  phase : column? row "phase" = some phase.toList
  step : Shows row "step" step
  forward : Shows row "forward_steps" forward
  recomputed : Shows row "recomputed_steps" recomputed
  reverse : Shows row "reverse_steps" reverse
  scheduled : ∀ column name n, (column, name) ∈ scheduleColumns →
    schedule.reported name = .int n → Shows row column n
  utilization : ∀ x, Reported.decimal (schedule.reported "utilization") = .ok x →
    column? row "strategy_utilization" = some (Decimal.fixedChars 4 x)
  storeSize : ∀ n, store.reported "size" = .int n → Shows row "store_size" n
  elapsed : column? row "elapsed_seconds" = some (Decimal.fixedChars 2 elapsed)

theorem records_rowOf (j : Journal) (now : Float) (index : Int) (phase : String) (step : Int)
    {schedule store : Settings} {utilization : Float}
    (h : Reported.decimal (schedule.reported "utilization") = .ok utilization) :
    Records (j.rowOf now index phase step (.given schedule store utilization)).fields index phase
      step j.forward j.recomputed j.reverse schedule store (now - j.start) where
  length := rfl
  index := Csv.shows_of_integerChars rfl
  phase := rfl
  step := Csv.shows_of_integerChars rfl
  forward := Csv.shows_of_integerChars rfl
  recomputed := Csv.shows_of_integerChars rfl
  reverse := Csv.shows_of_integerChars rfl
  scheduled column name n hcolumn hn := by
    refine Csv.shows_of_cell ?_ hn
    simp only [scheduleColumns, List.mem_cons, Prod.mk.injEq, List.not_mem_nil, or_false] at hcolumn
    obtain ⟨rfl, rfl⟩ | ⟨rfl, rfl⟩ | ⟨rfl, rfl⟩ | ⟨rfl, rfl⟩ | ⟨rfl, rfl⟩ := hcolumn <;> rfl
  utilization x hx := by
    obtain rfl : utilization = x := Except.ok.inj (h.symm.trans hx)
    rfl
  storeSize _ hn := Csv.shows_of_cell rfl hn
  elapsed := rfl

theorem text_of_rows_append {later : List Row} (h : k.rows = j.rows ++ later) :
    j.text.toList <+: k.text.toList := by
  refine ⟨Csv.encode (later.map Row.fields), ?_⟩
  simp [text, textChars, Csv.encode, h]

end Journal

namespace Bench

open Journal (column? Shows)

namespace Request

def isForward : Request α → Bool
  | .recordForward => true
  | _ => false

def isRecomputed : Request α → Bool
  | .recordRecomputed => true
  | _ => false

def isReverse : Request α → Bool
  | .recordReverse => true
  | _ => false

/-- A call to log that is not refused. -/
def isRow : Request α → Bool
  | .log _ _ _ given _ => given.all fun s => (s.reported "utilization").fitsDouble
  | _ => false

end Request

/-- The statistics of the schedule in a call to log, as they stand unless they are given. -/
def scheduleStats (b : Bench α) (given : Option Settings) : Settings :=
  given.getD b.schedule.stats.settings

def storeStats (b : Bench α) (given : Option Settings) : Settings :=
  given.getD b.store.stats.settings

/-- What a request does to the journal of a bench. -/
inductive Notes (b : Bench α) (j : Journal) : Request α → Journal → Prop
  | forward : Notes b j .recordForward j.recordForward
  | recomputed : Notes b j .recordRecomputed j.recordRecomputed
  | reverse : Notes b j .recordReverse j.recordReverse
  | row {index phase step schedule store utilization}
    (hrow : (Request.log index phase step schedule store : Request α).isRow = true)
    (hu : Reported.decimal ((b.scheduleStats schedule).reported "utilization") =
      .ok utilization) :
    Notes b j (.log index phase step schedule store) (j.log b.now index phase step
      (.given (b.scheduleStats schedule) (b.storeStats store) utilization))
  | other {r : Request α} (hforward : r.isForward = false) (hrecomputed : r.isRecomputed = false)
    (hreverse : r.isReverse = false) (hrow : r.isRow = false) : Notes b j r j

/-- A journal that a history has led to from another one. -/
structure Continues (j k : Journal) (history : List (Request α)) : Prop where
  start : k.start = j.start
  forward : k.forward = j.forward + history.countP Request.isForward
  recomputed : k.recomputed = j.recomputed + history.countP Request.isRecomputed
  reverse : k.reverse = j.reverse + history.countP Request.isReverse
  rows : ∃ later, k.rows = j.rows ++ later ∧ later.length = history.countP Request.isRow

variable {b : Bench α} {i j k : Journal} {index step : Int} {phase : String}
  {schedule store : Option Settings}

/-- Whether a call is refused is told by the call alone: statistics as they stand never are. -/
theorem isRow_log_iff (b : Bench α) (index : Int) (phase : String) (step : Int)
    (schedule store : Option Settings) :
    (Request.log index phase step schedule store : Request α).isRow = true ↔
      ((b.scheduleStats schedule).reported "utilization").fitsDouble = true := by
  cases schedule with
  | none => simp [Request.isRow, scheduleStats, Settings.reported, Settings.get?,
      Schedule.Stats.settings, Json.fitsDouble]
  | some s => rfl

theorem reported_size (b : Bench α) :
    (b.scheduleStats none).reported "size" = .int b.schedule.size := rfl

theorem continues_refl (j : Journal) : Continues j j ([] : List (Request α)) :=
  ⟨rfl, rfl, rfl, rfl, [], by simp⟩

theorem Continues.trans {history later : List (Request α)} (h : Continues i j history)
    (h' : Continues j k later) : Continues i k (history ++ later) := by
  obtain ⟨new, hnew, hlength⟩ := h.rows
  obtain ⟨new', hnew', hlength'⟩ := h'.rows
  refine ⟨h'.start.trans h.start, ?_, ?_, ?_, new ++ new', ?_, ?_⟩
  · rw [h'.forward, h.forward, List.countP_append, Nat.add_assoc]
  · rw [h'.recomputed, h.recomputed, List.countP_append, Nat.add_assoc]
  · rw [h'.reverse, h.reverse, List.countP_append, Nat.add_assoc]
  · rw [hnew', hnew, List.append_assoc]
  · rw [List.length_append, hlength, hlength', List.countP_append]

theorem Notes.continues {r : Request α} (h : b.Notes j r k) : Continues j k [r] := by
  cases h with
  | row hrow =>
    exact ⟨rfl, rfl, rfl, rfl, _, Journal.rows_log .., by simp [hrow]⟩
  | other hforward hrecomputed hreverse hrow =>
    exact ⟨rfl, by simp [hforward], by simp [hrecomputed], by simp [hreverse], [], by simp [hrow]⟩
  | _ => exact ⟨rfl, rfl, rfl, rfl, [], by simp [Journal.rows, Journal.recordForward,
      Journal.recordRecomputed, Journal.recordReverse, Request.isRow]⟩

variable [Movable α]

theorem perform_log_of_ok (hj : b.journal = some j) {utilization : Float}
    (hu : Reported.decimal ((b.scheduleStats schedule).reported "utilization") = .ok utilization) :
    let reported := Reported.given (b.scheduleStats schedule) (b.storeStats store) utilization
    b.perform (.log index phase step schedule store) =
      (.ok (.text (j.log b.now index phase step reported).text),
        b.log index phase step reported) := by
  have hreported := Reported.ofSettings_eq (b.scheduleStats schedule) (b.storeStats store)
  rw [hu] at hreported
  simp only [scheduleStats, storeStats] at hreported ⊢
  simp [perform, hreported, Except.map, log, ask, mapJournal, hj]

theorem perform_log_of_error (hj : b.journal = some j) {fault : Fault}
    (hu : Reported.decimal ((b.scheduleStats schedule).reported "utilization") = .error fault) :
    b.perform (.log index phase step schedule store) = (.error fault, b) := by
  have hreported := Reported.ofSettings_eq (b.scheduleStats schedule) (b.storeStats store)
  rw [hu] at hreported
  simp only [scheduleStats, storeStats] at hreported
  simp [perform, hreported, Except.map, ask, hj, Except.bind]

theorem exists_notes (hj : b.journal = some j) (r : Request α) :
    ∃ k, (b.perform r).2.journal = some k ∧ b.Notes j r k := by
  cases r with
  | recordForward => exact ⟨_, by simp [perform, mapJournal, hj], .forward⟩
  | recordRecomputed => exact ⟨_, by simp [perform, mapJournal, hj], .recomputed⟩
  | recordReverse => exact ⟨_, by simp [perform, mapJournal, hj], .reverse⟩
  | log index phase step schedule store =>
    have hrow := b.isRow_log_iff index phase step schedule store
    rw [Reported.fitsDouble_iff] at hrow
    -- nothing but the utilization can have the call refused
    cases hu : Reported.decimal ((b.scheduleStats schedule).reported "utilization") with
    | ok x =>
      refine ⟨_, ?_, .row (hrow.mpr ⟨x, hu⟩) hu⟩
      simp [perform_log_of_ok hj hu, log, mapJournal, hj]
    | error fault =>
      have hrefused : (Request.log index phase step schedule store : Request α).isRow = false := by
        simp [← Bool.not_eq_true, hrow, hu]
      exact ⟨j, by rw [perform_log_of_error hj hu, hj], .other rfl rfl rfl hrefused⟩
  | offer step state => exact ⟨j, (b.journal_offer step state).trans hj, .other rfl rfl rfl rfl⟩
  | release step => exact ⟨j, (b.journal_release step).trans hj, .other rfl rfl rfl rfl⟩
  | _ => exact ⟨j, hj, .other rfl rfl rfl rfl⟩

theorem after_append (b : Bench α) (first later : List (Request α)) :
    b.after (first ++ later) = (b.after first).after later := List.foldl_append

theorem exists_continues (hj : b.journal = some j) (history : List (Request α)) :
    ∃ k, (b.after history).journal = some k ∧ Continues j k history := by
  induction history generalizing b j with
  | nil => exact ⟨j, hj, continues_refl j⟩
  | cons r history ih =>
    obtain ⟨i, hi, hnotes⟩ := exists_notes hj r
    obtain ⟨k, hk, hcontinues⟩ := ih hi
    exact ⟨k, hk, hnotes.continues.trans hcontinues⟩

/-- A call to log that is not refused adds its row behind those of the calls before it. -/
theorem exists_records_of_log (hj : b.journal = some j) (index : Int) (phase : String) (step : Int)
    (store : Option Settings) {utilization : Float}
    (hu : Reported.decimal ((b.scheduleStats schedule).reported "utilization") = .ok utilization) :
    ∃ k row, b.perform (.log index phase step schedule store) =
        (.ok (.text k.text), b.mapJournal fun _ => k) ∧ k.rows = j.rows ++ [row] ∧
      Journal.Records row.fields index phase step j.forward j.recomputed j.reverse
        (b.scheduleStats schedule) (b.storeStats store) (b.now - j.start) := by
  refine ⟨_, _, ?_, Journal.rows_log .., Journal.records_rowOf j _ _ _ _ hu⟩
  rw [perform_log_of_ok hj hu, log, mapJournal, mapJournal, hj]
  rfl

/-- A call to log with a whole utilization that no double can hold is refused. -/
theorem perform_log_of_vast (hj : b.journal = some j) {n : Int}
    (hu : (b.scheduleStats schedule).reported "utilization" = .int n)
    (hn : overflowBound ≤ n.natAbs) :
    b.perform (.log index phase step schedule store) = (.error .tooLargeForFloat, b) := by
  apply perform_log_of_error hj
  rw [hu, Reported.decimal_int, if_neg (Nat.not_lt.mpr hn)]

/-- The counts of a journal are those of the history since it was new. -/
structure Tallies (k : Journal) (start : Float) (history : List (Request α)) : Prop where
  start : k.start = start
  forward : k.forward = history.countP Request.isForward
  recomputed : k.recomputed = history.countP Request.isRecomputed
  reverse : k.reverse = history.countP Request.isReverse
  rows : k.rows.length = history.countP Request.isRow

theorem exists_tallies {interval : Number} {start : Float}
    (hnew : Journal.create interval start = .ok j) (hj : b.journal = some j)
    (history : List (Request α)) :
    ∃ k, (b.after history).journal = some k ∧ Tallies k start history := by
  obtain ⟨k, hk, hcontinues⟩ := exists_continues hj history
  obtain ⟨later, hrows, hlength⟩ := hcontinues.rows
  unfold Journal.create at hnew
  split at hnew <;> cases hnew
  refine ⟨k, hk, hcontinues.start, ?_, ?_, ?_, ?_⟩
  · rw [hcontinues.forward, Nat.zero_add]
  · rw [hcontinues.recomputed, Nat.zero_add]
  · rw [hcontinues.reverse, Nat.zero_add]
  · rw [hrows, ← hlength]
    rfl

/-- What is logged stays in front of what later requests log. -/
theorem exists_rows_append (hj : b.journal = some j) {later : List (Request α)}
    (hk : (b.after later).journal = some k) : ∃ rows, k.rows = j.rows ++ rows := by
  obtain ⟨k', hk', hcontinues⟩ := exists_continues hj later
  obtain rfl : k' = k := Option.some.inj (hk'.symm.trans hk)
  obtain ⟨rows, hrows, _⟩ := hcontinues.rows
  exact ⟨rows, hrows⟩

/-- After any history from a new journal on the text reads back as the header and a row for each
call to log that was not refused, in their order. Every earlier text is the beginning of it. -/
theorem rows_read_back {interval : Number} {start : Float}
    (hnew : Journal.create interval start = .ok j) (hj : b.journal = some j)
    (history : List (Request α)) :
    ∃ k rows, (b.after history).journal = some k ∧
      Csv.decode k.text.toList = some (Journal.header :: rows) ∧
      rows.length = history.countP Request.isRow ∧
      (∀ first later, history = first ++ later →
        ∃ i, (b.after first).journal = some i ∧ i.text.toList <+: k.text.toList ∧
          Csv.decode i.text.toList =
            some (Journal.header :: rows.take (first.countP Request.isRow))) ∧
      ∀ first later index phase step schedule store,
        history = first ++ .log index phase step schedule store :: later →
        let c := b.after first
        let utilization := (c.scheduleStats schedule).reported "utilization"
        (utilization.fitsDouble = true →
          ∃ text row, (c.perform (.log index phase step schedule store)).1 = .ok (.text text) ∧
            rows[first.countP Request.isRow]? = some row ∧
            Journal.Records row index phase step (first.countP Request.isForward)
              (first.countP Request.isRecomputed) (first.countP Request.isReverse)
              (c.scheduleStats schedule) (c.storeStats store) (c.now - start)) ∧
        ∀ n, utilization = .int n → overflowBound ≤ n.natAbs →
          c.perform (.log index phase step schedule store) = (.error .tooLargeForFloat, c) := by
  obtain ⟨k, hk, htallies⟩ := exists_tallies hnew hj history
  refine ⟨k, k.rows.map Row.fields, hk, k.decode_text, ?_, ?_, ?_⟩
  · rw [List.length_map, htallies.rows]
  · rintro first later rfl
    obtain ⟨i, hi, hfirst⟩ := exists_tallies hnew hj first
    rw [after_append] at hk
    obtain ⟨rows, hrows⟩ := exists_rows_append hi hk
    refine ⟨i, hi, Journal.text_of_rows_append hrows, ?_⟩
    rw [i.decode_text, hrows, ← List.map_take, List.take_left' hfirst.rows]
  · rintro first later index phase step schedule store rfl c utilization
    -- `i` is the journal at the call, `m` the one right after it
    obtain ⟨i, hi, hfirst⟩ := exists_tallies hnew hj first
    refine ⟨fun hfits => ?_, fun n => perform_log_of_vast hi⟩
    obtain ⟨x, hx⟩ := (Reported.fitsDouble_iff _).mp hfits
    obtain ⟨m, row, hperform, hm, hrecords⟩ := exists_records_of_log hi index phase step store hx
    have hjournal : (c.perform (.log index phase step schedule store)).2.journal = some m := by
      rw [hperform, mapJournal, hi]
      rfl
    rw [after_append] at hk
    obtain ⟨rows, hrows⟩ := exists_rows_append hjournal hk
    rw [hfirst.forward, hfirst.recomputed, hfirst.reverse, hfirst.start] at hrecords
    refine ⟨m.text, row.fields, by rw [hperform], ?_, hrecords⟩
    rw [hrows, hm, ← hfirst.rows]
    simp

def newJournal : Journal := ⟨.whole 100, 0, 0, 0, 0, []⟩

def noted : Bench (Placed Nat) := ⟨.ofBudget 20, {}, some newJournal, 0⟩

/-- A call to log with a utilization of two to the 1024th. -/
def vastLog : Request (Placed Nat) :=
  .log 1 "forward" 1 (some [("utilization", .int (twoTo 1024))]) (some [])

theorem rows_read_back_quoted :
    let phase := "a, \"b\"\r\n"
    let history : List (Request (Placed Nat)) :=
      [.recordForward, .log 1 phase (-3) (some [("size", .int 7), ("utilization", .int 1)]) none,
        vastLog, .offer 4 (.data 40), .recordRecomputed, .recordReverse, .log 2 "" 5 none none]
    ∃ k row row', (noted.after history).journal = some k ∧
      Csv.decode k.text.toList = some [Journal.header, row, row'] ∧
      column? row "phase" = some phase.toList ∧ Shows row "step" (-3) ∧
      Shows row "strategy_size" 7 ∧ Shows row "forward_steps" 1 ∧
      column? row' "phase" = some [] ∧ Shows row' "strategy_size" 1 ∧
      Shows row' "recomputed_steps" 1 ∧ Shows row' "reverse_steps" 1 := by
  intro phase history
  have hnew : Journal.create (.whole 100) 0 = .ok newJournal := rfl
  obtain ⟨k, rows, hk, hdecode, hlength, -, hlogged⟩ :=
    rows_read_back (b := noted) hnew rfl history
  have hcount : history.countP Request.isRow = 2 := by decide +kernel
  obtain ⟨row, row', rfl⟩ := List.length_eq_two.mp (hlength.trans hcount)
  have hbefore : (history.take 6).countP Request.isRow = 1 := by decide +kernel
  have hsize : (noted.after (history.take 6)).schedule.size = 1 := by decide +kernel
  obtain ⟨hfirst, -⟩ := hlogged [.recordForward] _ _ _ _ _ _ rfl
  obtain ⟨_, _, -, hrow, hrecords⟩ := hfirst (by decide +kernel)
  obtain rfl := Option.some.inj hrow
  obtain ⟨hsecond, -⟩ := hlogged (history.take 6) [] 2 "" 5 none none rfl
  obtain ⟨_, _, -, hrow', hrecords'⟩ := hsecond (by decide +kernel)
  rw [hbefore] at hrow'
  obtain rfl := Option.some.inj hrow'
  refine ⟨k, row, row', hk, hdecode, hrecords.phase, hrecords.step, ?_, hrecords.forward,
    hrecords'.phase, ?_, hrecords'.recomputed, hrecords'.reverse⟩
  · exact hrecords.scheduled "strategy_size" "size" 7 (by simp [Journal.scheduleColumns]) rfl
  · refine hrecords'.scheduled "strategy_size" "size" 1 (by simp [Journal.scheduleColumns]) ?_
    rw [reported_size, hsize]
    rfl

/-- A whole utilization of two to the 1024th is a finite number, but its call adds no row. -/
theorem not_rows_read_back_of_vast_utilization :
    noted.perform vastLog = (.error .tooLargeForFloat, noted) ∧
      (noted.after [vastLog]).journal = some newJournal ∧
      Csv.decode newJournal.text.toList = some [Journal.header] := by
  have hvast : overflowBound ≤ (twoTo 1024 : Int).natAbs := by decide +kernel
  have hperform : noted.perform vastLog = (.error .tooLargeForFloat, noted) :=
    perform_log_of_vast rfl rfl hvast
  refine ⟨hperform, ?_, newJournal.decode_text⟩
  rw [after, List.foldl_cons, hperform]
  rfl

end Bench
end ReverseSweep
