import ReverseSweep.Proofs.Beside
import ReverseSweep.Proofs.Columns
import ReverseSweep.Proofs.Costs
import ReverseSweep.Proofs.Histories

/-! The rows that a sweep logs: one for each interval of control steps. Nothing but the logging adds
a row, so that each row is told by how far the sweep has come when it is due. -/

namespace ReverseSweep

variable {ω α β ε : Type}

/-- What a row says that is logged after so many control steps of a sweep over `steps` steps. -/
structure Row.Tells (row : Row) (steps budget index control : Nat) : Prop where
  index : row.index = index
  forth : control ≤ steps → row.phase = "forward" ∧ row.step = control ∧ row.forward = control ∧
    row.reverse = 0
  back : steps < control → row.phase = "reverse" ∧ row.step = steps + 1 - row.reverse ∧
    row.forward = steps ∧ row.reverse = control - steps
  recomputations : row.reported.recomputations = .int row.recomputed
  stores : row.reported.stores = .int (1 + row.forward + row.recomputed)
  capacity : row.reported.capacity = .int (budget + 1)
  size : ∃ evictions : Int, row.reported.evictions = .int evictions ∧
    row.reported.size = .int (1 + row.forward + row.recomputed - evictions -
      (min row.reverse steps : Nat))
  storeSize : row.reported.storeSize = row.reported.size

/-- What can be read of such a row in the text of the journal. -/
structure Journal.Tells (row : List (List Char)) (steps budget index control : Nat) : Prop where
  length : row.length = header.length
  index : Shows row "checkpoint_idx" index
  forth : control ≤ steps → column? row "phase" = some "forward".toList ∧
    Shows row "step" control ∧ Shows row "forward_steps" control ∧ Shows row "reverse_steps" 0
  back : steps < control → column? row "phase" = some "reverse".toList ∧
    Shows row "step" (steps + 1 - (control - steps : Nat)) ∧ Shows row "forward_steps" steps ∧
    Shows row "reverse_steps" (control - steps : Nat)
  capacity : Shows row "strategy_capacity" (budget + 1)
  balance : ∃ forward recomputed reverse evictions size : Int,
    Shows row "forward_steps" forward ∧ Shows row "recomputed_steps" recomputed ∧
    Shows row "reverse_steps" reverse ∧ Shows row "recomputations" recomputed ∧
    Shows row "stores" (1 + forward + recomputed) ∧ Shows row "evictions" evictions ∧
    Shows row "strategy_size" size ∧ Shows row "store_size" size ∧
    size = 1 + forward + recomputed - evictions - min reverse steps

theorem Row.Tells.fields {row : Row} {steps budget index control : Nat}
    (h : row.Tells steps budget index control) :
    Journal.Tells row.fields steps budget index control where
  length := rfl
  index := Csv.shows_of_integerChars (h.index ▸ rfl)
  forth hcontrol := by
    obtain ⟨hphase, hstep, hforward, hreverse⟩ := h.forth hcontrol
    have hzero : (row.reverse : Int) = 0 := congrArg Nat.cast hreverse
    exact ⟨by rw [← hphase]; rfl, Csv.shows_of_integerChars (hstep ▸ rfl),
      Csv.shows_of_integerChars (hforward ▸ rfl), Csv.shows_of_integerChars (hzero ▸ rfl)⟩
  back hcontrol := by
    obtain ⟨hphase, hstep, hforward, hreverse⟩ := h.back hcontrol
    rw [← hreverse]
    exact ⟨by rw [← hphase]; rfl, Csv.shows_of_integerChars (hstep ▸ rfl),
      Csv.shows_of_integerChars (hforward ▸ rfl), Csv.shows_of_integerChars rfl⟩
  capacity := Csv.shows_of_cell rfl h.capacity
  balance := by
    obtain ⟨evictions, hevictions, hsize⟩ := h.size
    refine ⟨row.forward, row.recomputed, row.reverse, evictions, _, Csv.shows_of_integerChars rfl,
      Csv.shows_of_integerChars rfl, Csv.shows_of_integerChars rfl,
      Csv.shows_of_cell rfl h.recomputations, Csv.shows_of_cell rfl h.stores,
      Csv.shows_of_cell rfl hevictions, Csv.shows_of_cell rfl hsize,
      Csv.shows_of_cell rfl (h.storeSize.trans hsize), ?_⟩
    omega

/-- The interval and the rows of a journal, the latest first, and the rows that a run has logged. -/
structure Page where
  table : Option (Number × List Row)
  logged : Nat

def Run.page (r : Run ω α) : Page :=
  ⟨r.bench.journal.map fun j => (j.interval, j.latestRows), r.logged⟩

/-- What is on a page after so many control steps. -/
def Page.Tells (page : Page) (steps budget interval made : Nat) : Prop :=
  ∃ every rows, page = ⟨some (every, rows), rows.length⟩ ∧
    every.whole? = some (interval : Int) ∧ rows.length = made / interval ∧
    ∀ (i : Nat) (row : Row), rows.reverse[i]? = some row →
      row.Tells steps budget (i + 1) ((i + 1) * interval)

namespace Page.Tells

variable {page : Page} {steps budget interval made : Nat}

theorem skip (h : page.Tells steps budget interval made) (hd : ¬ interval ∣ made + 1) :
    page.Tells steps budget interval (made + 1) := by
  obtain ⟨every, rows, hpage, hevery, hlength, hrows⟩ := h
  exact ⟨every, rows, hpage, hevery, by rw [Nat.succ_div_of_not_dvd hd, hlength], hrows⟩

theorem add {every : Number} {rows : List Row} {row : Row}
    (h : Tells ⟨some (every, rows), rows.length⟩ steps budget interval made)
    (hd : interval ∣ made + 1) (hrow : row.Tells steps budget (rows.length + 1) (made + 1)) :
    Tells ⟨some (every, row :: rows), rows.length + 1⟩ steps budget interval (made + 1) := by
  obtain ⟨_, _, hpage, hevery, hlength, hrows⟩ := h
  obtain ⟨rfl, rfl⟩ := Prod.mk.inj (Option.some.inj (Page.mk.inj hpage).1)
  have hlast : (made + 1) / interval = rows.length + 1 := by
    rw [Nat.succ_div_of_dvd hd, hlength]
  have hcontrol : (rows.length + 1) * interval = made + 1 := by
    rw [← hlast, Nat.div_mul_cancel hd]
  refine ⟨every, row :: rows, rfl, hevery, hlast.symm, fun i a ha => ?_⟩
  rw [List.reverse_cons] at ha
  rcases Nat.lt_or_ge i rows.length with hi | hi
  · rw [List.getElem?_append_left (by simpa using hi)] at ha
    exact hrows i a ha
  · obtain ⟨hlt, rfl⟩ := List.getElem?_eq_some_iff.mp ha
    obtain rfl : i = rows.length := by
      simp at hlt
      omega
    simpa [hcontrol] using hrow

end Page.Tells

theorem Number.divides_iff {n : Number} {m : Nat} (h : n.whole? = some (m : Int)) (hm : 1 ≤ m)
    (count : Nat) : n.divides count = true ↔ m ∣ count := by
  cases n with
  | whole k =>
    obtain rfl : k = m := Option.some.inj h
    rw [divides, beq_iff_eq, ← Int.dvd_iff_emod_eq_zero, Int.natCast_dvd_natCast]
  | truth b =>
    have hb : truthValue b = m := Option.some.inj h
    cases b with
    | false =>
      simp [truthValue] at hb
      omega
    | true =>
      obtain rfl : m = 1 := Int.ofNat.inj hb.symm
      simp [divides]
  | float x => cases h

theorem Journal.due_iff {j : Journal} {interval : Nat}
    (h : j.interval.whole? = some (interval : Int)) (hpos : 1 ≤ interval)
    (hmade : 0 < j.stepsMade) : j.due = true ↔ interval ∣ j.stepsMade := by
  simp [due, hmade, Number.divides_iff h hpos]

namespace Bench

theorem journal_release (b : Bench α) (step : Int) : (b.release step).2.journal = b.journal := by
  unfold release
  split <;> rfl

variable [Movable α] (b : Bench α) (step : Int) (state : α)

theorem journal_put : (b.put step state).2.journal = b.journal := by
  unfold put
  split <;> rfl

theorem journal_keep : (b.keep step state).2.journal = b.journal := by
  unfold keep
  split
  · rfl
  · exact journal_put _ _ _

theorem journal_putOffered : (b.putOffered step state).2.journal = b.journal := by
  have hput := b.journal_put step state
  unfold putOffered
  split <;> simp_all

theorem journal_offer : (b.offer step state).2.journal = b.journal := by
  unfold offer
  split
  · rfl
  · rfl
  · exact journal_putOffered _ _ _
  · split
    · rfl
    · exact journal_putOffered _ _ _

theorem journal_offerAgain : (b.offerAgain step state).2.journal = b.journal := by
  have hoffer := b.journal_offer step state
  unfold offerAgain
  split <;> simp_all [withSchedule]

end Bench

namespace Sweep

variable {page : Page}

/-- A part that does not log leaves the page as it is, also where it stops. -/
def KeepsPage (x : Sweep ω α ε β) (page : Page) : Prop :=
  Ensures (fun r => r.page = page) x (fun _ r => r.page = page) fun _ r => r.page = page

theorem keepsPage_onBench {f : Bench α → Except Fault β × Bench α}
    (hf : ∀ b, (f b).2.journal = b.journal) : KeepsPage (onBench f : Sweep ω α ε β) page := by
  have hpage : ∀ (r : Run ω α) result b, r.page = page → f r.bench = (result, b) →
      (r.withBench b).page = page := by
    intro r result b hr hb
    have hjournal : b.journal = r.bench.journal := by simpa [hb] using hf r.bench
    rw [← hr, Run.page, Run.page, Run.withBench, hjournal]
  exact Ensures.onBench (fun r a b hr hb => hpage r _ b hr hb) fun r fault b hr hb =>
    hpage r _ b hr hb

theorem keepsPage_askBench (f : Bench α → Except Fault β) :
    KeepsPage (askBench f : Sweep ω α ε β) page := keepsPage_onBench fun _ => rfl

theorem keepsPage_verified (verify : Bool) :
    KeepsPage (verified verify : Sweep ω α ε Unit) page :=
  Ensures.verified (fun _ hr _ => hr) fun _ _ hr => hr

theorem keepsPage_record (f : Journal → Journal)
    (hf : ∀ j, (f j).interval = j.interval ∧ (f j).latestRows = j.latestRows) :
    KeepsPage (changeBench fun b => b.mapJournal f : Sweep ω α ε Unit) page := by
  refine Ensures.changeBench fun r hr => ?_
  rw [← hr]
  simp [Run.page, Run.withBench, Bench.mapJournal, Option.map_map, Function.comp_def, hf]

theorem keepsPage_callback {kind : CallKind} {step : Int} {y : α}
    {f : ω → Bench α → Except ε β × ω × Bench α}
    (hf : ∀ w b, (f w b).2.2.journal = b.journal) : KeepsPage (callback kind step y f) page := by
  have hpage : ∀ (r : Run ω α) result w b calls, r.page = page →
      f r.world r.bench = (result, w, b) → Run.page ⟨w, b, calls, r.logged⟩ = page := by
    intro r result w b calls hr hb
    have hjournal : b.journal = r.bench.journal := by simpa [hb] using hf r.world r.bench
    rw [← hr, Run.page, Run.page, hjournal]
  exact Ensures.callback (fun r a w b hr hb => hpage r _ w b _ hr hb) fun r e w b hr hb =>
    hpage r _ w b _ hr hb

/-- A part that logs a row last, if one is due. -/
def LogsRow (x : Sweep ω α ε β) (page : Page) (phase : String)
    (step : Int) : Prop :=
  Ensures (fun r => r.page = page) x
    (fun _ t => ∃ u : Run ω α, u.page = page ∧ t = u.logRow phase step) fun _ r => r.page = page

theorem logsRow_logIfDue (phase : String) (step : Int) :
    LogsRow (logIfDue phase step : Sweep ω α ε Unit) page phase step := by
  intro r hr
  rw [logIfDue_apply]
  exact .ok () _ ⟨r, hr, rfl⟩

variable [Movable α] {cb : Callbacks ω α ε}

theorem keepsPage_start (verify : Bool) (y : α) :
    KeepsPage (start verify y : Sweep ω α ε Unit) page :=
  (keepsPage_onBench fun b => b.journal_keep 0 y).andThen fun _ => keepsPage_verified verify

theorem logsRow_forward (hcb : cb.LeavesJournal) (verify : Bool) (n : Nat) (y : α) :
    LogsRow (forward cb verify n y) page "forward" (n + 1) := by
  refine (keepsPage_callback fun w b => hcb.update n y w b).andThen fun next => ?_
  refine (keepsPage_onBench fun b => b.journal_offer (n + 1) next).andThen fun _ => ?_
  refine (keepsPage_verified verify).andThen fun _ => ?_
  refine (keepsPage_record Journal.recordForward fun _ => ⟨rfl, rfl⟩).andThen fun _ => ?_
  exact (logsRow_logIfDue "forward" (n + 1)).andThen fun _ => Ensures.done next fun _ ht => ht

theorem keepsPage_recompute (hcb : cb.LeavesJournal) (verify : Bool) (last : Int) :
    KeepsPage (recompute cb verify last) page := by
  refine (keepsPage_askBench _).andThen fun state => ?_
  refine (keepsPage_callback fun w b => hcb.update last state w b).andThen fun next => ?_
  refine (keepsPage_onBench fun b => b.journal_offerAgain (last + 1) next).andThen fun _ => ?_
  refine (keepsPage_verified verify).andThen fun _ => ?_
  exact keepsPage_record Journal.recordRecomputed fun _ => ⟨rfl, rfl⟩

theorem logsRow_stepBack (hcb : cb.LeavesJournal) (verify : Bool) (i : Nat) :
    LogsRow (stepBack cb verify i) page "reverse" i := by
  have hreach : KeepsPage (reach cb verify i) page := by
    refine (Ensures.reach ?_ fun _ hr _ => hr).mono (fun _ hr => hr) (fun _ _ ht => ht.1)
      fun _ _ ht => ht
    exact fun last => (keepsPage_recompute hcb verify last).mono (fun _ hr => hr.1)
      (fun _ _ ht => ht) fun _ _ ht => ht
  refine hreach.andThen fun _ => ?_
  refine (keepsPage_askBench _).andThen fun state => ?_
  refine (keepsPage_callback fun w b => hcb.reverse i state w b).andThen fun _ => ?_
  refine (keepsPage_onBench fun b => b.journal_release i).andThen fun _ => ?_
  refine (keepsPage_verified verify).andThen fun _ => ?_
  refine (keepsPage_record Journal.recordReverse fun _ => ⟨rfl, rfl⟩).andThen fun _ => ?_
  exact logsRow_logIfDue "reverse" i

end Sweep

theorem Run.logRow_of_journal {r : Run ω α} {j : Journal} (h : r.bench.journal = some j)
    (phase : String) (step : Int) :
    r.logRow phase step = if j.due then
      ⟨r.world, r.bench.log (r.logged + 1) phase step r.bench.reported, r.latestCalls, r.logged + 1⟩
      else r := by
  simp [logRow, h]

/-- Logging leaves the counts of the journal, so that a row has those that are there after it. -/
theorem Run.progress_logRow (r : Run ω α) (phase : String) (step : Int) :
    (r.logRow phase step).bench.journal.map Journal.progress =
      r.bench.journal.map Journal.progress := by
  cases hj : r.bench.journal with
  | none => simp [logRow, hj]
  | some j =>
    rw [logRow_of_journal hj]
    cases j.due with
    | false => simp [hj]
    | true => simp [Bench.log, Bench.mapJournal, hj, Journal.log, Journal.progress]

/-- The phase and the step that a row names, by how far the sweep over `steps` steps has come. -/
inductive Progress.Names (steps : Nat) : Progress → String → Int → Prop
  | forward (k : Nat) (h : k ≤ steps) : Names steps ⟨k, 0, 0⟩ "forward" k
  | reverse (replayed back : Nat) (h : 0 < back) :
      Names steps ⟨steps, replayed, back⟩ "reverse" (steps + 1 - back)

namespace Course

variable {c : Course ω α ε} {r u : Run ω α} {k made interval : Nat} {p : Progress} {phase : String}
  {step : Int}

theorem Reached.tells (h : c.Reached r k p) (hp : p.Names c.steps phase step) (index : Nat)
    (elapsed : Float) :
    Row.Tells ⟨index, phase, step, p.forward, p.replayed, p.reversed, r.bench.reported, elapsed⟩
      c.steps c.budget index (p.forward + p.reversed) where
  index := rfl
  forth := by
    intro hcontrol
    cases hp with
    | forward => exact ⟨rfl, rfl, rfl, rfl⟩
    | reverse _ back hback => exact absurd hcontrol (Nat.not_le.mpr (Nat.lt_add_of_pos_right hback))
  back := by
    intro hcontrol
    cases hp with
    | forward k hk => exact absurd hcontrol (Nat.not_lt.mpr hk)
    | reverse => exact ⟨rfl, rfl, rfl, by simp⟩
  recomputations := congrArg Json.int h.counts.recomputations
  stores := congrArg Json.int h.counts.stores
  capacity := by
    have hcapacity := h.holds.rooted.capacity
    simp [Bench.reported, Reported.ofStats, Schedule.stats, hcapacity, Json.ofNumber]
  size := by
    refine ⟨_, rfl, congrArg Json.int ?_⟩
    have hbalance := h.counts.balance
    simp only [Schedule.stats]
    omega
  storeSize := by
    have hsize := h.holds.lockstep.size_eq
    simp [Bench.reported, Reported.ofStats, Schedule.stats, hsize]

/-- One more control step. A row is due if their number is a multiple of the interval. -/
theorem Reached.page_logRow (h : c.Reached (u.logRow phase step) k p) (hj : c.Journaled)
    (hpage : u.page.Tells c.steps c.budget interval made) (hpos : 1 ≤ interval)
    (hp : p.Names c.steps phase step) (hmade : p.forward + p.reversed = made + 1) :
    (u.logRow phase step).page.Tells c.steps c.budget interval (made + 1) := by
  have hold := hpage
  obtain ⟨every, rows, hu, hevery, _⟩ := hpage
  obtain ⟨htable, hlogged⟩ := Page.mk.inj hu
  obtain ⟨j, hjournal, hj'⟩ := Option.map_eq_some_iff.mp htable
  obtain ⟨rfl, rfl⟩ := Prod.mk.inj hj'
  have htold := ((u.progress_logRow phase step).symm.trans (h.told hj)).symm
  rw [hjournal] at htold
  obtain ⟨_, _, rfl⟩ := Option.map_eq_some_iff.mp htold
  have hsteps : j.stepsMade = made + 1 := hmade
  have hdue := Journal.due_iff hevery hpos (by omega : 0 < j.stepsMade)
  rw [hsteps] at hdue
  have hlog := Run.logRow_of_journal hjournal phase step
  by_cases hd : interval ∣ made + 1
  · rw [hlog, if_pos (hdue.mpr hd)] at h ⊢
    have hrow : Row.Tells ⟨u.logged + 1, phase, step, j.forward, j.recomputed, j.reverse,
        u.bench.reported, u.bench.now - j.start⟩ c.steps c.budget (u.logged + 1)
        (j.forward + j.reverse) := h.tells hp (u.logged + 1) (u.bench.now - j.start)
    rw [show j.forward + j.reverse = made + 1 from hmade, hlogged] at hrow
    rw [hu] at hold
    simpa [Run.page, Bench.log, Bench.mapJournal, Journal.log, hjournal, hlogged] using
      hold.add hd hrow
  · rw [hlog, if_neg (mt hdue.mp hd)]
    exact hold.skip hd

variable [Movable α] {y : α}

theorem Reached.exists_forward_eq_ok (h : c.Reached r k ⟨k, 0, 0⟩) (hc : c.Steady)
    (hk : k < c.steps) (hy : c.made k y) :
    ∃ z t, Sweep.forward c.callbacks c.verify k y r = (.ok z, t) ∧ c.made (k + 1) z ∧
      c.Reached t (k + 1) ⟨k + 1, 0, 0⟩ := by
  obtain ⟨z, t, hpass, hz, ht, _⟩ := h.forward hc hk hy 0
  rw [Sweep.advance_succ] at hpass
  obtain ⟨_, _, hforward, hsame⟩ := Sweep.exists_of_bind_eq_ok hpass
  cases hsame
  exact ⟨z, t, hforward, hz, ht⟩

/-- What is known of a run on the way forward, after `n` steps. -/
def Forth (c : Course ω α ε) (interval n : Nat) (y : α) (r : Run ω α) : Prop :=
  c.made n y ∧ c.Reached r n ⟨n, 0, 0⟩ ∧ r.page.Tells c.steps c.budget interval n

/-- What is known of a run on the way back, when the steps from `n` on have been given up. -/
def Back (c : Course ω α ε) (interval n : Nat) (r : Run ω α) : Prop :=
  n ≤ c.steps + 1 ∧ ∃ latest replayed, latest ≤ n - 1 ∧
    c.Reached r latest ⟨c.steps, replayed, c.steps + 1 - n⟩ ∧
    r.page.Tells c.steps c.budget interval (c.steps + (c.steps + 1 - n))

theorem ensures_forth (hc : c.Steady) (hj : c.Journaled) (hcb : c.callbacks.LeavesJournal)
    (hpos : 1 ≤ interval) {n : Nat} (hn : n < c.steps) (y : α) :
    Sweep.Ensures (c.Forth interval n y) (Sweep.forward c.callbacks c.verify n y)
      (fun z => c.Forth interval (n + 1) z) fun _ _ => False := by
  rintro r ⟨hy, hr, hpage⟩
  obtain ⟨z, t, hforward, hz, ht⟩ := hr.exists_forward_eq_ok hc hn hy
  obtain ⟨u, hu, rfl⟩ := (Sweep.logsRow_forward hcb c.verify n y).ok_of rfl hforward
  rw [hforward]
  exact .ok z _ ⟨hz, ht, ht.page_logRow hj (hu ▸ hpage) hpos (.forward (n + 1) hn) rfl⟩

theorem ensures_back (hc : c.Steady) (hj : c.Journaled) (hcb : c.callbacks.LeavesJournal)
    (hpos : 1 ≤ interval) (i : Nat) :
    Sweep.Ensures (c.Back interval (i + 1)) (Sweep.stepBack c.callbacks c.verify i)
      (fun _ => c.Back interval i) fun _ _ => False := by
  rintro r ⟨hi, latest, replayed, hheld, hr, hpage⟩
  have hlatest : latest ≤ i := hheld
  have hback : c.steps + 1 - (i + 1) + i = c.steps := by omega
  have hmade : c.steps + 1 - (i + 1) + 1 = c.steps + 1 - i := by omega
  obtain ⟨t, j, hstep, hle, ht, _⟩ := hr.stepBack hc hlatest hback
  obtain ⟨u, hu, rfl⟩ := (Sweep.logsRow_stepBack hcb c.verify i).ok_of rfl hstep
  have hnames : Progress.Names c.steps
      ⟨c.steps, replayed + (i - latest), c.steps + 1 - (i + 1) + 1⟩ "reverse" i := by
    have hplace : (i : Int) = c.steps + 1 - (c.steps + 1 - (i + 1) + 1 : Nat) := by omega
    rw [hplace]
    exact .reverse _ _ (Nat.succ_pos _)
  have hnext := ht.page_logRow hj (hu ▸ hpage) hpos hnames (Nat.add_assoc _ _ 1).symm
  rw [Nat.add_assoc, hmade] at hnext
  rw [hmade] at ht
  rw [hstep]
  exact .ok () _ ⟨by omega, j, _, hle, ht, hnext⟩

theorem Begins.ensures_rows {b : Bench α} (h : c.Begins b) (hc : c.Steady) (hj : c.Journaled)
    (hcb : c.callbacks.LeavesJournal) (hpos : 1 ≤ interval) (hy : c.made 0 y) (w : ω)
    (hpage : (Run.page ⟨w, b, [], 0⟩).Tells c.steps c.budget interval 0) :
    Sweep.Ensures (· = ⟨w, b, [], 0⟩) (Sweep.sweep c.callbacks c.verify c.steps y)
      (fun _ t => t.page.Tells c.steps c.budget interval (2 * c.steps + 1)) fun _ _ => False := by
  have hstart : Sweep.Ensures (· = ⟨w, b, [], 0⟩) (Sweep.start c.verify y : Sweep ω α ε Unit)
      (fun _ => c.Forth interval 0 y) fun _ _ => False := by
    rintro r rfl
    obtain ⟨t, ht, hreached, _⟩ := h.reached_start hc hy w
    have hsame := (Sweep.keepsPage_start c.verify y).ok_of rfl ht
    rw [ht]
    exact .ok () t ⟨hy, hreached, hsame ▸ hpage⟩
  have hforth := Sweep.Ensures.advanceTo
    (fun n hn y => ensures_forth (c := c) hc hj hcb hpos hn y) c.steps 0 y (by omega)
  have hback := Sweep.Ensures.retreat (ensures_back (c := c) hc hj hcb hpos) c.steps
  refine hstart.andThen fun _ => hforth.andThen fun final => ?_
  refine (hback.mono ?_ (fun _ _ ht => ht) fun _ _ ht => ht).andThen fun _ =>
    Sweep.Ensures.done final ?_
  · rintro r ⟨_, hreached, htells⟩
    rw [Nat.zero_add] at hreached htells
    exact ⟨Nat.le_refl _, c.steps, 0, Nat.le_refl _, by rwa [Nat.sub_self],
      by rwa [Nat.sub_self, Nat.add_zero]⟩
  · rintro r ⟨_, _, _, _, _, ht⟩
    have htotal : c.steps + (c.steps + 1 - 0) = 2 * c.steps + 1 := by omega
    rwa [htotal] at ht

end Course

theorem Journal.pos_of_create {every : Number} {now : Float} {j : Journal} {interval : Nat}
    (h : create every now = .ok j) (hevery : every.whole? = some (interval : Int)) :
    1 ≤ interval ∧ j = ⟨every, now, 0, 0, 0, []⟩ := by
  unfold create at h
  split at h
  · cases h
  · rename_i hlow
    have hpos : ¬ (interval : Int) < 1 := fun hlt => hlow ((Number.below_iff hevery 1).mpr hlt)
    exact ⟨by omega, (Except.ok.inj h).symm⟩

namespace Setup

variable [Movable α] {s : Setup α} {cb : Callbacks ω α ε} {n budget interval : Nat}

/-- The rows of a sweep that ends, and those that its journal reads back as: one for each full
interval of its control steps, the steps forward and those back. Each row has the counts of its
control step, and what schedule, store and journal have counted agrees. -/
theorem Asks.rows_every_interval (h : s.Asks n budget) (hb : 1 ≤ budget) {every : Number}
    {now : Float} {j : Journal} (hevery : every.whole? = some (interval : Int))
    (hcreate : Journal.create every now = .ok j) (hj : s.journal = some j)
    (hcb : cb.Harmless) (hjournal : cb.LeavesJournal)
    (hsettle : ∀ y, ∃ z, s.store.settle y = .ok z) (w : ω) :
    ((∃ z t, s.run cb w = .ok (.ok z, t)) ↔ (n : Int) < noStep) ∧
      ∀ z t, s.run cb w = .ok (.ok z, t) → ∃ j', t.bench.journal = some j' ∧
        j'.rows.length = (2 * n + 1) / interval ∧
        (∀ (i : Nat) (row : Row), j'.rows[i]? = some row →
          row.Tells n budget (i + 1) ((i + 1) * interval)) ∧
        ∃ rows, Csv.decode j'.text.toList = some (Journal.header :: rows) ∧
          rows.length = (2 * n + 1) / interval ∧
          ∀ (i : Nat) (row : List (List Char)), rows[i]? = some row →
            Journal.Tells row n budget (i + 1) ((i + 1) * interval) := by
  refine ⟨h.exists_run_eq_ok_iff hb hcb hsettle w, fun z t hrun => ?_⟩
  obtain ⟨hpos, rfl⟩ := Journal.pos_of_create hcreate hevery
  have hn := h.lt_noStep hb hrun
  have hc := course_steady_of_harmless hcb hb hn hsettle
  have hjournaled : (s.course cb n budget (fun _ _ => True) fun _ _ => True).Journaled :=
    ⟨fun j' hj' => Option.some.inj (hj.symm.trans hj') ▸ rfl, hjournal.update, hjournal.reverse⟩
  have hpage : (Run.page ⟨w, s.begin budget, [], 0⟩).Tells n budget interval 0 :=
    ⟨every, [], by simp [Run.page, begin, hj], hevery, by simp, by simp⟩
  rw [h.run_eq hb (Int.le_of_lt hn)] at hrun
  have hsweep : Sweep.sweep cb s.verify n s.state ⟨w, s.begin budget, [], 0⟩ = (.ok z, t) :=
    Except.ok.inj hrun
  obtain ⟨_, rows, hrows, _, hlength, htells⟩ :=
    (h.begins.ensures_rows hc hjournaled hjournal hpos trivial w hpage).ok_of rfl hsweep
  obtain ⟨j', hj', hsame⟩ := Option.map_eq_some_iff.mp (Page.mk.inj hrows).1
  obtain ⟨_, rfl⟩ := Prod.mk.inj hsame
  have hcount : j'.rows.length = (2 * n + 1) / interval := by
    rw [Journal.rows, List.length_reverse]
    exact hlength
  refine ⟨j', hj', hcount, htells, _, j'.decode_text, by rw [List.length_map, hcount], ?_⟩
  intro i row hrow
  rw [List.getElem?_map] at hrow
  obtain ⟨told, htold, rfl⟩ := Option.map_eq_some_iff.mp hrow
  exact (htells i told htold).fields

theorem rows_every_interval_six_two :
    ∃ z t j, (counted 6 2 (some ⟨.whole 5, 0, 0, 0, 0, []⟩)).run BudgetGrid.counting () =
        .ok (.ok z, t) ∧
      t.bench.journal = some j ∧ j.rows.length = 2 ∧
      (∀ row, j.rows[0]? = some row → row.phase = "forward" ∧ row.step = 5 ∧ row.forward = 5) ∧
      (∀ row, j.rows[1]? = some row →
        row.phase = "reverse" ∧ row.step = 3 ∧ row.forward = 6 ∧ row.reverse = 4) ∧
      ∃ first second, Csv.decode j.text.toList = some [Journal.header, first, second] ∧
        Journal.column? first "phase" = some "forward".toList ∧ Journal.Shows first "step" 5 ∧
        Journal.column? second "phase" = some "reverse".toList ∧ Journal.Shows second "step" 3 ∧
        Journal.Shows second "reverse_steps" 4 ∧ Journal.Shows second "strategy_capacity" 3 := by
  have hevery : (Number.whole 5).whole? = some ((5 : Nat) : Int) := rfl
  have hcreate : Journal.create (.whole 5) 0 = .ok ⟨.whole 5, 0, 0, 0, 0, []⟩ := rfl
  obtain ⟨hends, hrows⟩ := (asks_counted 6 2 _).rows_every_interval (by decide) hevery hcreate rfl
    computes_counting.harmless ⟨fun _ _ _ _ => rfl, fun _ _ _ _ => rfl⟩ (fun y => ⟨y, rfl⟩) ()
  obtain ⟨z, t, hrun⟩ := hends.mpr (by decide)
  obtain ⟨j, hj, hlength, htells, rows, hdecode, hcount, hshown⟩ := hrows z t hrun
  obtain ⟨first, second, rfl⟩ := List.length_eq_two.mp hcount
  refine ⟨z, t, j, hrun, hj, hlength, fun row hrow => ?_, fun row hrow => ?_, first, second,
    hdecode, ?_⟩
  · obtain ⟨hphase, hstep, hforward, _⟩ := (htells 0 row hrow).forth (by decide)
    exact ⟨hphase, hstep, hforward⟩
  · obtain ⟨hphase, hstep, hforward, hreverse⟩ := (htells 1 row hrow).back (by decide)
    exact ⟨hphase, by rw [hstep, hreverse]; rfl, hforward, hreverse⟩
  · obtain ⟨hphase, hstep, _⟩ := (hshown 0 first rfl).forth (by decide)
    have hsecond := hshown 1 second rfl
    obtain ⟨hphase', hstep', _, hreverse'⟩ := hsecond.back (by decide)
    exact ⟨hphase, hstep, hphase', hstep', hreverse', hsecond.capacity⟩

/-- With more steps than there are indices no row is logged, though one is due. -/
theorem not_rows_every_interval_of_many_steps :
    let journal : Journal := ⟨.whole (2 ^ 64 + 1), 0, 0, 0, 0, []⟩
    let s := counted (2 ^ 63) (2 ^ 63) (some journal)
    s.Asks (2 ^ 63) (2 ^ 63) ∧ BudgetGrid.counting.Harmless ∧ BudgetGrid.counting.LeavesJournal ∧
      Journal.create (.whole (2 ^ 64 + 1)) 0 = .ok journal ∧
      ∃ result t j, s.run BudgetGrid.counting () = .ok (result, t) ∧
        t.bench.journal = some j ∧ j.rows.length = 0 ∧ (2 * 2 ^ 63 + 1) / (2 ^ 64 + 1) = 1 := by
  intro journal s
  have hasks : s.Asks (2 ^ 63) (2 ^ 63) := asks_counted _ _ _
  have hrun : s.run BudgetGrid.counting () = .ok (Sweep.sweepOf BudgetGrid.counting s.verify
      (.error .tooManySteps) s.state ⟨(), s.begin (2 ^ 63), [], 0⟩) :=
    hasks.run_eq_of_greatestIndex_lt (by decide) (by decide)
  obtain ⟨t, ht, _⟩ := hasks.exists_run_tooManySteps (by decide) (by decide)
    computes_counting.harmless (fun y => ⟨y, rfl⟩) ()
  have hkeeps : Sweep.KeepsPage (Sweep.sweepOf BudgetGrid.counting s.verify (.error .tooManySteps)
      s.state) ⟨some (.whole (2 ^ 64 + 1), []), 0⟩ :=
    (Sweep.keepsPage_start s.verify s.state).andThen fun _ => Sweep.keepsPage_askBench _
  have hpage : t.page = ⟨some (.whole (2 ^ 64 + 1), []), 0⟩ :=
    hkeeps.error_of rfl (Except.ok.inj (hrun.symm.trans ht))
  obtain ⟨j, hj, hrows⟩ := Option.map_eq_some_iff.mp (Page.mk.inj hpage).1
  obtain ⟨_, hnone⟩ := Prod.mk.inj hrows
  exact ⟨hasks, computes_counting.harmless, ⟨fun _ _ _ _ => rfl, fun _ _ _ _ => rfl⟩, rfl, _, t, j,
    ht, hj, by simp [Journal.rows, hnone], by decide⟩

end Setup

end ReverseSweep
