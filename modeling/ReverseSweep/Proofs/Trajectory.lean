import ReverseSweep.Proofs.Setup

/-! A sweep over the states of a trajectory. Whatever the budget is, each call receives the state of
its step, and the states are told backward as if all of them had been kept. -/

namespace ReverseSweep

variable {ω α ε : Type}

/-- The state after `n` updates. -/
def trajectory (f : Nat → α → α) (x : α) : Nat → α
  | 0 => x
  | n + 1 => f n (trajectory f x n)

theorem filter_updates (start count : Nat) :
    (updates start count).filter (·.1 == .reverse) = [] := by
  rw [List.filter_eq_nil_iff]
  intro heading hm
  simp [fst_of_mem_updates hm]

theorem filter_backCalls (held : Nat → Nat) (i : Nat) :
    (backCalls held i).filter (·.1 == .reverse) = [(.reverse, (i : Int))] := by
  rw [backCalls, List.filter_append, filter_updates]
  rfl

theorem filter_flatMap_backCalls (held : Nat → Nat) (is : List Nat) :
    (is.flatMap (backCalls held)).filter (·.1 == .reverse) =
      is.map fun (i : Nat) => (.reverse, (i : Int)) := by
  induction is with
  | nil => rfl
  | cons i is ih => rw [List.flatMap_cons, List.filter_append, filter_backCalls, ih]; rfl

/-- The reverse calls with their states, if each call receives the state of its step. -/
theorem Run.reverse_calls_eq {t : Run ω α} {x : Nat → α} {is : List Nat}
    (hstates : ∀ call ∈ t.calls, call.state = x call.step.toNat)
    (hheadings : t.headings.filter (·.1 == .reverse) =
      is.map fun (i : Nat) => (.reverse, (i : Int))) :
    (t.calls.filter (·.kind == .reverse)).map (fun call => (call.step, call.state)) =
      is.map fun (i : Nat) => ((i : Int), x i) := by
  have hpairs : (t.calls.filter (·.kind == .reverse)).map (fun call => (call.step, call.state)) =
      (t.headings.filter (·.1 == .reverse)).map fun heading =>
        (heading.2, x heading.2.toNat) := by
    rw [headings, List.filter_map, List.map_map]
    refine List.map_congr_left fun call hcall => ?_
    simp only [Function.comp_apply, Call.heading, hstates call (List.mem_of_mem_filter hcall)]
  rw [hpairs, hheadings, List.map_map]
  rfl

/-- On a course along known states, these are told backward. -/
theorem Course.Completes.reverse_calls_eq [Movable α] {c : Course ω α ε} {b : Bench α} {w : ω}
    {y : α} {held : Nat → Nat} {t : Run ω α} (h : c.Completes b w y held t) {x : Nat → α}
    (hmade : ∀ k y, c.made k y → y = x k) (hkept : ∀ k y, c.kept k y → y = x k) :
    (t.calls.filter (·.kind == .reverse)).map (fun call => (call.step, call.state)) =
      (List.range (c.steps + 1)).reverse.map fun (i : Nat) => ((i : Int), x i) := by
  refine Run.reverse_calls_eq (fun call hcall => ?_) ?_
  · obtain ⟨k, hsees⟩ := h.reached.sees call (List.mem_reverse.mp hcall)
    rw [hsees.step, Int.toNat_natCast]
    exact hsees.state.elim (hmade k _) (hkept k _)
  · rw [h.headings, List.filter_append, filter_updates, List.nil_append]
    exact filter_flatMap_backCalls held _

namespace Setup

variable [Movable α] {s : Setup α} {cb : Callbacks ω α ε} {n budget : Nat}

/-- A sweep ends unless it has too many steps. If it ends, `held i` being the latest step that is
held before the step back over `i`, its calls are the updates in order and then, for each step back,
the updates from there on and the reverse call. -/
theorem Asks.replays_trajectory (h : s.Asks n budget) (hb : 1 ≤ budget) {f : Nat → α → α}
    (hcb : cb.Computes f) (hstore : ∀ y, s.store.settle y = .ok y) (w : ω) :
    ((∃ y t, s.run cb w = .ok (.ok y, t)) ↔ (n : Int) < noStep) ∧
      ((n : Int) < noStep → ∃ t held,
        s.run cb w = .ok (.ok (trajectory f s.state n), t) ∧
        held n = n ∧
        (∀ i ≤ n, held i ≤ i ∧
          ∃ q, Sweep.upTo cb s.verify n s.state i ⟨w, s.begin budget, [], 0⟩ = (.ok (), q) ∧
            q.bench.schedule.latest? = some (held i : Int)) ∧
        t.headings = updates 0 n ++ (List.range (n + 1)).reverse.flatMap (backCalls held) ∧
        (∀ call ∈ t.calls, call.state = trajectory f s.state call.step.toNat) ∧
        (t.calls.filter (·.kind == .reverse)).map (fun call => (call.step, call.state)) =
          (List.range (n + 1)).reverse.map fun (i : Nat) =>
            ((i : Int), trajectory f s.state i)) := by
  refine ⟨h.exists_run_eq_ok_iff hb hcb.harmless (fun y => ⟨y, hstore y⟩) w, fun hn => ?_⟩
  let made (k : Nat) (y : α) : Prop := y = trajectory f s.state k
  have hc : (s.course cb n budget made made).Steady := by
    refine course_steady hcb hb hn (fun k y hy => ⟨y, hstore y, hy⟩) ?_
    intro k y z hy hz
    obtain hy : y = trajectory f s.state k := hy.elim id id
    rw [hz, hy]
    rfl
  obtain ⟨z, t, held, hrun, rfl, hcompletes⟩ := h.exists_completes hc rfl w
  have hstates : ∀ call ∈ t.calls, call.state = trajectory f s.state call.step.toNat := by
    intro call hcall
    obtain ⟨k, hsees⟩ := hcompletes.reached.sees call (List.mem_reverse.mp hcall)
    have hk : call.state = trajectory f s.state k := hsees.state.elim id id
    rw [hk, hsees.step, Int.toNat_natCast]
  have hheadings := hcompletes.headings
  have hreverse : t.headings.filter (·.1 == .reverse) =
      (List.range (n + 1)).reverse.map fun (i : Nat) => (.reverse, (i : Int)) := by
    rw [hheadings, List.filter_append, filter_updates, List.nil_append]
    exact filter_flatMap_backCalls held _
  exact ⟨t, held, hrun, hcompletes.held_steps,
    fun i hi => ⟨hcompletes.held_le i hi, hcompletes.upTo i hi⟩, hheadings, hstates,
    Run.reverse_calls_eq hstates hreverse⟩

theorem replays_trajectory_five_two :
    ∃ t held, (counted 5 2).run BudgetGrid.counting () = .ok (.ok 5, t) ∧ held 5 = 5 ∧
      t.headings = updates 0 5 ++ (List.range 6).reverse.flatMap (backCalls held) ∧
      ∀ call ∈ t.calls, call.state = trajectory (fun _ x => x + 1) 0 call.step.toNat := by
  obtain ⟨_, hh⟩ :=
    (asks_counted 5 2).replays_trajectory (by decide) computes_counting (fun _ => rfl) ()
  obtain ⟨t, held, hrun, hheld, _, hcalls, hstates, _⟩ := hh (by decide)
  exact ⟨t, held, hrun, hheld, hcalls, hstates⟩

/-- With more steps than there are indices no state comes out. -/
theorem not_replays_trajectory_of_many_steps :
    (counted (2 ^ 63) 1).Asks (2 ^ 63) 1 ∧ BudgetGrid.counting.Computes (fun _ x => x + 1) ∧
      (∀ y, (counted (2 ^ 63) 1).store.settle y = .ok y) ∧
      ¬ ∃ y t, (counted (2 ^ 63) 1).run BudgetGrid.counting () = .ok (.ok y, t) := by
  refine ⟨asks_counted _ _, computes_counting, fun _ => rfl, ?_⟩
  rintro ⟨y, t, hrun⟩
  have hlt := (asks_counted _ _).lt_noStep (Nat.le_refl 1) hrun
  exact absurd hlt (by decide)

end Setup
end ReverseSweep
