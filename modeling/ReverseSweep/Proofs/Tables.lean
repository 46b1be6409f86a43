import ReverseSweep.Text.Csv

/-! A table reads back from its text. A field may hold commas, quotes and ends of lines: the reader
goes through it, plain or in quotes, and ends it only at the mark behind it. -/

namespace ReverseSweep.Csv

variable {f : List Char} {row : List (List Char)} {rows : List (List (List Char))}
  {p : Place}

/-- Whether a field may end there. -/
def Place.Ends (p : Place) : Prop := p = .before ∨ p = .plain ∨ p = .afterQuote

theorem run_comma (h : p.Ends) (cs : List Char) :
    Reader.run ⟨p, f, row, rows⟩ (',' :: cs) = Reader.run ⟨.before, [], row ++ [f], rows⟩ cs := by
  rcases h with rfl | rfl | rfl <;> rfl

theorem run_lineEnd (h : p.Ends) (cs : List Char) :
    Reader.run ⟨p, f, row, rows⟩ ('\r' :: '\n' :: cs) =
      Reader.run ⟨.before, [], [], rows ++ [row ++ [f]]⟩ cs := by
  rcases h with rfl | rfl | rfl <;> rfl

theorem exists_run_plain (h : ∀ c ∈ f, special c = false) (hp : p = .before ∨ p = .plain)
    (taken : List Char) (row : List (List Char)) (rows : List (List (List Char))) :
    ∃ q, q.Ends ∧ ∀ cs, Reader.run ⟨p, taken, row, rows⟩ (f ++ cs) =
      Reader.run ⟨q, taken ++ f, row, rows⟩ cs := by
  induction f generalizing p taken with
  | nil => exact ⟨p, hp.imp_right .inl, by simp⟩
  | cons c f ih =>
    obtain ⟨hc, hf⟩ := List.forall_mem_cons.mp h
    obtain ⟨q, hq, hrun⟩ := ih hf (.inr rfl) (taken ++ [c])
    simp only [special, Bool.or_eq_false_iff, beq_eq_false_iff_ne] at hc
    obtain ⟨⟨⟨hcomma, hquote⟩, hreturn⟩, hline⟩ := hc
    have hstep : Reader.step ⟨p, taken, row, rows⟩ c = some ⟨.plain, taken ++ [c], row, rows⟩ := by
      rcases hp with rfl | rfl <;>
        simp [Reader.step, Reader.take, hcomma, hquote, hreturn, hline]
    refine ⟨q, hq, fun cs => ?_⟩
    rw [List.cons_append, Reader.run, hstep, Option.bind_some, hrun, List.append_assoc,
      List.singleton_append]

theorem run_quoted (f taken cs : List Char) (row : List (List Char))
    (rows : List (List (List Char))) :
    Reader.run ⟨.inQuotes, taken, row, rows⟩ (doubleQuotes f ++ '"' :: cs) =
      Reader.run ⟨.afterQuote, taken ++ f, row, rows⟩ cs := by
  induction f generalizing taken with
  | nil => simp [doubleQuotes, Reader.run, Reader.step, Reader.goTo]
  | cons c f ih =>
    have hmore := ih (taken ++ [c])
    rw [List.append_assoc, List.singleton_append] at hmore
    by_cases hc : c = '"'
    · subst hc
      simpa [doubleQuotes, Reader.run, Reader.step, Reader.goTo, Reader.take] using hmore
    · simpa [doubleQuotes, Reader.run, Reader.step, Reader.take, hc] using hmore

/-- A field is gone through as a whole, whatever it holds. -/
theorem exists_run_encodeField (f : List Char) (row : List (List Char))
    (rows : List (List (List Char))) :
    ∃ q, q.Ends ∧ ∀ cs, Reader.run ⟨.before, [], row, rows⟩ (encodeField f ++ cs) =
      Reader.run ⟨q, f, row, rows⟩ cs := by
  unfold encodeField
  split
  · refine ⟨.afterQuote, .inr (.inr rfl), fun cs => ?_⟩
    have hquoted := run_quoted f [] cs row rows
    simpa [Reader.run, Reader.step, Reader.goTo] using hquoted
  · rename_i hspecial
    exact exists_run_plain (by simpa using hspecial) (.inl rfl) [] row rows

theorem run_encodeRow {fields : List (List Char)} (h : fields ≠ []) (row : List (List Char))
    (rows : List (List (List Char))) (cs : List Char) :
    Reader.run ⟨.before, [], row, rows⟩ (encodeRow fields ++ cs) =
      Reader.run ⟨.before, [], [], rows ++ [row ++ fields]⟩ cs := by
  induction fields generalizing row with
  | nil => exact absurd rfl h
  | cons f fields ih =>
    obtain ⟨q, hq, hrun⟩ := exists_run_encodeField f row rows
    cases fields with
    | nil => simp [encodeRow, hrun, run_lineEnd hq]
    | cons g fields =>
      have hrest := ih (List.cons_ne_nil g fields) (row ++ [f])
      rw [List.append_assoc, List.singleton_append] at hrest
      simp only [encodeRow, List.append_assoc, List.cons_append, hrun, run_comma hq]
      exact hrest

/-- Rows that were read stay as they are. -/
theorem run_encode {table : List (List (List Char))} (h : ∀ row ∈ table, row ≠ [])
    (rows : List (List (List Char))) (cs : List Char) :
    Reader.run ⟨.before, [], [], rows⟩ (encode table ++ cs) =
      Reader.run ⟨.before, [], [], rows ++ table⟩ cs := by
  induction table generalizing rows with
  | nil => simp [encode]
  | cons row table ih =>
    obtain ⟨hrow, htable⟩ := List.forall_mem_cons.mp h
    have hrest := ih htable (rows ++ [row])
    rw [List.append_assoc, List.singleton_append] at hrest
    rw [encode, List.flatMap_cons, List.append_assoc, run_encodeRow hrow, List.nil_append]
    exact hrest

theorem decode_encode {table : List (List (List Char))} (h : ∀ row ∈ table, row ≠ []) :
    decode (encode table) = some table := by
  have hrun := run_encode h [] []
  rw [List.append_nil, List.nil_append, Reader.run] at hrun
  simp only [decode, hrun]

end ReverseSweep.Csv
