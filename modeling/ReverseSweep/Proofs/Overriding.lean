import ReverseSweep.Settings

/-! Named values that override others. A name keeps the place where it came first, and has the value
that was set last. -/

namespace ReverseSweep.Settings

variable {s : Settings} {name : String} {value : Json}

def names (s : Settings) : List String := s.map (·.1)

@[simp] theorem names_cons (field : String × Json) (s : Settings) :
    names (field :: s) = field.1 :: names s := rfl

theorem get?_cons (field : String × Json) (s : Settings) (name : String) :
    get? (field :: s) name = if field.1 = name then some field.2 else s.get? name := by
  by_cases h : field.1 = name <;> simp [get?, h]

theorem get?_append (s t : Settings) (name : String) :
    get? (s ++ t) name = (s.get? name).or (t.get? name) := by
  induction s with
  | nil => rfl
  | cons field s ih =>
    rw [List.cons_append, get?_cons, get?_cons, ih]
    split <;> rfl

theorem get?_eq_none (hname : name ∉ names s) : s.get? name = none := by
  induction s with
  | nil => rfl
  | cons field s ih =>
    obtain ⟨hne, hrest⟩ := List.ne_and_not_mem_of_not_mem_cons hname
    rw [get?_cons, if_neg (Ne.symm hne), ih hrest]

theorem get?_eq_some (hname : name ∈ names s) (h : ∀ field ∈ s, field.1 = name → field.2 = value) :
    s.get? name = some value := by
  induction s with
  | nil => cases hname
  | cons field s ih =>
    obtain ⟨hfield, hrest⟩ := List.forall_mem_cons.mp h
    rw [get?_cons]
    split
    · rename_i he
      rw [hfield he]
    · rename_i hne
      exact ih ((List.mem_cons.mp hname).resolve_left fun he => hne he.symm) hrest

theorem get?_put (s : Settings) (name : String) (value : Json) (other : String) :
    (s.put name value).get? other = if name = other then some value else s.get? other := by
  induction s with
  | nil => rw [put, get?_cons]
  | cons field s ih =>
    rw [put, get?_cons]
    by_cases hf : field.1 = name
    · rw [if_pos hf, get?_cons, hf]
      split <;> rfl
    · rw [if_neg hf, get?_cons, ih]
      by_cases ho : field.1 = other
      · have hne : name ≠ other := fun he => hf (ho.trans he.symm)
        rw [if_pos ho, if_pos ho, if_neg hne]
      · rw [if_neg ho, if_neg ho]

theorem names_put (s : Settings) (name : String) (value : Json) :
    (s.put name value).names = if name ∈ s.names then s.names else s.names ++ [name] := by
  induction s with
  | nil => rfl
  | cons field s ih =>
    rw [put]
    by_cases hf : field.1 = name
    · simp [hf]
    · have hne : name ≠ field.1 := fun he => hf he.symm
      rw [if_neg hf, names_cons, names_cons, ih]
      by_cases hm : name ∈ names s <;> simp [hm, hne]

/-- The latest value of a name counts, and else the one from before. -/
theorem get?_update (s later : Settings) (name : String) :
    (s.update later).get? name = (get? later.reverse name).or (s.get? name) := by
  induction later generalizing s with
  | nil => rfl
  | cons field later ih =>
    have hstep : s.update (field :: later) = (s.put field.1 field.2).update later := rfl
    rw [hstep, ih, get?_put, List.reverse_cons, get?_append, Option.or_assoc, get?_cons]
    split <;> rfl

/-- Names that are set anew follow the others, in the order in which they first come. -/
theorem names_update (s later : Settings) :
    (s.update later).names = s.names ++ (later.names.filter (· ∉ s.names)).eraseDups := by
  induction later generalizing s with
  | nil => simp [update, names]
  | cons field later ih =>
    have hstep : s.update (field :: later) = (s.put field.1 field.2).update later := rfl
    rw [hstep, ih, names_put, names_cons]
    by_cases hm : field.1 ∈ s.names
    · simp [hm]
    · have hrest : (names later).filter (· ∉ s.names ++ [field.1]) =
          ((names later).filter (· ∉ s.names)).filter fun other => !other == field.1 := by
        rw [List.filter_filter]
        refine List.filter_congr fun other _ => ?_
        by_cases he : other = field.1 <;> simp [he]
      rw [if_neg hm, hrest, List.filter_cons_of_pos (by simpa using hm), List.eraseDups_cons,
        List.append_assoc, List.singleton_append]

theorem nodup_put (h : s.names.Nodup) (name : String) (value : Json) :
    (s.put name value).names.Nodup := by
  rw [names_put]
  split
  · exact h
  · rw [List.nodup_append]
    refine ⟨h, by simp, ?_⟩
    rintro a ha b hb rfl
    simp_all

theorem nodup_update (h : s.names.Nodup) (later : Settings) : (s.update later).names.Nodup := by
  induction later generalizing s with
  | nil => exact h
  | cons field later ih => exact ih (nodup_put h field.1 field.2)

end ReverseSweep.Settings
