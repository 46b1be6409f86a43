import ReverseSweep.Proofs.Numerals
import ReverseSweep.RunFolder

/-! Folders for runs are new ones. A name is tried without a number first and with one number after
another then, and the first that is free is taken. So no folder is given out twice, whenever the
runs start, whatever they are called, and whatever was in the base folder before. -/

namespace ReverseSweep

namespace Moment

variable {c : Char}

theorem notMem_natural (hc : ∀ d < 10, c ≠ Decimal.digit d) (n : Nat) :
    c ∉ (Decimal.natural n).toList := by
  rw [Decimal.natural, String.toList_ofList]
  intro h
  obtain ⟨d, hd, he⟩ := Decimal.exists_digit_of_mem h
  exact hc d hd he

theorem notMem_paddedNatural (hc : ∀ d < 10, c ≠ Decimal.digit d) (width n : Nat) :
    c ∉ (Decimal.paddedNatural width n).toList := by
  have hn := notMem_natural hc n
  rw [Decimal.natural, String.toList_ofList] at hn
  rw [Decimal.paddedNatural, String.toList_ofList, Decimal.padZeros, List.mem_append]
  rintro (h | h)
  · exact hc 0 (by decide) (List.eq_of_mem_replicate h)
  · exact hn h

theorem notMem_stamp (hc : ∀ d < 10, c ≠ Decimal.digit d) (hminus : c ≠ '-') (hline : c ≠ '_')
    (m : Moment) : c ∉ m.stamp.toList := by
  simp [stamp, notMem_natural hc, notMem_paddedNatural hc, hminus, hline]

end Moment

namespace RunFolder

variable {entries : List Entry} {start : Moment} {label : Option String} {name : String}

/-- A text that can be the name of an entry, without a way to other folders in it. -/
structure IsPlain (text : String) : Prop where
  slash : '/' ∉ text.toList
  null : '\x00' ∉ text.toList

/-- The name is the first that is free among those without a number and with the numbers from 1. -/
structure FirstFree (stem : String) (taken : List String) (name : String) : Prop where
  free : name ∉ taken
  least : ∃ k, name = numbered stem k ∧ ∀ j < k, numbered stem j ∈ taken

def inBase (name : String) : Made := ⟨[], name, [name]⟩

def folder (name : String) : Entry := ⟨[name], true⟩

theorem numbered_injective (stem : String) : Function.Injective (numbered stem) := by
  intro i j h
  have hlists := congrArg String.toList h
  cases i with
  | zero =>
    cases j with
    | zero => rfl
    | succ j => simp [numbered] at hlists
  | succ i =>
    cases j with
    | zero => simp [numbered] at hlists
    | succ j =>
      simp only [numbered, String.toList_append] at hlists
      exact Decimal.natural_injective (String.toList_injective (List.append_cancel_left hlists))

/-- The search goes on as long as names are taken. Crossing off a taken name does not free it for
the search, as its number does not come again. -/
theorem exists_firstFree_eq (stem : String) (k : Nat) (taken : List String) :
    ∃ j, k ≤ j ∧ firstFree stem k taken = numbered stem j ∧ numbered stem j ∉ taken ∧
      ∀ i, k ≤ i → i < j → numbered stem i ∈ taken := by
  fun_induction firstFree stem k taken with
  | case1 k taken hmem ih =>
    obtain ⟨j, hj, heq, hfree, hbelow⟩ := ih
    have hne : numbered stem j ≠ numbered stem k := fun he => by
      have := numbered_injective stem he
      omega
    refine ⟨j, by omega, heq, fun hm => hfree ((List.mem_erase_of_ne hne).mpr hm), ?_⟩
    intro i hi hlt
    by_cases hik : i = k
    · exact hik ▸ hmem
    · exact List.mem_of_mem_erase (hbelow i (by omega) hlt)
  | case2 k taken hfree => exact ⟨k, Nat.le_refl k, rfl, hfree, by omega⟩

theorem partsFrom_of_notMem {cs : List Char} (h : '/' ∉ cs) (part : List Char) :
    partsFrom part cs = [String.ofList (part.reverse ++ cs)] := by
  induction cs generalizing part with
  | nil => simp [partsFrom]
  | cons c cs ih =>
    have hc : c ≠ '/' := fun he => h (he ▸ List.mem_cons_self)
    have hcs : '/' ∉ cs := fun hm => h (List.mem_cons_of_mem c hm)
    simp [partsFrom, hc, ih hcs]

theorem IsPlain.parts_eq (h : IsPlain name) : parts name = [name] := by
  simp [parts, partsFrom_of_notMem h.slash]

theorem stem_plain (h : ∀ text ∈ label, IsPlain text) (start : Moment) :
    IsPlain (stem start label) := by
  have hslash := Moment.notMem_stamp (c := '/') (by decide) (by decide) (by decide) start
  have hnull := Moment.notMem_stamp (c := '\x00') (by decide) (by decide) (by decide) start
  cases label with
  | none => exact ⟨hslash, hnull⟩
  | some text =>
    obtain ⟨hs, hn⟩ := h text rfl
    unfold stem
    dsimp only
    split
    · exact ⟨hslash, hnull⟩
    · exact ⟨by simp [hslash, hs], by simp [hnull, hn]⟩

theorem line_mem_stem (start : Moment) (label : Option String) :
    '_' ∈ (stem start label).toList := by
  have hstamp : '_' ∈ start.stamp.toList := by simp [Moment.stamp]
  cases label with
  | none => exact hstamp
  | some text =>
    unfold stem
    dsimp only
    split
    · exact hstamp
    · simp

theorem namesIn_append (entries others : List Entry) (place : List String) :
    namesIn (entries ++ others) place = namesIn entries place ++ namesIn others place :=
  List.filterMap_append

theorem namesIn_folders (names : List String) : namesIn (names.map folder) [] = names := by
  simp [namesIn, folder, List.filterMap_map, Function.comp_def]

section Single

variable (h : IsPlain name) (hline : '_' ∈ name.toList)
include h hline

/-- A line in the name tells it from the names that lead to other folders. -/
theorem plain?_eq (entries : List Entry) :
    plain? entries name = .ok (if name ∈ namesIn entries [] then none else some (inBase name)) := by
  have hne (text : String) (ht : '_' ∉ text.toList) : name ≠ text := fun he => ht (he ▸ hline)
  have hname : isName name = true := by
    simp [isName, hne "" (by simp), hne "." (by simp)]
  have hup : name ≠ up := hne up (by simp [up])
  simp [plain?, h.parts_eq, hname, walk, Except.map, hup, inBase]

omit hline in
theorem withNumber_eq (entries : List Entry) :
    withNumber entries name = .ok (inBase (firstFree name 1 (namesIn entries []))) := by
  simp [withNumber, h.parts_eq, walk, Except.map, inBase]

end Single

theorem exists_create_eq (h : ∀ text ∈ label, IsPlain text) (entries : List Entry)
    (start : Moment) : ∃ name, create entries start label =
        .ok (inBase name, entries ++ [folder name]) ∧
      FirstFree (stem start label) (namesIn entries []) name := by
  have hplain := stem_plain h start
  have hfirst := plain?_eq hplain (line_mem_stem start label) entries
  have hnull := hplain.null
  by_cases htaken : stem start label ∈ namesIn entries []
  · obtain ⟨j, hj, hname, hfree, hbelow⟩ :=
      exists_firstFree_eq (stem start label) 1 (namesIn entries [])
    have hnumbered := withNumber_eq hplain entries
    rw [if_pos htaken] at hfirst
    rw [hname] at hnumbered
    refine ⟨numbered (stem start label) j, ?_, hfree, j, rfl, fun i hi => ?_⟩
    · simp [create, hnull, hfirst, hnumbered, inBase, folder, Bind.bind, Except.bind]
    · -- number 0 is the name without a number, which is taken
      cases i with
      | zero => exact htaken
      | succ i => exact hbelow (i + 1) (by omega) hi
  · rw [if_neg htaken] at hfirst
    refine ⟨stem start label, ?_, htaken, 0, rfl, by omega⟩
    simp [create, hnull, hfirst, inBase, folder, Bind.bind, Except.bind]

/-- Makes a folder for each start and label, one after another. -/
def createEach : List (Moment × Option String) → List Entry →
    Except Fault (List Made × List Entry)
  | [], entries => .ok ([], entries)
  | (start, label) :: calls, entries => do
    let (made, entries) ← create entries start label
    let (others, entries) ← createEach calls entries
    .ok (made :: others, entries)

theorem createTimes_eq_createEach (start : Moment) (label : Option String) (count : Nat)
    (entries : List Entry) :
    createTimes start label count entries =
      createEach (List.replicate count (start, label)) entries := by
  induction count generalizing entries with
  | zero => rfl
  | succ count ih =>
    rw [List.replicate_succ, createTimes, createEach]
    refine bind_congr fun (made, entries) => ?_
    dsimp only
    rw [ih]

/-- However many runs start, and whenever, each gets a folder of its own. It is named for its start
and its label, with the least number that makes the name free among all that is in the base folder
by then; and nothing else is changed there. -/
theorem fresh_of_createEach (calls : List (Moment × Option String))
    (h : ∀ call ∈ calls, ∀ text ∈ call.2, IsPlain text) (entries : List Entry) :
    ∃ names : List String,
      createEach calls entries = .ok (names.map inBase, entries ++ names.map folder) ∧
      names.length = calls.length ∧
      (∀ i start label, calls[i]? = some (start, label) → ∃ name, names[i]? = some name ∧
        FirstFree (stem start label) (namesIn (entries ++ (names.take i).map folder) []) name) ∧
      names.Nodup ∧ ∀ name ∈ names, name ∉ namesIn entries [] := by
  induction calls generalizing entries with
  | nil => exact ⟨[], by simp [createEach], rfl, by simp, List.nodup_nil, by simp⟩
  | cons call calls ih =>
    obtain ⟨start, label⟩ := call
    obtain ⟨name, hcreate, hfirst⟩ := exists_create_eq (h _ List.mem_cons_self) entries start
    obtain ⟨names, hrest, hlen, heach, hnodup, hnew⟩ :=
      ih (fun call hm => h call (List.mem_cons_of_mem _ hm)) (entries ++ [folder name])
    have hothers : ∀ other ∈ names, other ∉ namesIn entries [] ∧ other ≠ name := by
      intro other hm
      have hnames := hnew other hm
      rw [namesIn_append, show [folder name] = [name].map folder from rfl, namesIn_folders] at hnames
      simpa using hnames
    refine ⟨name :: names, ?_, by simp [hlen], ?_, ?_, ?_⟩
    · simp [createEach, hcreate, hrest, Bind.bind, Except.bind]
    · intro i start' label' hi
      cases i with
      | zero =>
        obtain ⟨rfl, rfl⟩ : start = start' ∧ label = label' := by simpa using hi
        exact ⟨name, rfl, by simpa using hfirst⟩
      | succ i => simpa using heach i start' label' (by simpa using hi)
    · exact List.nodup_cons.mpr ⟨fun hm => (hothers name hm).2 rfl, hnodup⟩
    · intro other hm
      rcases List.mem_cons.mp hm with rfl | hm
      · exact hfirst.free
      · exact (hothers other hm).1

def evening : Moment := ⟨987, 12, 31, 23, 59, 59, 999999⟩

/-- A file has the plain name of the second run, and the first run has taken it with a number. -/
theorem fresh_of_createEach_colliding :
    let entries : List Entry := [⟨["987-12-31_23-59-59_a"], false⟩, ⟨["b", "x"], true⟩]
    let calls := [(evening, some "a_1"), (evening, some "a"), (evening, some ""),
      (evening, some "a_1")]
    ∃ names : List String,
      createEach calls entries = .ok (names.map inBase, entries ++ names.map folder) ∧
      names = ["987-12-31_23-59-59_a_1", "987-12-31_23-59-59_a_2", "987-12-31_23-59-59",
        "987-12-31_23-59-59_a_1_1"] ∧
      FirstFree (stem evening (some "a"))
        (namesIn (entries ++ (names.take 1).map folder) []) "987-12-31_23-59-59_a_2" ∧
      names.Nodup ∧ ∀ name ∈ names, name ∉ namesIn entries [] := by
  intro entries calls
  have hplain : ∀ call ∈ calls, ∀ text ∈ call.2, IsPlain text := by
    have hlabel (text : String) (h : '/' ∉ text.toList ∧ '\x00' ∉ text.toList) : IsPlain text :=
      ⟨h.1, h.2⟩
    intro call hm text ht
    simp only [calls, List.mem_cons, List.not_mem_nil, or_false] at hm
    rcases hm with rfl | rfl | rfl | rfl <;> cases ht <;> exact hlabel _ (by decide)
  obtain ⟨names, hcreate, _, heach, hnodup, hnew⟩ := fresh_of_createEach calls hplain entries
  have hnames : names = ["987-12-31_23-59-59_a_1", "987-12-31_23-59-59_a_2", "987-12-31_23-59-59",
      "987-12-31_23-59-59_a_1_1"] := by
    have hmade : ((createEach calls entries).toOption.map fun made => made.1.map (·.name)) =
        some ["987-12-31_23-59-59_a_1", "987-12-31_23-59-59_a_2", "987-12-31_23-59-59",
          "987-12-31_23-59-59_a_1_1"] := by decide +kernel
    simpa [hcreate, Except.toOption, inBase, Function.comp_def] using hmade
  obtain ⟨name, hname, hfirst⟩ := heach 1 evening (some "a") rfl
  obtain rfl : "987-12-31_23-59-59_a_2" = name := by simpa [hnames] using hname
  exact ⟨names, hcreate, hnames, hfirst, hnodup, hnew⟩

end RunFolder
end ReverseSweep
