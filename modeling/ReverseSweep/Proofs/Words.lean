import ReverseSweep.Decimal.Fixed
import ReverseSweep.Proofs.Reading

/-! The lines of a text, and the words of a line. A number is one word, and stays the same word when
it is set in a column. -/

namespace ReverseSweep.Text

def lines (text : String) : List (List Char) := text.toList.splitOn '\n'

def words (cs : List Char) : List (List Char) := (cs.splitOn ' ').filter (· ≠ [])

def Plain (c : Char) : Prop := c ≠ ' ' ∧ c ≠ '\n'

instance (c : Char) : Decidable (Plain c) := inferInstanceAs (Decidable (_ ∧ _))

/-- A text without blanks and ends of lines. -/
structure IsWord (cs : List Char) : Prop where
  ne_nil : cs ≠ []
  plain : ∀ c ∈ cs, Plain c

section Splitting

theorem lines_intercalate {ls : List String} (hne : ls ≠ []) (h : ∀ l ∈ ls, '\n' ∉ l.toList) :
    lines ("\n".intercalate ls) = ls.map String.toList := by
  rw [lines, String.toList_intercalate]
  exact List.splitOn_intercalate '\n' (by simpa using h) (by simpa using hne)

theorem words_append_blank (xs ys : List Char) : words (xs ++ ' ' :: ys) = words xs ++ words ys := by
  rw [words, List.splitOn_append_cons_self, List.filter_append, words, words]

theorem words_blank (cs : List Char) : words (' ' :: cs) = words cs := words_append_blank [] cs

theorem words_blanks (n : Nat) (cs : List Char) : words (List.replicate n ' ' ++ cs) = words cs := by
  induction n with
  | zero => rfl
  | succ n ih => rw [List.replicate_succ, List.cons_append, words_blank, ih]

theorem IsWord.words_eq {cs : List Char} (h : IsWord cs) : words cs = [cs] := by
  have hblank : ' ' ∉ cs := fun hmem => (h.plain _ hmem).1 rfl
  rw [words, List.splitOn_eq_singleton hblank]
  simp [h.ne_nil]

theorem IsWord.words_alignRight {text : String} (h : IsWord text.toList) (width : Nat) :
    words (Decimal.alignRight width text).toList = [text.toList] := by
  rw [Decimal.alignRight, String.toList_append, String.toList_ofList, words_blanks, h.words_eq]

/-- Words that are set in columns. -/
theorem words_columns (width : Nat) {texts : List String} (h : ∀ text ∈ texts, IsWord text.toList) :
    words (" ".intercalate (texts.map (Decimal.alignRight width))).toList =
      texts.map String.toList := by
  induction texts with
  | nil => rfl
  | cons text texts ih =>
    obtain ⟨hword, hrest⟩ := List.forall_mem_cons.mp h
    by_cases hmore : texts = []
    · subst hmore
      simpa using hword.words_alignRight width
    · have hblank : " ".toList = [' '] := rfl
      rw [List.map_cons, String.intercalate_cons_of_ne_nil (by simpa using hmore),
        String.toList_append, String.toList_append, hblank, List.append_assoc,
        List.singleton_append, words_append_blank, hword.words_alignRight, ih hrest]
      rfl

theorem IsWord.notMem_alignRight {text : String} (h : IsWord text.toList) (width : Nat) :
    '\n' ∉ (Decimal.alignRight width text).toList := by
  rw [Decimal.alignRight, String.toList_append, String.toList_ofList, List.mem_append]
  rintro (hmem | hmem)
  · exact absurd (List.eq_of_mem_replicate hmem) (by decide)
  · exact (h.plain _ hmem).2 rfl

theorem notMem_columns (width : Nat) {texts : List String}
    (h : ∀ text ∈ texts, IsWord text.toList) :
    '\n' ∉ (" ".intercalate (texts.map (Decimal.alignRight width))).toList := by
  induction texts with
  | nil => exact List.not_mem_nil
  | cons text texts ih =>
    obtain ⟨hword, hrest⟩ := List.forall_mem_cons.mp h
    have hfirst := hword.notMem_alignRight width
    by_cases hmore : texts = []
    · subst hmore
      simpa using hfirst
    · rw [List.map_cons, String.intercalate_cons_of_ne_nil (by simpa using hmore),
        String.toList_append, String.toList_append, List.append_assoc, List.mem_append,
        List.mem_append]
      rintro (hmem | hmem | hmem)
      · exact hfirst hmem
      · exact absurd hmem (by decide)
      · exact ih hrest hmem

end Splitting

section Numbers

theorem plain_of_isDigit {c : Char} (h : Json.isDigit c = true) : Plain c :=
  ⟨Json.ne_of_isDigit h rfl, Json.ne_of_isDigit h rfl⟩

theorem isDigit_of_mem_padZeros {width n : Nat} {c : Char}
    (h : c ∈ Decimal.padZeros width (Decimal.digits n)) : Json.isDigit c = true := by
  rcases List.mem_append.mp h with h | h
  · rw [List.eq_of_mem_replicate h]
    rfl
  · exact Json.isDigit_of_mem_digits h

theorem isWord_digits (n : Nat) : IsWord (Decimal.digits n) :=
  ⟨Decimal.digits_ne_nil n, fun _ hc => plain_of_isDigit (Json.isDigit_of_mem_digits hc)⟩

theorem IsWord.cons {c : Char} {cs : List Char} (hc : Plain c) (h : IsWord cs) : IsWord (c :: cs) :=
  ⟨List.cons_ne_nil c cs, List.forall_mem_cons.mpr ⟨hc, h.plain⟩⟩

theorem IsWord.append {cs ds : List Char} (h : IsWord cs) (hd : ∀ c ∈ ds, Plain c) :
    IsWord (cs ++ ds) :=
  ⟨List.append_ne_nil_of_left_ne_nil h.ne_nil ds,
    fun c hc => (List.mem_append.mp hc).elim (h.plain c) (hd c)⟩

theorem isWord_integerChars (n : Int) : IsWord (Decimal.integerChars n) := by
  cases n with
  | ofNat n => exact isWord_digits n
  | negSucc n => exact (isWord_digits (n + 1)).cons (by decide)

theorem isWord_pointed (places n : Nat) : IsWord (Decimal.pointed places n) := by
  unfold Decimal.pointed
  dsimp only
  split
  · exact isWord_digits _
  · exact (isWord_digits _).append (List.forall_mem_cons.mpr
      ⟨by decide, fun _ hc => plain_of_isDigit (isDigit_of_mem_padZeros hc)⟩)

theorem isWord_signed {cs : List Char} (h : IsWord cs) (negative : Bool) :
    IsWord (Decimal.signed negative cs) := by
  cases negative with
  | false => exact h
  | true => exact h.cons (by decide)

theorem isWord_fixedChars (places : Nat) (x : Float) : IsWord (Decimal.fixedChars places x) := by
  unfold Decimal.fixedChars
  split
  · exact isWord_signed (isWord_pointed _ _) _
  · exact isWord_signed ⟨by decide, by simp [Plain]⟩ _
  · exact ⟨by decide, by simp [Plain]⟩

end Numbers
end ReverseSweep.Text
