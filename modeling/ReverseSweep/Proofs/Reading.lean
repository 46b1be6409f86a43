import ReverseSweep.Json.Printer
import ReverseSweep.Json.Reader
import ReverseSweep.Proofs.Numerals

/-! The text of a structured value reads back as that value, whatever follows it, and is plain ASCII.
The value may be nested to any depth and its texts may hold any character. -/

namespace ReverseSweep.Json

variable {s : Spacing} {rest cs blanks : List Char} {c : Char} {v : Json}

/-- A value without floating numbers. -/
inductive IsExact : Json → Prop
  | null : IsExact .null
  | bool (b : Bool) : IsExact (.bool b)
  | int (n : Int) : IsExact (.int n)
  | str (text : String) : IsExact (.str text)
  | list {items : List Json} (h : ∀ item ∈ items, IsExact item) : IsExact (.list items)
  | object {fields : List (String × Json)} (h : ∀ field ∈ fields, IsExact field.2) :
    IsExact (.object fields)

attribute [simp] IsExact.null IsExact.bool IsExact.int IsExact.str

@[simp] theorem isExact_list (items : List Json) :
    IsExact (.list items) ↔ ∀ item ∈ items, IsExact item :=
  ⟨fun | .list h => h, .list⟩

@[simp] theorem isExact_object (fields : List (String × Json)) :
    IsExact (.object fields) ↔ ∀ field ∈ fields, IsExact field.2 :=
  ⟨fun | .object h => h, .object⟩

section Space

theorem skipSpace_append (h : ∀ c ∈ blanks, isSpace c = true) (cs : List Char) :
    skipSpace (blanks ++ cs) = skipSpace cs := List.dropWhile_append_of_pos h

theorem skipSpace_cons (h : isSpace c = false) (cs : List Char) :
    skipSpace (c :: cs) = c :: cs := by
  simp [skipSpace, h]

theorem readValue?_append (h : ∀ c ∈ blanks, isSpace c = true) (fuel : Nat) (cs : List Char) :
    readValue? .finite fuel (blanks ++ cs) = readValue? .finite fuel cs := by
  cases fuel with
  | zero => rfl
  | succ fuel => rw [readValue?, readValue?, skipSpace_append h]

end Space

section Numbers

/-- No numeral goes on with what follows. -/
def Stops (rest : List Char) : Prop :=
  ∀ c ∈ rest.head?, isDigit c = false ∧ c ≠ '.' ∧ c ≠ 'e' ∧ c ≠ 'E'

theorem isDigit_digit : ∀ d < 10, isDigit (Decimal.digit d) = true := by decide

theorem isDigit_of_mem_digits {n : Nat} (h : c ∈ Decimal.digits n) : isDigit c = true := by
  obtain ⟨d, hd, rfl⟩ := Decimal.exists_digit_of_mem h
  exact isDigit_digit d hd

theorem takeWhile_isDigit (h : Stops rest) : rest.takeWhile isDigit = [] := by
  cases rest with
  | nil => rfl
  | cons c rest => simp [(h c rfl).1]

theorem dropWhile_isDigit (h : Stops rest) : rest.dropWhile isDigit = rest := by
  cases rest with
  | nil => rfl
  | cons c rest => simp [(h c rfl).1]

theorem readNatural?_digits (h : Stops rest) (n : Nat) :
    readNatural? (Decimal.digits n ++ rest) = some (n, rest) := by
  have htake : (Decimal.digits n ++ rest).takeWhile isDigit = Decimal.digits n := by
    rw [List.takeWhile_append_of_pos fun c hc => isDigit_of_mem_digits hc, takeWhile_isDigit h,
      List.append_nil]
  have hdrop : (Decimal.digits n ++ rest).dropWhile isDigit = rest := by
    rw [List.dropWhile_append_of_pos fun c hc => isDigit_of_mem_digits hc, dropWhile_isDigit h]
  have hlead : ¬ (Decimal.digits n = [] ∨
      (Decimal.digits n).length ≠ 1 ∧ (Decimal.digits n).head? = some '0') := by
    rintro (hnil | ⟨hlen, hzero⟩)
    · exact Decimal.digits_ne_nil n hnil
    · exact (Decimal.digits_lead n).elim hlen fun hne => hne hzero
  simp only [readNatural?, htake, hdrop, if_neg hlead, Decimal.ofDigits_digits]

theorem readFraction?_of_stops (h : Stops rest) : readFraction? rest = some ([], rest) := by
  unfold readFraction?
  split
  · exact absurd rfl (h '.' rfl).2.1
  · rfl

theorem readExponent?_of_stops (h : Stops rest) : readExponent? rest = some (none, rest) := by
  cases rest with
  | nil => rfl
  | cons c rest =>
    obtain ⟨_, _, he, hE⟩ := h c rfl
    simp [readExponent?, he, hE]

theorem readNumber?_digits (h : Stops rest) (negative : Bool) (n : Nat) :
    readNumber? negative (Decimal.digits n ++ rest) =
      some (int (if negative then -n else n), rest) := by
  simp [readNumber?, readNatural?_digits h, readFraction?_of_stops h, readExponent?_of_stops h]

end Numbers

section Texts

theorem readUnit?_hexDigits {unit : Nat} (h : unit < 0x10000) (rest : List Char) :
    readUnit? (Text.hexDigits 4 unit ++ rest) = some (unit, rest) := by
  have hdigit (k : Nat) : Text.hexValue? (Text.hexDigit (k % 16)) = some (k % 16) :=
    Text.hexValue?_hexDigit _ (Nat.mod_lt k (by decide))
  simp only [Text.hexDigits, List.nil_append, List.cons_append, readUnit?, hdigit]
  simp
  omega

theorem readCode?_unit {unit : Nat} (h : unit < 0xd800 ∨ 0xdfff < unit ∧ unit < 0x10000)
    (rest : List Char) :
    readCode? (Text.hexDigits 4 unit ++ rest) = some (Char.ofNat unit, rest) := by
  have hhigh : ¬ (0xd800 ≤ unit ∧ unit < 0xdc00) := by omega
  have hlow : ¬ (0xdc00 ≤ unit ∧ unit < 0xe000) := by omega
  simp only [readCode?, readUnit?_hexDigits (show unit < 0x10000 by omega), Bind.bind,
    Option.bind, if_neg hhigh, if_neg hlow]

theorem readCode?_pair {high low : Nat} (hh : high < 0x400) (hl : low < 0x400)
    (rest : List Char) :
    readCode? (Text.hexDigits 4 (0xd800 + high) ++
        (unitEscape (0xdc00 + low) ++ rest)) =
      some (Char.ofNat (0x10000 + high * 0x400 + low), rest) := by
  have hfirst : 0xd800 ≤ 0xd800 + high ∧ 0xd800 + high < 0xdc00 := by omega
  have hsecond : 0xdc00 ≤ 0xdc00 + low ∧ 0xdc00 + low < 0xe000 := by omega
  simp only [readCode?, readUnit?_hexDigits (show 0xd800 + high < 0x10000 by omega), unitEscape,
    List.cons_append, readUnit?_hexDigits (show 0xdc00 + low < 0x10000 by omega), Bind.bind,
    Option.bind, if_pos hfirst, if_pos hsecond, Nat.add_sub_cancel_left]

/-- A code point is read back from its escape, also from the two halves of a pair. -/
theorem exists_readCode?_eq (c : Char) (rest : List Char) :
    ∃ tail, codeEscape c.toNat ++ rest = '\\' :: 'u' :: tail ∧ readCode? tail = some (c, rest) := by
  have hvalid : c.toNat < 0xd800 ∨ 0xdfff < c.toNat ∧ c.toNat < 0x110000 := c.valid
  unfold codeEscape
  by_cases hsmall : c.toNat < 0x10000
  · rw [if_pos hsmall]
    refine ⟨Text.hexDigits 4 c.toNat ++ rest, rfl, ?_⟩
    rw [readCode?_unit (by omega), Char.ofNat_toNat]
  · rw [if_neg hsmall, List.append_assoc]
    refine ⟨Text.hexDigits 4 (0xd800 + (c.toNat - 0x10000) / 0x400) ++
      (unitEscape (0xdc00 + (c.toNat - 0x10000) % 0x400) ++ rest), rfl, ?_⟩
    rw [readCode?_pair (by omega) (Nat.mod_lt _ (by decide))]
    have hsum : 0x10000 + (c.toNat - 0x10000) / 0x400 * 0x400 + (c.toNat - 0x10000) % 0x400 =
        c.toNat := by omega
    rw [hsum, Char.ofNat_toNat]

/-- A character is escaped by a letter, stands for itself, or is escaped by its code point. -/
inductive Escaped (c : Char) : List Char → Prop
  | letter (letter : Char) (h : unescape? letter = some c) : Escaped c ['\\', letter]
  | plain (hquote : c ≠ '"') (hslash : c ≠ '\\') (hleast : ' ' ≤ c) (hgreatest : c ≤ '~') :
    Escaped c [c]
  | code : Escaped c (codeEscape c.toNat)

theorem escaped (c : Char) : Escaped c (escapedChar c) := by
  unfold escapedChar
  repeat' split
  all_goals try subst c
  case isFalse.isFalse.isFalse.isFalse.isFalse.isFalse.isFalse.isTrue hquote hslash _ _ _ _ _ h =>
    exact .plain hquote hslash h.1 h.2
  case isFalse.isFalse.isFalse.isFalse.isFalse.isFalse.isFalse.isFalse => exact .code
  all_goals exact .letter _ rfl

/-- One character is read for one unit of fuel, however long its escape is. -/
theorem readChars?_escapedChar (fuel : Nat) (c : Char) (rest : List Char) :
    readChars? (fuel + 1) (escapedChar c ++ rest) =
      (readChars? fuel rest).bind fun read => some (c :: read.1, read.2) := by
  have h := escaped c
  generalize escapedChar c = written at h
  cases h with
  | letter letter h =>
    have hletter : letter ≠ 'u' := by
      rintro rfl
      cases h
    simp [readChars?, h]
  | plain hquote hslash hleast =>
    have hprinted : ¬ c < ' ' := Char.not_lt.mpr hleast
    simp [readChars?, hslash, hprinted]
  | code =>
    obtain ⟨tail, htail, hread⟩ := exists_readCode?_eq c rest
    simp [htail, readChars?, hread]

theorem readChars?_flatMap (cs : List Char) {fuel : Nat} (hfuel : cs.length < fuel)
    (rest : List Char) :
    readChars? fuel (cs.flatMap escapedChar ++ '"' :: rest) = some (cs, rest) := by
  induction cs generalizing fuel with
  | nil =>
    obtain ⟨fuel, rfl⟩ := Nat.exists_eq_succ_of_ne_zero (Nat.ne_zero_of_lt hfuel)
    rfl
  | cons c cs ih =>
    obtain ⟨fuel, rfl⟩ := Nat.exists_eq_succ_of_ne_zero (Nat.ne_zero_of_lt hfuel)
    rw [List.flatMap_cons, List.append_assoc, readChars?_escapedChar,
      ih (by simpa using hfuel), Option.bind_some]

theorem length_le_flatMap_escapedChar (cs : List Char) :
    cs.length ≤ (cs.flatMap escapedChar).length := by
  induction cs with
  | nil => simp
  | cons c cs ih =>
    have hpos : 0 < (escapedChar c).length := by
      have h := escaped c
      generalize escapedChar c = written at h
      cases h with
      | letter => simp
      | plain => simp
      | code =>
        obtain ⟨tail, htail, _⟩ := exists_readCode?_eq c []
        rw [List.append_nil] at htail
        simp [htail]
    simp only [List.flatMap_cons, List.length_append, List.length_cons]
    omega

/-- A text in quotes is read back, its opening quote apart. -/
theorem readChars?_text (text : String) {fuel : Nat} {rest : List Char}
    (hfuel : (textChars text ++ rest).length < fuel + 1) :
    readChars? fuel (text.toList.flatMap escapedChar ++ '"' :: rest) = some (text.toList, rest) := by
  have hle := length_le_flatMap_escapedChar text.toList
  simp only [textChars, List.length_append, List.length_cons] at hfuel
  exact readChars?_flatMap _ (by omega) rest

end Texts

section Values

/-- Lines and colons are set with white space only. -/
structure Spacing.Blank (s : Spacing) : Prop where
  lineAt : ∀ depth, ∀ c ∈ s.lineAt depth, isSpace c = true
  colon : ∃ blanks, s.colon = ':' :: blanks ∧ ∀ c ∈ blanks, isSpace c = true

theorem stops_of_isSpace (h : isSpace c = true) (rest : List Char) : Stops (c :: rest) := by
  intro d hd
  obtain rfl := Option.some.inj hd
  simp only [isSpace, Bool.or_eq_true, beq_iff_eq] at h
  rcases h with ((rfl | rfl) | rfl) | rfl <;> decide

theorem stops_append (h : ∀ c ∈ blanks, isSpace c = true) (hrest : Stops rest) :
    Stops (blanks ++ rest) := by
  cases blanks with
  | nil => exact hrest
  | cons c blanks => exact stops_of_isSpace (h c List.mem_cons_self) _

theorem stops_mark (hc : c = ',' ∨ c = ']' ∨ c = '}') (rest : List Char) : Stops (c :: rest) := by
  intro d hd
  obtain rfl := Option.some.inj hd
  rcases hc with rfl | rfl | rfl <;> decide

/-- The value is read back at any depth, before anything that does not go on with a numeral. -/
def ReadsBack (s : Spacing) (v : Json) : Prop :=
  ∀ depth fuel rest, (chars s depth v ++ rest).length < fuel → Stops rest →
    readValue? .finite fuel (chars s depth v ++ rest) = some (v, rest)

theorem readsBack_of_succ (h : ∀ depth fuel rest, (chars s depth v ++ rest).length ≤ fuel →
    Stops rest → readValue? .finite (fuel + 1) (chars s depth v ++ rest) = some (v, rest)) :
    ReadsBack s v := by
  intro depth fuel rest hfuel hstops
  obtain ⟨fuel, rfl⟩ := Nat.exists_eq_succ_of_ne_zero (Nat.ne_zero_of_lt hfuel)
  exact h depth fuel rest (Nat.le_of_lt_succ hfuel) hstops

theorem stops_items (s : Spacing) (depth : Nat) (items : List Json)
    (h : ∀ c ∈ blanks, isSpace c = true) (rest : List Char) :
    Stops (itemChars s depth items ++ (blanks ++ ']' :: rest)) := by
  cases items with
  | nil =>
    rw [itemChars, List.nil_append]
    exact stops_append h (stops_mark (.inr (.inl rfl)) rest)
  | cons => exact stops_mark (.inl rfl) _

theorem stops_fields (s : Spacing) (depth : Nat) (fields : List (String × Json))
    (h : ∀ c ∈ blanks, isSpace c = true) (rest : List Char) :
    Stops (fieldChars s depth fields ++ (blanks ++ '}' :: rest)) := by
  cases fields with
  | nil =>
    rw [fieldChars, List.nil_append]
    exact stops_append h (stops_mark (.inr (.inr rfl)) rest)
  | cons => exact stops_mark (.inl rfl) _

theorem readItems?_itemChars (hs : s.Blank) {items : List Json}
    (h : ∀ item ∈ items, ReadsBack s item) (depth : Nat) (hblanks : ∀ c ∈ blanks, isSpace c = true)
    (rest : List Char) (fuel : Nat)
    (hfuel : (itemChars s depth items ++ (blanks ++ ']' :: rest)).length < fuel) :
    readItems? .finite fuel (itemChars s depth items ++ (blanks ++ ']' :: rest)) =
      some (items, rest) := by
  induction items generalizing fuel with
  | nil =>
    obtain ⟨fuel, rfl⟩ := Nat.exists_eq_succ_of_ne_zero (Nat.ne_zero_of_lt hfuel)
    simp [itemChars, readItems?, skipSpace_append hblanks, skipSpace_cons, isSpace]
  | cons item items ih =>
    obtain ⟨fuel, rfl⟩ := Nat.exists_eq_succ_of_ne_zero (Nat.ne_zero_of_lt hfuel)
    have hstops := stops_items s depth items hblanks rest
    simp only [itemChars, List.cons_append, List.append_assoc, List.length_cons,
      List.length_append] at hfuel ⊢
    have hitem := h item List.mem_cons_self depth fuel _ (by simp; omega) hstops
    have hrest := ih (fun item hm => h item (List.mem_cons_of_mem _ hm)) fuel (by simp; omega)
    simp [readItems?, skipSpace_cons, isSpace, readValue?_append (hs.lineAt depth), hitem, hrest]

theorem readField?_field (hs : s.Blank) {field : String × Json} (h : ReadsBack s field.2)
    (depth : Nat) (hblanks : ∀ c ∈ blanks, isSpace c = true) {rest : List Char} (fuel : Nat)
    (hfuel : (textChars field.1 ++ (s.colon ++ (chars s depth field.2 ++ rest))).length < fuel)
    (hstops : Stops rest) :
    readField? .finite fuel
        (blanks ++ (textChars field.1 ++ (s.colon ++ (chars s depth field.2 ++ rest)))) =
      some (field, rest) := by
  obtain ⟨fuel, rfl⟩ := Nat.exists_eq_succ_of_ne_zero (Nat.ne_zero_of_lt hfuel)
  obtain ⟨gap, hcolon, hgap⟩ := hs.colon
  have hname := readChars?_text field.1 hfuel
  rw [hcolon, List.cons_append] at hfuel hname ⊢
  have hvalue := h depth fuel rest (by
    simp only [List.length_append, List.length_cons] at hfuel ⊢
    omega) hstops
  have htext (tail : List Char) : textChars field.1 ++ tail =
      '"' :: (field.1.toList.flatMap escapedChar ++ '"' :: tail) := by simp [textChars]
  rw [htext, readField?, skipSpace_append hblanks, skipSpace_cons (by decide)]
  simp [hname, skipSpace_cons, isSpace, readValue?_append hgap, hvalue]

theorem readFields?_fieldChars (hs : s.Blank) {fields : List (String × Json)}
    (h : ∀ field ∈ fields, ReadsBack s field.2) (depth : Nat)
    (hblanks : ∀ c ∈ blanks, isSpace c = true) (rest : List Char) (fuel : Nat)
    (hfuel : (fieldChars s depth fields ++ (blanks ++ '}' :: rest)).length < fuel) :
    readFields? .finite fuel (fieldChars s depth fields ++ (blanks ++ '}' :: rest)) =
      some (fields, rest) := by
  induction fields generalizing fuel with
  | nil =>
    obtain ⟨fuel, rfl⟩ := Nat.exists_eq_succ_of_ne_zero (Nat.ne_zero_of_lt hfuel)
    simp [fieldChars, readFields?, skipSpace_append hblanks, skipSpace_cons, isSpace]
  | cons field fields ih =>
    obtain ⟨fuel, rfl⟩ := Nat.exists_eq_succ_of_ne_zero (Nat.ne_zero_of_lt hfuel)
    obtain ⟨name, value⟩ := field
    have hstops := stops_fields s depth fields hblanks rest
    simp only [fieldChars, List.cons_append, List.append_assoc, List.length_cons,
      List.length_append] at hfuel ⊢
    have hfield := readField?_field hs (h (name, value) List.mem_cons_self) depth
      (hs.lineAt depth) fuel (by simp; omega) hstops
    have hrest := ih (fun field hm => h field (List.mem_cons_of_mem _ hm)) fuel (by simp; omega)
    simp [readFields?, skipSpace_cons, isSpace, hfield, hrest]

theorem ne_of_isDigit (h : isDigit c = true) {d : Char} (hd : isDigit d = false) : c ≠ d := by
  rintro rfl
  cases h.symm.trans hd

theorem isSpace_of_isDigit (h : isDigit c = true) : isSpace c = false := by
  have hne {d : Char} (hd : isDigit d = false) : c ≠ d := ne_of_isDigit h hd
  simp [isSpace, hne (d := ' ') rfl, hne (d := '\n') rfl, hne (d := '\r') rfl,
    hne (d := '\t') rfl]

theorem exists_digits_eq (n : Nat) : ∃ c cs, Decimal.digits n = c :: cs ∧ isDigit c = true := by
  obtain ⟨c, cs, hcs⟩ := List.exists_cons_of_ne_nil (Decimal.digits_ne_nil n)
  exact ⟨c, cs, hcs, isDigit_of_mem_digits (hcs ▸ List.mem_cons_self)⟩

theorem readValue?_digits (hstops : Stops rest) (fuel n : Nat) :
    readValue? .finite (fuel + 1) (Decimal.digits n ++ rest) = some (int n, rest) := by
  have hread := readNumber?_digits hstops false n
  obtain ⟨c, cs, hcs, hdigit⟩ := exists_digits_eq n
  have hne {d : Char} (hd : isDigit d = false) : c ≠ d := ne_of_isDigit hdigit hd
  -- no other kind of value starts with a digit
  have hn : c ≠ 'n' := hne rfl
  have ht : c ≠ 't' := hne rfl
  have hf : c ≠ 'f' := hne rfl
  have hquote : c ≠ '"' := hne rfl
  have hbracket : c ≠ '[' := hne rfl
  have hbrace : c ≠ '{' := hne rfl
  have hminus : c ≠ '-' := hne rfl
  rw [hcs, List.cons_append] at hread ⊢
  rw [readValue?, skipSpace_cons (isSpace_of_isDigit hdigit)]
  split
  next heq => exact absurd (List.cons.inj heq).1 hn
  next heq => exact absurd (List.cons.inj heq).1 ht
  next heq => exact absurd (List.cons.inj heq).1 hf
  next heq => exact absurd (List.cons.inj heq).1 hquote
  next heq => exact absurd (List.cons.inj heq).1 hbracket
  next heq => exact absurd (List.cons.inj heq).1 hbrace
  next heq => exact absurd (List.cons.inj heq).1 hminus
  exact hread

theorem exists_chars_eq (h : IsExact v) (s : Spacing) (depth : Nat) :
    ∃ c cs, chars s depth v = c :: cs ∧ isSpace c = false ∧ c ≠ ']' := by
  cases h with
  | null => exact ⟨'n', _, rfl, by decide⟩
  | bool b => cases b <;> exact ⟨_, _, rfl, by decide⟩
  | int n =>
    cases n with
    | ofNat n =>
      obtain ⟨c, cs, hcs, hdigit⟩ := exists_digits_eq n
      exact ⟨c, cs, hcs, isSpace_of_isDigit hdigit, ne_of_isDigit hdigit rfl⟩
    | negSucc n => exact ⟨'-', _, rfl, by decide⟩
  | str text => exact ⟨'"', _, rfl, by decide⟩
  | @list items _ => cases items <;> exact ⟨'[', _, rfl, by decide⟩
  | @object fields _ =>
    rcases fields with _ | ⟨⟨name, value⟩, fields⟩
    · exact ⟨'{', _, by rw [chars], by decide⟩
    · exact ⟨'{', _, by simp only [chars, List.cons_append]; rfl, by decide⟩

theorem readsBack_int (s : Spacing) (n : Int) : ReadsBack s (.int n) := by
  refine readsBack_of_succ fun depth fuel rest _ hstops => ?_
  cases n with
  | ofNat n => exact readValue?_digits hstops fuel n
  | negSucc n =>
    have hread := readNumber?_digits hstops true (n + 1)
    simp [chars, Decimal.integerChars, readValue?, skipSpace_cons, isSpace, readNumeral?, hread,
      Int.negSucc_eq]

theorem readsBack_list (hs : s.Blank) {items : List Json}
    (h : ∀ item ∈ items, IsExact item ∧ ReadsBack s item) : ReadsBack s (.list items) := by
  refine readsBack_of_succ fun depth fuel rest hfuel _ => ?_
  cases items with
  | nil => simp [chars, readValue?, skipSpace_cons, isSpace]
  | cons item items =>
    simp only [chars, List.cons_append, List.append_assoc, List.nil_append, List.length_cons,
      List.length_append] at hfuel ⊢
    obtain ⟨hexact, hread⟩ := h item List.mem_cons_self
    obtain ⟨c, cs, hcs, hspace, hbracket⟩ := exists_chars_eq hexact s (depth + 1)
    have hitem := hread (depth + 1) fuel
      (itemChars s (depth + 1) items ++ (s.lineAt depth ++ ']' :: rest)) (by simp; omega)
      (stops_items s (depth + 1) items (hs.lineAt depth) rest)
    have hitems := readItems?_itemChars hs (fun item hm => (h item (List.mem_cons_of_mem _ hm)).2)
      (depth + 1) (hs.lineAt depth) rest fuel (by simp; omega)
    rw [hcs, List.cons_append] at hitem
    simp only [readValue?, skipSpace_cons (show isSpace '[' = false by decide),
      skipSpace_append (hs.lineAt (depth + 1)), hcs, List.cons_append, skipSpace_cons hspace]
    split
    next heq => exact absurd (List.cons.inj heq).1 hbracket
    simp [hitem, hitems]

theorem readsBack_object (hs : s.Blank) {fields : List (String × Json)}
    (h : ∀ field ∈ fields, ReadsBack s field.2) : ReadsBack s (.object fields) := by
  refine readsBack_of_succ fun depth fuel rest hfuel _ => ?_
  cases fields with
  | nil => simp [chars, readValue?, skipSpace_cons, isSpace]
  | cons field fields =>
    obtain ⟨name, value⟩ := field
    simp only [chars, List.cons_append, List.append_assoc, List.nil_append, List.length_cons,
      List.length_append] at hfuel ⊢
    have hfield := readField?_field hs (h (name, value) List.mem_cons_self) (depth + 1)
      (List.forall_mem_nil _) fuel (by simp; omega)
      (stops_fields s (depth + 1) fields (hs.lineAt depth) rest)
    have hfields := readFields?_fieldChars hs (fun field hm => h field (List.mem_cons_of_mem _ hm))
      (depth + 1) (hs.lineAt depth) rest fuel (by simp; omega)
    simp only [textChars, List.cons_append, List.append_assoc, List.nil_append] at hfield ⊢
    simp [readValue?, skipSpace_cons, isSpace, skipSpace_append (hs.lineAt (depth + 1)), hfield,
      hfields]

/-- Every exact value reads back. -/
theorem readsBack (hs : s.Blank) (h : IsExact v) : ReadsBack s v := by
  induction h with
  | null =>
    refine readsBack_of_succ fun depth fuel rest _ _ => ?_
    simp [chars, readValue?, skipSpace_cons, isSpace]
  | bool b =>
    refine readsBack_of_succ fun depth fuel rest _ _ => ?_
    cases b <;> simp [chars, readValue?, skipSpace_cons, isSpace]
  | int n => exact readsBack_int s n
  | str text =>
    refine readsBack_of_succ fun depth fuel rest hfuel _ => ?_
    have hread := readChars?_text text (Nat.lt_succ_of_le hfuel)
    simp [chars, textChars, readValue?, skipSpace_cons, isSpace, hread]
  | list h ih => exact readsBack_list hs fun item hm => ⟨h item hm, ih item hm⟩
  | object _ ih => exact readsBack_object hs ih

end Values

section Ascii

/-- Every character is an ASCII one. -/
def Ascii (cs : List Char) : Prop := ∀ c ∈ cs, c.toNat < 128

@[simp] theorem ascii_nil : Ascii [] := by simp [Ascii]

@[simp] theorem ascii_cons (c : Char) (cs : List Char) :
    Ascii (c :: cs) ↔ c.toNat < 128 ∧ Ascii cs := List.forall_mem_cons

@[simp] theorem ascii_append (cs ds : List Char) : Ascii (cs ++ ds) ↔ Ascii cs ∧ Ascii ds :=
  List.forall_mem_append

theorem ascii_hexDigits (width n : Nat) : Ascii (Text.hexDigits width n) := by
  have hdigit : ∀ d < 16, (Text.hexDigit d).toNat < 128 := by decide
  induction width generalizing n with
  | zero => exact ascii_nil
  | succ width ih => simp [Text.hexDigits, ih, hdigit _ (Nat.mod_lt n (by decide))]

theorem ascii_codeEscape (code : Nat) : Ascii (codeEscape code) := by
  unfold codeEscape unitEscape
  split <;> simp [ascii_hexDigits]

theorem ascii_escapedChar (c : Char) : Ascii (escapedChar c) := by
  have h := escaped c
  generalize escapedChar c = written at h
  cases h with
  | letter letter h =>
    unfold unescape? at h
    split at h <;> simp_all
  | plain _ _ _ hgreatest =>
    have hle : c.toNat ≤ 126 := hgreatest
    simp
    omega
  | code => exact ascii_codeEscape c.toNat

theorem ascii_textChars (text : String) : Ascii (textChars text) := by
  have hinner : Ascii (text.toList.flatMap escapedChar) := by
    intro c hc
    obtain ⟨written, _, hmem⟩ := List.mem_flatMap.mp hc
    exact ascii_escapedChar written c hmem
  simp [textChars, hinner]

theorem ascii_integerChars (n : Int) : Ascii (Decimal.integerChars n) := by
  have hdigit : ∀ d < 10, (Decimal.digit d).toNat < 128 := by decide
  have hdigits (n : Nat) : Ascii (Decimal.digits n) := by
    intro c hc
    obtain ⟨d, hd, rfl⟩ := Decimal.exists_digit_of_mem hc
    exact hdigit d hd
  cases n with
  | ofNat n => exact hdigits n
  | negSucc n => simp [Decimal.integerChars, hdigits]

/-- Lines and colons are set in ASCII. -/
structure Spacing.Ascii (s : Spacing) : Prop where
  lineAt : ∀ depth, Json.Ascii (s.lineAt depth)
  colon : Json.Ascii s.colon

theorem ascii_itemChars (hs : s.Ascii) {items : List Json} (depth : Nat)
    (h : ∀ item ∈ items, Ascii (chars s depth item)) : Ascii (itemChars s depth items) := by
  induction items with
  | nil => exact ascii_nil
  | cons item items ih =>
    obtain ⟨hitem, hitems⟩ := List.forall_mem_cons.mp h
    simp [itemChars, hs.lineAt, hitem, ih hitems]

theorem ascii_fieldChars (hs : s.Ascii) {fields : List (String × Json)} (depth : Nat)
    (h : ∀ field ∈ fields, Ascii (chars s depth field.2)) :
    Ascii (fieldChars s depth fields) := by
  induction fields with
  | nil => exact ascii_nil
  | cons field fields ih =>
    obtain ⟨hfield, hfields⟩ := List.forall_mem_cons.mp h
    simp [fieldChars, hs.lineAt, hs.colon, ascii_textChars, hfield, ih hfields]

theorem ascii_chars (hs : s.Ascii) (h : IsExact v) (depth : Nat) : Ascii (chars s depth v) := by
  induction h generalizing depth with
  | null => simp [chars]
  | bool b => cases b <;> simp [chars]
  | int n => exact ascii_integerChars n
  | str text => exact ascii_textChars text
  | @list items _ ih =>
    cases items with
    | nil => simp [chars]
    | cons item items =>
      obtain ⟨hitem, hitems⟩ := List.forall_mem_cons.mp ih
      have hrest := ascii_itemChars hs (depth + 1) fun item hm => hitems item hm (depth + 1)
      simp [chars, hs.lineAt, hitem (depth + 1), hrest]
  | @object fields _ ih =>
    cases fields with
    | nil => simp [chars]
    | cons field fields =>
      obtain ⟨hfield, hfields⟩ := List.forall_mem_cons.mp ih
      have hrest := ascii_fieldChars hs (depth + 1) fun field hm => hfields field hm (depth + 1)
      simp [chars, hs.lineAt, hs.colon, ascii_textChars, hfield (depth + 1), hrest]

end Ascii

theorem Spacing.indented_blank : Spacing.indented.Blank where
  lineAt depth c hc := by
    rcases List.mem_cons.mp hc with rfl | hc
    · rfl
    · rw [List.eq_of_mem_replicate hc]
      rfl
  colon := ⟨[' '], rfl, by simp [isSpace]⟩

theorem Spacing.indented_ascii : Spacing.indented.Ascii where
  lineAt depth c hc := by
    rcases List.mem_cons.mp hc with rfl | hc
    · decide
    · rw [List.eq_of_mem_replicate hc]
      decide
  colon := by simp [indented]

theorem parse_ofList (hs : s.Blank) (h : IsExact v) :
    parse (String.ofList (v.chars s 0)) = some v := by
  have hread := readsBack hs h 0 ((v.chars s 0).length + 1) []
  rw [List.append_nil] at hread
  have hstops : Stops [] := by simp [Stops]
  rw [parse, parseWith, String.toList_ofList, hread (Nat.lt_succ_self _) hstops]
  rfl

theorem parse_indented (h : IsExact v) : parse v.indented = some v :=
  parse_ofList Spacing.indented_blank h

theorem ascii_indented (h : IsExact v) : Ascii v.indented.toList := by
  rw [indented, String.toList_ofList]
  exact ascii_chars Spacing.indented_ascii h 0

end ReverseSweep.Json
