import Mathlib

/-!
# Text helpers of the GTID code

`logproxy::split`, `atoll`, `CommonUtils::hex_to_bin` and `logproxy::dumphex`
over a `std::string` taken as its list of characters.  The lemmas say what each
helper returns on the texts a GTID set is made of.
-/

namespace OblogProxy.Gtid

open List

abbrev Text := List Char

/-- Whether a text is in a list is decided by the same instance in every module. -/
instance : LawfulBEq Text :=
  inferInstance

/-- The characters a C string reader sees: everything before the first NUL. -/
def cStr (text : Text) : Text :=
  text.takeWhile fun char => char != Char.ofNat 0

/-- `split(str, sep, vec)`: no piece for an empty string, otherwise every piece
between separators, the last one included even when it is empty. -/
def split (str : Text) (sep : Char) : List Text :=
  if str = [] then [] else (cStr str).splitOn sep

def isSpace (char : Char) : Bool :=
  char.toNat == 32 || (9 ≤ char.toNat && char.toNat ≤ 13)

def decimal (text : Text) : ℕ :=
  Nat.ofDigitChars 10 (text.takeWhile Char.isDigit) 0

/-- `atoll`: leading blanks, an optional sign and the longest run of digits,
clamped to the range of `long long`. -/
def atoll (text : Text) : ℤ :=
  match text.dropWhile isSpace with
  | '-' :: digits => max (-decimal digits) (-2 ^ 63)
  | '+' :: digits => min (decimal digits) (2 ^ 63 - 1)
  | digits => min (decimal digits) (2 ^ 63 - 1)

/-- The conversion of a signed value stored in an `uint64_t`. -/
def toUint64 (value : ℤ) : ℕ :=
  (value % 2 ^ 64).toNat

def isHexDigit (char : Char) : Bool :=
  char.isDigit || ('a' ≤ char && char ≤ 'f') || ('A' ≤ char && char ≤ 'F')

def hexValue (char : Char) : ℕ :=
  if char.isDigit then char.toNat - 48
  else if 'a' ≤ char then char.toNat - 87 else char.toNat - 55

def hexNumber (digits : Text) : ℕ :=
  digits.foldl (fun value digit => 16 * value + hexValue digit) 0

/-- One `istringstream >> std::hex >> element` over at most two characters,
of which `memcpy` keeps the low byte.  A text without digits leaves zero. -/
def hexByte (chars : Text) : UInt8 :=
  match chars.dropWhile isSpace with
  | '-' :: digits => -UInt8.ofNat (hexNumber (digits.takeWhile isHexDigit))
  | '+' :: digits => UInt8.ofNat (hexNumber (digits.takeWhile isHexDigit))
  | digits => UInt8.ofNat (hexNumber (digits.takeWhile isHexDigit))

def hexToBin : Text → List UInt8
  | [] => []
  | [char] => [hexByte [char]]
  | high :: low :: hex => hexByte [high, low] :: hexToBin hex

def upperHexDigit (nibble : ℕ) : Char :=
  if 10 ≤ nibble then Char.ofNat (nibble + 65 - 10) else Char.ofNat (nibble + 48)

def dumphex (data : List UInt8) : Text :=
  data.flatMap fun byte => [upperHexDigit (byte.toNat / 16), upperHexDigit (byte.toNat % 16)]

variable {char : Char}

theorem mem_intercalate {sep : Char} {pieces : List Text}
    (hchar : char ∈ [sep].intercalate pieces) : char = sep ∨ ∃ piece ∈ pieces, char ∈ piece := by
  induction pieces with
  | nil => simp at hchar
  | cons piece pieces ih =>
    cases pieces with
    | nil => exact Or.inr ⟨piece, mem_cons_self, by simpa using hchar⟩
    | cons next pieces =>
      simp only [intercalate_cons_cons, append_assoc, mem_append, mem_singleton] at hchar
      rcases hchar with hhead | rfl | htail
      · exact Or.inr ⟨piece, mem_cons_self, hhead⟩
      · exact Or.inl rfl
      · refine (ih htail).imp_right ?_
        rintro ⟨found, hfound, hmem⟩
        exact ⟨found, mem_cons_of_mem piece hfound, hmem⟩

variable {text : Text}

theorem mem_splitOn_of_mem (sep : Char) (hchar : char ∈ text) :
    char = sep ∨ ∃ piece ∈ text.splitOn sep, char ∈ piece := by
  have hjoin : [sep].intercalate (text.splitOn sep) = text := intercalate_splitOn sep
  rw [← hjoin] at hchar
  exact mem_intercalate hchar

theorem cStr_eq_self (hnul : Char.ofNat 0 ∉ text) : cStr text = text := by
  rw [cStr, takeWhile_eq_self_iff]
  intro char hchar
  have hne : char ≠ Char.ofNat 0 := fun heq => hnul (heq ▸ hchar)
  simpa using hne

theorem split_eq_splitOn (sep : Char) (hne : text ≠ []) (hnul : Char.ofNat 0 ∉ text) :
    split text sep = text.splitOn sep := by
  rw [split, if_neg hne, cStr_eq_self hnul]

theorem length_splitOn (text : Text) (sep : Char) :
    (text.splitOn sep).length = text.count sep + 1 := by
  induction text with
  | nil => rfl
  | cons char text ih =>
    rw [splitOn, splitOnP_cons_eq_if_modifyHead, count_cons]
    rw [splitOn] at ih
    split_ifs
    · simp [ih]
    · simpa using ih

/-- A decimal number as a GTID set writes it. -/
def ValidNumber (text : Text) : Prop :=
  text ≠ [] ∧ ∀ char ∈ text, char.isDigit = true

instance (text : Text) : Decidable (ValidNumber text) :=
  @instDecidableAnd _ _ inferInstance (decidableBAll _ text)

def readNumber (text : Text) : ℕ :=
  Nat.ofDigitChars 10 text 0

theorem ValidNumber.decimal_eq (hvalid : ValidNumber text) : decimal text = readNumber text := by
  rw [decimal, readNumber, takeWhile_eq_self_iff.mpr hvalid.2]

/-- Digits of either base lie above blanks, signs, NUL and the separators `,`
and `-`. -/
theorem le_toNat_of_isHexDigit (hdigit : isHexDigit char = true) : 48 ≤ char.toNat := by
  simp only [isHexDigit, Char.isDigit, Bool.or_eq_true, Bool.and_eq_true, decide_eq_true_eq,
    ge_iff_le, UInt32.le_iff_toNat_le, Char.le_def] at hdigit
  rcases hdigit with (⟨hlow, _⟩ | ⟨hlow, _⟩) | ⟨hlow, _⟩
  · exact hlow
  · exact le_trans (by decide) hlow
  · exact le_trans (by decide) hlow

theorem isHexDigit_of_isDigit (hdigit : char.isDigit = true) : isHexDigit char = true := by
  simp [isHexDigit, hdigit]

theorem isSpace_eq_false_of_isHexDigit (hdigit : isHexDigit char = true) :
    isSpace char = false := by
  have hlow := le_toNat_of_isHexDigit hdigit
  simp only [isSpace, Bool.or_eq_false_iff, beq_eq_false_iff_ne, Bool.and_eq_false_iff,
    decide_eq_false_iff_not]
  omega

theorem ValidNumber.exists_cons (hvalid : ValidNumber text) :
    ∃ head rest, text = head :: rest ∧ text.dropWhile isSpace = head :: rest ∧
      head ≠ '-' ∧ head ≠ '+' := by
  obtain ⟨hne, hdigits⟩ := hvalid
  obtain ⟨head, rest, rfl⟩ := exists_cons_of_ne_nil hne
  have hhead : head.isDigit = true := hdigits head mem_cons_self
  refine ⟨head, rest, rfl, ?_, ?_, ?_⟩
  · simp [isSpace_eq_false_of_isHexDigit (isHexDigit_of_isDigit hhead)]
  · rintro rfl
    exact absurd hhead (by decide)
  · rintro rfl
    exact absurd hhead (by decide)

theorem atoll_of_validNumber (hvalid : ValidNumber text) :
    atoll text = min (readNumber text : ℤ) (2 ^ 63 - 1) := by
  obtain ⟨head, rest, htext, hdrop, hminus, hplus⟩ := hvalid.exists_cons
  rw [atoll, hdrop]
  split
  · rename_i heq
    exact absurd (cons.inj heq).1 hminus
  · rename_i heq
    exact absurd (cons.inj heq).1 hplus
  · rw [← htext, hvalid.decimal_eq]

/-- `atoll` reads back a written number that fits a `long long`. -/
theorem toUint64_atoll (hvalid : ValidNumber text) (hbound : readNumber text < 2 ^ 63) :
    toUint64 (atoll text) = readNumber text := by
  rw [atoll_of_validNumber hvalid, toUint64]
  omega

theorem validNumber_toDigits (number : ℕ) : ValidNumber (Nat.toDigits 10 number) :=
  ⟨Nat.toDigits_ne_nil, fun _ hchar =>
    Nat.isDigit_of_mem_toDigits (by decide) (by decide) hchar⟩

theorem readNumber_toDigits (number : ℕ) : readNumber (Nat.toDigits 10 number) = number :=
  Nat.ofDigitChars_ten_toDigits

theorem toUint64_atoll_toDigits {number : ℕ} (hbound : number < 2 ^ 63) :
    toUint64 (atoll (Nat.toDigits 10 number)) = number := by
  rw [toUint64_atoll (validNumber_toDigits number), readNumber_toDigits]
  rwa [readNumber_toDigits]

theorem readNumber_append (left right : Text) :
    readNumber (left ++ right) = readNumber left * 10 ^ right.length + readNumber right := by
  rw [readNumber, Nat.ofDigitChars_append, Nat.ofDigitChars_eq_ofDigitChars_zero, Nat.mul_comm]
  rfl

theorem readNumber_lt (hdigits : ∀ char ∈ text, char.isDigit = true) :
    readNumber text < 10 ^ text.length := by
  induction text using reverseRecOn with
  | nil => simp [readNumber, Nat.ofDigitChars]
  | append_singleton text char ih =>
    have hbefore := ih fun other hother => hdigits other (mem_append_left _ hother)
    have hchar : readNumber [char] < 10 := by
      have hdigit := hdigits char (mem_append_right _ mem_cons_self)
      simp only [Char.isDigit, Bool.and_eq_true, decide_eq_true_eq, ge_iff_le,
        UInt32.le_iff_toNat_le] at hdigit
      have hhigh : char.toNat ≤ 57 := hdigit.2
      simp only [readNumber, Nat.ofDigitChars_cons, Nat.ofDigitChars_nil]
      have hzero : '0'.toNat = 48 := rfl
      omega
    rw [readNumber_append, length_append, length_singleton, Nat.pow_succ 10]
    omega

/-- The front of a number that is not zero is not zero. -/
theorem readNumber_pos {number : ℕ} (hpos : 0 < number) {front : Text}
    (hfront : front <+: Nat.toDigits 10 number) (hne : front ≠ []) : 0 < readNumber front := by
  obtain ⟨back, hdigits⟩ := hfront
  by_contra hzero
  have hback : number = readNumber back := by
    rw [← readNumber_toDigits number, ← hdigits, readNumber_append, Nat.eq_zero_of_not_pos hzero,
      Nat.zero_mul, Nat.zero_add]
  have hbackDigits : ∀ char ∈ back, char.isDigit = true := fun char hchar =>
    (validNumber_toDigits number).2 char (hdigits ▸ mem_append_right front hchar)
  have hlt := readNumber_lt hbackDigits
  have hlength := congrArg length hdigits
  rw [length_append] at hlength
  have hfrontLength := length_pos_of_ne_nil hne
  rcases Nat.eq_zero_or_pos back.length with hnone | hsome
  · rw [hnone] at hlt
    omega
  · have hle := (Nat.length_toDigits_le_iff (by decide) hsome).mpr (hback ▸ hlt)
    omega

theorem length_hexToBin (hex : Text) : (hexToBin hex).length = (hex.length + 1) / 2 := by
  induction hex using hexToBin.induct with
  | case1 => rfl
  | case2 char => simp [hexToBin]
  | case3 high low hex ih =>
    simp only [hexToBin, length_cons, ih]
    omega

theorem hexByte_of_isHexDigit {high low : Char} (hhigh : isHexDigit high = true)
    (hlow : isHexDigit low = true) :
    hexByte [high, low] = UInt8.ofNat (16 * hexValue high + hexValue low) := by
  have hdrop : [high, low].dropWhile isSpace = [high, low] := by
    simp [isSpace_eq_false_of_isHexDigit hhigh]
  rw [hexByte, hdrop]
  split
  · rename_i heq
    obtain ⟨rfl, _⟩ := cons.inj heq
    exact absurd hhigh (by decide)
  · rename_i heq
    obtain ⟨rfl, _⟩ := cons.inj heq
    exact absurd hhigh (by decide)
  · simp [takeWhile, hhigh, hlow, hexNumber]

/-- The lower-case form of a printed digit is a hexadecimal digit and reads
back as the nibble. -/
theorem upperHexDigit_toLower {nibble : ℕ} (hnibble : nibble < 16) :
    isHexDigit (upperHexDigit nibble).toLower = true ∧
      hexValue (upperHexDigit nibble).toLower = nibble := by
  revert nibble
  decide

/-- Printing bytes in lower-case hexadecimal and reading them back. -/
theorem hexToBin_toLower_dumphex (data : List UInt8) :
    hexToBin ((dumphex data).map Char.toLower) = data := by
  induction data with
  | nil => rfl
  | cons byte data ih =>
    obtain ⟨hhigh, hhighValue⟩ : _ ∧ _ := upperHexDigit_toLower
      (show byte.toNat / 16 < 16 by have := byte.toNat_lt; omega)
    obtain ⟨hlow, hlowValue⟩ : _ ∧ _ := upperHexDigit_toLower
      (show byte.toNat % 16 < 16 by omega)
    have hbyte : 16 * (byte.toNat / 16) + byte.toNat % 16 = byte.toNat := by omega
    rw [dumphex] at ih ⊢
    simp [hexToBin, ih, hexByte_of_isHexDigit hhigh hlow, hhighValue, hlowValue, hbyte]

theorem dumphex_injective : Function.Injective dumphex := by
  intro left right heq
  have hback := congrArg (fun text => hexToBin (text.map Char.toLower)) heq
  simpa only [hexToBin_toLower_dumphex] using hback

theorem isHexDigit_of_mem_dumphex {data : List UInt8}
    (hchar : char ∈ (dumphex data).map Char.toLower) : isHexDigit char = true := by
  simp only [dumphex, map_flatMap, mem_flatMap, map_cons, map_nil,
    mem_cons, not_mem_nil, or_false] at hchar
  obtain ⟨byte, _, rfl | rfl⟩ := hchar
  · exact (upperHexDigit_toLower (by have := byte.toNat_lt; omega)).1
  · exact (upperHexDigit_toLower (by omega)).1

/-- A hexadecimal digit printed from its value, up to case. -/
theorem upperHexDigit_hexValue (hdigit : isHexDigit char = true) :
    hexValue char < 16 ∧ (upperHexDigit (hexValue char)).toLower = char.toLower := by
  have hall : ∀ code < 103, isHexDigit (Char.ofNat code) = true →
      hexValue (Char.ofNat code) < 16 ∧
        (upperHexDigit (hexValue (Char.ofNat code))).toLower = (Char.ofNat code).toLower := by
    decide
  have hcode : char.toNat < 103 := by
    simp only [isHexDigit, Char.isDigit, Bool.or_eq_true, Bool.and_eq_true, decide_eq_true_eq,
      ge_iff_le, Char.le_def, UInt32.le_iff_toNat_le] at hdigit
    rcases hdigit with (⟨-, hhigh⟩ | ⟨-, hhigh⟩) | ⟨-, hhigh⟩
    all_goals exact lt_of_le_of_lt hhigh (by decide)
  simpa only [Char.ofNat_toNat] using hall char.toNat hcode (by rwa [Char.ofNat_toNat])

/-- Reading hexadecimal text and printing it again changes at most the case. -/
theorem toLower_dumphex_hexToBin {hex : Text} (hdigits : ∀ char ∈ hex, isHexDigit char = true)
    (heven : hex.length % 2 = 0) :
    (dumphex (hexToBin hex)).map Char.toLower = hex.map Char.toLower := by
  induction hex using hexToBin.induct with
  | case1 => rfl
  | case2 char => simp at heven
  | case3 high low hex ih =>
    obtain ⟨hhigh, hrest⟩ := forall_mem_cons.mp hdigits
    obtain ⟨hlow, hhex⟩ := forall_mem_cons.mp hrest
    obtain ⟨hhighValue, hhighChar⟩ := upperHexDigit_hexValue hhigh
    obtain ⟨hlowValue, hlowChar⟩ := upperHexDigit_hexValue hlow
    have hbyte : (UInt8.ofNat (16 * hexValue high + hexValue low)).toNat =
        16 * hexValue high + hexValue low := by
      rw [UInt8.toNat_ofNat']
      omega
    have hquotient : (16 * hexValue high + hexValue low) / 16 = hexValue high := by omega
    have hremainder : (16 * hexValue high + hexValue low) % 16 = hexValue low := by omega
    have htail := ih hhex (by simp only [length_cons] at heven; omega)
    rw [dumphex] at htail
    simp only [hexToBin, hexByte_of_isHexDigit hhigh hlow, dumphex, flatMap_cons, hbyte,
      hquotient, hremainder, cons_append, nil_append, map_cons, hhighChar,
      hlowChar, htail]

theorem length_dumphex (data : List UInt8) : (dumphex data).length = 2 * data.length := by
  simp [dumphex, Nat.mul_comm]

theorem dumphex_take (data : List UInt8) (count : ℕ) :
    (dumphex data).take (2 * count) = dumphex (data.take count) := by
  induction count generalizing data with
  | zero => simp [dumphex]
  | succ count ih =>
    cases data with
    | nil => simp [dumphex]
    | cons byte data => simpa [dumphex, Nat.mul_succ] using ih data

theorem dumphex_drop (data : List UInt8) (count : ℕ) :
    (dumphex data).drop (2 * count) = dumphex (data.drop count) := by
  induction count generalizing data with
  | zero => simp
  | succ count ih =>
    cases data with
    | nil => simp [dumphex]
    | cons byte data => simpa [dumphex, Nat.mul_succ] using ih data

end OblogProxy.Gtid
