import OblogProxy.Core.Bytes
import OblogProxy.Gtid.Text

/-!
# DECIMAL columns

`convert_binlog_decimal` packs all digits of the column, filled up with zeros, in groups of
nine, counted from the decimal point in both directions, with a shorter group at either end,
and stores each group as a big-endian number.  A negative number is stored complemented, and
the top bit of the first byte is flipped.  MySQL's rule reads the same number back.
-/

namespace OblogProxy.DataType

open Bytes Gtid List Option

def decodeBaseLen : ℕ := 9

def decimalStoreBaseLen : ℕ := 4

def dig2bytes (digits : ℕ) : ℕ :=
  [0, 1, 1, 2, 2, 3, 3, 4, 4, 4].getD digits 0

/-- `index_of`, where `none` is the result `-1`. -/
def indexOf (range : Text) (char : Char) : Option ℕ :=
  (cStr range).findIdx? (· == char)

def atoi (text : Text) : ℤ :=
  (atoll text).bmod (2 ^ 32)

/-- `std::stoi`; `none` is an exception. -/
def stoi (text : Text) : Option ℤ :=
  let digits :=
    match text.dropWhile isSpace with
    | '-' :: digits => digits
    | '+' :: digits => digits
    | digits => digits
  if (digits.takeWhile Char.isDigit).isEmpty then none
  else if -2 ^ 31 ≤ atoll text ∧ atoll text < 2 ^ 31 then some (atoll text)
  else none

/-- An `int32_t` as it is stored. -/
def toUint32 (value : ℤ) : UInt32 :=
  UInt32.ofNat (value % 2 ^ 32).toNat

/-- The `mask` of the sign, `-1` or `0`. -/
def signMask (negative : Bool) : UInt32 :=
  if negative then 0xFFFFFFFF else 0

def maskByte (negative : Bool) : UInt8 :=
  if negative then 0xFF else 0

/-- The characters from `start` on that `std::string(data + start, length)` copies. -/
def subText (data : Text) (start length : ℕ) : Text :=
  (data.drop start).take length

/-- The loops over the full groups of nine digits. -/
def storeGroups (negative : Bool) (data : Text) : ℕ → ℕ → Bytes
  | 0, _ => []
  | count + 1, start =>
    storeBE decimalStoreBaseLen
      (toUint32 (atoi (subText data start decodeBaseLen)) ^^^ signMask negative).toNat ++
    storeGroups negative data count (start + decodeBaseLen)

def flipFirst : Bytes → Bytes
  | [] => []
  | byte :: bytes => (byte ^^^ 0x80) :: bytes

theorem length_flipFirst (bytes : Bytes) : (flipFirst bytes).length = bytes.length := by
  cases bytes <;> rfl

/-- The part of `convert_binlog_decimal` behind the measuring of the text: `intg`
and `frac` digits are there for a column of `intgMax` and `fracMax`.  `fresh` is
what the allocation held before, behind what is written to it; the assertion on
the size is compiled out. -/
def packDecimal (data : Text) (negative : Bool) (intg intgMax frac fracMax : ℕ) (fresh : Bytes) :
    Option (ℕ × Bytes) :=
  let signSize := if negative then 1 else 0
  let intg0 := intg / decodeBaseLen
  let intgMax0 := intgMax / decodeBaseLen
  let frac0 := frac / decodeBaseLen
  let fracMax0 := fracMax / decodeBaseLen
  let intg0x := intg - intg0 * decodeBaseLen
  let intgMax0x := intgMax - intgMax0 * decodeBaseLen
  let frac0x := frac - frac0 * decodeBaseLen
  let fracMax0x := fracMax - fracMax0 * decodeBaseLen
  let isize0 := intg0 * decimalStoreBaseLen + dig2bytes intg0x
  let isizeMax0 := intgMax0 * decimalStoreBaseLen + dig2bytes intgMax0x
  let fsize0 := frac0 * decimalStoreBaseLen + dig2bytes frac0x
  let fsizeMax0 := fracMax0 * decimalStoreBaseLen + dig2bytes fracMax0x
  let size := isizeMax0 + fsizeMax0
  -- fewer fractional digits than the column has
  let short : Bool := fsize0 < fsizeMax0 ∧ frac0x ≠ 0
  let lastGroup : Bool := frac0 = fracMax0
  let fsizePad := if short && lastGroup then fsize0 else fsizeMax0
  let fracGroups := if short && !lastGroup then frac0 + 1 else frac0
  let fracDigits := if short then (if lastGroup then fracMax0x else 0) else frac0x
  let padding := List.replicate (isizeMax0 - isize0) (maskByte negative)
  let leading :=
    if 0 < intg0x ∧ isizeMax0 ≠ 0 then
      storeBE (dig2bytes intg0x) (toUint32
        ((atoi (subText data signSize intg0x)).tmod (10 ^ intg0x)) ^^^ signMask negative).toNat
    else []
  let start := intg0x + signSize
  let groups := storeGroups negative data intg0 start
  let start := start + intg0 * decodeBaseLen + 1
  let fraction := storeGroups negative data fracGroups start
  let start := start + fracGroups * decodeBaseLen
  let trailing :=
    if 0 < fracDigits then
      (stoi (subText data start fracDigits)).map fun value =>
        storeBE (dig2bytes fracDigits) (toUint32 value ^^^ signMask negative).toNat
    else some []
  trailing.map fun trailing =>
    let written := (padding ++ leading ++ groups) ++ (fraction ++ trailing)
    let rest := List.replicate (min (fsizePad - fsize0) (size - written.length))
      (maskByte negative)
    (size, (flipFirst (written ++ rest ++ fresh)).take size)

/-- `convert_binlog_decimal`: the returned number and the bytes that are pushed to
`data_decode`; `none` is an exception of `std::stoi`. -/
def convertBinlogDecimal (precision scale : ℤ) (fresh : Bytes) (data : Text) :
    Option (ℕ × Bytes) :=
  let fracMax := if 0 ≤ scale then scale.toNat else 0
  let precision := if 0 ≤ precision then precision.toNat else 10
  let negative := data.head? == some '-'
  let signSize := if negative then 1 else 0
  let intgMax := precision - fracMax
  let index := (indexOf data '.').getD 0
  let intg := (if 0 < index then index else data.length) - signSize
  let frac := data.length - (intg + signSize) - (if 0 < index then 1 else 0)
  packDecimal data negative intg intgMax frac fracMax fresh

/-- The bytes that MySQL prescribes for a number of digits on one side of the point. -/
def digitsSize (digits : ℕ) : ℕ :=
  4 * (digits / 9) + [0, 1, 1, 2, 2, 3, 3, 4, 4].getD (digits % 9) 0

/-- Big-endian groups of nine digits, from the most significant one on. -/
def readGroups : ℕ → ℕ → Bytes → ℕ
  | 0, acc, _ => acc
  | count + 1, acc, bytes =>
    readGroups count (acc * 10 ^ 9 + loadBE (bytes.take 4)) (bytes.drop 4)

/-- MySQL's rule for reading a `DECIMAL(precision, scale)`. -/
def decodeDecimal (precision scale : ℕ) (bytes : Bytes) : ℚ :=
  let negative : Bool := (bytes.headD 0).toNat < 128
  let flipped := flipFirst bytes
  let plain := if negative then flipped.map (~~~ ·) else flipped
  let leadSize := digitsSize ((precision - scale) % 9)
  let intg := readGroups ((precision - scale) / 9) (loadBE (plain.take leadSize))
    (plain.drop leadSize)
  let fracBytes := plain.drop (digitsSize (precision - scale))
  let frac := readGroups (scale / 9) 0 fracBytes * 10 ^ (scale % 9) +
    loadBE (slice fracBytes (4 * (scale / 9)) (digitsSize (scale % 9)))
  (if negative then -1 else 1) * (intg + frac / 10 ^ scale)

/-- A decimal number as text: sign, integer digits and fractional digits. -/
structure DecimalText where
  negative : Bool
  intg : Text
  frac : Text

namespace DecimalText

def text (number : DecimalText) : Text :=
  (if number.negative then ['-'] else []) ++ number.intg ++
    if number.frac = [] then [] else '.' :: number.frac

def value (number : DecimalText) : ℚ :=
  (if number.negative then -1 else 1) *
    (readNumber number.intg + readNumber number.frac / 10 ^ number.frac.length)

/-- The digits fit a column of `precision` digits of which `scale` are fractional. -/
structure Fits (precision scale : ℕ) (number : DecimalText) : Prop where
  intg_digits : ∀ char ∈ number.intg, char.isDigit = true
  frac_digits : ∀ char ∈ number.frac, char.isDigit = true
  intg_ne_nil : number.intg ≠ []
  intg_length : number.intg.length ≤ max 1 (precision - scale)
  intg_zero : precision = scale → number.intg = ['0']
  frac_length : number.frac.length = scale

end DecimalText

def Digits (text : Text) : Prop :=
  ∀ char ∈ text, char.isDigit = true

theorem Digits.append {left right : Text} (hleft : Digits left) (hright : Digits right) :
    Digits (left ++ right) := fun char hchar =>
  (mem_append.mp hchar).elim (hleft char) (hright char)

variable {text : Text}

theorem Digits.take (hdigits : Digits text) (count : ℕ) : Digits (text.take count) :=
  fun char hchar => hdigits char (mem_of_mem_take hchar)

theorem Digits.drop (hdigits : Digits text) (count : ℕ) : Digits (text.drop count) :=
  fun char hchar => hdigits char (mem_of_mem_drop hchar)

theorem digits_zeros (count : ℕ) : Digits (replicate count '0') := by
  intro char hchar
  obtain rfl := eq_of_mem_replicate hchar
  rfl

theorem readNumber_zeros (count : ℕ) : readNumber (replicate count '0') = 0 := by
  induction count with
  | zero => rfl
  | succ count ih =>
    rw [replicate_succ', readNumber_append, ih]
    rfl

section Short

variable {text : Text} (hdigits : Digits text) (hlength : text.length ≤ 9)

include hdigits hlength

/-- Up to nine digits are a number below the range of the conversions. -/
theorem readNumber_lt_of_length_le : readNumber text < 10 ^ 9 :=
  (readNumber_lt hdigits).trans_le (Nat.pow_le_pow_right (by decide) hlength)

theorem atoi_of_digits (hne : text ≠ []) : atoi text = readNumber text := by
  have hbound := readNumber_lt_of_length_le hdigits hlength
  rw [atoi, atoll_of_validNumber ⟨hne, hdigits⟩, Int.bmod_def]
  split <;> omega

theorem stoi_of_digits (hne : text ≠ []) : stoi text = some (readNumber text : ℤ) := by
  have hbound := readNumber_lt_of_length_le hdigits hlength
  obtain ⟨head, rest, htext, hdrop, hminus, hplus⟩ := ValidNumber.exists_cons ⟨hne, hdigits⟩
  have hrun : ((head :: rest).takeWhile Char.isDigit).isEmpty = false := by
    rw [← htext, takeWhile_eq_self_iff.mpr hdigits, htext]
    rfl
  have hvalue := atoll_of_validNumber ⟨hne, hdigits⟩
  rw [min_eq_left (by omega)] at hvalue
  simp only [stoi, hdrop, hvalue]
  split
  · rename_i heq
    exact absurd (cons.inj heq).1 hminus
  · rename_i heq
    exact absurd (cons.inj heq).1 hplus
  · rw [if_neg (by simp [hrun]), if_pos (by omega)]

end Short

theorem toNat_toUint32 {value : ℕ} (hvalue : value < 10 ^ 9) : (toUint32 value).toNat = value := by
  rw [toUint32, UInt32.toNat_ofNat']
  omega

/-- Bytes as they are stored for either sign. -/
def masked (negative : Bool) (bytes : Bytes) : Bytes :=
  bytes.map (· ^^^ maskByte negative)

theorem masked_append (negative : Bool) (left right : Bytes) :
    masked negative (left ++ right) = masked negative left ++ masked negative right :=
  map_append

theorem masked_true (bytes : Bytes) : masked true bytes = bytes.map (~~~ ·) := by
  refine map_congr_left fun byte _ => ?_
  exact UInt8.xor_neg_one

theorem masked_false (bytes : Bytes) : masked false bytes = bytes := by
  simp [masked, maskByte]

theorem replicate_maskByte (negative : Bool) (count : ℕ) :
    replicate count (maskByte negative) = masked negative (replicate count 0) := by
  rw [masked, map_replicate, UInt8.zero_xor]

variable {width : ℕ}

theorem storeBE_signMask (negative : Bool) (value : UInt32) (hwidth : width ≤ 4) :
    storeBE width (value ^^^ signMask negative).toNat =
      masked negative (storeBE width value.toNat) := by
  cases negative with
  | false => rw [masked_false, signMask, if_neg (by decide), UInt32.xor_zero]
  | true =>
    rw [masked_true, ← storeBE_not value hwidth, ← UInt32.xor_neg_one]
    rfl

theorem storeBE_toUint32 (negative : Bool) (hdigits : Digits text) (hlength : text.length ≤ 9)
    (hwidth : width ≤ 4) :
    storeBE width (toUint32 (readNumber text) ^^^ signMask negative).toNat =
      masked negative (storeBE width (readNumber text)) := by
  rw [storeBE_signMask negative _ hwidth,
    toNat_toUint32 (readNumber_lt_of_length_le hdigits hlength)]

def plainGroups : ℕ → Text → Bytes
  | 0, _ => []
  | count + 1, digits =>
    storeBE 4 (readNumber (digits.take 9)) ++ plainGroups count (digits.drop 9)

@[simp]
theorem length_plainGroups (count : ℕ) (digits : Text) :
    (plainGroups count digits).length = 4 * count := by
  induction count generalizing digits with
  | zero => rfl
  | succ count ih =>
    rw [plainGroups, length_append, length_storeBE, ih]
    omega

variable {count : ℕ}

theorem plainGroups_append {left right : Text} (others : ℕ) (hleft : left.length = 9 * count) :
    plainGroups (count + others) (left ++ right) =
      plainGroups count left ++ plainGroups others right := by
  induction count generalizing left with
  | zero =>
    obtain rfl := length_eq_zero_iff.mp hleft
    rw [Nat.zero_add, nil_append]
    rfl
  | succ count ih =>
    rw [Nat.add_right_comm, plainGroups, plainGroups,
      take_append_of_le_length (by omega), drop_append_of_le_length (by omega),
      ih (by rw [length_drop]; omega), append_assoc]

theorem plainGroups_zeros (count : ℕ) :
    plainGroups count (replicate (9 * count) '0') = replicate (4 * count) 0 := by
  induction count with
  | zero => rfl
  | succ count ih =>
    rw [plainGroups, take_replicate, drop_replicate, readNumber_zeros, storeBE_zero,
      Nat.mul_succ, Nat.add_sub_cancel, ih, replicate_append_replicate]
    congr 1
    omega

variable {digits : Text}

/-- The loop of the source stores the groups that stand at its position. -/
theorem storeGroups_of_drop {data rest : Text} {start : ℕ} (negative : Bool)
    (hdigits : Digits digits) (hlength : digits.length = 9 * count)
    (hdrop : data.drop start = digits ++ rest) :
    storeGroups negative data count start = masked negative (plainGroups count digits) := by
  induction count generalizing digits start with
  | zero => rfl
  | succ count ih =>
    have hgroup : subText data start decodeBaseLen = digits.take 9 := by
      rw [subText, hdrop, decodeBaseLen, take_append_of_le_length (by omega)]
    have hrest : data.drop (start + decodeBaseLen) = digits.drop 9 ++ rest := by
      rw [decodeBaseLen, ← drop_drop, hdrop, drop_append_of_le_length (by omega)]
    have hlong : (digits.take 9).length = 9 := by
      rw [length_take]
      omega
    have hne : digits.take 9 ≠ [] := by
      rw [← length_pos_iff_ne_nil, hlong]
      decide
    rw [storeGroups, hgroup, atoi_of_digits (hdigits.take 9) hlong.le hne,
      storeBE_toUint32 negative (hdigits.take 9) hlong.le (by decide),
      ih (hdigits.drop 9) (by rw [length_drop]; omega) hrest, plainGroups, masked_append]
    rfl

theorem readGroups_plainGroups (acc : ℕ) (rest : Bytes) (hdigits : Digits digits)
    (hlength : digits.length = 9 * count) :
    readGroups count acc (plainGroups count digits ++ rest) =
      acc * 10 ^ (9 * count) + readNumber digits := by
  induction count generalizing digits acc with
  | zero =>
    obtain rfl := length_eq_zero_iff.mp hlength
    simp [readGroups, readNumber, Nat.ofDigitChars]
  | succ count ih =>
    have hgroup : readNumber (digits.take 9) < 256 ^ 4 :=
      (readNumber_lt_of_length_le (hdigits.take 9) (length_take_le 9 _)).trans (by decide)
    have hdrop : (digits.drop 9).length = 9 * count := by
      rw [length_drop]
      omega
    have hsplit : readNumber digits =
        readNumber (digits.take 9) * 10 ^ (9 * count) + readNumber (digits.drop 9) := by
      rw [← hdrop, ← readNumber_append, take_append_drop]
    rw [plainGroups, readGroups, append_assoc, take_left' (length_storeBE 4 _),
      drop_left' (length_storeBE 4 _), loadBE_storeBE_of_lt hgroup,
      ih _ (hdigits.drop 9) hdrop, hsplit]
    ring

theorem digitsSize_eq (digits : ℕ) :
    digitsSize digits = 4 * (digits / 9) + dig2bytes (digits % 9) := by
  have htable : ∀ leftover < 9, [0, 1, 1, 2, 2, 3, 3, 4, 4].getD leftover 0 =
      dig2bytes leftover := by decide
  rw [digitsSize, htable _ (Nat.mod_lt _ (by decide))]

theorem digitsSize_mod (digits : ℕ) : digitsSize (digits % 9) = dig2bytes (digits % 9) := by
  rw [digitsSize_eq, Nat.div_eq_of_lt (Nat.mod_lt _ (by decide)), Nat.mod_mod]
  omega

theorem dig2bytes_le {digits : ℕ} (hdigits : digits ≤ 9) : dig2bytes digits ≤ 4 := by
  have htable : ∀ digits ≤ 9, dig2bytes digits ≤ 4 := by decide
  exact htable digits hdigits

theorem dig2bytes_mono {left right : ℕ} (hle : left ≤ right) (hright : right ≤ 9) :
    dig2bytes left ≤ dig2bytes right := by
  have htable : ∀ right ≤ 9, ∀ left ≤ right, dig2bytes left ≤ dig2bytes right := by decide
  exact htable right hright left hle

/-- The digits of a group leave the top bit of its field clear. -/
theorem pow_le_half {digits : ℕ} (hpos : 0 < digits) (hdigits : digits ≤ 9) :
    10 ^ digits ≤ 128 * 256 ^ (dig2bytes digits - 1) ∧ 0 < dig2bytes digits := by
  interval_cases digits <;> decide

theorem readNumber_lt_field (hdigits : Digits digits) (hlength : digits.length ≤ 9) :
    readNumber digits < 256 ^ dig2bytes digits.length := by
  have htable : ∀ digits ≤ 9, 10 ^ digits ≤ 256 ^ dig2bytes digits := by decide
  exact (readNumber_lt hdigits).trans_le (htable _ hlength)

def plainIntg (digits : Text) : Bytes :=
  storeBE (dig2bytes (digits.length % 9)) (readNumber (digits.take (digits.length % 9))) ++
    plainGroups (digits.length / 9) (digits.drop (digits.length % 9))

def plainFrac (digits : Text) : Bytes :=
  plainGroups (digits.length / 9) (digits.take (9 * (digits.length / 9))) ++
    storeBE (dig2bytes (digits.length % 9)) (readNumber (digits.drop (9 * (digits.length / 9))))

@[simp]
theorem length_plainIntg (digits : Text) : (plainIntg digits).length = digitsSize digits.length := by
  rw [plainIntg, length_append, length_storeBE, length_plainGroups, digitsSize_eq]
  omega

@[simp]
theorem length_plainFrac (digits : Text) : (plainFrac digits).length = digitsSize digits.length := by
  rw [plainFrac, length_append, length_storeBE, length_plainGroups, digitsSize_eq]

theorem plainIntg_append {lead groups : Text} (hlead : lead.length < 9)
    (hgroups : groups.length = 9 * count) :
    plainIntg (lead ++ groups) =
      storeBE (dig2bytes lead.length) (readNumber lead) ++ plainGroups count groups := by
  have hmod : (lead ++ groups).length % 9 = lead.length := by
    rw [length_append]
    omega
  have hdiv : (lead ++ groups).length / 9 = count := by
    rw [length_append]
    omega
  rw [plainIntg, hmod, hdiv, take_left, drop_left]

section Groups

variable {digits : Text} (hdigits : Digits digits)

include hdigits

theorem storeBE_zeros (count : ℕ) (hlength : digits.length ≤ 9)
    (hwidth : dig2bytes digits.length ≤ width) :
    storeBE width (readNumber (replicate count '0' ++ digits)) =
      replicate (width - dig2bytes digits.length) 0 ++
        storeBE (dig2bytes digits.length) (readNumber digits) := by
  rw [readNumber_append, readNumber_zeros, Nat.zero_mul, Nat.zero_add,
    ← storeBE_add _ (readNumber_lt_field hdigits hlength), Nat.sub_add_cancel hwidth]

/-- Leading zero digits are leading zero bytes, whatever they do to the groups. -/
theorem plainIntg_zeros (count : ℕ) :
    plainIntg (replicate count '0' ++ digits) =
      replicate (digitsSize (count + digits.length) - digitsSize digits.length) 0 ++
        plainIntg digits := by
  obtain ⟨lead, groups, rfl, hlead, hgroups⟩ : ∃ lead groups, digits = lead ++ groups ∧
      lead.length = digits.length % 9 ∧ groups.length = 9 * (digits.length / 9) :=
    ⟨digits.take (digits.length % 9), digits.drop (digits.length % 9),
      (take_append_drop _ _).symm, by rw [length_take]; omega,
      by rw [length_drop]; omega⟩
  generalize hlength : (lead ++ groups).length = length at *
  have hleadDigits : Digits lead := fun char hchar => hdigits char (mem_append_left _ hchar)
  have hsmall : lead.length < 9 := by omega
  have hbytes := dig2bytes_le hsmall.le
  rw [plainIntg_append hsmall hgroups, digitsSize_eq, digitsSize_eq, ← hlead]
  -- either the zeros stay in the leading group or they open new groups
  by_cases hsame : (count + length) / 9 = length / 9
  · have hmod : (count + length) % 9 = count + lead.length := by omega
    have hfront : (replicate count '0' ++ lead).length = count + lead.length := by
      rw [length_append, length_replicate]
    have hmono := @dig2bytes_mono lead.length (count + lead.length) (by omega) (by omega)
    rw [← append_assoc, plainIntg_append (by omega) hgroups, hfront,
      storeBE_zeros hleadDigits count hsmall.le hmono, append_assoc, hmod, hsame,
      Nat.add_sub_add_left]
  · obtain ⟨opened, hopened⟩ : ∃ opened, (count + length) / 9 = opened + (1 + length / 9) :=
      ⟨(count + length) / 9 - 1 - length / 9, by omega⟩
    have hcount : count = (count + length) % 9 + (9 * opened + (9 - lead.length)) := by omega
    have hfirst : (replicate (9 - lead.length) '0' ++ lead).length = 9 := by
      rw [length_append, length_replicate]
      omega
    have hsizes : 4 * ((count + length) / 9) + dig2bytes ((count + length) % 9) -
        (4 * (length / 9) + dig2bytes lead.length) =
        dig2bytes ((count + length) % 9) + (4 * opened + (4 - dig2bytes lead.length)) := by omega
    have hgroupsLength : (replicate (9 * opened) '0' ++
        ((replicate (9 - lead.length) '0' ++ lead) ++ groups)).length =
        9 * (opened + (1 + length / 9)) := by
      rw [length_append, length_append, hfirst, length_replicate, hgroups]
      omega
    have hsplit : replicate count '0' ++ (lead ++ groups) =
        replicate ((count + length) % 9) '0' ++ (replicate (9 * opened) '0' ++
          ((replicate (9 - lead.length) '0' ++ lead) ++ groups)) := by
      conv_lhs => rw [hcount]
      simp only [replicate_add, append_assoc]
    rw [hsizes, hsplit, plainIntg_append (by simp; omega) hgroupsLength, length_replicate,
      readNumber_zeros, storeBE_zero, plainGroups_append _ length_replicate,
      plainGroups_zeros, plainGroups_append _ hfirst]
    simp only [plainGroups, take_of_length_le hfirst.le]
    rw [storeBE_zeros hleadDigits _ hsmall.le hbytes]
    simp only [replicate_add, append_assoc, append_nil]

theorem readGroups_plainIntg (rest : Bytes) :
    readGroups (digits.length / 9)
      (loadBE ((plainIntg digits ++ rest).take (digitsSize (digits.length % 9))))
      ((plainIntg digits ++ rest).drop (digitsSize (digits.length % 9))) = readNumber digits := by
  have hlead : (digits.take (digits.length % 9)).length = digits.length % 9 := by
    rw [length_take]
    omega
  have hgroups : (digits.drop (digits.length % 9)).length = 9 * (digits.length / 9) := by
    rw [length_drop]
    omega
  have hfield := readNumber_lt_field (hdigits.take (digits.length % 9)) (by omega)
  rw [hlead] at hfield
  rw [plainIntg, append_assoc, digitsSize_mod, take_left' (length_storeBE _ _),
    drop_left' (length_storeBE _ _), loadBE_storeBE_of_lt hfield,
    readGroups_plainGroups _ rest (hdigits.drop _) hgroups, ← hgroups, ← readNumber_append,
    take_append_drop]

theorem readGroups_plainFrac :
    readGroups (digits.length / 9) 0 (plainFrac digits) * 10 ^ (digits.length % 9) +
      loadBE (slice (plainFrac digits) (4 * (digits.length / 9))
        (digitsSize (digits.length % 9))) = readNumber digits := by
  have hgroups : (digits.take (9 * (digits.length / 9))).length = 9 * (digits.length / 9) := by
    rw [length_take]
    omega
  have hlead : (digits.drop (9 * (digits.length / 9))).length = digits.length % 9 := by
    rw [length_drop]
    omega
  have hfield := readNumber_lt_field (hdigits.drop (9 * (digits.length / 9))) (by omega)
  rw [hlead] at hfield
  have hslice : slice (plainFrac digits) (4 * (digits.length / 9))
      (digitsSize (digits.length % 9)) = storeBE (dig2bytes (digits.length % 9))
        (readNumber (digits.drop (9 * (digits.length / 9)))) := by
    rw [slice, plainFrac, drop_left' (length_plainGroups _ _), digitsSize_mod,
      take_of_length_le (length_storeBE _ _).le]
  rw [hslice, loadBE_storeBE_of_lt hfield, plainFrac,
    readGroups_plainGroups 0 _ (hdigits.take _) hgroups, Nat.zero_mul, Nat.zero_add, ← hlead,
    ← readNumber_append, take_append_drop]

end Groups

/-- Nonempty bytes that start with a clear top bit. -/
def TopClear (bytes : Bytes) : Prop :=
  ∃ first rest, bytes = first :: rest ∧ first.toNat < 128

theorem TopClear.append {bytes : Bytes} (hclear : TopClear bytes) (others : Bytes) :
    TopClear (bytes ++ others) := by
  obtain ⟨first, rest, rfl, hfirst⟩ := hclear
  exact ⟨first, rest ++ others, rfl, hfirst⟩

section Top

variable {digits : Text} (hdigits : Digits digits)

include hdigits

theorem topClear_storeBE (hne : digits ≠ []) (hlength : digits.length ≤ 9) :
    TopClear (storeBE (dig2bytes digits.length) (readNumber digits)) := by
  obtain ⟨hhalf, hpos⟩ := pow_le_half (length_pos_iff_ne_nil.mpr hne) hlength
  rw [← Nat.sub_one_add_one hpos.ne', storeBE_succ]
  exact ⟨_, _, rfl, head_storeBE_lt ((readNumber_lt hdigits).trans_le hhalf)⟩

theorem topClear_plainGroups (hlength : digits.length = 9 * (count + 1)) :
    TopClear (plainGroups (count + 1) digits) := by
  have hlong : (digits.take 9).length = 9 := by
    rw [length_take]
    omega
  have hclear := topClear_storeBE (hdigits.take 9)
    (length_pos_iff_ne_nil.mp (by omega)) hlong.le
  rw [hlong] at hclear
  exact hclear.append _

theorem topClear_plainIntg (hne : digits ≠ []) : TopClear (plainIntg digits) := by
  have hlead : (digits.take (digits.length % 9)).length = digits.length % 9 := by
    rw [length_take]
    omega
  have hpos := length_pos_iff_ne_nil.mpr hne
  rw [plainIntg]
  rcases Nat.eq_zero_or_pos (digits.length % 9) with hzero | hmod
  · rw [hzero, drop_zero]
    obtain ⟨count, hcount⟩ : ∃ count, digits.length / 9 = count + 1 :=
      ⟨digits.length / 9 - 1, by omega⟩
    rw [hcount]
    exact topClear_plainGroups hdigits (by omega)
  · have hclear := topClear_storeBE (hdigits.take (digits.length % 9))
      (length_pos_iff_ne_nil.mp (by omega)) (by omega)
    rw [hlead] at hclear
    exact hclear.append _

theorem topClear_plainFrac (hne : digits ≠ []) : TopClear (plainFrac digits) := by
  rw [plainFrac]
  rcases Nat.eq_zero_or_pos (digits.length / 9) with hzero | hdiv
  · have hmod : digits.length % 9 = digits.length := by omega
    rw [hzero, hmod, Nat.mul_zero, drop_zero]
    exact topClear_storeBE hdigits hne (by omega)
  · obtain ⟨count, hcount⟩ : ∃ count, digits.length / 9 = count + 1 :=
      ⟨digits.length / 9 - 1, by omega⟩
    have hgroups : (digits.take (9 * (count + 1))).length = 9 * (count + 1) := by
      rw [length_take]
      omega
    rw [hcount]
    exact (topClear_plainGroups (hdigits.take _) hgroups).append _

end Top

theorem xor_top {first : UInt8} (hfirst : first.toNat < 128) :
    128 ≤ (first ^^^ 0x80).toNat ∧ (~~~ first ^^^ 0x80).toNat < 128 := by
  have htable : ∀ value < 128, 128 ≤ (UInt8.ofNat value ^^^ 0x80).toNat ∧
      (~~~ UInt8.ofNat value ^^^ 0x80).toNat < 128 := by decide +kernel
  simpa using htable first.toNat hfirst

theorem flipFirst_flipFirst (bytes : Bytes) : flipFirst (flipFirst bytes) = bytes := by
  cases bytes with
  | nil => rfl
  | cons byte bytes => rw [flipFirst, flipFirst, UInt8.xor_assoc, UInt8.xor_self, UInt8.xor_zero]

theorem take_flipFirst_append (bytes others : Bytes) :
    (flipFirst (bytes ++ others)).take bytes.length = flipFirst bytes := by
  cases bytes with
  | nil => rfl
  | cons byte bytes => simp [flipFirst]

/-- The top bit of the first byte tells the sign. -/
theorem head_flipFirst_masked {plain : Bytes} (negative : Bool) (hclear : TopClear plain) :
    decide (((flipFirst (masked negative plain)).headD 0).toNat < 128) = negative := by
  obtain ⟨first, rest, rfl, hfirst⟩ := hclear
  obtain ⟨hset, hunset⟩ := xor_top hfirst
  cases negative with
  | false =>
    rw [masked_false, flipFirst, headD_cons, decide_eq_false_iff_not]
    omega
  | true =>
    rw [masked_true, map_cons, flipFirst, headD_cons, decide_eq_true_eq]
    exact hunset

theorem unmask (negative : Bool) (plain : Bytes) :
    (if negative then (masked negative plain).map (~~~ ·) else masked negative plain) = plain := by
  cases negative with
  | false => rw [if_neg (by decide), masked_false]
  | true => simp [masked_true, Function.comp_def]

/-- The integer digits filled up with zeros to those of the column; the single zero
of a column without integer digits is left out. -/
def paddedIntg (intgMax : ℕ) (intg : Text) : Text :=
  if intgMax = 0 then [] else replicate (intgMax - intg.length) '0' ++ intg

theorem length_paddedIntg {intgMax : ℕ} {intg : Text} (hlength : intg.length ≤ max 1 intgMax) :
    (paddedIntg intgMax intg).length = intgMax := by
  rw [paddedIntg]
  split_ifs with hnone
  · exact hnone.symm
  · rw [length_append, length_replicate]
    omega

theorem Digits.paddedIntg {intg : Text} (hdigits : Digits intg) (intgMax : ℕ) :
    Digits (paddedIntg intgMax intg) := by
  rw [DataType.paddedIntg]
  split_ifs with hnone
  · exact fun char hchar => absurd hchar not_mem_nil
  · exact (digits_zeros _).append hdigits

section Pack

variable {data intg frac rest : Text} {signSize intgMax start : ℕ} (negative : Bool)

/-- The leading group of the integer part; nothing is written for no digits. -/
theorem packed_leading {lead : Text} (intgMax : ℕ) (hdigits : Digits lead) (hlength : lead.length < 9) :
    (if 0 < lead.length ∧ 0 < intgMax then
      storeBE (dig2bytes lead.length)
        (toUint32 ((atoi lead).tmod (10 ^ lead.length)) ^^^ signMask negative).toNat
    else []) =
      if 0 < intgMax then masked negative (storeBE (dig2bytes lead.length) (readNumber lead))
      else [] := by
  rcases Nat.eq_zero_or_pos lead.length with hzero | hpos
  · rw [hzero, if_neg (by omega)]
    split_ifs <;> rfl
  · have hvalue : (atoi lead).tmod (10 ^ lead.length) = readNumber lead := by
      rw [atoi_of_digits hdigits hlength.le (length_pos_iff_ne_nil.mp hpos)]
      apply Int.tmod_eq_of_lt (by positivity)
      exact_mod_cast readNumber_lt hdigits
    rw [hvalue, storeBE_toUint32 negative hdigits hlength.le (dig2bytes_le hlength.le)]
    simp [hpos]

theorem digitsSize_pos_iff (digits : ℕ) : digitsSize digits ≠ 0 ↔ 0 < digits := by
  rw [digitsSize_eq]
  rcases Nat.eq_zero_or_pos (digits % 9) with hzero | hpos
  · have hnone : dig2bytes 0 = 0 := rfl
    rw [hzero, hnone]
    omega
  · have hbytes := (pow_le_half hpos (by omega)).2
    omega

theorem packed_intg (hdigits : Digits intg) (hlength : intg.length ≤ max 1 intgMax)
    (hdrop : data.drop signSize = intg ++ rest) :
    replicate (digitsSize intgMax - digitsSize intg.length) (maskByte negative) ++
      (if 0 < intg.length % 9 ∧ digitsSize intgMax ≠ 0 then
        storeBE (dig2bytes (intg.length % 9)) (toUint32
          ((atoi (subText data signSize (intg.length % 9))).tmod (10 ^ (intg.length % 9))) ^^^
            signMask negative).toNat
      else []) ++
      storeGroups negative data (intg.length / 9) (intg.length % 9 + signSize) =
    masked negative (plainIntg (paddedIntg intgMax intg)) := by
  have hlead : (intg.take (intg.length % 9)).length = intg.length % 9 := by
    rw [length_take]
    omega
  have hgroups : (intg.drop (intg.length % 9)).length = 9 * (intg.length / 9) := by
    rw [length_drop]
    omega
  have hgroupsDrop : data.drop (intg.length % 9 + signSize) =
      intg.drop (intg.length % 9) ++ rest := by
    rw [Nat.add_comm, ← drop_drop, hdrop, drop_append_of_le_length (Nat.mod_le _ _)]
  have hread : subText data signSize (intg.length % 9) = intg.take (intg.length % 9) := by
    rw [subText, hdrop, take_append_of_le_length (Nat.mod_le _ _)]
  have hleading := packed_leading negative intgMax (hdigits.take (intg.length % 9)) (by omega)
  rw [hlead] at hleading
  simp only [digitsSize_pos_iff]
  rw [storeGroups_of_drop negative (hdigits.drop _) hgroups hgroupsDrop, replicate_maskByte,
    hread, hleading, paddedIntg]
  rcases Nat.eq_zero_or_pos intgMax with hnone | hsome
  · subst hnone
    have hone : intg.length / 9 = 0 := by omega
    have hempty : digitsSize 0 = 0 := rfl
    rw [hone, if_neg (lt_irrefl 0), if_pos rfl, hempty, Nat.zero_sub]
    rfl
  · rw [if_pos hsome, if_neg hsome.ne', plainIntg_zeros hdigits _, Nat.sub_add_cancel (by omega),
      masked_append, plainIntg, masked_append, append_assoc]

theorem packed_frac (hdigits : Digits frac) (hdrop : data.drop start = frac) :
    (if 0 < frac.length % 9 then
      (stoi (subText data (start + frac.length / 9 * 9) (frac.length % 9))).map fun value =>
        storeBE (dig2bytes (frac.length % 9)) (toUint32 value ^^^ signMask negative).toNat
      else some []).map (fun trailing =>
        storeGroups negative data (frac.length / 9) start ++ trailing) =
    some (masked negative (plainFrac frac)) := by
  have hgroups : (frac.take (9 * (frac.length / 9))).length = 9 * (frac.length / 9) := by
    rw [length_take]
    omega
  have hlast : (frac.drop (9 * (frac.length / 9))).length = frac.length % 9 := by
    rw [length_drop]
    omega
  have hread : subText data (start + frac.length / 9 * 9) (frac.length % 9) =
      frac.drop (9 * (frac.length / 9)) := by
    rw [subText, ← drop_drop, hdrop, Nat.mul_comm, take_of_length_le hlast.le]
  have hsplit : data.drop start =
      frac.take (9 * (frac.length / 9)) ++ frac.drop (9 * (frac.length / 9)) := by
    rw [hdrop, take_append_drop]
  rw [storeGroups_of_drop negative (hdigits.take _) hgroups hsplit, plainFrac, masked_append]
  split_ifs with hpos
  · have hne : frac.drop (9 * (frac.length / 9)) ≠ [] :=
      length_pos_iff_ne_nil.mp (by omega)
    rw [hread, stoi_of_digits (hdigits.drop _) (by omega) hne, map_some, map_some,
      storeBE_toUint32 negative (hdigits.drop _) (by omega) (dig2bytes_le (by omega))]
  · have hnone : frac.length % 9 = 0 := by omega
    rw [hnone]
    rfl

theorem packDecimal_eq {data intg frac rest : Text} {intgMax : ℕ} (fresh : Bytes)
    (hintg : Digits intg) (hfrac : Digits frac) (hlength : intg.length ≤ max 1 intgMax)
    (hdrop : data.drop (if negative then 1 else 0) = intg ++ rest) (htail : rest.drop 1 = frac) :
    packDecimal data negative intg.length intgMax frac.length frac.length fresh =
      some (digitsSize intgMax + digitsSize frac.length,
        flipFirst (masked negative (plainIntg (paddedIntg intgMax intg) ++ plainFrac frac))) := by
  have hmod : ∀ digits : ℕ, digits - digits / 9 * 9 = digits % 9 := by omega
  have hsize : ∀ digits : ℕ, digits / 9 * 4 + dig2bytes (digits % 9) = digitsSize digits := by
    intro digits
    rw [digitsSize_eq, Nat.mul_comm]
  have hstart : data.drop (intg.length % 9 + (if negative then 1 else 0) +
      intg.length / 9 * 9 + 1) = frac := by
    rw [← htail, ← @drop_left _ intg rest, ← hdrop, drop_drop, drop_drop]
    congr 1
    split_ifs <;> omega
  have hintgBytes := packed_intg negative hintg hlength hdrop
  have hfracBytes := packed_frac negative hfrac hstart
  have htotal : (masked negative (plainIntg (paddedIntg intgMax intg)) ++
      masked negative (plainFrac frac)).length = digitsSize intgMax + digitsSize frac.length := by
    simp [masked, length_paddedIntg hlength]
  simp only [packDecimal, decodeBaseLen, decimalStoreBaseLen, hmod, hsize, lt_irrefl, false_and,
    decide_false, Bool.false_and, Bool.false_eq_true, if_false, hintgBytes, Nat.sub_self,
    Nat.zero_min, replicate_zero, append_nil]
  obtain ⟨trailing, htrailing, hwritten⟩ := map_eq_some_iff.mp hfracBytes
  rw [htrailing, map_some, hwritten, ← htotal, take_flipFirst_append, masked_append]

end Pack

theorem ne_of_isDigit {char other : Char} (hdigit : char.isDigit = true)
    (hother : other.isDigit = false) : char ≠ other := by
  rintro rfl
  rw [hdigit] at hother
  exact Bool.noConfusion hother

theorem findIdx?_append_cons {front back : Text} {char : Char} (hfront : char ∉ front) :
    (front ++ char :: back).findIdx? (· == char) = some front.length := by
  have hnone : front.findIdx? (· == char) = none := by
    rw [findIdx?_eq_none_iff]
    intro other hother
    exact beq_false_of_ne fun heq => hfront (heq ▸ hother)
  rw [findIdx?_append, hnone, findIdx?_cons]
  simp

namespace DecimalText

variable {precision scale : ℕ} {number : DecimalText}

section Fits

variable (hfits : number.Fits precision scale)

include hfits

theorem head_text : (number.text.head? == some '-') = number.negative := by
  obtain ⟨first, rest, hintg⟩ := exists_cons_of_ne_nil hfits.intg_ne_nil
  have hfirst : first ≠ '-' :=
    ne_of_isDigit (hfits.intg_digits first (hintg ▸ mem_cons_self)) rfl
  rw [text, hintg]
  cases number.negative with
  | false => simpa using hfirst
  | true => rfl

theorem not_mem_front {char : Char} (hchar : char.isDigit = false) (hminus : char ≠ '-') :
    char ∉ (if number.negative then ['-'] else []) ++ number.intg := by
  intro hmem
  rcases mem_append.mp hmem with hsign | hintg
  · split_ifs at hsign with hnegative
    · exact hminus (mem_singleton.mp hsign)
    · exact absurd hsign not_mem_nil
  · exact ne_of_isDigit (hfits.intg_digits _ hintg) hchar rfl

theorem cStr_text : cStr number.text = number.text := by
  apply cStr_eq_self
  rw [text, mem_append]
  rintro (hfront | hback)
  · exact not_mem_front hfits rfl (by decide) hfront
  · split_ifs at hback with hfrac
    · exact absurd hback not_mem_nil
    · rcases mem_cons.mp hback with hdot | hback
      · exact absurd hdot (by decide)
      · exact ne_of_isDigit (hfits.frac_digits _ hback) rfl rfl

/-- The point is found behind the integer digits, when there is one. -/
theorem indexOf_text :
    indexOf number.text '.' =
      if number.frac = [] then none
      else some ((if number.negative then 1 else 0) + number.intg.length) := by
  have hfront : '.' ∉ (if number.negative then ['-'] else []) ++ number.intg :=
    not_mem_front hfits rfl (by decide)
  have hlength : ((if number.negative then ['-'] else []) ++ number.intg).length =
      (if number.negative then 1 else 0) + number.intg.length := by
    rw [length_append]
    split_ifs <;> rfl
  rw [indexOf, cStr_text hfits, text]
  by_cases hfrac : number.frac = []
  · rw [if_pos hfrac, if_pos hfrac, append_nil, findIdx?_eq_none_iff]
    intro char hchar
    exact beq_false_of_ne fun heq => hfront (heq ▸ hchar)
  · rw [if_neg hfrac, if_neg hfrac, findIdx?_append_cons hfront, hlength]

/-- The source measures the digits as they are. -/
theorem convertBinlogDecimal_text (fresh : Bytes) :
    convertBinlogDecimal precision scale fresh number.text =
      packDecimal number.text number.negative number.intg.length (precision - scale)
        number.frac.length number.frac.length fresh := by
  have hpos := length_pos_iff_ne_nil.mpr hfits.intg_ne_nil
  have hlength : number.text.length = (if number.negative then 1 else 0) + number.intg.length +
      (if number.frac = [] then 0 else 1) + number.frac.length := by
    rw [text]
    split_ifs with hnegative hfrac hfrac <;> simp [*] <;> omega
  simp only [convertBinlogDecimal, head_text hfits, indexOf_text hfits, hlength,
    Int.natCast_nonneg, if_true, Int.toNat_natCast, hfits.frac_length]
  by_cases hfrac : number.frac = []
  · have hscale : scale = 0 := by rw [← hfits.frac_length, hfrac, length_nil]
    simp only [hfrac, hscale, if_true, getD_none, lt_irrefl, if_false, Nat.add_zero,
      Nat.add_sub_cancel_left, Nat.sub_zero]
    congr 1
    omega
  · have hindex : 0 < (if number.negative then 1 else 0) + number.intg.length := by omega
    simp only [hfrac, if_false, getD_some, hindex, if_true, Nat.add_sub_cancel_left]
    congr 1
    omega

end Fits

theorem drop_text (number : DecimalText) :
    number.text.drop (if number.negative then 1 else 0) = number.intg ++
      (if number.frac = [] then [] else '.' :: number.frac) ∧
    (if number.frac = [] then [] else '.' :: number.frac : Text).drop 1 = number.frac := by
  constructor
  · rw [text]
    cases number.negative <;> simp
  · split_ifs with hfrac
    · rw [hfrac, drop_nil]
    · rfl

end DecimalText

/-- MySQL's rule, on the bytes of all digits of a column. -/
theorem decodeDecimal_masked {intg frac : Text} {precision scale : ℕ} (negative : Bool)
    (hintg : Digits intg) (hfrac : Digits frac) (hintgLength : intg.length = precision - scale)
    (hfracLength : frac.length = scale) (hpos : 0 < intg.length + frac.length) :
    decodeDecimal precision scale (flipFirst (masked negative (plainIntg intg ++ plainFrac frac))) =
      (if negative then -1 else 1) * (readNumber intg + readNumber frac / 10 ^ scale) := by
  have hclear : TopClear (plainIntg intg ++ plainFrac frac) := by
    by_cases hnone : intg = []
    · have hne : frac ≠ [] := by
        rintro rfl
        simp [hnone] at hpos
      rw [hnone]
      exact topClear_plainFrac hfrac hne
    · exact (topClear_plainIntg hintg hnone).append _
  have hdrop : (plainIntg intg ++ plainFrac frac).drop (digitsSize intg.length) = plainFrac frac :=
    drop_left' (length_plainIntg intg)
  subst hfracLength
  simp only [decodeDecimal, head_flipFirst_masked negative hclear, flipFirst_flipFirst, unmask,
    ← hintgLength, hdrop, readGroups_plainIntg hintg, readGroups_plainFrac hfrac]

/-- The bytes of a decimal number have the prescribed length and are read as the number. -/
theorem decodeDecimal_convertBinlogDecimal {precision scale : ℕ} {number : DecimalText}
    (hprecision : 1 ≤ precision) (hscale : scale ≤ precision)
    (hfits : number.Fits precision scale) (fresh : Bytes) :
    ∃ bytes, convertBinlogDecimal precision scale fresh number.text = some (bytes.length, bytes) ∧
      bytes.length = digitsSize (precision - scale) + digitsSize scale ∧
      decodeDecimal precision scale bytes = number.value := by
  obtain ⟨hdrop, htail⟩ := number.drop_text
  have hpadded := length_paddedIntg hfits.intg_length
  have hdigits := Digits.paddedIntg hfits.intg_digits (precision - scale)
  have hlength : (flipFirst (masked number.negative
      (plainIntg (paddedIntg (precision - scale) number.intg) ++ plainFrac number.frac))).length =
      digitsSize (precision - scale) + digitsSize number.frac.length := by
    simp [length_flipFirst, masked, hpadded]
  refine ⟨_, ?_, hlength.trans (by rw [hfits.frac_length]), ?_⟩
  · rw [number.convertBinlogDecimal_text hfits, packDecimal_eq number.negative fresh
      hfits.intg_digits hfits.frac_digits hfits.intg_length hdrop htail, hlength]
  · have hvalue : readNumber (paddedIntg (precision - scale) number.intg) =
        readNumber number.intg := by
      rw [paddedIntg]
      split_ifs with hnone
      · rw [hfits.intg_zero (by omega)]
        rfl
      · rw [readNumber_append, readNumber_zeros, Nat.zero_mul, Nat.zero_add]
    rw [decodeDecimal_masked number.negative hdigits hfits.frac_digits hpadded hfits.frac_length
      (by rw [hpadded, hfits.frac_length]; omega), hvalue, DecimalText.value, hfits.frac_length]

def sampleDecimal : DecimalText :=
  { negative := true, intg := ['7', '8'], frac := ['1', '2', '3', '4'] }

theorem fits_sampleDecimal : sampleDecimal.Fits 14 4 :=
  ⟨by simp [sampleDecimal], by simp [sampleDecimal], by decide, by decide, by decide, rfl⟩

theorem decodeDecimal_sampleDecimal :
    sampleDecimal.Fits 14 4 ∧
      ∃ bytes, convertBinlogDecimal (14 : ℕ) (4 : ℕ) [] sampleDecimal.text =
          some (bytes.length, bytes) ∧
        bytes.length = digitsSize (14 - 4) + digitsSize 4 ∧
        decodeDecimal 14 4 bytes = sampleDecimal.value :=
  ⟨fits_sampleDecimal,
    decodeDecimal_convertBinlogDecimal (by decide) (by decide) fits_sampleDecimal []⟩

end OblogProxy.DataType
