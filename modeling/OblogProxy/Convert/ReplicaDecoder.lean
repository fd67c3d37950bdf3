import OblogProxy.Convert.ParallelConvert

/-!
# Reading rows with the table map

A replica splits a row image into values by the type codes and the metadata of the table
map alone.  The code writes the metadata and the values with two separate functions, so
the widths that a replica derives have to be those of the bytes that were pushed.
-/

namespace OblogProxy.Convert

open Bytes DataType Event Gtid Converter JsonParser List ColType

/-- The type that a code of a table map stands for. -/
def typeOfCode : ℕ → ColType
  | 0 => .decimal
  | 1 => .tiny
  | 2 => .short
  | 3 => .long
  | 4 => .float
  | 5 => .double
  | 8 => .longlong
  | 9 => .int24
  | 10 => .date
  | 13 => .year
  | 14 => .newdate
  | 15 => .varchar
  | 16 => .bit
  | 17 => .timestamp2
  | 18 => .datetime2
  | 19 => .time2
  | 245 => .json
  | 246 => .newdecimal
  | 252 => .blob
  | 254 => .string
  | 255 => .geometry
  | code => .other code

structure ReplicaColumn where
  type : ColType
  metadata : Bytes

namespace ReplicaColumn

/-- How many bytes of metadata a type has. -/
def metadataLen : ColType → ℕ
  | .bit | .string | .varchar | .decimal | .newdecimal => 2
  | .float | .double | .blob | .json | .geometry | .timestamp2 | .datetime2 | .time2 => 1
  | _ => 0

def ofTableMap : Bytes → Bytes → List ReplicaColumn
  | [], _ => []
  | code :: codes, metadata =>
    let type := typeOfCode code.toNat
    ⟨type, metadata.take (metadataLen type)⟩ ::
      ofTableMap codes (metadata.drop (metadataLen type))

/-- The length in front of a string whose length is at most the maximum. -/
def lengthWidth (maxLength : ℕ) : ℕ :=
  if maxLength ≤ 255 then 1 else 2

/-- The width of a value behind a length of some bytes. -/
def prefixed (width : ℕ) (bytes : Bytes) : ℕ :=
  width + loadLE (bytes.take width)

section Width

variable (column : ReplicaColumn)

def byte (index : ℕ) : ℕ :=
  (column.metadata.getD index 0).toNat

/-- The maximum length of a CHAR; two bits of it are in the byte of the type, inverted. -/
def charLength : ℕ :=
  ((column.byte 0 &&& 0x30) ^^^ 0x30) * 16 + column.byte 1

/-- The bytes that the fraction of a temporal value takes. -/
def fractionBytes : ℕ :=
  (column.byte 0 + 1) / 2

/-- The width of the value that starts the bytes. -/
def valueWidth (bytes : Bytes) : ℕ :=
  match column.type with
  | .tiny | .year => 1
  | .short => 2
  | .int24 | .date | .newdate => 3
  | .long => 4
  | .longlong => 8
  | .float | .double => column.byte 0
  | .bit => column.byte 1 + if column.byte 0 = 0 then 0 else 1
  | .decimal | .newdecimal =>
    digitsSize (column.byte 0 - column.byte 1) + digitsSize (column.byte 1)
  | .timestamp2 => 4 + column.fractionBytes
  | .time2 => 3 + column.fractionBytes
  | .datetime2 => 5 + column.fractionBytes
  | .varchar => prefixed (lengthWidth (loadLE column.metadata)) bytes
  | .string =>
    if column.byte 0 = enum.code ∨ column.byte 0 = set.code then column.byte 1
    else prefixed (lengthWidth column.charLength) bytes
  | .blob | .json | .geometry => prefixed (column.byte 0) bytes
  | _ => 0

end Width

/-- Whether the bit of a column is set in the bitmap of a row. -/
def bitOf (bitmap : Bytes) (index : ℕ) : Bool :=
  (bitmap.getD (index / 8) 0).toNat.testBit (index % 8)

/-- The values of a row from the column `index` on, absent where they are NULL, and what
is behind the row; `none` if the bytes end within a value. -/
def readRow (bitmap : Bytes) (index : ℕ) :
    List ReplicaColumn → Bytes → Option (List (Option Bytes) × Bytes)
  | [], bytes => some ([], bytes)
  | column :: columns, bytes =>
    if bitOf bitmap index then
      (readRow bitmap (index + 1) columns bytes).map fun (values, rest) => (none :: values, rest)
    else
      let width := column.valueWidth bytes
      if bytes.length < width then none
      else
        (readRow bitmap (index + 1) columns (bytes.drop width)).map fun (values, rest) =>
          (some (bytes.take width) :: values, rest)

end ReplicaColumn

def TableMapEvent.readRow (event : TableMapEvent) (image : RowImage) (behind : Bytes) :
    Option (List (Option Bytes) × Bytes) :=
  ReplicaColumn.readRow image.bitmap 0
    (ReplicaColumn.ofTableMap event.columnType (event.metadata.take event.metadataLen))
    (image.row ++ behind)

/-- The columns that a table may declare, of the types that have both metadata and a
conversion. -/
def Declared (col : ColMeta) : Prop :=
  match col.type with
  | .bit => 1 ≤ col.precision ∧ col.precision ≤ 64
  | .string => 0 ≤ col.byteLength ∧ col.byteLength ≤ 1024
  | .varString | .varchar => 0 ≤ col.byteLength ∧ col.byteLength < 2 ^ 20
  | .decimal | .newdecimal => 0 ≤ col.scale ∧ col.scale ≤ col.precision ∧ col.precision < 256
  | .timestamp | .datetime | .time => 0 ≤ col.scale ∧ col.scale ≤ 6
  | .null | .geometry | .timestamp2 | .datetime2 | .time2 | .other _ => False
  | _ => True

/-- The value fits its column: strings are not longer than declared, and an ENUM is one
of the members.  The widths of the others do not depend on the value. -/
def Fits (runtime : Runtime) (col : ColMeta) (data : Text) (isJsonDiff : Bool) : Prop :=
  match col.type with
  | .string | .varString | .varchar => data.length ≤ col.byteLength
  | .enum => data ∈ col.valuesOfEnumSet
  | .tinyBlob => data.length < 256 ^ 1
  | .blob => data.length < 256 ^ 2
  | .mediumBlob => data.length < 256 ^ 3
  | .longBlob => data.length < 256 ^ 4
  | .json => ∀ pushed, convertBinlogJson runtime data isJsonDiff = some pushed →
      pushed.1 < 4 + 256 ^ 4
  | _ => True

/-- The metadata tells how wide the length in front of a string is, and the length fits
there. -/
def Readable (col : ColMeta) (data : Text) : Prop :=
  match col.type with
  | .string => col.byteLength ≠ 1024
  | .varString | .varchar =>
    (255 < col.byteLength → 255 < col.byteLength % 2 ^ 16) ∧ data.length < 2 ^ 16
  | _ => True

def replicaColumn (col : ColMeta) : ReplicaColumn :=
  ⟨columnType col, col.setColumnMetadata⟩

variable {col : ColMeta}

theorem typeOfCode_columnType (hdeclared : Declared col) :
    typeOfCode (UInt8.ofNat (columnType col).code).toNat = columnType col := by
  rw [Declared] at hdeclared
  rw [columnType]
  cases htype : col.type <;> simp only [htype] at hdeclared ⊢ <;> first | rfl | skip
  split_ifs <;> rfl

theorem metadataLen_columnType (hdeclared : Declared col) :
    ReplicaColumn.metadataLen (columnType col) = col.setColumnMetadata.length := by
  rw [Declared] at hdeclared
  rw [columnType, ColMeta.setColumnMetadata]
  cases htype : col.type <;> simp only [htype] at hdeclared ⊢ <;>
    try simp [ReplicaColumn.metadataLen, storeInt]
  split_ifs <;> rfl

theorem ofTableMap_cols {cols : List ColMeta} (hdeclared : ∀ col ∈ cols, Declared col) :
    ReplicaColumn.ofTableMap (cols.map fun col => UInt8.ofNat (columnType col).code)
      (cols.flatMap ColMeta.setColumnMetadata) = cols.map replicaColumn := by
  induction cols with
  | nil => rfl
  | cons col cols ih =>
    rw [forall_mem_cons] at hdeclared
    rw [map_cons, flatMap_cons, ReplicaColumn.ofTableMap,
      typeOfCode_columnType hdeclared.1, metadataLen_columnType hdeclared.1, take_left,
      drop_left, ih hdeclared.2]
    rfl

open ReplicaColumn

section Widths

variable {runtime : Runtime} {col : ColMeta} {data : Text} {pushed : Pushed} {rest : Bytes}

theorem prefixed_storeLE (width number : ℕ) (rest : Bytes) :
    prefixed width (storeLE width number ++ rest) =
      width + number % 256 ^ width := by
  have htake : (storeLE width number ++ rest).take width = storeLE width number := by
    rw [take_append_of_le_length (length_storeLE width number).ge,
      take_of_length_le (length_storeLE width number).le]
  rw [prefixed, htake, loadLE_storeLE]

/-- The length is as wide as the replica takes it to be, or the value is misread. -/
theorem prefixed_lengthWidth {known declared length : ℕ} (hknown : known ≤ declared)
    (hfits : length ≤ declared) (rest : Bytes) :
    prefixed (lengthWidth known)
        (storeLE (lengthWidth declared) length ++ rest) =
        length + lengthWidth declared ↔
      (255 < declared → 255 < known) ∧ length < 2 ^ 16 := by
  by_cases hdeclared : declared ≤ 255
  · have hwidth : lengthWidth declared = 1 := if_pos hdeclared
    have hsame : lengthWidth known = 1 := if_pos (hknown.trans hdeclared)
    rw [hwidth, hsame, prefixed_storeLE]
    omega
  · have hwidth : lengthWidth declared = 2 := if_neg hdeclared
    rw [hwidth]
    by_cases hshort : known ≤ 255
    · have hone : lengthWidth known = 1 := if_pos hshort
      simp [hone, prefixed, storeLE, loadLE]
      omega
    · have htwo : lengthWidth known = 2 := if_neg hshort
      rw [htwo, prefixed_storeLE]
      omega

theorem convertSized_eq (heap : Heap) (data : Text) (width : ℕ) :
    convertSized heap data width =
      (data.length + width, storeLE width data.length ++ textBytes data) := by
  have hlength : (storeLE width data.length ++ textBytes data).length = data.length + width := by
    rw [length_append, length_storeLE, length_textBytes, Nat.add_comm]
  rw [convertSized, Heap.push, take_append_of_le_length hlength.ge, take_of_length_le hlength.le]

/-- A value behind a length of its own width. -/
theorem prefixed_convertSized {width : ℕ} (hfits : data.length < 256 ^ width) (heap : Heap)
    (rest : Bytes) :
    prefixed width ((convertSized heap data width).2 ++ rest) =
      (convertSized heap data width).1 := by
  rw [convertSized_eq, append_assoc, prefixed_storeLE, Nat.mod_eq_of_lt hfits, Nat.add_comm]

theorem byte_storeLE (type : ColType) (number : ℕ) :
    byte ⟨type, storeLE 1 number⟩ 0 = number % 256 := by
  simp [byte, storeLE]

theorem byte_storeInt (type : ColType) {number : ℤ} (hlow : 0 ≤ number) (hhigh : number < 256)
    (behind : Bytes) :
    byte ⟨type, storeInt 1 number ++ behind⟩ 0 = number.toNat := by
  simp only [byte, storeInt, storeLE, cons_append, getD_cons_zero, UInt8.toNat_ofNat']
  omega

theorem byte_storeInt_second (type : ColType) {number : ℤ} (hlow : 0 ≤ number)
    (hhigh : number < 256) (first : ℤ) :
    byte ⟨type, storeInt 1 first ++ storeInt 1 number⟩ 1 =
      number.toNat := by
  simp only [byte, storeInt, storeLE, cons_append, nil_append,
    getD_cons_succ, getD_cons_zero, UInt8.toNat_ofNat']
  omega

/-- Two bits of the length go to the byte of the type; there are no more. -/
theorem charLength_string (htype : col.type = .string) (hlow : 0 ≤ col.byteLength)
    (hhigh : col.byteLength ≤ 1024) :
    (replicaColumn col).charLength = (col.byteLength % 1024).toNat ∧
      (replicaColumn col).byte 0 ≠ enum.code ∧
      (replicaColumn col).byte 0 ≠ set.code := by
  obtain ⟨length, hlength⟩ := Int.eq_ofNat_of_zero_le hlow
  have htable : ∀ length < 1025,
      let first := (254 ^^^ (BitVec.ofInt 64 (Int.ofNat length) &&& 0x300) >>> 4).toNat % 256
      ((first &&& 0x30) ^^^ 0x30) * 16 + length % 256 = length % 1024 ∧ first ≠ 247 ∧
        first ≠ 248 := by
    decide +kernel
  obtain ⟨hchar, henum, hset⟩ := htable length (by omega)
  have hfirst : (replicaColumn col).byte 0 =
      (254 ^^^ (BitVec.ofInt 64 (Int.ofNat length) &&& 0x300) >>> 4).toNat % 256 := by
    simp [replicaColumn, ColMeta.setColumnMetadata, htype, byte, storeLE, hlength, code]
  have hsecond : (replicaColumn col).byte 1 = length % 256 := by
    simp [replicaColumn, ColMeta.setColumnMetadata, htype, byte, storeLE, hlength, storeInt]
    omega
  rw [charLength, hfirst, hsecond, hlength]
  refine ⟨?_, henum, hset⟩
  omega

theorem loadLE_varchar (htype : col.type = .varString ∨ col.type = .varchar) :
    loadLE col.setColumnMetadata = (col.byteLength % 2 ^ 16).toNat := by
  have hmetadata : col.setColumnMetadata = storeInt 2 col.byteLength := by
    rcases htype with htype | htype <;> rw [ColMeta.setColumnMetadata, htype]
  rw [hmetadata, storeInt, loadLE_storeLE]
  omega

theorem lengthWidth_byteLength (hlow : 0 ≤ col.byteLength) (hhigh : col.byteLength < 2 ^ 20) :
    (if 255 < toUint64 col.byteLength then 2 else 1) =
      lengthWidth col.byteLength.toNat := by
  rw [lengthWidth, toUint64]
  split_ifs <;> omega

/-- A string is read if the replica knows a length `known` that is as wide. -/
theorem varString_width_iff {known : ℕ} (hlow : 0 ≤ col.byteLength)
    (hhigh : col.byteLength < 2 ^ 20) (hknown : (known : ℤ) ≤ col.byteLength)
    (hfits : data.length ≤ col.byteLength) (rest : Bytes) :
    prefixed (lengthWidth known)
        ((convertBinlogVarString runtime col data).2 ++ rest) =
        (convertBinlogVarString runtime col data).1 ↔
      (255 < col.byteLength → 255 < known) ∧ data.length < 2 ^ 16 := by
  rw [convertBinlogVarString, convertSized_eq, lengthWidth_byteLength hlow hhigh,
    append_assoc, prefixed_lengthWidth (by omega) (by omega)]
  omega

theorem packedSize_eq (intgMax fracMax : ℕ) :
    packedSize intgMax fracMax = digitsSize intgMax + digitsSize fracMax := by
  have hpart (digits : ℕ) : digits / decodeBaseLen * decimalStoreBaseLen +
      dig2bytes (digits - digits / decodeBaseLen * decodeBaseLen) = digitsSize digits := by
    rw [digitsSize_eq, decodeBaseLen, decimalStoreBaseLen, Nat.mul_comm (digits / 9) 9,
      ← Nat.mod_eq_sub_mul_div, Nat.mul_comm]
  rw [packedSize, hpart, hpart]

/-- A conversion that reads a date first. -/
theorem pushed_of_bind {Date : Type} {date : Option Date} {heap : Heap} {size : ℕ}
    {value : Date → Bytes}
    (hconvert : (date.bind fun date => some (heap.push size (value date))) = some pushed) :
    pushed.1 = size := by
  obtain ⟨found, -, hpush⟩ := Option.bind_eq_some_iff.mp hconvert
  cases hpush
  rfl

theorem valueWidth_bit (htype : col.type = .bit) (hlow : 1 ≤ col.precision)
    (hhigh : col.precision ≤ 64) (hconvert : convertBinlogBit runtime col data = some pushed)
    (bytes : Bytes) : (replicaColumn col).valueWidth bytes = pushed.1 := by
  obtain ⟨num, -, hpush⟩ := Option.bind_eq_some_iff.mp hconvert
  obtain ⟨-, hsome⟩ := Option.ite_none_left_eq_some.mp hpush
  cases hsome
  have hdiv : col.precision.tdiv 8 = col.precision / 8 := Int.tdiv_eq_ediv_of_nonneg (by omega)
  have hmod : col.precision.tmod 8 = col.precision % 8 := Int.tmod_eq_emod_of_nonneg (by omega)
  have hlen : (if col.precision = 0 then data.length else toUint64 col.precision) =
      col.precision.toNat := by
    rw [if_neg (by omega), toUint64, Int.emod_eq_of_lt (by omega) (by omega)]
  simp only [valueWidth, replicaColumn, columnType, ColMeta.setColumnMetadata, htype]
  rw [hdiv, hmod, byte_storeInt _ (by omega) (by omega),
    byte_storeInt_second _ (by omega) (by omega), Heap.push, hlen]
  split_ifs <;> omega

theorem valueWidth_float (htype : col.type = .float)
    (hconvert : convertBinlogFloat runtime col data = some pushed) (bytes : Bytes) :
    (replicaColumn col).valueWidth bytes = pushed.1 := by
  obtain ⟨value, -, rfl⟩ := Option.map_eq_some_iff.mp hconvert
  simp only [valueWidth, replicaColumn, columnType, ColMeta.setColumnMetadata, htype]
  split_ifs <;> simp only [byte_storeLE]

theorem valueWidth_double (htype : col.type = .double)
    (hconvert : convertBinlogDouble runtime data = some pushed) (bytes : Bytes) :
    (replicaColumn col).valueWidth bytes = pushed.1 := by
  obtain ⟨value, -, rfl⟩ := Option.map_eq_some_iff.mp hconvert
  simp only [valueWidth, replicaColumn, columnType, ColMeta.setColumnMetadata, htype, byte_storeLE]

theorem pushed_of_convertDecimal (hscale : 0 ≤ col.scale) (hprecision : 0 ≤ col.precision)
    (hconvert : convertDecimal runtime col data = some pushed) :
    pushed.1 = digitsSize (col.precision.toNat - col.scale.toNat) + digitsSize col.scale.toNat := by
  rw [convertDecimal, convertBinlogDecimal, if_pos hscale, if_pos hprecision, packDecimal]
    at hconvert
  obtain ⟨trailing, -, rfl⟩ := Option.map_eq_some_iff.mp hconvert
  exact packedSize_eq _ _

theorem valueWidth_decimal (htype : col.type = .decimal ∨ col.type = .newdecimal)
    (hscale : 0 ≤ col.scale) (hprecision : col.scale ≤ col.precision) (hhigh : col.precision < 256)
    (hconvert : convertDecimal runtime col data = some pushed) (bytes : Bytes) :
    (replicaColumn col).valueWidth bytes = pushed.1 := by
  rw [pushed_of_convertDecimal hscale (hscale.trans hprecision) hconvert]
  have hprecisionByte := byte_storeInt col.type (hscale.trans hprecision) hhigh
    (storeInt 1 col.scale)
  have hscaleByte := byte_storeInt_second col.type hscale (by omega) col.precision
  rcases htype with htype | htype <;>
    simp only [valueWidth, replicaColumn, columnType,
      ColMeta.setColumnMetadata, htype] at hprecisionByte hscaleByte ⊢ <;>
    rw [hprecisionByte, hscaleByte]

theorem fractionBytes_eq (type : ColType) {scale : ℤ} (hlow : 0 ≤ scale) (hhigh : scale ≤ 6) :
    (fractionBytes ⟨type, storeInt 1 scale⟩ : ℤ) =
      remainderBytes scale := by
  have hbyte := byte_storeInt type hlow (by omega) []
  rw [append_nil] at hbyte
  rw [fractionBytes, hbyte, remainderBytes]
  split_ifs <;> omega

theorem valueWidth_enum (htype : col.type = .enum) (hmember : data ∈ col.valuesOfEnumSet)
    (bytes : Bytes) :
    (replicaColumn col).valueWidth bytes = (convertBinlogEnum runtime col data).1 := by
  have hfound : (col.valuesOfEnumSet.findIdx? fun member => isMember member data).isSome := by
    rw [findIdx?_isSome, any_eq_true]
    exact ⟨data, hmember, isPrefixOf_iff_prefix.mpr (prefix_append _ _)⟩
  obtain ⟨index, hindex⟩ := Option.isSome_iff_exists.mp hfound
  rw [convertBinlogEnum, hindex]
  simp only [valueWidth, replicaColumn, columnType, ColMeta.setColumnMetadata, htype, Heap.push]
  split_ifs <;> simp_all [byte, storeLE, code] <;> omega

theorem valueWidth_set (htype : col.type = .set)
    (hconvert : convertBinlogSet runtime col data = some pushed) (bytes : Bytes) :
    (replicaColumn col).valueWidth bytes = pushed.1 := by
  obtain ⟨hfew, hsome⟩ := Option.ite_none_left_eq_some.mp hconvert
  cases hsome
  have hwidth : fixedLen col.valuesOfEnumSet.length % 256 = fixedLen col.valuesOfEnumSet.length :=
    Nat.mod_eq_of_lt (by omega)
  simp [valueWidth, replicaColumn, columnType,
    ColMeta.setColumnMetadata, htype, Heap.push, byte, storeLE, code, hwidth]

variable {isJsonDiff : Bool}

theorem valueWidth_json (htype : col.type = .json) (hfits : pushed.1 < 4 + 256 ^ 4)
    (hconvert : convertBinlogJson runtime data isJsonDiff = some pushed) (rest : Bytes) :
    (replicaColumn col).valueWidth (pushed.2 ++ rest) = pushed.1 := by
  obtain ⟨json, -, rfl⟩ := Option.map_eq_some_iff.mp hconvert
  simp only [valueWidth, replicaColumn, columnType, ColMeta.setColumnMetadata, htype, byte_storeLE]
  change prefixed 4 _ = _
  rw [append_assoc, prefixed_storeLE, Nat.mod_eq_of_lt (by omega)]

/-- The temporal types: a fixed number of bytes and those of the fraction. -/
theorem valueWidth_temporal {whole : ℕ} (type : ColType) (hlow : 0 ≤ col.scale)
    (hhigh : col.scale ≤ 6) (hpushed : pushed.1 = ((whole : ℤ) + remainderBytes col.scale).toNat) :
    whole + fractionBytes ⟨type, storeInt 1 col.scale⟩ = pushed.1 := by
  have hfraction := fractionBytes_eq type hlow hhigh
  omega

/-- Of a type without a length that depends on the declaration, the replica derives the
number that the conversion returned. -/
theorem valueWidth_eq (hdeclared : Declared col) (hfits : Fits runtime col data isJsonDiff)
    (hbytes : getColumnValBytes runtime col data isJsonDiff = some pushed)
    (hstring : col.type ≠ .string) (hvarString : col.type ≠ .varString)
    (hvarchar : col.type ≠ .varchar) (rest : Bytes) :
    (replicaColumn col).valueWidth (pushed.2 ++ rest) = pushed.1 := by
  rw [Declared] at hdeclared
  rw [Fits] at hfits
  rw [getColumnValBytes] at hbytes
  cases htype : col.type <;> simp only [htype] at hdeclared hfits hbytes
  case bit => exact valueWidth_bit htype hdeclared.1 hdeclared.2 hbytes _
  case float => exact valueWidth_float htype hbytes _
  case double => exact valueWidth_double htype hbytes _
  case decimal =>
    exact valueWidth_decimal (.inl htype) hdeclared.1 hdeclared.2.1 hdeclared.2.2 hbytes _
  case newdecimal =>
    exact valueWidth_decimal (.inr htype) hdeclared.1 hdeclared.2.1 hdeclared.2.2 hbytes _
  case set => exact valueWidth_set htype hbytes _
  case enum =>
    cases hbytes
    exact valueWidth_enum htype hfits _
  case json => exact valueWidth_json htype (hfits pushed hbytes) hbytes _
  case string => exact absurd htype hstring
  case varString => exact absurd htype hvarString
  case varchar => exact absurd htype hvarchar
  all_goals
    simp [replicaColumn, columnType, ColMeta.setColumnMetadata, htype]
  case timestamp =>
    exact valueWidth_temporal _ hdeclared.1 hdeclared.2 (pushed_of_bind hbytes)
  case time => exact valueWidth_temporal _ hdeclared.1 hdeclared.2 (pushed_of_bind hbytes)
  case datetime => exact valueWidth_temporal _ hdeclared.1 hdeclared.2 (pushed_of_bind hbytes)
  case tinyBlob | blob | mediumBlob | longBlob =>
    cases hbytes
    exact prefixed_convertSized hfits _ _
  case date | newdate => exact (pushed_of_bind hbytes).symm
  case year =>
    cases hbytes
    rfl
  case tiny | short | int24 | long | longlong =>
    obtain ⟨num, -, rfl⟩ := Option.map_eq_some_iff.mp hbytes
    rfl

section Strings

variable (hlow : 0 ≤ col.byteLength) (hfits : data.length ≤ col.byteLength) (rest : Bytes)

include hlow hfits

theorem valueWidth_string_iff (htype : col.type = .string) (hhigh : col.byteLength ≤ 1024) :
    (replicaColumn col).valueWidth ((convertBinlogVarString runtime col data).2 ++ rest) =
      (convertBinlogVarString runtime col data).1 ↔ col.byteLength ≠ 1024 := by
  obtain ⟨hchar, henum, hset⟩ := charLength_string htype hlow hhigh
  have hstring : (replicaColumn col).type = .string := by
    rw [replicaColumn, columnType, htype]
  rw [valueWidth, hstring]
  rw [hchar, if_neg (not_or_intro henum hset), varString_width_iff hlow (by omega) (by omega) hfits]
  omega

theorem valueWidth_varchar_iff (htype : col.type = .varString ∨ col.type = .varchar)
    (hhigh : col.byteLength < 2 ^ 20) :
    (replicaColumn col).valueWidth ((convertBinlogVarString runtime col data).2 ++ rest) =
        (convertBinlogVarString runtime col data).1 ↔
      (255 < col.byteLength → 255 < col.byteLength % 2 ^ 16) ∧ data.length < 2 ^ 16 := by
  have hvarchar : (replicaColumn col).type = .varchar := by
    rcases htype with htype | htype <;> rw [replicaColumn, columnType, htype]
  have hmetadata : loadLE (replicaColumn col).metadata = (col.byteLength % 2 ^ 16).toNat :=
    loadLE_varchar htype
  rw [valueWidth, hvarchar]
  rw [hmetadata, varString_width_iff hlow hhigh (by omega) hfits]
  omega

end Strings

section Declared

variable (hdeclared : Declared col)
  (hbytes : getColumnValBytes runtime col data isJsonDiff = some pushed)

include hdeclared hbytes

/-- Whatever the type, the replica derives the width of the bytes that were pushed unless
it misjudges the length in front of a string. -/
theorem valueWidth_iff (hfits : Fits runtime col data isJsonDiff) (rest : Bytes) :
    (replicaColumn col).valueWidth (pushed.2 ++ rest) = pushed.1 ↔ Readable col data := by
  cases htype : col.type
  case string =>
    simp only [Declared, Fits, Readable, getColumnValBytes, htype] at hdeclared hfits hbytes ⊢
    cases hbytes
    exact valueWidth_string_iff hdeclared.1 hfits rest htype hdeclared.2
  case varString =>
    simp only [Declared, Fits, Readable, getColumnValBytes, htype] at hdeclared hfits hbytes ⊢
    cases hbytes
    exact valueWidth_varchar_iff hdeclared.1 hfits rest (.inl htype) hdeclared.2
  case varchar =>
    simp only [Declared, Fits, Readable, getColumnValBytes, htype] at hdeclared hfits hbytes ⊢
    cases hbytes
    exact valueWidth_varchar_iff hdeclared.1 hfits rest (.inr htype) hdeclared.2
  all_goals
    refine iff_of_true (valueWidth_eq hdeclared hfits hbytes ?_ ?_ ?_ rest) ?_ <;>
      simp [Readable, htype]

/-- The conversions of declared columns return the number of bytes they pushed. -/
theorem real_of_declared : pushed.Real := by
  refine getColumnValBytes_real ?_ ?_ hbytes
  all_goals
    intro htype
    rw [Declared, htype] at hdeclared
    exact hdeclared

end Declared

end Widths

variable {bitmap : Bytes} {index : ℕ}

theorem bitOf_setBit (hindex : index / 8 < bitmap.length) (other : ℕ) :
    bitOf (setBit bitmap index) other = (bitOf bitmap other || decide (other = index)) := by
  rw [bitOf, bitOf, setBit, getD_eq_getElem?_getD, getD_eq_getElem?_getD, getElem?_modify]
  by_cases hbyte : index / 8 = other / 8
  · have hbit : (1 <<< (index % 8)) % 256 = 2 ^ (index % 8) := by
      rw [Nat.one_shiftLeft]
      exact Nat.mod_eq_of_lt ((Nat.pow_lt_pow_right (by decide) (Nat.mod_lt _ (by decide))).trans_eq
        (by norm_num : 2 ^ 8 = 256))
    rw [getElem?_eq_getElem (hbyte ▸ hindex)]
    simp only [if_pos hbyte, Option.map_eq_map, Option.map_some, Option.getD_some, UInt8.toNat_or,
      UInt8.toNat_ofNat', Nat.testBit_or, hbit, Nat.testBit_two_pow]
    congr 1
    rw [decide_eq_decide]
    omega
  · have hne : other ≠ index := by
      rintro rfl
      exact hbyte rfl
    simp [if_neg hbyte, decide_eq_false hne]

/-- Before any value is converted no column is marked. -/
theorem bitOf_fillBitmap {colCount : ℕ} (hindex : index < colCount) :
    bitOf (fillBitmap colCount (fixedLen colCount)) index = false := by
  rw [bitOf, fillBitmap, getD_eq_getElem?_getD]
  by_cases hbyte : index / 8 < colCount / 8
  · rw [getElem?_append_left (by rwa [length_replicate]), getElem?_replicate_of_lt hbyte]
    exact Nat.zero_testBit _
  · have hlast : colCount / 8 + 1 = fixedLen colCount := by
      rw [fixedLen]
      omega
    have hsame : index / 8 = colCount / 8 := by omega
    rw [if_pos hlast, hsame, getElem?_append_right (by rw [length_replicate]),
      length_replicate, Nat.sub_self]
    have htable : ∀ used < 8, ∀ bit < used,
        (UInt8.ofNat (0xFF <<< used)).toNat.testBit bit = false := by
      decide
    exact htable _ (Nat.mod_lt _ (by decide)) _ (by omega)

/-- The marks of the values that are NULL, from the column `index` on. -/
def markNulls : ℕ → List (Option Bytes) → Bytes → Bytes
  | _, [], bitmap => bitmap
  | index, none :: pieces, bitmap => markNulls (index + 1) pieces (setBit bitmap index)
  | index, some _ :: pieces, bitmap => markNulls (index + 1) pieces bitmap

/-- The bitmap marks exactly the values that are NULL, from the column `index` on. -/
def Marked (bitmap : Bytes) : ℕ → List (Option Bytes) → Prop
  | _, [] => True
  | index, piece :: pieces => bitOf bitmap index = piece.isNone ∧ Marked bitmap (index + 1) pieces

section MarkNulls

variable {pieces : List (Option Bytes)} (hbitmap : index + pieces.length ≤ 8 * bitmap.length)

include hbitmap

theorem bitOf_markNulls_of_lt {other : ℕ} (hother : other < index) :
    bitOf (markNulls index pieces bitmap) other = bitOf bitmap other := by
  induction pieces generalizing index bitmap with
  | nil => rfl
  | cons piece pieces ih =>
    rw [length_cons] at hbitmap
    cases piece with
    | none =>
      rw [markNulls, ih (by rw [length_setBit]; omega) (by omega), bitOf_setBit (by omega),
        decide_eq_false (by omega), Bool.or_false]
    | some piece => rw [markNulls, ih (by omega) (by omega)]

theorem marked_markNulls
    (hclear : ∀ other, index ≤ other → other < index + pieces.length → bitOf bitmap other = false) :
    Marked (markNulls index pieces bitmap) index pieces := by
  induction pieces generalizing index bitmap with
  | nil => trivial
  | cons piece pieces ih =>
    rw [length_cons] at hbitmap hclear
    cases piece with
    | none =>
      have hsize : index + 1 + pieces.length ≤ 8 * (setBit bitmap index).length := by
        rw [length_setBit]
        omega
      refine ⟨?_, ih hsize ?_⟩
      · rw [markNulls, bitOf_markNulls_of_lt hsize (Nat.lt_succ_self index),
          bitOf_setBit (by omega), decide_eq_true rfl, Bool.or_true]
        rfl
      · intro other hlow hhigh
        rw [bitOf_setBit (by omega), hclear other (by omega) (by omega),
          decide_eq_false (by omega), Bool.or_false]
    | some piece =>
      refine ⟨?_, ih (by omega) fun other hlow hhigh => hclear other (by omega) (by omega)⟩
      rw [markNulls, bitOf_markNulls_of_lt (by omega) (Nat.lt_succ_self index),
        hclear index le_rfl (by omega)]
      rfl

end MarkNulls

section Rows

variable {runtime : Runtime} {isUpdate : Bool} {cols : List ColMeta} {values : List RowValue}
  {pieces : List (Option Bytes)}

def rowPieces (runtime : Runtime) (isUpdate : Bool) :
    List ColMeta → List RowValue → Option (List (Option Bytes))
  | [], _ => some []
  | _ :: _, [] => none
  | col :: cols, value :: values =>
    match value.data with
    | none => (rowPieces runtime isUpdate cols values).map (none :: ·)
    | some data =>
      (getColumnValBytes runtime col data (isUpdate && value.isJsonDiff)).bind fun pushed =>
        (rowPieces runtime isUpdate cols values).map (some pushed.2 :: ·)

theorem rowPieces_null {value : RowValue} (hdata : value.data = none) :
    rowPieces runtime isUpdate (col :: cols) (value :: values) =
      (rowPieces runtime isUpdate cols values).map (none :: ·) := by
  rw [rowPieces, hdata]

theorem rowPieces_some {value : RowValue} {data : Text} (hdata : value.data = some data) :
    rowPieces runtime isUpdate (col :: cols) (value :: values) =
      (getColumnValBytes runtime col data (isUpdate && value.isJsonDiff)).bind fun pushed =>
        (rowPieces runtime isUpdate cols values).map (some pushed.2 :: ·) := by
  rw [rowPieces, hdata]

theorem length_rowPieces (hpieces : rowPieces runtime isUpdate cols values = some pieces) :
    pieces.length = cols.length := by
  induction cols generalizing values pieces with
  | nil =>
    cases hpieces
    rfl
  | cons col cols ih =>
    cases values with
    | nil => cases hpieces
    | cons value values =>
      cases hdata : value.data with
      | none =>
        rw [rowPieces_null hdata] at hpieces
        obtain ⟨others, hothers, rfl⟩ := Option.map_eq_some_iff.mp hpieces
        rw [length_cons, length_cons, ih hothers]
      | some data =>
        rw [rowPieces_some hdata] at hpieces
        obtain ⟨pushed, -, hrest⟩ := Option.bind_eq_some_iff.mp hpieces
        obtain ⟨others, hothers, rfl⟩ := Option.map_eq_some_iff.mp hrest
        rw [length_cons, length_cons, ih hothers]

/-- The row holds the pieces one behind the other, and the bitmap marks the others. -/
structure RowOf (pieces : List (Option Bytes)) (index : ℕ) (image final : RowImage) : Prop where
  row : final.row = image.row ++ pieces.reduceOption.flatten
  bitmap : final.bitmap = markNulls index pieces image.bitmap

theorem serializeAfter_pieces {image final : AfterImage}
    (hserialize : serializeAfter runtime isUpdate index cols values image = some final) :
    ∃ pieces, rowPieces runtime isUpdate cols values = some pieces ∧
      RowOf pieces index image.toRowImage final.toRowImage := by
  induction cols generalizing index values image with
  | nil =>
    cases hserialize
    exact ⟨[], rfl, by simp, rfl⟩
  | cons col cols ih =>
    cases values with
    | nil => cases hserialize
    | cons value values =>
      obtain ⟨converted, hconverted, hrest⟩ := Option.bind_eq_some_iff.mp hserialize
      obtain ⟨pieces, hpieces, hrow, hbitmap⟩ := ih hrest
      rw [AfterImage.toRowImage_passed] at hrow hbitmap
      cases hdata : value.data with
      | none =>
        rw [hdata] at hconverted
        cases hconverted
        exact ⟨none :: pieces, by rw [rowPieces_null hdata, hpieces]; rfl, hrow, hbitmap⟩
      | some data =>
        rw [hdata] at hconverted
        obtain ⟨pushed, hbytes, rfl⟩ := Option.map_eq_some_iff.mp hconverted
        rw [Option.isSome_some, Bool.and_true] at hbytes
        refine ⟨some pushed.2 :: pieces, ?_, ?_, hbitmap⟩
        · rw [rowPieces_some hdata, hbytes, hpieces]
          rfl
        · rw [hrow, RowImage.push, append_assoc]
          rfl

theorem serializeBefore_pieces {image final : RowImage}
    (hserialize : serializeBefore runtime index cols values image = some final) :
    ∃ pieces, rowPieces runtime false cols values = some pieces ∧
      RowOf pieces index image final := by
  obtain ⟨after, hafter, rfl⟩ := exists_serializeAfter hserialize
  exact serializeAfter_pieces hafter

/-- Of the row from the column `index` on, a replica finds exactly the pieces if and only
if it can read every one of them. -/
theorem readRow_iff (hdeclared : ∀ col ∈ cols, Declared col)
    (hfits : ∀ entry ∈ cols.zip values, ∀ data, entry.2.data = some data →
      Fits runtime entry.1 data (isUpdate && entry.2.isJsonDiff))
    (hpieces : rowPieces runtime isUpdate cols values = some pieces)
    (hmarked : Marked bitmap index pieces) (rest : Bytes) :
    readRow bitmap index (cols.map replicaColumn)
        (pieces.reduceOption.flatten ++ rest) = some (pieces, rest) ↔
      ∀ entry ∈ cols.zip values, ∀ data, entry.2.data = some data → Readable entry.1 data := by
  induction cols generalizing values pieces index with
  | nil =>
    cases hpieces
    simp [readRow]
  | cons col cols ih =>
    cases values with
    | nil => cases hpieces
    | cons value values =>
      rw [forall_mem_cons] at hdeclared
      rw [zip_cons_cons, forall_mem_cons] at hfits ⊢
      rw [map_cons, readRow]
      cases hdata : value.data with
      | none =>
        rw [rowPieces_null hdata] at hpieces
        obtain ⟨others, hothers, rfl⟩ := Option.map_eq_some_iff.mp hpieces
        have hbit : bitOf bitmap index = true := hmarked.1
        rw [if_pos hbit, ← ih hdeclared.2 hfits.2 hothers hmarked.2]
        simp
      | some data =>
        rw [rowPieces_some hdata] at hpieces
        obtain ⟨pushed, hbytes, hrest⟩ := Option.bind_eq_some_iff.mp hpieces
        obtain ⟨others, hothers, rfl⟩ := Option.map_eq_some_iff.mp hrest
        have hbit : bitOf bitmap index ≠ true := by
          rw [hmarked.1]
          exact Bool.false_ne_true
        have hreal : pushed.2.length = pushed.1 := real_of_declared hdeclared.1 hbytes
        have hwidth := valueWidth_iff hdeclared.1 hbytes (hfits.1 data hdata)
          (others.reduceOption.flatten ++ rest)
        rw [hreal.symm] at hwidth
        rw [if_neg hbit, ← ih hdeclared.2 hfits.2 hothers hmarked.2,
          reduceOption_cons_of_some, flatten_cons, append_assoc]
        dsimp only
        constructor
        · intro hread
          obtain ⟨hlong, hsome⟩ := Option.ite_none_left_eq_some.mp hread
          obtain ⟨⟨found, behind⟩, hfound, heq⟩ := Option.map_eq_some_iff.mp hsome
          simp only [Prod.mk.injEq, cons.injEq, Option.some.injEq] at heq
          obtain ⟨⟨htake, rfl⟩, rfl⟩ := heq
          have hlength := congrArg length htake
          rw [length_take, min_eq_left (not_lt.mp hlong)] at hlength
          rw [hlength, drop_left] at hfound
          refine ⟨?_, hfound⟩
          rintro _ ⟨⟩
          exact hwidth.mp hlength
        · rintro ⟨hreadable, hread⟩
          rw [hwidth.mpr (hreadable data rfl), take_left, drop_left, hread, if_neg (by simp)]
          rfl

def RowFits (runtime : Runtime) (isUpdate : Bool) (cols : List ColMeta)
    (values : List RowValue) : Prop :=
  ∀ entry ∈ cols.zip values, ∀ data, entry.2.data = some data →
    Fits runtime entry.1 data (isUpdate && entry.2.isJsonDiff)

def RowReadable (cols : List ColMeta) (values : List RowValue) : Prop :=
  ∀ entry ∈ cols.zip values, ∀ data, entry.2.data = some data → Readable entry.1 data

/-- With the table map of the record, a replica takes the row image apart into exactly the
bytes that the values were converted to, whatever stands behind it. -/
def Converter.ReadsImage (converter : Converter) (record : LogRecord) (isUpdate : Bool)
    (values : List RowValue) (image : RowImage) : Prop :=
  ∃ pieces, rowPieces converter.runtime isUpdate record.tableMeta.cols values = some pieces ∧
    ∀ behind, (converter.tableMapEvent record).readRow image behind = some (pieces, behind)

section Images

variable (converter : Converter) {record : LogRecord}
  (hdeclared : ∀ col ∈ record.tableMeta.cols, Declared col)

include hdeclared

theorem readRow_tableMapEvent (image : RowImage) (behind : Bytes) :
    (converter.tableMapEvent record).readRow image behind =
      readRow image.bitmap 0 (record.tableMeta.cols.map replicaColumn)
        (image.row ++ behind) := by
  rw [TableMapEvent.readRow]
  dsimp only [tableMapEvent]
  rw [take_left, ofTableMap_cols hdeclared]

theorem readsImage_iff {image : RowImage}
    (hfits : RowFits converter.runtime isUpdate record.tableMeta.cols values)
    (hpieces : rowPieces converter.runtime isUpdate record.tableMeta.cols values = some pieces)
    (himage : RowOf pieces 0 (emptyImage record.tableMeta.cols) image) :
    converter.ReadsImage record isUpdate values image ↔
      RowReadable record.tableMeta.cols values := by
  have hlength := length_rowPieces hpieces
  have hmarked : Marked image.bitmap 0 pieces := by
    rw [himage.bitmap]
    refine marked_markNulls ?_ ?_
    · rw [emptyImage, length_fillBitmap, fixedLen]
      omega
    · intro other hlow hhigh
      exact bitOf_fillBitmap (by omega)
  have hread (behind : Bytes) : (converter.tableMapEvent record).readRow image behind =
      some (pieces, behind) ↔ RowReadable record.tableMeta.cols values := by
    rw [readRow_tableMapEvent converter hdeclared, himage.row, emptyImage, nil_append]
    exact readRow_iff hdeclared hfits hpieces hmarked behind
  constructor
  · rintro ⟨found, hfound, hreads⟩
    obtain rfl : pieces = found := Option.some.inj (hpieces.symm.trans hfound)
    exact (hread []).mp (hreads [])
  · intro hreadable
    exact ⟨pieces, hpieces, fun behind => (hread behind).mpr hreadable⟩

end Images

end Rows

/-- Both images of every change are read with the table map if and only if no CHAR takes
exactly 1024 bytes, no VARCHAR is declared with a length that looks short in sixteen bits,
and no VARCHAR value is longer than these count. -/
theorem tableMap_reads_rows_iff (converter : Converter) (record : LogRecord)
    (rowsEventType : RowsEventType) (bytes : ColValBytes)
    (hdeclared : ∀ col ∈ record.tableMeta.cols, Declared col)
    (hold : RowFits converter.runtime false record.tableMeta.cols record.oldCols)
    (hnew : RowFits converter.runtime (rowsEventType = .update) record.tableMeta.cols
      record.newCols)
    (hbytes : converter.rowBytes record rowsEventType = some bytes) :
    ((rowsEventType ≠ .insert →
          converter.ReadsImage record false record.oldCols bytes.before) ∧
        (rowsEventType ≠ .delete →
          converter.ReadsImage record (rowsEventType = .update) record.newCols bytes.after)) ↔
      (rowsEventType ≠ .insert → RowReadable record.tableMeta.cols record.oldCols) ∧
        (rowsEventType ≠ .delete → RowReadable record.tableMeta.cols record.newCols) := by
  obtain ⟨before, hbefore, hrest⟩ := Option.bind_eq_some_iff.mp hbytes
  obtain ⟨after, hafter, rfl⟩ := Option.map_eq_some_iff.mp hrest
  refine and_congr (imp_congr_right fun hinsert => ?_) (imp_congr_right fun hdelete => ?_)
  · rw [beforeImage, if_neg hinsert] at hbefore
    obtain ⟨pieces, hpieces, himage⟩ := serializeBefore_pieces hbefore
    exact readsImage_iff converter hdeclared hold hpieces himage
  · rw [afterImage, if_neg hdelete] at hafter
    obtain ⟨pieces, hpieces, himage⟩ := serializeAfter_pieces hafter
    exact readsImage_iff converter hdeclared hnew hpieces himage

def stringRecord (col : ColMeta) (data : Text) : LogRecord where
  recordType := .insert
  tableMeta := ⟨['t'], [col, { type := .tiny }]⟩
  newCols := [⟨some data, false⟩, ⟨some ['5'], false⟩]

theorem declared_stringRecord (hdeclared : Declared col) (data : Text) :
    ∀ other ∈ (stringRecord col data).tableMeta.cols, Declared other := by
  simp only [stringRecord, forall_mem_cons, hdeclared, true_and]
  exact ⟨trivial, by simp⟩

theorem rowFits_stringRecord {runtime : Runtime} {data : Text}
    (hfits : Fits runtime col data false) :
    RowFits runtime false (stringRecord col data).tableMeta.cols (stringRecord col data).newCols := by
  simp only [RowFits, stringRecord, zip_cons_cons, zip_nil_left, forall_mem_cons]
  refine ⟨?_, ?_, by simp⟩
  · rintro _ ⟨⟩
    exact hfits
  · rintro _ ⟨⟩
    trivial

def shortVarchar : ColMeta where
  type := .varchar
  length := 100

theorem declared_shortVarchar : Declared shortVarchar := by
  change 0 ≤ shortVarchar.byteLength ∧ shortVarchar.byteLength < 2 ^ 20
  decide +kernel

theorem tableMap_reads_rows_iff_shortVarchar :
    ∃ bytes, sampleConverter.rowBytes (stringRecord shortVarchar ['a']) .insert = some bytes ∧
      sampleConverter.ReadsImage (stringRecord shortVarchar ['a']) false
        (stringRecord shortVarchar ['a']).newCols bytes.after := by
  have hsome : (sampleConverter.rowBytes (stringRecord shortVarchar ['a']) .insert).isSome := by
    decide +kernel
  obtain ⟨bytes, hbytes⟩ := Option.isSome_iff_exists.mp hsome
  have hfits : Fits sampleConverter.runtime shortVarchar ['a'] false := by
    change ((['a'] : Text).length : ℤ) ≤ shortVarchar.byteLength
    decide +kernel
  have hiff := tableMap_reads_rows_iff sampleConverter (stringRecord shortVarchar ['a']) .insert
    bytes (declared_stringRecord declared_shortVarchar _) (by simp [RowFits, stringRecord])
    (rowFits_stringRecord hfits) hbytes
  refine ⟨bytes, hbytes, (hiff.mpr ⟨fun hinsert => absurd rfl hinsert, fun _ => ?_⟩).2 (by decide)⟩
  simp only [RowReadable, stringRecord, zip_cons_cons, zip_nil_left, forall_mem_cons]
  refine ⟨?_, ?_, by simp⟩
  · rintro _ ⟨⟩
    change (255 < shortVarchar.byteLength → 255 < shortVarchar.byteLength % 2 ^ 16) ∧
      (['a'] : Text).length < 2 ^ 16
    decide +kernel
  · rintro _ ⟨⟩
    trivial

def wideChar : ColMeta where
  type := .string
  length := 256

def wideVarchar : ColMeta where
  type := .varchar
  length := 16409

def convertedAndRead (record : LogRecord) :
    Option (List (Option Bytes)) × Option (List (Option Bytes) × Bytes) :=
  (rowPieces sampleConverter.runtime false record.tableMeta.cols record.newCols,
    (sampleConverter.rowBytes record .insert).bind fun bytes =>
      (sampleConverter.tableMapEvent record).readRow bytes.after [])

/-- Both columns may be declared and the values fit, but the length of two bytes is read
as one of one byte, and every later value from the wrong place. -/
theorem wide_strings_misread :
    (Declared wideChar ∧ Fits sampleConverter.runtime wideChar ['a'] false ∧
      convertedAndRead (stringRecord wideChar ['a']) =
        (some [some [1, 0, 97], some [5]], some ([some [1, 0], some [97]], [5]))) ∧
    (Declared wideVarchar ∧ Fits sampleConverter.runtime wideVarchar ['a'] false ∧
      convertedAndRead (stringRecord wideVarchar ['a']) =
        (some [some [1, 0, 97], some [5]], some ([some [1, 0], some [97]], [5]))) := by
  refine ⟨⟨?_, ?_, by decide +kernel⟩, ⟨?_, ?_, by decide +kernel⟩⟩
  · change 0 ≤ wideChar.byteLength ∧ wideChar.byteLength ≤ 1024
    decide +kernel
  · change ((['a'] : Text).length : ℤ) ≤ wideChar.byteLength
    decide +kernel
  · change 0 ≤ wideVarchar.byteLength ∧ wideVarchar.byteLength < 2 ^ 20
    decide +kernel
  · change ((['a'] : Text).length : ℤ) ≤ wideVarchar.byteLength
    decide +kernel

end OblogProxy.Convert
