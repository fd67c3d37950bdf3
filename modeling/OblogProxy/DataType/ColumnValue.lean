import OblogProxy.DataType.Decimal
import OblogProxy.DataType.JsonParser
import OblogProxy.Protocol.LengthEncoded

/-!
# Column values

`set_column_metadata` describes a column in a table map, and `get_column_val_bytes`
converts the text of a value.  The number that a conversion returns is added to the
length of the event, so it has to be the number of bytes that were pushed.
-/

namespace OblogProxy.DataType

open Bytes Gtid Event JsonParser Protocol Option List

/-- What a fresh allocation holds. -/
structure Heap where
  malloc : ℕ → Bytes
  length_malloc : ∀ size, (malloc size).length = size

/-- What a conversion returns, and the bytes it pushes to `data_decode`. -/
abbrev Pushed : Type := ℕ × Bytes

/-- The number that is returned is the number of bytes that are pushed. -/
def Pushed.Real (pushed : Pushed) : Prop :=
  pushed.2.length = pushed.1

/-- A buffer of the size, written from its start; it is pushed whole. -/
def Heap.push (heap : Heap) (size : ℕ) (value : Bytes) : Pushed :=
  (size, (value ++ (heap.malloc size).drop value.length).take size)

theorem Heap.real_push (heap : Heap) (size : ℕ) (value : Bytes) :
    Pushed.Real (heap.push size value) := by
  rw [Pushed.Real, push, length_take, length_append, length_drop, heap.length_malloc]
  omega

structure IDate where
  year : ℤ := 0
  month : ℤ := 0
  day : ℤ := 0
  hour : ℤ := 0
  minute : ℤ := 0
  second : ℤ := 0
  millSecond : ℤ := 0
  precision : ℤ := 0
  sign : ℤ := 0
  prefixZeroNum : ℤ := 0
deriving DecidableEq

structure IUnixTime where
  sec : ℕ := 0
  us : ℕ := 0
  precision : ℤ := 0
  prefixZeroNum : ℤ := 0
deriving DecidableEq

def getNumberLen (number : ℕ) : ℕ :=
  (Nat.toDigits 10 number).length

def cutoutOrPadZero (number : ℕ) (targetLength : ℤ) : ℕ :=
  let length : ℤ := getNumberLen number
  if length ≤ targetLength then number * 10 ^ (targetLength - length).toNat % 2 ^ 64
  else number / 10 ^ (length - targetLength).toNat

/-- `none` is an exception: there are not three parts. -/
def str2Yyyymmdd (str : Text) (date : IDate) : Option IDate := do
  let dates := split str '-'
  let year ← dates[0]?
  let month ← dates[1]?
  let day ← dates[2]?
  return { date with year := atoi year, month := atoi month, day := atoi day }

def str2Hhmmss (str : Text) (date : IDate) : Option IDate :=
  if str = [] then some date
  else do
    let dates := split str '.'
    let part ← dates[0]?
    let parts := split part ':'
    let hour ← parts[0]?
    let minute ← parts[1]?
    let second ← parts[2]?
    let date := { date with hour := atoi hour, minute := atoi minute, second := atoi second }
    match dates with
    | [_, fraction] =>
      let millSecond := atoi fraction
      let precision : ℤ := fraction.length
      return { date with
        millSecond
        precision
        prefixZeroNum := precision - getNumberLen (toUint64 millSecond) }
    | _ => return date

def str2Idate (str : Text) : Option IDate :=
  match str with
  | [] => some {}
  | char :: rest =>
    let sign : ℤ := if char = '-' then -1 else 0
    let str := if char = '-' then rest else str
    let date : IDate := { sign }
    match split str ' ' with
    | [yyyymmdd, hhmmss] => (str2Yyyymmdd yyyymmdd date).bind (str2Hhmmss hhmmss)
    | _ =>
      if '-' ∈ str then str2Yyyymmdd str date
      else if ':' ∈ str then str2Hhmmss str date
      else some date

def str2UnixTime (str : Text) : Option IUnixTime :=
  if str = [] then some {}
  else do
    let dates := split str '.'
    let sec := toUint64 (atoll (← dates[0]?))
    match dates with
    | [_, fraction] =>
      let us := toUint64 (atoll fraction)
      let precision : ℤ := fraction.length
      return { sec, us, precision, prefixZeroNum := precision - getNumberLen us }
    | _ => return { sec }

/-- The bytes that the digits behind the decimal point need; more than eight digits
are not expected. -/
def remainderBytes (remainder : ℤ) : ℤ :=
  if remainder = 0 then 0
  else if remainder = 1 ∨ remainder = 2 then 1
  else if remainder = 3 ∨ remainder = 4 then 2
  else if remainder = 5 ∨ remainder = 6 then 3
  else if remainder = 7 ∨ remainder = 8 then 4
  else -1

/-- The digits behind the decimal point, of which a column of the scale keeps some;
`store` writes the number that is kept. -/
def storeFraction (scale : ℤ) (store : (width : ℕ) → ℤ → Bytes) : Bytes :=
  if scale = 1 ∨ scale = 2 then store 1 2
  else if scale = 3 ∨ scale = 4 then store 2 4
  else if scale = 5 ∨ scale = 6 then store 3 6
  else []

/-- The text that stands for a timestamp of zero. -/
def zeroTimestamp : Text :=
  ['-', '9', '2', '2', '3', '3', '7', '2', '0', '2', '2', '4', '0', '0', '.', '0', '0', '0', '0',
    '0', '0']

/-- The text is compared as far as it goes. -/
def isZeroDate (str : Text) : Bool :=
  str.isPrefixOf zeroTimestamp

section Convert

variable (heap : Heap) (scale : ℤ) (data : Text)

def convertBinlogTimestamp : Option Pushed := do
  let unixTime ← str2UnixTime data
  let sec := if isZeroDate data then 0 else unixTime.sec
  let fraction := storeFraction scale fun width digits =>
    storeBE width (cutoutOrPadZero unixTime.us (digits - unixTime.prefixZeroNum))
  return heap.push (4 + remainderBytes scale).toNat (storeBE 4 sec ++ fraction)

def convertBinlogTime : Option Pushed := do
  let date ← str2Idate (cStr data)
  let days : ℤ := if 0 < date.month then 0 else date.day * 24
  let magnitude : BitVec 64 := BitVec.ofInt 64 (days + date.hour) <<< 12 |||
    BitVec.ofInt 64 date.minute <<< 6 ||| BitVec.ofInt 64 date.second
  let time :=
    if date.sign < 0 then
      if date.millSecond = 0 then -magnitude else -(magnitude + 1)
    else magnitude
  let sign : BitVec 64 := if date.sign < 0 then -1 else 1
  let fraction := storeFraction scale fun width digits =>
    storeBE width (sign * BitVec.ofNat 64
      (cutoutOrPadZero (toUint64 date.millSecond) (digits - date.prefixZeroNum))).toNat
  return heap.push (3 + remainderBytes scale).toNat
    (storeBE 3 (0x800000 + time).toNat ++ fraction)

def convertBinlogDatetime : Option Pushed := do
  let date ← str2Idate data
  let time : BitVec 64 := BitVec.ofInt 64 date.sign
  let time := (time <<< 17 ||| BitVec.ofInt 64 (date.year * 13 + date.month)) <<< 5
  let time := (time ||| BitVec.ofInt 64 date.day) <<< 5
  let time := (time ||| BitVec.ofInt 64 date.hour) <<< 6
  let time := (time ||| BitVec.ofInt 64 date.minute) <<< 6
  let time := time ||| BitVec.ofInt 64 date.second
  let millSecond := if scale.tmod 2 ≠ 0 then date.millSecond * 10 else date.millSecond
  let fraction := storeFraction scale fun width digits =>
    storeBE width (cutoutOrPadZero (toUint64 millSecond) (digits - date.prefixZeroNum))
  return heap.push (5 + remainderBytes scale).toNat
    (storeBE 5 (time + 0x8000000000).toNat ++ fraction)

def yearGap (realYear : ℤ) : ℤ :=
  realYear - 1900

def convertBinlogYear : Pushed :=
  let realYear := atoi data
  heap.push 1 (storeLE 1 (if realYear = 0 then 0 else toUint64 (yearGap realYear)))

def convertBinlogDate : Option Pushed := do
  let date ← str2Idate data
  return heap.push 3 (storeLE 3 (toUint64 (date.day + date.month * 32 + date.year * 16 * 32)))

end Convert

inductive ColType where
  | decimal
  | tiny
  | short
  | long
  | float
  | double
  | null
  | timestamp
  | longlong
  | int24
  | date
  | time
  | datetime
  | year
  | newdate
  | varchar
  | bit
  | timestamp2
  | datetime2
  | time2
  | json
  | newdecimal
  | enum
  | set
  | tinyBlob
  | mediumBlob
  | longBlob
  | blob
  | varString
  | string
  | geometry
  | other (code : ℕ)
deriving DecidableEq

def ColType.code : ColType → ℕ
  | decimal => 0
  | tiny => 1
  | short => 2
  | long => 3
  | float => 4
  | double => 5
  | null => 6
  | timestamp => 7
  | longlong => 8
  | int24 => 9
  | date => 10
  | time => 11
  | datetime => 12
  | year => 13
  | newdate => 14
  | varchar => 15
  | bit => 16
  | timestamp2 => 17
  | datetime2 => 18
  | time2 => 19
  | json => 245
  | newdecimal => 246
  | enum => 247
  | set => 248
  | tinyBlob => 249
  | mediumBlob => 250
  | longBlob => 251
  | blob => 252
  | varString => 253
  | string => 254
  | geometry => 255
  | other code => code

structure ColMeta where
  type : ColType
  length : ℤ := 0
  precision : ℤ := 0
  scale : ℤ := 0
  encoding : Text := []
  valuesOfEnumSet : List Text := []
  isNotNull : Bool := false

def oneByteCharsets : List String :=
  ["dec8", "cp850", "hp8", "koi8r", "latin1", "latin2", "swe7", "ascii", "hebrew", "tis620",
    "koi8u", "greek", "cp1250", "latin5", "armscii8", "cp866", "keybcs2", "macce", "macroman",
    "cp852", "latin7", "cp1251", "cp1256", "cp1257", "binary", "geostd8"]

def twoByteCharsets : List String :=
  ["big5", "sjis", "euckr", "gb2312", "gbk", "ucs2", "cp932"]

def threeByteCharsets : List String :=
  ["ujis", "utf8", "eucjpms"]

/-- The bytes a character needs at most; four for the others. -/
def charsetEncodingBytes (charset : Text) : ℕ :=
  let isOneOf (names : List String) : Bool := names.any fun name => name.toList == charset
  if isOneOf oneByteCharsets then 1
  else if isOneOf twoByteCharsets then 2
  else if isOneOf threeByteCharsets then 3
  else 4

def fixedLen (len : ℕ) : ℕ :=
  (len + 7) / 8

namespace ColMeta

variable (col : ColMeta)

def byteLength : ℤ :=
  col.length * charsetEncodingBytes col.encoding

/-- `set_column_metadata`: the bytes it writes, as many as it returns. -/
def setColumnMetadata : Bytes :=
  match col.type with
  | .bit =>
    storeInt 1 (col.precision.tmod 8) ++ storeInt 1 (col.precision.tdiv 8)
  | .float => storeLE 1 (if 24 < col.precision then 8 else 4)
  | .double => storeLE 1 8
  | .string =>
    let high := (BitVec.ofInt 64 col.byteLength &&& 0x300) >>> 4
    storeLE 1 (BitVec.ofNat 64 col.type.code ^^^ high).toNat ++
      storeInt 1 col.byteLength
  | .varString | .varchar => storeInt 2 col.byteLength
  | .decimal | .newdecimal =>
    storeInt 1 col.precision ++ storeInt 1 col.scale
  | .enum => storeLE 1 col.type.code ++ storeLE 1 (if 255 < col.valuesOfEnumSet.length then 2 else 1)
  | .set => storeLE 1 col.type.code ++ storeLE 1 (fixedLen col.valuesOfEnumSet.length)
  | .tinyBlob => storeLE 1 1
  | .mediumBlob => storeLE 1 3
  | .json | .longBlob | .geometry => storeLE 1 4
  | .blob => storeLE 1 2
  | .timestamp | .datetime | .time => storeInt 1 col.scale
  | _ => []

theorem length_setColumnMetadata_le : col.setColumnMetadata.length ≤ 2 := by
  rw [setColumnMetadata]
  split <;> simp [storeInt]

end ColMeta

/-- What the conversions take from libraries: allocations, the reading of a
floating-point number as its 64-bit word and its rounding to single precision, the
parsing of JSON, and the binary form of the geometry in a text. -/
structure Runtime extends Heap where
  stod : Text → Option UInt64
  toFloat : UInt64 → UInt32
  parseJson : Text → Option JsonValue
  createFromWkt : Text → Option Bytes

/-- `std::stoull`; `none` is an exception.  A minus sign negates the number. -/
def stoull (text : Text) : Option ℕ :=
  let (negative, digits) : Bool × Text :=
    match text.dropWhile isSpace with
    | '-' :: digits => (true, digits)
    | '+' :: digits => (false, digits)
    | digits => (false, digits)
  if (digits.takeWhile Char.isDigit).isEmpty ∨ 2 ^ 64 ≤ decimal digits then none
  else some (if negative then toUint64 (-decimal digits) else decimal digits)

section Integers

variable (heap : Heap) (data : Text)

/-- The integer conversions: the low bytes of the number. -/
def convertInteger (len : ℕ) : Option Pushed :=
  (stoull data).map fun num => heap.push len (storeLE len num)

def convertBinlogTiny : Option Pushed := convertInteger heap data 1

def convertBinlogShort : Option Pushed := convertInteger heap data 2

def convertBinlogInt24 : Option Pushed := convertInteger heap data 3

def convertBinlogLong : Option Pushed := convertInteger heap data 4

def convertBinlogLonglong : Option Pushed := convertInteger heap data 8

/-- The blob conversions: the length, then the data. -/
def convertSized (width : ℕ) : Pushed :=
  heap.push (data.length + width) (storeLE width data.length ++ textBytes data)

def convertBinlogTinyBlob : Pushed := convertSized heap data 1

def convertBinlogBlob : Pushed := convertSized heap data 2

def convertBinlogMediumBlob : Pushed := convertSized heap data 3

def convertBinlogLongBlob : Pushed := convertSized heap data 4

end Integers

section Convert

variable (runtime : Runtime) (col : ColMeta) (data : Text)

/-- More than 64 bits are an exception. -/
def convertBinlogBit : Option Pushed :=
  let colLen := if col.precision = 0 then data.length else toUint64 col.precision
  let len := (colLen + 7) / 8
  (stoull data).bind fun num =>
    if 8 < len then none else some (runtime.push len (storeBE len num))

def convertBinlogFloat : Option Pushed :=
  (runtime.stod (cStr data)).map fun value =>
    if 24 < col.precision then (8, storeLE 8 value.toNat)
    else (4, storeLE 4 (runtime.toFloat value).toNat)

def convertBinlogDouble : Option Pushed :=
  (runtime.stod (cStr data)).map fun value => (8, storeLE 8 value.toNat)

def convertBinlogVarString : Pushed :=
  convertSized runtime.toHeap data (if 255 < toUint64 col.byteLength then 2 else 1)

/-- The bytes that a decimal of so many digits takes. -/
def packedSize (intgMax fracMax : ℕ) : ℕ :=
  (intgMax / decodeBaseLen * decimalStoreBaseLen +
      dig2bytes (intgMax - intgMax / decodeBaseLen * decodeBaseLen)) +
    (fracMax / decodeBaseLen * decimalStoreBaseLen +
      dig2bytes (fracMax - fracMax / decodeBaseLen * decodeBaseLen))

def convertDecimal : Option Pushed :=
  let fracMax := if 0 ≤ col.scale then col.scale.toNat else 0
  let precision := if 0 ≤ col.precision then col.precision.toNat else 10
  convertBinlogDecimal col.precision col.scale
    (runtime.malloc (packedSize (precision - fracMax) fracMax)) data

/-- `memcmp` over the length of the member. -/
def isMember (member data : Text) : Bool :=
  member.isPrefixOf (data ++ [Char.ofNat 0])

/-- A value that matches no member pushes nothing. -/
def convertBinlogEnum : Pushed :=
  let width := if col.valuesOfEnumSet.length < 256 then 1 else 2
  match col.valuesOfEnumSet.findIdx? fun member => isMember member data with
  | none => (0, [])
  | some index => runtime.push width (storeLE width (index + 1))

/-- More than 64 members are an exception. -/
def convertBinlogSet : Option Pushed :=
  let set := split (cStr data) ','
  let bitmapLen := fixedLen col.valuesOfEnumSet.length
  let bitmap := (col.valuesOfEnumSet.zipIdx.map fun (member, index) =>
    if set.any (isMember member) then 2 ^ index else 0).sum
  if 8 < bitmapLen then none else some (runtime.push bitmapLen (storeLE bitmapLen bitmap))

end Convert

/-- A copy in the whole length of the bytes, from a string that was made of them and ends
at their first NUL. -/
def Heap.copyCString (heap : Heap) (bytes : Bytes) : Bytes :=
  (QueryEvent.cString bytes ++ 0 :: heap.malloc bytes.length).take bytes.length

section Json

variable (heap : Heap)

def jsonDiffOp (op : Bytes) : ℕ :=
  if QueryEvent.cString op = textBytes "replace".toList then 0
  else if QueryEvent.cString op = textBytes "insert".toList then 1
  else 2

def member (name : String) (members : List (Bytes × JsonValue)) : Option JsonValue :=
  members.lookup (textBytes name.toList)

/-- A length in a buffer of the size that `get_packed_integer` gives. -/
def pushLength (length : ℕ) : Bytes :=
  (heap.push (getPackedInteger length)
    ((writeLenencUint maxPacketIntegerLen length).getD [])).2

/-- One entry of `parse_json_diff`; `none` is a member that is not there or has
another type. -/
def parseDiff : JsonValue → Option Bytes
  | .object members =>
    match member "op" members, member "path" members with
    | some (.string op), some (.string path) =>
      let front :=
        storeLE 1 (jsonDiffOp op) ++ pushLength heap path.length ++ heap.copyCString path
      if jsonDiffOp op = 2 then some front
      else
        (member "value" members).map fun value =>
          let bytes := parser value
          front ++ pushLength heap bytes.length ++ bytes
    | _, _ => none
  | _ => none

/-- `parse_json_diff`: a document without diffs pushes nothing. -/
def parseJsonDiff (document : Option JsonValue) : Option Bytes :=
  match document with
  | none => some []
  | some (.object members) =>
    match member "diffs" members with
    | some (.array diffs) => (diffs.mapM (parseDiff heap)).map flatten
    | _ => some []
  | some _ => none

/-- A document that cannot be parsed is null. -/
def convertBinlogJson (runtime : Runtime) (data : Text) (isJsonDiff : Bool) : Option Pushed :=
  let document := runtime.parseJson (cStr data)
  let json :=
    if isJsonDiff then parseJsonDiff runtime.toHeap document
    else some (parser (document.getD .null))
  json.map fun json => (4 + json.length, storeLE 4 json.length ++ json)

end Json

/-- Reading an `int` from a stream; `none` is a read that fails. -/
def readInt (text : Text) : Option ℤ :=
  let (negative, digits) : Bool × Text :=
    match text.dropWhile isSpace with
    | '-' :: digits => (true, digits)
    | '+' :: digits => (false, digits)
    | digits => (false, digits)
  let number : ℤ := if negative then -decimal digits else decimal digits
  if (digits.takeWhile Char.isDigit).isEmpty ∨ number < -2 ^ 31 ∨ 2 ^ 31 ≤ number then none
  else some number

/-- `parse_ewkt`: the number in front of the semicolon and the text behind it; the inner
`none` is a failure that is returned.  A text of less than five characters has nothing to
skip, which is an exception, and a semicolon among the first five makes the length of the
number wrap. -/
def parseEwkt (ewkt : Text) : Option (Option (ℤ × Text)) :=
  match ewkt.idxOf? ';' with
  | none => some (some (0, ewkt))
  | some posSridEnd =>
    if ewkt.length < 5 then none
    else
      let srid := (ewkt.drop 5).take (if posSridEnd < 5 then ewkt.length else posSridEnd - 5)
      some ((readInt srid).map fun srid => (srid, ewkt.drop (posSridEnd + 1)))

section Geometry

variable (runtime : Runtime) (data : Text)

/-- The reference system and the binary form of a geometry; the inner `none` is a text
that cannot be converted. -/
def parseGeometry : Option (Option (ℤ × Bytes)) :=
  (parseEwkt (cStr data)).map fun parsed =>
    parsed.bind fun (srid, wkt) => (runtime.createFromWkt wkt).map fun wkb => (srid, wkb)

/-- `convert_wkt_to_wkb`: a failure returns `OMS_FAILED` as an unsigned number. -/
def convertWktToWkb : Option Pushed :=
  (parseGeometry runtime data).map fun geometry =>
    match geometry with
    | none => (toUint64 (-1), [])
    | some (srid, wkb) =>
      runtime.push (wkb.length + 4 + 4)
        (storeLE 4 (wkb.length + 4) ++ storeInt 4 srid ++ wkb)

end Geometry

/-- `get_column_val_bytes`; `none` is an exception. -/
def getColumnValBytes (runtime : Runtime) (col : ColMeta) (data : Text) (isJsonDiff : Bool) :
    Option Pushed :=
  match col.type with
  | .bit => convertBinlogBit runtime col data
  | .float => convertBinlogFloat runtime col data
  | .double => convertBinlogDouble runtime data
  | .string | .varString | .varchar => some (convertBinlogVarString runtime col data)
  | .decimal | .newdecimal => convertDecimal runtime col data
  | .enum => some (convertBinlogEnum runtime col data)
  | .set => convertBinlogSet runtime col data
  | .tinyBlob => some (convertBinlogTinyBlob runtime.toHeap data)
  | .mediumBlob => some (convertBinlogMediumBlob runtime.toHeap data)
  | .longBlob => some (convertBinlogLongBlob runtime.toHeap data)
  | .blob => some (convertBinlogBlob runtime.toHeap data)
  | .tiny => convertBinlogTiny runtime.toHeap data
  | .null => some (1, [])
  | .timestamp => convertBinlogTimestamp runtime.toHeap col.scale data
  | .longlong => convertBinlogLonglong runtime.toHeap data
  | .int24 => convertBinlogInt24 runtime.toHeap data
  | .date | .newdate => convertBinlogDate runtime.toHeap data
  | .time => convertBinlogTime runtime.toHeap col.scale data
  | .datetime => convertBinlogDatetime runtime.toHeap col.scale data
  | .year => some (convertBinlogYear runtime.toHeap data)
  | .short => convertBinlogShort runtime.toHeap data
  | .long => convertBinlogLong runtime.toHeap data
  | .json => convertBinlogJson runtime data isJsonDiff
  | .geometry => convertWktToWkb runtime data
  | _ => some (0, [])

section Real

variable {runtime : Runtime} {col : ColMeta} {data : Text} {pushed : Pushed}

theorem packDecimal_real {negative : Bool} {intg intgMax frac fracMax : ℕ} {fresh : Bytes}
    (hfresh : packedSize intgMax fracMax ≤ fresh.length)
    (hpack : packDecimal data negative intg intgMax frac fracMax fresh = some pushed) :
    pushed.Real := by
  obtain ⟨trailing, -, rfl⟩ := map_eq_some_iff.mp hpack
  change length (take (packedSize intgMax fracMax) _) = packedSize intgMax fracMax
  rw [length_take, length_flipFirst, length_append]
  omega

theorem convertInteger_real {heap : Heap} {len : ℕ}
    (hconvert : convertInteger heap data len = some pushed) : pushed.Real := by
  obtain ⟨num, -, rfl⟩ := map_eq_some_iff.mp hconvert
  exact heap.real_push len _

theorem convertSized_real (heap : Heap) (data : Text) (width : ℕ) :
    Pushed.Real (convertSized heap data width) :=
  heap.real_push _ _

theorem convertBinlogBit_real (hconvert : convertBinlogBit runtime col data = some pushed) :
    pushed.Real := by
  obtain ⟨num, -, hpush⟩ := bind_eq_some_iff.mp hconvert
  obtain ⟨-, hsome⟩ := ite_none_left_eq_some.mp hpush
  cases hsome
  exact runtime.real_push _ _

theorem convertBinlogFloat_real (hconvert : convertBinlogFloat runtime col data = some pushed) :
    pushed.Real := by
  obtain ⟨value, -, rfl⟩ := map_eq_some_iff.mp hconvert
  split_ifs
  · exact length_storeLE 8 _
  · exact length_storeLE 4 _

theorem convertBinlogDouble_real (hconvert : convertBinlogDouble runtime data = some pushed) :
    pushed.Real := by
  obtain ⟨value, -, rfl⟩ := map_eq_some_iff.mp hconvert
  exact length_storeLE 8 _

theorem convertDecimal_real (hconvert : convertDecimal runtime col data = some pushed) :
    pushed.Real := by
  exact packDecimal_real (runtime.length_malloc _).ge hconvert

theorem convertBinlogEnum_real : Pushed.Real (convertBinlogEnum runtime col data) := by
  rw [convertBinlogEnum]
  split
  · rfl
  · exact runtime.real_push _ _

theorem convertBinlogSet_real (hconvert : convertBinlogSet runtime col data = some pushed) :
    pushed.Real := by
  rw [convertBinlogSet] at hconvert
  split_ifs at hconvert
  cases hconvert
  exact runtime.real_push _ _

theorem convertBinlogJson_real {isJsonDiff : Bool}
    (hconvert : convertBinlogJson runtime data isJsonDiff = some pushed) : pushed.Real := by
  obtain ⟨json, -, rfl⟩ := map_eq_some_iff.mp hconvert
  rw [Pushed.Real, length_append, length_storeLE]

theorem real_of_bind {Date : Type} {date : Option Date} {heap : Heap} {size : ℕ}
    {value : Date → Bytes}
    (hconvert : (date.bind fun date => some (heap.push size (value date))) = some pushed) :
    pushed.Real := by
  obtain ⟨found, -, hpush⟩ := bind_eq_some_iff.mp hconvert
  cases hpush
  exact heap.real_push _ _

/-- Of every column type but two, a conversion returns the number of bytes it
pushed. -/
theorem getColumnValBytes_real (hnull : col.type ≠ .null) (hgeometry : col.type ≠ .geometry)
    {isJsonDiff : Bool} (hbytes : getColumnValBytes runtime col data isJsonDiff = some pushed) :
    pushed.Real := by
  rw [getColumnValBytes] at hbytes
  split at hbytes
  · exact convertBinlogBit_real hbytes
  · exact convertBinlogFloat_real hbytes
  · exact convertBinlogDouble_real hbytes
  iterate 3
    · cases hbytes
      exact convertSized_real _ _ _
  iterate 2 exact convertDecimal_real hbytes
  · cases hbytes
    exact convertBinlogEnum_real
  · exact convertBinlogSet_real hbytes
  iterate 4
    · cases hbytes
      exact convertSized_real _ _ _
  · exact convertInteger_real hbytes
  · rename_i hcol
    exact absurd hcol hnull
  · exact real_of_bind hbytes
  iterate 2 exact convertInteger_real hbytes
  iterate 2 exact real_of_bind hbytes
  · exact real_of_bind hbytes
  · exact real_of_bind hbytes
  · cases hbytes
    exact runtime.real_push _ _
  iterate 2 exact convertInteger_real hbytes
  · exact convertBinlogJson_real hbytes
  · rename_i hcol
    exact absurd hcol hgeometry
  · cases hbytes
    rfl

/-- A geometry returns the number of its bytes exactly if its text can be converted. -/
theorem convertWktToWkb_real_iff (hconvert : convertWktToWkb runtime data = some pushed) :
    pushed.Real ↔ ∃ geometry, parseGeometry runtime data = some (some geometry) := by
  obtain ⟨geometry, hgeometry, rfl⟩ := map_eq_some_iff.mp hconvert
  rw [hgeometry]
  cases geometry with
  | none =>
    refine iff_of_false (fun hreal => ?_) (by simp)
    change 0 = toUint64 (-1) at hreal
    exact absurd hreal (by decide)
  | some geometry => exact iff_of_true (runtime.real_push _ _) ⟨geometry, rfl⟩

/-- The values whose conversion returns what it pushes: of a column that is not of the
type NULL and, if it is a geometry, of a text that can be converted. -/
def ColMeta.Reports (runtime : Runtime) (col : ColMeta) (data : Text) : Prop :=
  col.type ≠ .null ∧
    (col.type = .geometry → ∃ geometry, parseGeometry runtime data = some (some geometry))

theorem getColumnValBytes_real_iff {isJsonDiff : Bool}
    (hbytes : getColumnValBytes runtime col data isJsonDiff = some pushed) :
    pushed.Real ↔ col.Reports runtime data := by
  by_cases hnull : col.type = .null
  · rw [getColumnValBytes, hnull] at hbytes
    cases hbytes
    exact iff_of_false Nat.zero_ne_one fun hreports => hreports.1 hnull
  · by_cases hgeometry : col.type = .geometry
    · rw [getColumnValBytes, hgeometry] at hbytes
      rw [convertWktToWkb_real_iff hbytes, ColMeta.Reports, and_iff_right hnull,
        forall_prop_of_true hgeometry]
    · exact iff_of_true (getColumnValBytes_real hnull hgeometry hbytes)
        ⟨hnull, fun heq => absurd heq hgeometry⟩

end Real

def sampleRuntime : Runtime where
  malloc size := replicate size 0
  length_malloc _ := length_replicate
  stod _ := none
  toFloat _ := 0
  parseJson _ := none
  createFromWkt _ := some [1]

end OblogProxy.DataType
