import OblogProxy.Event.LogEvent

/-!
# Binary JSON

`JsonParser` encodes a JSON value in the large storage format.  An array or an
object is a count and a size, followed by fixed-width entries that hold small
values or the offsets of the others, which are encoded behind them.
-/

namespace OblogProxy.DataType

open Bytes Event

/-- A parsed document.  A double is kept as its 64-bit word. -/
inductive JsonValue where
  | null
  | bool (value : Bool)
  | int (number : ℤ)
  | double (word : UInt64)
  | string (text : Bytes)
  | array (elements : List JsonValue)
  | object (members : List (Bytes × JsonValue))

namespace JsonParser

def jsonbTypeLargeObject : UInt8 := 0x1
def jsonbTypeLargeArray : UInt8 := 0x3
def jsonbTypeLiteral : UInt8 := 0x4
def jsonbTypeInt16 : UInt8 := 0x5
def jsonbTypeUint16 : UInt8 := 0x6
def jsonbTypeInt32 : UInt8 := 0x7
def jsonbTypeUint32 : UInt8 := 0x8
def jsonbTypeInt64 : UInt8 := 0x9
def jsonbTypeUint64 : UInt8 := 0xA
def jsonbTypeDouble : UInt8 := 0xB
def jsonbTypeString : UInt8 := 0xC

def jsonbNullLiteral : ℕ := 0
def jsonbTrueLiteral : ℕ := 1
def jsonbFalseLiteral : ℕ := 2

def keyEntrySizeLarge : ℕ := 6
def valueEntrySizeLarge : ℕ := 5

def jsonDocumentMaxDepth : ℕ := 100

/-- `IsInt`, `IsInt64`, `IsUint` and `IsUint64` of a number. -/
def isInt (number : ℤ) : Bool := -2 ^ 31 ≤ number ∧ number < 2 ^ 31
def isInt64 (number : ℤ) : Bool := -2 ^ 63 ≤ number ∧ number < 2 ^ 63
def isUint (number : ℤ) : Bool := 0 ≤ number ∧ number < 2 ^ 32
def isUint64 (number : ℤ) : Bool := 0 ≤ number ∧ number < 2 ^ 64

def isInt16 (num : ℤ) : Bool := -2 ^ 15 ≤ num ∧ num < 2 ^ 15
def isInt32 (num : ℤ) : Bool := -2 ^ 31 ≤ num ∧ num < 2 ^ 31
def isUint16 (num : ℤ) : Bool := num ≤ 0xFFFF
def isUint32 (num : ℤ) : Bool := 0xFFFF ≤ num ∧ num ≤ 0xFFFFFFFF

def storeInt (width : ℕ) (number : ℤ) : Bytes :=
  storeLE width (number % 256 ^ width).toNat

/-- `should_inline_value`: the type and the `int32_t` that stand in the entry.  An
unsigned value above `INT32_MAX` is negative there and fails both tests. -/
def shouldInlineValue (large : Bool) : JsonValue → Option (UInt8 × ℤ)
  | .null => some (jsonbTypeLiteral, jsonbNullLiteral)
  | .bool value =>
    some (jsonbTypeLiteral, if value then jsonbTrueLiteral else jsonbFalseLiteral)
  | .int number =>
    if isInt number then
      if isInt16 number || (large && isInt32 number) then
        some (if isInt16 number then jsonbTypeInt16 else jsonbTypeInt32, number)
      else none
    else if isUint number then
      let inlinedVal := number.bmod (2 ^ 32)
      -- the tests take an `uint64_t`
      let widened := inlinedVal % 2 ^ 64
      if isUint16 widened || (large && isUint32 widened) then
        some (if isUint16 number then jsonbTypeUint16 else jsonbTypeUint32, inlinedVal)
      else none
    else none
  | _ => none

/-- `fill_value_for_header`, and the bytes that `fill_value` pushes. -/
def fillValue (large : Bool) (value : ℤ) : Bytes :=
  if large then storeInt 4 value else storeInt 2 value

/-- `append_variable_length`: seven bits a byte, least significant first. -/
def appendVariableLength (length : ℕ) : Bytes :=
  if length < 128 then [UInt8.ofNat length]
  else UInt8.ofNat (length % 128 + 128) :: appendVariableLength (length / 128)
termination_by length

/-- What `parse_nested_object` leaves: the type in the header, the bytes that were
pushed behind it and the returned offset. -/
structure Element where
  type : UInt8
  content : Bytes
  offset : ℕ

/-- The value entries, the bytes behind them and the offset after a loop over
`append_value`. -/
structure Appended where
  entries : Bytes
  data : Bytes
  offset : ℕ

def parseNumber (number : ℤ) : Element :=
  if isInt number then
    if isInt16 number then ⟨jsonbTypeInt16, storeInt 2 number, 2⟩
    else ⟨jsonbTypeInt32, storeInt 4 number, 4⟩
  else if isInt64 number then ⟨jsonbTypeInt64, storeInt 8 number, 8⟩
  else if isUint number then
    if isUint16 number then ⟨jsonbTypeUint16, storeInt 2 number, 2⟩
    else ⟨jsonbTypeUint32, storeInt 4 number, 4⟩
  else if isUint64 number then ⟨jsonbTypeUint64, storeInt 8 number, 8⟩
  else ⟨0, [], 0⟩

def parseString (text : Bytes) : Element :=
  let length := appendVariableLength text.length
  ⟨jsonbTypeString, length ++ text, length.length + text.length⟩

/-- The bytes of the key as a C string. -/
def keyBytes (key : Bytes) : Bytes :=
  QueryEvent.cString key

def keyEntries (offset : ℕ) : List Bytes → Bytes
  | [] => []
  | key :: keys =>
    fillValue true offset ++ fillValue false (keyBytes key).length ++
      keyEntries (offset + (keyBytes key).length) keys

/-- Count, size and what follows: the size is filled in at the end. -/
def container (count : ℕ) (body : Bytes) : Bytes :=
  fillValue true count ++ fillValue true (8 + body.length) ++ body

mutual

def parseNestedObject (depth : ℕ) : JsonValue → Element
  | .null => ⟨jsonbTypeLiteral, storeLE 1 jsonbNullLiteral, 1⟩
  | .bool value =>
    ⟨jsonbTypeLiteral, storeLE 1 (if value then jsonbTrueLiteral else jsonbFalseLiteral), 1⟩
  | .int number => parseNumber number
  | .double word => ⟨jsonbTypeDouble, storeLE 8 word.toNat, 8⟩
  | .string text => parseString text
  | .array elements =>
    let offset := 8 + elements.length * valueEntrySizeLarge
    if jsonDocumentMaxDepth ≤ depth ∧ 0 < elements.length then
      -- the error return leaves the size and the entries at zero
      ⟨jsonbTypeLargeArray, fillValue true elements.length ++ fillValue true 0 ++
        List.replicate (elements.length * valueEntrySizeLarge) 0, offset⟩
    else
      let appended := appendElements depth offset elements
      ⟨jsonbTypeLargeArray, container elements.length (appended.entries ++ appended.data),
        appended.offset⟩
  | .object members =>
    let keys := members.map Prod.fst
    let offset := 8 + members.length * (keyEntrySizeLarge + valueEntrySizeLarge)
    let appended := appendMembers depth (offset + (keys.flatMap keyBytes).length) members
    ⟨jsonbTypeLargeObject, container members.length
      (keyEntries offset keys ++ appended.entries ++ keys.flatMap keyBytes ++ appended.data),
      appended.offset⟩

/-- `append_value`, for the elements of an array in turn. -/
def appendElements (depth offset : ℕ) : List JsonValue → Appended
  | [] => ⟨[], [], offset⟩
  | value :: values =>
    match shouldInlineValue true value with
    | some (type, inlinedValue) =>
      let rest := appendElements depth offset values
      ⟨type :: fillValue true inlinedValue ++ rest.entries, rest.data, rest.offset⟩
    | none =>
      let element := parseNestedObject (depth + 1) value
      let rest := appendElements depth (offset + element.offset) values
      ⟨element.type :: fillValue true offset ++ rest.entries, element.content ++ rest.data,
        rest.offset⟩

def appendMembers (depth offset : ℕ) : List (Bytes × JsonValue) → Appended
  | [] => ⟨[], [], offset⟩
  | (_, value) :: members =>
    match shouldInlineValue true value with
    | some (type, inlinedValue) =>
      let rest := appendMembers depth offset members
      ⟨type :: fillValue true inlinedValue ++ rest.entries, rest.data, rest.offset⟩
    | none =>
      let element := parseNestedObject (depth + 1) value
      let rest := appendMembers depth (offset + element.offset) members
      ⟨element.type :: fillValue true offset ++ rest.entries, element.content ++ rest.data,
        rest.offset⟩

end

def parser (document : JsonValue) : Bytes :=
  let element := parseNestedObject 1 document
  element.type :: element.content

end JsonParser

end OblogProxy.DataType

namespace OblogProxy.DataType.JsonFormat

open Bytes Event JsonParser

/-- A two's complement number. -/
def loadInt (bytes : Bytes) : ℤ :=
  let value := loadLE bytes
  if 2 * value < 256 ^ bytes.length then value else value - 256 ^ bytes.length

def isInlined (type : UInt8) : Bool :=
  type = jsonbTypeLiteral ∨ type = jsonbTypeInt16 ∨ type = jsonbTypeUint16 ∨
    type = jsonbTypeInt32 ∨ type = jsonbTypeUint32

def decodeLiteral (code : ℕ) : Option JsonValue :=
  if code = jsonbNullLiteral then some .null
  else if code = jsonbTrueLiteral then some (.bool true)
  else if code = jsonbFalseLiteral then some (.bool false)
  else none

/-- The length of a string and what stands behind it. -/
def readVariableLength : Bytes → Option (ℕ × Bytes)
  | [] => none
  | byte :: bytes =>
    if byte.toNat < 128 then some (byte.toNat, bytes)
    else (readVariableLength bytes).map fun read => (byte.toNat % 128 + 128 * read.1, read.2)

def readField (width : ℕ) (read : Bytes → Option JsonValue) (data : Bytes) : Option JsonValue :=
  (readAt data 0 width).bind read

def decodeScalar (type : UInt8) (data : Bytes) : Option JsonValue :=
  if type = jsonbTypeLiteral then readField 1 (fun bytes => decodeLiteral (loadLE bytes)) data
  else if type = jsonbTypeInt16 then readField 2 (fun bytes => some (.int (loadInt bytes))) data
  else if type = jsonbTypeUint16 then readField 2 (fun bytes => some (.int (loadLE bytes))) data
  else if type = jsonbTypeInt32 then readField 4 (fun bytes => some (.int (loadInt bytes))) data
  else if type = jsonbTypeUint32 then readField 4 (fun bytes => some (.int (loadLE bytes))) data
  else if type = jsonbTypeInt64 then readField 8 (fun bytes => some (.int (loadInt bytes))) data
  else if type = jsonbTypeUint64 then readField 8 (fun bytes => some (.int (loadLE bytes))) data
  else if type = jsonbTypeDouble then
    readField 8 (fun bytes => some (.double (UInt64.ofNat (loadLE bytes)))) data
  else if type = jsonbTypeString then
    (readVariableLength data).bind fun read =>
      readField read.1 (fun bytes => some (.string bytes)) read.2
  else none

/-- One value entry: a type with a value or the offset of one in the container. -/
def decodeEntry (decode : UInt8 → Bytes → Option JsonValue) (container : Bytes) (pos : ℕ) :
    Option JsonValue := do
  let typeByte ← readAt container pos 1
  let field ← readAt container (pos + 1) 4
  let type := UInt8.ofNat (loadLE typeByte)
  if isInlined type then decodeScalar type field
  else if loadLE field < container.length then decode type (container.drop (loadLE field))
  else none

def decodeEntries (decode : UInt8 → Bytes → Option JsonValue) (container : Bytes) :
    ℕ → ℕ → Option (List JsonValue)
  | 0, _ => some []
  | count + 1, pos => do
      let value ← decodeEntry decode container pos
      let values ← decodeEntries decode container count (pos + valueEntrySizeLarge)
      some (value :: values)

def readKeys (container : Bytes) : ℕ → ℕ → Option (List Bytes)
  | 0, _ => some []
  | count + 1, pos => do
      let offset ← readAt container pos 4
      let length ← readAt container (pos + 4) 2
      let key ← readAt container (loadLE offset) (loadLE length)
      let keys ← readKeys container count (pos + keyEntrySizeLarge)
      some (key :: keys)

/-- The count of a container and the bytes that its size field gives it. -/
def openContainer (data : Bytes) : Option (ℕ × Bytes) := do
  let count ← readAt data 0 4
  let size ← readAt data 4 4
  let container ← readAt data 0 (loadLE size)
  some (loadLE count, container)

/-- A value of the given type at the front of the data, for documents of bounded
depth. -/
def decodeValue : ℕ → UInt8 → Bytes → Option JsonValue
  | 0, _, _ => none
  | fuel + 1, type, data =>
    if type = jsonbTypeLargeArray then do
      let (count, container) ← openContainer data
      let values ← decodeEntries (decodeValue fuel) container count 8
      some (.array values)
    else if type = jsonbTypeLargeObject then do
      let (count, container) ← openContainer data
      let keys ← readKeys container count 8
      let values ← decodeEntries (decodeValue fuel) container count
        (8 + count * keyEntrySizeLarge)
      some (.object (keys.zip values))
    else decodeScalar type data

def decode : Bytes → Option JsonValue
  | [] => none
  | type :: data => decodeValue jsonDocumentMaxDepth type data

end OblogProxy.DataType.JsonFormat
