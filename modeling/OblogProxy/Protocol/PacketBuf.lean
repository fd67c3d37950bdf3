import OblogProxy.Core.Bytes
import OblogProxy.Gtid.Text

/-!
# The packet buffer

`PacketBuf` holds one MySQL packet: memory of some capacity, a read index and a
write index, both unsigned 32-bit.  Every operation returns, beside its value and
the new buffer, the parts of the memory that it touches, each with the bound that
the part must not pass at that moment: the write index for bytes that are read,
the capacity for bytes that are written.
-/

namespace OblogProxy.Protocol

open Bytes Gtid

/-- Consecutive bytes that an operation reads or writes. -/
structure Span where
  start : ℕ
  count : ℕ
  bound : ℕ
deriving DecidableEq

/-- Every byte of the span lies below the bound. -/
def Span.Inside (span : Span) : Prop :=
  span.count = 0 ∨ span.start + span.count ≤ span.bound

instance (span : Span) : Decidable span.Inside :=
  inferInstanceAs (Decidable (_ ∨ _))

/-- The memory is the allocated buffer, whose length is `capacity_`. -/
structure PacketBuf where
  memory : Bytes
  minCapacity : ℕ
  maxCapacity : ℕ
  readIndex : ℕ := 0
  writeIndex : ℕ := 0
  errorMsg : Text := []
deriving DecidableEq

/-- The value of an operation, the buffer behind it and what it touched. -/
structure Result (Value : Type) where
  value : Value
  buf : PacketBuf
  spans : List Span := []
deriving DecidableEq

def PacketM (Value : Type) : Type :=
  PacketBuf → Result Value

namespace PacketM

def pure {Value : Type} (value : Value) : PacketM Value :=
  fun buf => ⟨value, buf, []⟩

/-- One operation after the other; what they touch is collected. -/
def bind {Value Next : Type} (first : PacketM Value) (next : Value → PacketM Next) :
    PacketM Next :=
  fun buf =>
    let result := first buf
    let after := next result.value result.buf
    ⟨after.value, after.buf, result.spans ++ after.spans⟩

instance : Monad PacketM where
  pure := PacketM.pure
  bind := PacketM.bind

/-- A fact that is computed from the buffer. -/
def asks {Value : Type} (fact : PacketBuf → Value) : PacketM Value :=
  fun buf => ⟨fact buf, buf, []⟩

def update (change : PacketBuf → PacketBuf) : PacketM Unit :=
  fun buf => ⟨(), change buf, []⟩

variable {Value Next : Type}

@[simp]
theorem pure_apply (value : Value) (buf : PacketBuf) :
    (Pure.pure value : PacketM Value) buf = ⟨value, buf, []⟩ :=
  rfl

@[simp]
theorem bind_apply (first : PacketM Value) (next : Value → PacketM Next) (buf : PacketBuf) :
    (first >>= next) buf =
      ⟨(next (first buf).value (first buf).buf).value, (next (first buf).value (first buf).buf).buf,
        (first buf).spans ++ (next (first buf).value (first buf).buf).spans⟩ :=
  rfl

@[simp]
theorem asks_apply (fact : PacketBuf → Value) (buf : PacketBuf) :
    asks fact buf = ⟨fact buf, buf, []⟩ :=
  rfl

@[simp]
theorem update_apply (change : PacketBuf → PacketBuf) (buf : PacketBuf) :
    update change buf = ⟨(), change buf, []⟩ :=
  rfl

end PacketM

open PacketM

/-- Store bytes into the memory; a store that leaves the memory is not modelled
any further, its span tells. -/
def storeAt (memory : Bytes) (pos : ℕ) (value : Bytes) : Bytes :=
  if pos + value.length ≤ memory.length then overwrite memory pos value else memory

def encodedBytesLength (value : ℕ) : ℕ :=
  if value < 0xFB then 1
  else if value < 2 ^ 16 then 3
  else if value < 2 ^ 24 then 4
  else 9

def encodedUint (value : ℕ) : Bytes :=
  if value < 0xFB then storeLE 1 value
  else if value < 2 ^ 16 then 0xFC :: storeLE 2 value
  else if value < 2 ^ 24 then 0xFD :: storeLE 3 value
  else 0xFE :: storeLE 8 value

def readableError (bytes readable : ℕ) : Text :=
  "Try to read ".toList ++ Nat.toDigits 10 bytes ++ "B, but only ".toList ++
    Nat.toDigits 10 readable ++ "B readable".toList

def writableError (newWriteIndex maxCapacity : ℕ) : Text :=
  "Packet buffer size too large: ".toList ++ Nat.toDigits 10 newWriteIndex ++
    ", max allowed size: ".toList ++ Nat.toDigits 10 maxCapacity

def encodedError (firstByte : ℕ) : Text :=
  "Try to read an encoded integer, but the first byte is ".toList ++ Nat.toDigits 10 firstByte

namespace PacketBuf

def ioSize : ℕ := 4096

def capacity (buf : PacketBuf) : ℕ :=
  buf.memory.length

def new (minCapacity maxCapacity : ℕ) : PacketBuf :=
  { memory := List.replicate minCapacity 0, minCapacity, maxCapacity }

/-- `write_index_ - read_index_`, as unsigned integers. -/
def readableBytes (buf : PacketBuf) : ℕ :=
  if buf.readIndex ≤ buf.writeIndex then buf.writeIndex - buf.readIndex
  else buf.writeIndex + 2 ^ 32 - buf.readIndex

def clear (buf : PacketBuf) : PacketBuf :=
  { buf with readIndex := 0, writeIndex := 0, errorMsg := [] }

def setErrorMsg (buf : PacketBuf) (errorMsg : Text) : PacketBuf :=
  { buf with errorMsg }

def advance (buf : PacketBuf) (count : ℕ) : PacketBuf :=
  { buf with readIndex := (buf.readIndex + count) % 2 ^ 32 }

def ensureReadable (bytes : ℕ) : PacketM Bool := fun buf =>
  if buf.readableBytes < bytes then
    ⟨false, buf.setErrorMsg (readableError bytes buf.readableBytes), []⟩
  else ⟨true, buf, []⟩

/-- New memory, to which the bytes between the two indexes are copied. -/
def extend (newCapacity : ℕ) : PacketM Unit := fun buf =>
  let copied := slice buf.memory buf.readIndex buf.readableBytes
  { value := ()
    buf := { buf with memory := storeAt (List.replicate newCapacity 0) buf.readIndex copied }
    spans := [⟨buf.readIndex, buf.readableBytes, buf.writeIndex⟩,
      ⟨buf.readIndex, buf.readableBytes, newCapacity⟩] }

/-- The extension is rounded up to a multiple of the input-output size. -/
def roundedCapacity (buf : PacketBuf) (newWriteIndex : ℕ) : ℕ :=
  min ((newWriteIndex + ioSize - 1) % 2 ^ 32 / ioSize * ioSize) buf.maxCapacity

def ensureWritable (bytes : ℕ) : PacketM Bool := fun buf =>
  let newWriteIndex := (buf.writeIndex + bytes) % 2 ^ 32
  if newWriteIndex ≤ buf.capacity then ⟨true, buf, []⟩
  else if buf.maxCapacity < newWriteIndex then
    ⟨false, buf.setErrorMsg (writableError newWriteIndex buf.maxCapacity), []⟩
  else
    let extended := extend (buf.roundedCapacity newWriteIndex) buf
    ⟨true, extended.buf, extended.spans⟩

/-! ## Writing

An operation returns the number of bytes; `none` stands for `-1`. -/

def append (value : Bytes) : PacketM Unit := fun buf =>
  { value := ()
    buf := { buf with
      memory := storeAt buf.memory buf.writeIndex value
      writeIndex := (buf.writeIndex + value.length) % 2 ^ 32 }
    spans := [⟨buf.writeIndex, value.length, buf.capacity⟩] }

/-- Bytes of a known number are written if there is room for them. -/
def writeBytes (value : Bytes) : PacketM (Option ℕ) := do
  if ← ensureWritable value.length then
    append value
    return some value.length
  else return none

def writeUint1 (v : ℕ) : PacketM (Option ℕ) := writeBytes (storeLE 1 v)

def writeUint2 (v : ℕ) : PacketM (Option ℕ) := writeBytes (storeLE 2 v)

def writeUint3 (v : ℕ) : PacketM (Option ℕ) := writeBytes (storeLE 3 v)

def writeUint4 (v : ℕ) : PacketM (Option ℕ) := writeBytes (storeLE 4 v)

def writeUint6 (v : ℕ) : PacketM (Option ℕ) := writeBytes (storeLE 6 v)

def writeUint8 (v : ℕ) : PacketM (Option ℕ) := writeBytes (storeLE 8 v)

def writeUint (v : ℕ) : PacketM (Option ℕ) := writeBytes (encodedUint v)

/-- The bytes of a string, with or without its length in front. -/
def stringSize (str : Bytes) (withLength : Bool) : ℕ :=
  (if withLength then encodedBytesLength str.length else 0) + str.length

/-- `write_string` of a pointer and a length.  The return value of the inner
`write_uint` is ignored. -/
def writeChars (str : Bytes) (withLength : Bool) : PacketM (Option ℕ) := do
  let totalLen := stringSize str withLength % 2 ^ 32
  if ← ensureWritable totalLen then
    if withLength then
      let _ ← writeUint str.length
    append str
    return some totalLen
  else return none

/-- `write_string` of a `std::string`, whose length is passed as a `uint32_t`. -/
def writeString (str : Bytes) (withLength : Bool) : PacketM (Option ℕ) :=
  writeChars (str.take (str.length % 2 ^ 32)) withLength

/-- `write_string` of a C string, with its terminator. -/
def writeCString (str : Bytes) : PacketM (Option ℕ) :=
  writeChars ((str ++ [0]).take ((str.length + 1) % 2 ^ 32)) false

/-! ## Reading

A value is the number of bytes read and what was read. -/

def peek (count : ℕ) : PacketM Bytes := fun buf =>
  ⟨slice buf.memory buf.readIndex count, buf, [⟨buf.readIndex, count, buf.writeIndex⟩]⟩

def readBytes (len : ℕ) : PacketM (Option (ℕ × Bytes)) := do
  if ← ensureReadable len then
    let bytes ← peek len
    update fun buf => buf.advance len
    return some (len, bytes)
  else return none

def readFixed (width : ℕ) : PacketM (Option (ℕ × ℕ)) := do
  let read ← readBytes width
  return read.map fun taken => (taken.1, loadLE taken.2)

def readUint1 : PacketM (Option (ℕ × ℕ)) := readFixed 1

def readUint2 : PacketM (Option (ℕ × ℕ)) := readFixed 2

def readUint3 : PacketM (Option (ℕ × ℕ)) := readFixed 3

def readUint4 : PacketM (Option (ℕ × ℕ)) := readFixed 4

def readUint6 : PacketM (Option (ℕ × ℕ)) := readFixed 6

def readUint8 : PacketM (Option (ℕ × ℕ)) := readFixed 8

def readEncoded (width : ℕ) : PacketM (Option (ℕ × ℕ)) := do
  let read ← readBytes (1 + width)
  return read.map fun taken => (taken.1, loadLE (taken.2.drop 1))

/-- The switch over the first byte. -/
def readUintFrom (firstByte : ℕ) : PacketM (Option (ℕ × ℕ)) :=
  if firstByte < 0xFB then do
    update fun buf => buf.advance 1
    return some (1, firstByte)
  else if firstByte = 0xFC then readEncoded 2
  else if firstByte = 0xFD then readEncoded 3
  else if firstByte = 0xFE then readEncoded 8
  else do
    update fun buf => buf.setErrorMsg (encodedError firstByte)
    return none

def readUint : PacketM (Option (ℕ × ℕ)) := do
  if ← ensureReadable 1 then
    let first ← peek 1
    readUintFrom (loadLE first)
  else return none

def readFixedLengthString (len : ℕ) : PacketM (Option (ℕ × Bytes)) := readBytes len

/-- The length is read as 64 bits and passed on as 32; when the string is not
there, the read index goes back. -/
def readLengthEncodedString : PacketM (Option (ℕ × Bytes)) := do
  match ← readUint with
  | none => return none
  | some (lenReadSz, len) =>
    match ← readFixedLengthString (len % 2 ^ 32) with
    | none =>
      update fun buf => buf.advance (2 ^ 32 - lenReadSz)
      return none
    | some (strReadSz, str) => return some (lenReadSz + strReadSz, str)

/-- There is no check: the string ends at the next NUL byte, wherever it is.  What
follows the memory is taken to be NUL. -/
def readNullTerminatedString : PacketM (ℕ × Bytes) := do
  let str ← asks fun buf => (buf.memory.drop buf.readIndex).takeWhile (· ≠ 0)
  let _ ← peek (str.length + 1)
  let readSz := (str.length + 1) % 2 ^ 32
  update fun buf => buf.advance readSz
  return (readSz, str)

def readSkip (len : ℕ) : PacketM (Option ℕ) := do
  if ← ensureReadable len then
    update fun buf => buf.advance len
    return some len
  else return none

def readRemainingBytes : PacketM (ℕ × Bytes) := do
  let readable ← asks readableBytes
  let bytes ← peek readable
  update fun buf => { buf with readIndex := buf.writeIndex }
  return (readable, bytes)

end PacketBuf

end OblogProxy.Protocol
