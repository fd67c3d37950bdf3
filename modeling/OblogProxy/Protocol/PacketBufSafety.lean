import OblogProxy.Protocol.PacketBuf

/-!
# Which operations of the packet buffer are safe

The documented invariant orders the two indexes and the capacity.  A read is safe
whatever its length, with one exception that does not look at the write index at
all: the string that ends with NUL.  A write is safe unless the arithmetic of
`ensure_writable` wraps: in the new write index, or in rounding it up to the
input-output size.
-/

namespace OblogProxy.Protocol

open Bytes PacketM List

namespace PacketBuf

/-- `0 <= read_index_ <= write_index_ <= capacity_` and
`min_capacity_ <= capacity_ <= max_capacity_`. -/
structure Invariant (buf : PacketBuf) : Prop where
  read_le : buf.readIndex ≤ buf.writeIndex
  write_le : buf.writeIndex ≤ buf.capacity
  min_le : buf.minCapacity ≤ buf.capacity
  capacity_le : buf.capacity ≤ buf.maxCapacity
  max_lt : buf.maxCapacity < 2 ^ 32

instance (buf : PacketBuf) : Decidable buf.Invariant :=
  decidable_of_iff
    (buf.readIndex ≤ buf.writeIndex ∧ buf.writeIndex ≤ buf.capacity ∧
      buf.minCapacity ≤ buf.capacity ∧ buf.capacity ≤ buf.maxCapacity ∧
      buf.maxCapacity < 2 ^ 32)
    ⟨fun ⟨hread, hwrite, hmin, hcapacity, hmax⟩ => ⟨hread, hwrite, hmin, hcapacity, hmax⟩,
      fun ⟨hread, hwrite, hmin, hcapacity, hmax⟩ => ⟨hread, hwrite, hmin, hcapacity, hmax⟩⟩

end PacketBuf

def Result.Safe {Value : Type} (result : Result Value) : Prop :=
  result.buf.Invariant ∧ ∀ span ∈ result.spans, span.Inside

instance {Value : Type} (result : Result Value) : Decidable result.Safe :=
  inferInstanceAs (Decidable (_ ∧ _))

@[simp]
theorem length_storeAt (memory : Bytes) (pos : ℕ) (value : Bytes) :
    (storeAt memory pos value).length = memory.length := by
  rw [storeAt]
  split_ifs with hinside
  · exact length_overwrite hinside
  · rfl

theorem length_encodedUint (value : ℕ) :
    (encodedUint value).length = encodedBytesLength value := by
  rw [encodedUint, encodedBytesLength]
  split_ifs <;> simp

variable {Value : Type} {buf : PacketBuf}

/-- Two operations are safe together if the first stays inside the bounds and the
second is safe behind it. -/
theorem PacketM.safe_bind_iff {Next : Type} {first : PacketM Value} {next : Value → PacketM Next} :
    ((first >>= next) buf).Safe ↔
      (∀ span ∈ (first buf).spans, span.Inside) ∧ (next (first buf).value (first buf).buf).Safe := by
  rw [bind_apply, Result.Safe, Result.Safe, forall_mem_append]
  exact and_left_comm

theorem PacketM.safe_pure_iff {value : Value} :
    ((Pure.pure value : PacketM Value) buf).Safe ↔ buf.Invariant := by
  simp [Result.Safe]

/-- What is returned does not matter for safety. -/
theorem PacketM.safe_bind_pure_iff {Next : Type} {first : PacketM Value} {next : Value → Next} :
    ((first >>= fun value => Pure.pure (next value)) buf).Safe ↔ (first buf).Safe := by
  rw [safe_bind_iff, safe_pure_iff, Result.Safe]
  exact and_comm

namespace PacketBuf

variable {buf : PacketBuf}

@[simp]
theorem invariant_setErrorMsg (errorMsg : Gtid.Text) :
    (buf.setErrorMsg errorMsg).Invariant ↔ buf.Invariant :=
  ⟨fun ⟨hread, hwrite, hmin, hcapacity, hmax⟩ => ⟨hread, hwrite, hmin, hcapacity, hmax⟩,
    fun ⟨hread, hwrite, hmin, hcapacity, hmax⟩ => ⟨hread, hwrite, hmin, hcapacity, hmax⟩⟩

theorem invariant_new {minCapacity maxCapacity : ℕ} (hle : minCapacity ≤ maxCapacity)
    (hmax : maxCapacity < 2 ^ 32) : (new minCapacity maxCapacity).Invariant := by
  have hcapacity : (new minCapacity maxCapacity).capacity = minCapacity := length_replicate
  exact ⟨le_rfl, Nat.zero_le _, hcapacity.ge, hcapacity.trans_le hle, hmax⟩

theorem Invariant.readableBytes_eq (hinv : buf.Invariant) :
    buf.readableBytes = buf.writeIndex - buf.readIndex := by
  rw [readableBytes, if_pos hinv.read_le]

variable {count : ℕ}

theorem Invariant.advance (hinv : buf.Invariant) (hcount : count ≤ buf.readableBytes) :
    (buf.advance count).Invariant := by
  rw [hinv.readableBytes_eq] at hcount
  obtain ⟨hread, hwrite, hmin, hcapacity, hmax⟩ := hinv
  refine ⟨?_, hwrite, hmin, hcapacity, hmax⟩
  rw [PacketBuf.advance]
  dsimp only
  omega

theorem Invariant.inside (hinv : buf.Invariant) (hcount : count ≤ buf.readableBytes) :
    (⟨buf.readIndex, count, buf.writeIndex⟩ : Span).Inside := by
  rw [hinv.readableBytes_eq] at hcount
  have hread := hinv.read_le
  right
  dsimp only
  omega

theorem ensureReadable_short {len : ℕ} (hshort : buf.readableBytes < len) :
    ensureReadable len buf =
      ⟨false, buf.setErrorMsg (readableError len buf.readableBytes), []⟩ := by
  rw [ensureReadable, if_pos hshort]

theorem ensureReadable_of_le {len : ℕ} (hlen : len ≤ buf.readableBytes) :
    ensureReadable len buf = ⟨true, buf, []⟩ := by
  rw [ensureReadable, if_neg (Nat.not_lt.mpr hlen)]

theorem readBytes_cases (buf : PacketBuf) (len : ℕ) :
    (buf.readableBytes < len ∧ readBytes len buf =
        ⟨none, buf.setErrorMsg (readableError len buf.readableBytes), []⟩) ∨
      (len ≤ buf.readableBytes ∧ readBytes len buf =
        ⟨some (len, slice buf.memory buf.readIndex len), buf.advance len,
          [⟨buf.readIndex, len, buf.writeIndex⟩]⟩) := by
  rcases Nat.lt_or_ge buf.readableBytes len with hshort | hlen
  · left
    refine ⟨hshort, ?_⟩
    rw [readBytes, bind_apply, ensureReadable_short hshort]
    rfl
  · right
    refine ⟨hlen, ?_⟩
    rw [readBytes, bind_apply, ensureReadable_of_le hlen]
    rfl

section Reads

variable (hinv : buf.Invariant)

include hinv

theorem safe_readBytes (len : ℕ) : (readBytes len buf).Safe := by
  rcases buf.readBytes_cases len with ⟨-, hread⟩ | ⟨hlen, hread⟩
  · rw [hread]
    exact ⟨(invariant_setErrorMsg _).mpr hinv, by simp⟩
  · rw [hread]
    exact ⟨hinv.advance hlen, by simpa using hinv.inside hlen⟩

theorem safe_readFixed (width : ℕ) : (readFixed width buf).Safe :=
  safe_bind_pure_iff.mpr (safe_readBytes hinv width)

theorem safe_readEncoded (width : ℕ) : (readEncoded width buf).Safe :=
  safe_bind_pure_iff.mpr (safe_readBytes hinv (1 + width))

theorem safe_readUintFrom (hreadable : 1 ≤ buf.readableBytes) (firstByte : ℕ) :
    (readUintFrom firstByte buf).Safe := by
  rw [readUintFrom]
  split_ifs
  · rw [safe_bind_iff]
    exact ⟨by simp, safe_pure_iff.mpr (hinv.advance hreadable)⟩
  · exact safe_readEncoded hinv 2
  · exact safe_readEncoded hinv 3
  · exact safe_readEncoded hinv 8
  · rw [safe_bind_iff]
    exact ⟨by simp, safe_pure_iff.mpr ((invariant_setErrorMsg _).mpr hinv)⟩

theorem safe_readUint : (readUint buf).Safe := by
  rw [readUint, safe_bind_iff]
  rcases Nat.lt_or_ge buf.readableBytes 1 with hshort | hreadable
  · rw [ensureReadable_short hshort]
    exact ⟨by simp, safe_pure_iff.mpr ((invariant_setErrorMsg _).mpr hinv)⟩
  · rw [ensureReadable_of_le hreadable]
    refine ⟨by simp, safe_bind_iff.mpr ⟨?_, ?_⟩⟩
    · simpa [peek] using hinv.inside hreadable
    · exact safe_readUintFrom hinv hreadable _

end Reads

theorem advance_advance (buf : PacketBuf) (first second : ℕ) :
    (buf.advance first).advance second = buf.advance (first + second) := by
  simp only [advance, PacketBuf.mk.injEq, true_and, and_true]
  omega

/-- Going all the way round does not move the read index. -/
theorem advance_round (hread : buf.readIndex < 2 ^ 32) : buf.advance (2 ^ 32) = buf := by
  have hindex : (buf.readIndex + 2 ^ 32) % 2 ^ 32 = buf.readIndex := by omega
  rw [advance, hindex]

/-- Both indexes are unsigned 32-bit integers. -/
def Bounded (buf : PacketBuf) : Prop :=
  buf.readIndex < 2 ^ 32 ∧ buf.writeIndex < 2 ^ 32

theorem Invariant.bounded (hinv : buf.Invariant) : buf.Bounded := by
  obtain ⟨hread, hwrite, -, hcapacity, hmax⟩ := hinv
  constructor <;> omega

theorem Bounded.readableBytes_lt (hbounded : buf.Bounded) : buf.readableBytes < 2 ^ 32 := by
  obtain ⟨hread, hwrite⟩ := hbounded
  rw [readableBytes]
  split_ifs <;> omega

/-- A read either fails and leaves only an error message, or moves the read index by
the number of bytes that it returns. -/
structure Moved {Value : Type} (buf : PacketBuf) (value : Option (ℕ × Value))
    (after : PacketBuf) : Prop where
  failed : value = none → ∃ errorMsg, after = buf.setErrorMsg errorMsg
  read : ∀ size taken, value = some (size, taken) →
    size ≤ buf.readableBytes ∧ after = buf.advance size

section Moved

variable {Value Next : Type} {value : Option (ℕ × Value)} {after : PacketBuf}

theorem moved_none (errorMsg : Gtid.Text) :
    Moved buf (none : Option (ℕ × Value)) (buf.setErrorMsg errorMsg) :=
  ⟨fun _ => ⟨errorMsg, rfl⟩, nofun⟩

theorem moved_some {size : ℕ} (taken : Value) (hsize : size ≤ buf.readableBytes) :
    Moved buf (some (size, taken)) (buf.advance size) := by
  refine ⟨nofun, ?_⟩
  rintro otherSize other hother
  obtain ⟨rfl, -⟩ := Prod.mk.inj (Option.some.inj hother)
  exact ⟨hsize, rfl⟩

theorem Moved.map (hmoved : Moved buf value after) (view : Value → Next) :
    Moved buf (value.map fun taken => (taken.1, view taken.2)) after := by
  refine ⟨fun hnone => hmoved.failed (Option.map_eq_none_iff.mp hnone), ?_⟩
  rintro size taken hsome
  obtain ⟨⟨takenSize, read⟩, hread, heq⟩ := Option.map_eq_some_iff.mp hsome
  obtain ⟨rfl, -⟩ := Prod.mk.inj heq
  exact hmoved.read _ _ hread

theorem Moved.invariant (hmoved : Moved buf value after) (hinv : buf.Invariant) :
    after.Invariant := by
  rcases hvalue : value with - | ⟨size, taken⟩
  · obtain ⟨errorMsg, rfl⟩ := hmoved.failed hvalue
    exact (invariant_setErrorMsg _).mpr hinv
  · obtain ⟨hsize, rfl⟩ := hmoved.read _ _ hvalue
    exact hinv.advance hsize

end Moved

theorem moved_readBytes (buf : PacketBuf) (len : ℕ) :
    Moved buf (readBytes len buf).value (readBytes len buf).buf := by
  rcases buf.readBytes_cases len with ⟨-, hread⟩ | ⟨hlen, hread⟩
  · rw [hread]
    exact moved_none _
  · rw [hread]
    exact moved_some _ hlen

theorem moved_readEncoded (buf : PacketBuf) (width : ℕ) :
    Moved buf (readEncoded width buf).value (readEncoded width buf).buf :=
  (moved_readBytes buf (1 + width)).map fun bytes => loadLE (bytes.drop 1)

theorem moved_readUint (buf : PacketBuf) : Moved buf (readUint buf).value (readUint buf).buf := by
  rcases Nat.lt_or_ge buf.readableBytes 1 with hshort | hreadable
  · rw [readUint, bind_apply, ensureReadable_short hshort]
    exact moved_none _
  · rw [readUint, bind_apply, ensureReadable_of_le hreadable]
    change Moved buf (readUintFrom _ buf).value (readUintFrom _ buf).buf
    rw [readUintFrom]
    split_ifs
    · exact moved_some _ hreadable
    · exact moved_readEncoded buf 2
    · exact moved_readEncoded buf 3
    · exact moved_readEncoded buf 8
    · exact moved_none _

/-- When the length or the string is not there, the read index is where it was. -/
theorem failed_readLengthEncodedString (hbounded : buf.Bounded)
    (hnone : (readLengthEncodedString buf).value = none) :
    ∃ errorMsg, (readLengthEncodedString buf).buf = buf.setErrorMsg errorMsg := by
  have hmoved := buf.moved_readUint
  rw [readLengthEncodedString, bind_apply] at hnone ⊢
  rcases hlength : readUint buf with ⟨- | ⟨lenReadSz, len⟩, after, spans⟩
  · rw [hlength] at hmoved
    obtain ⟨errorMsg, rfl⟩ := hmoved.failed rfl
    exact ⟨errorMsg, rfl⟩
  rw [hlength] at hmoved hnone
  obtain ⟨hreadSz, rfl⟩ := hmoved.read _ _ rfl
  dsimp only at hnone ⊢
  rw [bind_apply] at hnone ⊢
  rcases (buf.advance lenReadSz).readBytes_cases (len % 2 ^ 32) with ⟨-, hread⟩ | ⟨-, hread⟩
  · generalize readableError _ _ = errorMsg at hread
    rw [readFixedLengthString, hread]
    refine ⟨errorMsg, ?_⟩
    change ((buf.setErrorMsg errorMsg).advance lenReadSz).advance (2 ^ 32 - lenReadSz) =
      buf.setErrorMsg errorMsg
    have hround : lenReadSz + (2 ^ 32 - lenReadSz) = 2 ^ 32 := by
      have hlt := hbounded.readableBytes_lt
      omega
    rw [advance_advance, hround]
    exact advance_round hbounded.1
  · rw [readFixedLengthString, hread] at hnone
    exact absurd hnone (by simp)

theorem moved_readLengthEncodedString (hinv : buf.Invariant) :
    Moved buf (readLengthEncodedString buf).value (readLengthEncodedString buf).buf := by
  refine ⟨failed_readLengthEncodedString hinv.bounded, ?_⟩
  intro size taken hsome
  have hmoved := buf.moved_readUint
  rw [readLengthEncodedString, bind_apply] at hsome ⊢
  rcases hlength : readUint buf with ⟨- | ⟨lenReadSz, len⟩, after, spans⟩
  · rw [hlength] at hsome
    exact absurd hsome (by simp)
  rw [hlength] at hmoved hsome
  obtain ⟨hreadSz, rfl⟩ := hmoved.read _ _ rfl
  have hreadable : (buf.advance lenReadSz).readableBytes = buf.readableBytes - lenReadSz := by
    rw [(hinv.advance hreadSz).readableBytes_eq, hinv.readableBytes_eq]
    rw [hinv.readableBytes_eq] at hreadSz
    obtain ⟨hread, hwrite, -, hcapacity, hmax⟩ := hinv
    simp only [advance]
    omega
  dsimp only at hsome ⊢
  rw [bind_apply] at hsome ⊢
  rcases (buf.advance lenReadSz).readBytes_cases (len % 2 ^ 32) with ⟨-, hread⟩ | ⟨hlen, hread⟩
  · rw [readFixedLengthString, hread] at hsome
    exact absurd hsome (by simp)
  · rw [readFixedLengthString, hread] at hsome ⊢
    obtain ⟨rfl, -⟩ := Prod.mk.inj (Option.some.inj hsome)
    refine ⟨?_, advance_advance _ _ _⟩
    omega

theorem safe_readLengthEncodedString (hinv : buf.Invariant) :
    (readLengthEncodedString buf).Safe := by
  refine ⟨(moved_readLengthEncodedString hinv).invariant hinv, ?_⟩
  obtain ⟨hafter, hspans⟩ := safe_readUint hinv
  rw [readLengthEncodedString, bind_apply]
  rcases hlength : readUint buf with ⟨- | ⟨lenReadSz, len⟩, after, spans⟩
  · rw [hlength] at hspans
    simpa using hspans
  rw [hlength] at hafter hspans
  have hstring := (safe_readBytes hafter (len % 2 ^ 32)).2
  refine forall_mem_append.mpr ⟨hspans, ?_⟩
  rcases hread : readBytes (len % 2 ^ 32) after with ⟨- | ⟨strReadSz, str⟩, last, stringSpans⟩
  all_goals
    rw [hread] at hstring
    dsimp only
    rw [bind_apply, readFixedLengthString, hread]
    simpa using hstring

theorem safe_readSkip (hinv : buf.Invariant) (len : ℕ) : (readSkip len buf).Safe := by
  rw [readSkip, safe_bind_iff]
  rcases Nat.lt_or_ge buf.readableBytes len with hshort | hlen
  · rw [ensureReadable_short hshort]
    exact ⟨by simp, safe_pure_iff.mpr ((invariant_setErrorMsg _).mpr hinv)⟩
  · rw [ensureReadable_of_le hlen]
    exact ⟨by simp, safe_bind_iff.mpr
      ⟨by simp, safe_pure_iff.mpr (hinv.advance hlen)⟩⟩

theorem safe_readRemainingBytes (hinv : buf.Invariant) : (readRemainingBytes buf).Safe := by
  refine ⟨⟨le_rfl, hinv.write_le, hinv.min_le, hinv.capacity_le, hinv.max_lt⟩, ?_⟩
  simpa [readRemainingBytes, peek] using hinv.inside le_rfl

theorem mem_take_iff_length_takeWhile {bytes : Bytes} (hcount : count ≤ bytes.length) :
    0 ∈ bytes.take count ↔ (bytes.takeWhile (· ≠ 0)).length < count := by
  induction bytes generalizing count with
  | nil => simpa using hcount
  | cons byte rest ih =>
    cases count with
    | zero => simp
    | succ count =>
      by_cases hbyte : byte = 0
      · simp [hbyte]
      · have hne : (0 : UInt8) ≠ byte := fun heq => hbyte heq.symm
        simpa [hbyte, hne] using ih (Nat.le_of_succ_le_succ hcount)

/-- The string that ends with NUL is safe exactly when it ends within the readable
bytes. -/
theorem safe_readNullTerminatedString_iff (hinv : buf.Invariant) :
    (readNullTerminatedString buf).Safe ↔
      0 ∈ slice buf.memory buf.readIndex (buf.writeIndex - buf.readIndex) := by
  have hwrite := hinv.write_le
  have hlength : buf.writeIndex - buf.readIndex ≤ (buf.memory.drop buf.readIndex).length := by
    rw [length_drop]
    exact Nat.sub_le_sub_right hwrite _
  rw [slice, mem_take_iff_length_takeWhile hlength]
  set str := (buf.memory.drop buf.readIndex).takeWhile (· ≠ 0) with hstr
  have hspans : (readNullTerminatedString buf).spans =
      [⟨buf.readIndex, str.length + 1, buf.writeIndex⟩] := rfl
  have hafter : (readNullTerminatedString buf).buf =
      buf.advance ((str.length + 1) % 2 ^ 32) := rfl
  rw [Result.Safe, hspans, hafter, forall_mem_singleton, Span.Inside]
  constructor
  · rintro ⟨-, hnone | hinside⟩ <;> dsimp only at *
    · omega
    · omega
  · intro hshort
    refine ⟨hinv.advance ?_, .inr ?_⟩
    · rw [hinv.readableBytes_eq]
      omega
    · dsimp only
      omega

theorem ensureWritable_cases (buf : PacketBuf) (bytes : ℕ) :
    ((buf.writeIndex + bytes) % 2 ^ 32 ≤ buf.capacity ∧
        ensureWritable bytes buf = ⟨true, buf, []⟩) ∨
      (buf.capacity < (buf.writeIndex + bytes) % 2 ^ 32 ∧
        buf.maxCapacity < (buf.writeIndex + bytes) % 2 ^ 32 ∧
        ∃ errorMsg, ensureWritable bytes buf = ⟨false, buf.setErrorMsg errorMsg, []⟩) ∨
      (buf.capacity < (buf.writeIndex + bytes) % 2 ^ 32 ∧
        (buf.writeIndex + bytes) % 2 ^ 32 ≤ buf.maxCapacity ∧
        ensureWritable bytes buf =
          ⟨true, (extend (buf.roundedCapacity ((buf.writeIndex + bytes) % 2 ^ 32)) buf).buf,
            (extend (buf.roundedCapacity ((buf.writeIndex + bytes) % 2 ^ 32)) buf).spans⟩) := by
  rw [ensureWritable]
  split_ifs with hcapacity hmax
  · exact .inl ⟨hcapacity, rfl⟩
  · exact .inr (.inl ⟨Nat.lt_of_not_le hcapacity, hmax, _, rfl⟩)
  · exact .inr (.inr ⟨Nat.lt_of_not_le hcapacity, Nat.le_of_not_lt hmax, rfl⟩)

/-- There is room for the bytes, or the request is rejected: the arithmetic on the
new write index does not wrap, neither in the sum nor in the rounding. -/
def Fits (buf : PacketBuf) (count : ℕ) : Prop :=
  buf.maxCapacity < (buf.writeIndex + count) % 2 ^ 32 ∨
    buf.writeIndex + count ≤ buf.capacity ∨
    (buf.writeIndex + count ≤ buf.maxCapacity ∧ buf.writeIndex + count + ioSize ≤ 2 ^ 32)

instance (buf : PacketBuf) (count : ℕ) : Decidable (buf.Fits count) :=
  inferInstanceAs (Decidable (_ ∨ _))

@[simp]
theorem capacity_extend (buf : PacketBuf) (newCapacity : ℕ) :
    (extend newCapacity buf).buf.capacity = newCapacity := by
  simp [extend, capacity]

/-- An extension that is not rounded past the end of the integers. -/
theorem safe_extend (hinv : buf.Invariant) {newWriteIndex : ℕ}
    (hgrow : buf.capacity < newWriteIndex) (hmax : newWriteIndex ≤ buf.maxCapacity)
    (hround : newWriteIndex + ioSize ≤ 2 ^ 32) :
    (extend (buf.roundedCapacity newWriteIndex) buf).Safe ∧
      newWriteIndex ≤ buf.roundedCapacity newWriteIndex := by
  have hroom : newWriteIndex ≤ buf.roundedCapacity newWriteIndex := by
    rw [roundedCapacity]
    rw [ioSize] at *
    omega
  have hle : buf.roundedCapacity newWriteIndex ≤ buf.maxCapacity := Nat.min_le_right _ _
  have hreadable := hinv.readableBytes_eq
  obtain ⟨hread, hwrite, hmin, hcapacity, hlt⟩ := hinv
  refine ⟨⟨⟨hread, ?_, ?_, ?_, hlt⟩, ?_⟩, hroom⟩
  · rw [capacity_extend]
    exact (hwrite.trans hgrow.le).trans hroom
  · rw [capacity_extend]
    exact (hmin.trans hgrow.le).trans hroom
  · rw [capacity_extend]
    exact hle
  · simp only [extend, forall_mem_cons, not_mem_nil, Span.Inside, hreadable]
    refine ⟨.inr ?_, .inr ?_, nofun⟩
    all_goals omega

/-- A fitting request is rejected, or there is room behind it. -/
theorem ensureWritable_of_fits (hinv : buf.Invariant) (hfits : buf.Fits count) :
    (buf.maxCapacity < (buf.writeIndex + count) % 2 ^ 32 ∧
        ∃ errorMsg, ensureWritable count buf = ⟨false, buf.setErrorMsg errorMsg, []⟩) ∨
      ∃ after spans, ensureWritable count buf = ⟨true, after, spans⟩ ∧ after.Invariant ∧
        (∀ span ∈ spans, span.Inside) ∧ after.writeIndex + count ≤ after.capacity ∧
        (after = buf ∨
          ∃ newCapacity, buf.writeIndex ≤ newCapacity ∧ after = (extend newCapacity buf).buf) := by
  have hcapacityLe := hinv.capacity_le
  have hmaxLt := hinv.max_lt
  rw [Fits] at hfits
  rcases buf.ensureWritable_cases count with
    ⟨hroom, heq⟩ | ⟨-, hmax, herror⟩ | ⟨hgrow, hmax, heq⟩
  · exact .inr ⟨buf, [], heq, hinv, nofun, by omega, .inl rfl⟩
  · exact .inl ⟨hmax, herror⟩
  · have hwrap : (buf.writeIndex + count) % 2 ^ 32 = buf.writeIndex + count := by omega
    rw [hwrap] at hgrow hmax heq
    obtain ⟨⟨hafter, hspans⟩, hroom⟩ := safe_extend hinv hgrow hmax (by omega)
    refine .inr ⟨_, _, heq, hafter, hspans, ?_, .inr ⟨_, ?_, rfl⟩⟩
    · rw [capacity_extend]
      exact hroom
    · exact (Nat.le_add_right _ _).trans hroom

theorem safe_append (hinv : buf.Invariant) {value : Bytes}
    (hroom : buf.writeIndex + value.length ≤ buf.capacity) : (append value buf).Safe := by
  obtain ⟨hread, hwrite, hmin, hcapacity, hmax⟩ := hinv
  have hlength : (append value buf).buf.capacity = buf.capacity := length_storeAt _ _ _
  refine ⟨⟨?_, ?_, ?_, ?_, hmax⟩, ?_⟩
  · simp only [append]
    omega
  · rw [hlength]
    simp only [append]
    omega
  · rw [hlength]
    exact hmin
  · rw [hlength]
    exact hcapacity
  · exact forall_mem_singleton.mpr (.inr hroom)

def Provides (buf : PacketBuf) (count newCapacity : ℕ) : Prop :=
  ((buf.writeIndex + count) % 2 ^ 32 ≤ buf.capacity ∧ newCapacity = buf.capacity) ∨
    (buf.capacity < (buf.writeIndex + count) % 2 ^ 32 ∧
      (buf.writeIndex + count) % 2 ^ 32 ≤ buf.maxCapacity ∧
      newCapacity = buf.roundedCapacity ((buf.writeIndex + count) % 2 ^ 32))

/-- A request is rejected and changes neither index nor capacity, or a capacity is
provided. -/
theorem ensureWritable_provides (buf : PacketBuf) (count : ℕ) :
    (buf.maxCapacity < (buf.writeIndex + count) % 2 ^ 32 ∧
        buf.capacity < (buf.writeIndex + count) % 2 ^ 32 ∧
        ∃ errorMsg, ensureWritable count buf = ⟨false, buf.setErrorMsg errorMsg, []⟩) ∨
      ∃ after spans, ensureWritable count buf = ⟨true, after, spans⟩ ∧
        after.writeIndex = buf.writeIndex ∧ after.maxCapacity = buf.maxCapacity ∧
        buf.Provides count after.capacity := by
  rcases buf.ensureWritable_cases count with
    ⟨hroom, heq⟩ | ⟨hgrow, hmax, herror⟩ | ⟨hgrow, hmax, heq⟩
  · exact .inr ⟨_, _, heq, rfl, rfl, .inl ⟨hroom, rfl⟩⟩
  · exact .inl ⟨hmax, hgrow, herror⟩
  · exact .inr ⟨_, _, heq, rfl, rfl, .inr ⟨hgrow, hmax, capacity_extend _ _⟩⟩

/-- Enough capacity is provided only if nothing wraps. -/
theorem Provides.fits (hinv : buf.Invariant) {newCapacity : ℕ}
    (hprovides : buf.Provides count newCapacity) (hroom : buf.writeIndex + count ≤ newCapacity) :
    buf.Fits count := by
  have hmaxLt := hinv.max_lt
  rw [Fits]
  rcases hprovides with ⟨-, rfl⟩ | ⟨hgrow, hmax, rfl⟩
  · exact .inr (.inl hroom)
  · rw [roundedCapacity] at hroom
    rw [ioSize] at *
    omega

theorem writeBytes_provides (buf : PacketBuf) (value : Bytes) :
    (buf.maxCapacity < (buf.writeIndex + value.length) % 2 ^ 32 ∧
        buf.capacity < (buf.writeIndex + value.length) % 2 ^ 32 ∧
        (writeBytes value buf).buf.writeIndex = buf.writeIndex ∧
        (writeBytes value buf).buf.capacity = buf.capacity) ∨
      ∃ newCapacity, buf.Provides value.length newCapacity ∧
        (writeBytes value buf).buf.writeIndex = (buf.writeIndex + value.length) % 2 ^ 32 ∧
        (writeBytes value buf).buf.capacity = newCapacity ∧
        ⟨buf.writeIndex, value.length, newCapacity⟩ ∈ (writeBytes value buf).spans := by
  rw [writeBytes, bind_apply]
  rcases buf.ensureWritable_provides value.length with
    ⟨hmax, hgrow, errorMsg, heq⟩ | ⟨after, spans, heq, hindex, -, hprovides⟩
  · rw [heq]
    exact .inl ⟨hmax, hgrow, rfl, rfl⟩
  · rw [heq]
    refine .inr ⟨_, hprovides, ?_, length_storeAt _ _ _, ?_⟩
    · rw [← hindex]
      rfl
    · rw [← hindex]
      exact mem_append_right _ (mem_append_left _ (mem_singleton_self _))

theorem safe_writeBytes_iff (hinv : buf.Invariant) (value : Bytes) :
    (writeBytes value buf).Safe ↔ buf.Fits value.length := by
  constructor
  · rintro ⟨-, hspans⟩
    rcases buf.writeBytes_provides value with
      ⟨hmax, -⟩ | ⟨newCapacity, hprovides, -, -, hspan⟩
    · exact .inl hmax
    · rcases hspans _ hspan with hnone | hroom
      · have hwrite := hinv.write_le
        dsimp only at hnone
        exact .inr (.inl (by omega))
      · exact hprovides.fits hinv hroom
  · intro hfits
    rw [writeBytes, safe_bind_iff]
    rcases ensureWritable_of_fits hinv hfits with
      ⟨-, errorMsg, heq⟩ | ⟨after, spans, heq, hafter, hspans, hroom, -⟩
    · rw [heq]
      exact ⟨nofun, safe_pure_iff.mpr ((invariant_setErrorMsg _).mpr hinv)⟩
    · rw [heq]
      exact ⟨hspans, safe_bind_pure_iff.mpr (safe_append hafter hroom)⟩

theorem safe_writeBytes_storeLE_iff (hinv : buf.Invariant) (width v : ℕ) :
    (writeBytes (storeLE width v) buf).Safe ↔ buf.Fits width := by
  rw [safe_writeBytes_iff hinv, length_storeLE]

theorem safe_writeUint_iff (hinv : buf.Invariant) (v : ℕ) :
    (writeUint v buf).Safe ↔ buf.Fits (encodedBytesLength v) := by
  rw [writeUint, safe_writeBytes_iff hinv, length_encodedUint]

/-- The prefix is not longer than what follows it, apart from the empty string. -/
theorem encodedBytesLength_le (value : ℕ) :
    encodedBytesLength value ≤ 9 ∧ (encodedBytesLength value ≤ value ∨ value = 0) := by
  rw [encodedBytesLength]
  split_ifs <;> omega

variable {str : Bytes}

theorem safe_writeChars_false_iff (hstr : str.length < 2 ^ 32) :
    (writeChars str false buf).Safe ↔ (writeBytes str buf).Safe := by
  have hsize : stringSize str false % 2 ^ 32 = str.length := by
    rw [stringSize, if_neg Bool.false_ne_true, Nat.zero_add, Nat.mod_eq_of_lt hstr]
  rw [writeChars, hsize, writeBytes, safe_bind_iff, safe_bind_iff]
  rcases ensureWritable str.length buf with ⟨_ | _, after, spans⟩ <;> rfl

section Strings

variable (hinv : buf.Invariant)

include hinv

/-- The length and the string behind it, when there is room for both. -/
theorem safe_prefixed (total : ℕ) (hroom : buf.writeIndex + stringSize str true ≤ buf.capacity) :
    ((do
      let _ ← writeUint str.length
      append str
      return some total : PacketM (Option ℕ)) buf).Safe := by
  rw [stringSize, if_pos rfl, ← length_encodedUint] at hroom
  have hfits : buf.Fits (encodedUint str.length).length := .inr (.inl (by omega))
  obtain ⟨hafter, hspans⟩ := (safe_writeBytes_iff hinv _).mpr hfits
  rw [safe_bind_iff]
  refine ⟨hspans, safe_bind_pure_iff.mpr (safe_append hafter ?_)⟩
  rcases buf.writeBytes_provides (encodedUint str.length) with
    ⟨-, hgrow, -⟩ | ⟨newCapacity, hprovides, hindex, hnew, -⟩
  · omega
  · rcases hprovides with ⟨-, rfl⟩ | ⟨hgrow, -⟩
    · omega
    · omega

/-- When the length and the string stay inside the capacity, nothing has wrapped. -/
theorem fits_of_safe_prefixed {after : PacketBuf} (hindex : after.writeIndex = buf.writeIndex)
    (hmaxEq : after.maxCapacity = buf.maxCapacity)
    (hprovides : buf.Provides (stringSize str true % 2 ^ 32) after.capacity)
    (hspans : ∀ span ∈ (writeUint str.length after).spans ++ (append str (writeUint str.length
      after).buf).spans, span.Inside) : buf.Fits (stringSize str true) := by
  obtain ⟨hfirst, hsecond⟩ := forall_mem_append.mp hspans
  have hstring := forall_mem_singleton.mp hsecond
  obtain ⟨hnine, hshort⟩ := encodedBytesLength_le str.length
  have hinitial := after.writeBytes_provides (encodedUint str.length)
  rw [length_encodedUint, hindex, hmaxEq] at hinitial
  obtain ⟨hread, hwrite, -, hcapacity, hmaxLt⟩ := hinv
  rw [Provides, Nat.add_mod_mod, roundedCapacity] at hprovides
  rw [stringSize, if_pos rfl] at hprovides ⊢
  rw [Fits]
  rw [ioSize] at *
  rcases hinitial with ⟨hmax, hgrow, hindexAfter, hcapacityAfter⟩ |
    ⟨newCapacity, hnewCapacity, hindexAfter, hcapacityAfter, hspan⟩
  · change _ ∨ (writeBytes (encodedUint str.length) after).buf.writeIndex + str.length ≤
      (writeBytes (encodedUint str.length) after).buf.capacity at hstring
    dsimp only at hstring
    omega
  · change _ ∨ (writeBytes (encodedUint str.length) after).buf.writeIndex + str.length ≤
      (writeBytes (encodedUint str.length) after).buf.capacity at hstring
    have hlength := hfirst _ hspan
    rw [Provides, roundedCapacity, hindex, hmaxEq] at hnewCapacity
    rw [ioSize] at hnewCapacity
    rw [Span.Inside] at hlength
    dsimp only at hstring hlength
    omega

theorem safe_writeChars_iff (hstr : str.length < 2 ^ 32) (withLength : Bool) :
    (writeChars str withLength buf).Safe ↔ buf.Fits (stringSize str withLength) := by
  cases withLength with
  | false =>
    rw [safe_writeChars_false_iff hstr, safe_writeBytes_iff hinv]
    simp [stringSize]
  | true =>
    have hwrap : (buf.writeIndex + stringSize str true % 2 ^ 32) % 2 ^ 32 =
        (buf.writeIndex + stringSize str true) % 2 ^ 32 := Nat.add_mod_mod _ _ _
    rw [writeChars, safe_bind_iff]
    constructor
    · rintro ⟨-, hrest⟩
      rcases buf.ensureWritable_provides (stringSize str true % 2 ^ 32) with
        ⟨hmax, -, -⟩ | ⟨after, spans, heq, hindex, hmaxEq, hprovides⟩
      · exact .inl (hwrap ▸ hmax)
      · rw [heq] at hrest
        obtain ⟨hlength, hstring⟩ := safe_bind_iff.mp hrest
        exact fits_of_safe_prefixed hinv hindex hmaxEq hprovides
          (forall_mem_append.mpr ⟨hlength, (safe_bind_pure_iff.mp hstring).2⟩)
    · intro hfits
      have hcapacity := hinv.capacity_le
      have hmaxLt := hinv.max_lt
      have hsmall : buf.Fits (stringSize str true % 2 ^ 32) := by
        rw [Fits] at hfits ⊢
        omega
      rcases ensureWritable_of_fits hinv hsmall with
        ⟨-, errorMsg, heq⟩ | ⟨after, spans, heq, hafter, hspans, hroom, -⟩
      · rw [heq]
        exact ⟨nofun, safe_pure_iff.mpr ((invariant_setErrorMsg _).mpr hinv)⟩
      · rw [heq]
        have hsize : stringSize str true % 2 ^ 32 = stringSize str true := by
          rcases buf.ensureWritable_provides (stringSize str true % 2 ^ 32) with
            ⟨-, -, errorMsg, hrejected⟩ | ⟨other, otherSpans, -, -, -, hprovides⟩
          · exact absurd (congrArg Result.value (heq.symm.trans hrejected)) (by simp)
          · rw [Provides, hwrap] at hprovides
            rw [Fits] at hfits
            omega
        rw [hsize] at hroom
        exact ⟨hspans, safe_prefixed hafter _ hroom⟩

theorem safe_writeCString_iff (str : Bytes) :
    (writeCString str buf).Safe ↔ buf.Fits ((str.length + 1) % 2 ^ 32) := by
  have hlength : ((str ++ [0]).take ((str.length + 1) % 2 ^ 32)).length =
      (str.length + 1) % 2 ^ 32 := by
    rw [length_take, length_append, length_singleton]
    omega
  rw [writeCString, safe_writeChars_iff hinv (by omega), stringSize, hlength]
  simp

end Strings

/-- The public operations that read, skip or write, with their arguments. -/
inductive Operation where
  | writeUint1 (v : UInt8)
  | writeUint2 (v : UInt16)
  | writeUint3 (v : UInt32)
  | writeUint4 (v : UInt32)
  | writeUint6 (v : UInt64)
  | writeUint8 (v : UInt64)
  | writeUint (v : UInt64)
  | writeChars (str : {str : Bytes // str.length < 2 ^ 32}) (withLength : Bool)
  | writeString (str : Bytes) (withLength : Bool)
  | writeCString (str : Bytes)
  | readUint1
  | readUint2
  | readUint3
  | readUint4
  | readUint6
  | readUint8
  | readUint
  | readFixedLengthString (len : UInt32)
  | readLengthEncodedString
  | readNullTerminatedString
  | readBytes (len : UInt32)
  | readSkip (len : UInt32)
  | readRemainingBytes

namespace Operation

def run : Operation → PacketM Unit
  | writeUint1 v => do let _ ← PacketBuf.writeUint1 v.toNat
  | writeUint2 v => do let _ ← PacketBuf.writeUint2 v.toNat
  | writeUint3 v => do let _ ← PacketBuf.writeUint3 v.toNat
  | writeUint4 v => do let _ ← PacketBuf.writeUint4 v.toNat
  | writeUint6 v => do let _ ← PacketBuf.writeUint6 v.toNat
  | writeUint8 v => do let _ ← PacketBuf.writeUint8 v.toNat
  | writeUint v => do let _ ← PacketBuf.writeUint v.toNat
  | writeChars str withLength => do let _ ← PacketBuf.writeChars str.1 withLength
  | writeString str withLength => do let _ ← PacketBuf.writeString str withLength
  | writeCString str => do let _ ← PacketBuf.writeCString str
  | readUint1 => do let _ ← PacketBuf.readUint1
  | readUint2 => do let _ ← PacketBuf.readUint2
  | readUint3 => do let _ ← PacketBuf.readUint3
  | readUint4 => do let _ ← PacketBuf.readUint4
  | readUint6 => do let _ ← PacketBuf.readUint6
  | readUint8 => do let _ ← PacketBuf.readUint8
  | readUint => do let _ ← PacketBuf.readUint
  | readFixedLengthString len => do let _ ← PacketBuf.readFixedLengthString len.toNat
  | readLengthEncodedString => do let _ ← PacketBuf.readLengthEncodedString
  | readNullTerminatedString => do let _ ← PacketBuf.readNullTerminatedString
  | readBytes len => do let _ ← PacketBuf.readBytes len.toNat
  | readSkip len => do let _ ← PacketBuf.readSkip len.toNat
  | readRemainingBytes => do let _ ← PacketBuf.readRemainingBytes

/-- A write fits; a string that ends with NUL ends within the readable bytes. -/
def Allowed (buf : PacketBuf) : Operation → Prop
  | writeUint1 _ => buf.Fits 1
  | writeUint2 _ => buf.Fits 2
  | writeUint3 _ => buf.Fits 3
  | writeUint4 _ => buf.Fits 4
  | writeUint6 _ => buf.Fits 6
  | writeUint8 _ => buf.Fits 8
  | writeUint v => buf.Fits (encodedBytesLength v.toNat)
  | writeChars str withLength => buf.Fits (stringSize str.1 withLength)
  | writeString str withLength =>
    buf.Fits (stringSize (str.take (str.length % 2 ^ 32)) withLength)
  | writeCString str => buf.Fits ((str.length + 1) % 2 ^ 32)
  | readNullTerminatedString =>
    0 ∈ slice buf.memory buf.readIndex (buf.writeIndex - buf.readIndex)
  | _ => True

/-- One operation on a buffer that keeps the invariant. -/
theorem safe_run_iff (hinv : buf.Invariant) (operation : Operation) :
    (operation.run buf).Safe ↔ operation.Allowed buf := by
  cases operation <;> rw [run, safe_bind_pure_iff]
  case writeUint1 v => exact safe_writeBytes_storeLE_iff hinv 1 _
  case writeUint2 v => exact safe_writeBytes_storeLE_iff hinv 2 _
  case writeUint3 v => exact safe_writeBytes_storeLE_iff hinv 3 _
  case writeUint4 v => exact safe_writeBytes_storeLE_iff hinv 4 _
  case writeUint6 v => exact safe_writeBytes_storeLE_iff hinv 6 _
  case writeUint8 v => exact safe_writeBytes_storeLE_iff hinv 8 _
  case writeUint v => exact safe_writeUint_iff hinv _
  case writeChars str withLength => exact safe_writeChars_iff hinv str.2 withLength
  case writeString str withLength =>
    exact safe_writeChars_iff hinv (by rw [length_take]; omega) withLength
  case writeCString str => exact safe_writeCString_iff hinv str
  case readNullTerminatedString => exact safe_readNullTerminatedString_iff hinv
  case readUint => exact iff_of_true (safe_readUint hinv) trivial
  case readLengthEncodedString => exact iff_of_true (safe_readLengthEncodedString hinv) trivial
  case readFixedLengthString len => exact iff_of_true (safe_readBytes hinv _) trivial
  case readBytes len => exact iff_of_true (safe_readBytes hinv _) trivial
  case readSkip len => exact iff_of_true (safe_readSkip hinv _) trivial
  case readRemainingBytes => exact iff_of_true (safe_readRemainingBytes hinv) trivial
  all_goals exact iff_of_true (safe_readFixed hinv _) trivial

end Operation

/-- Every operation of the run is safe in the buffer that the ones before it leave. -/
def SafeRun : List Operation → PacketBuf → Prop
  | [], _ => True
  | operation :: rest, buf => (operation.run buf).Safe ∧ SafeRun rest (operation.run buf).buf

instance decidableSafeRun :
    (operations : List Operation) → (buf : PacketBuf) → Decidable (SafeRun operations buf)
  | [], _ => isTrue trivial
  | _ :: rest, _ =>
    have := decidableSafeRun rest
    inferInstanceAs (Decidable (_ ∧ _))

/-- Every operation of the run is allowed in the buffer that the ones before it leave. -/
def AllowedRun : List Operation → PacketBuf → Prop
  | [], _ => True
  | operation :: rest, buf => operation.Allowed buf ∧ AllowedRun rest (operation.run buf).buf

/-- From a buffer that keeps the invariant, a run keeps it and stays inside the bounds
exactly when each of its writes fits and each of its NUL-terminated strings ends
within the readable bytes. -/
theorem safeRun_iff_allowedRun (hinv : buf.Invariant) (operations : List Operation) :
    SafeRun operations buf ↔ AllowedRun operations buf := by
  induction operations generalizing buf with
  | nil => exact Iff.rfl
  | cons operation rest ih =>
    rw [SafeRun, AllowedRun, ← operation.safe_run_iff hinv]
    exact and_congr_right fun hsafe => ih hsafe.1

/-- A packet is written into a buffer that has to grow, and read again. -/
theorem safeRun_sample :
    (new 8 64).Invariant ∧
      SafeRun [.writeUint4 7, .writeCString [114, 111, 111, 116], .writeString [1, 2] true,
        .readUint4, .readNullTerminatedString, .readLengthEncodedString, .readSkip 1]
        (new 8 64) := by
  have hinv : (new 8 64).Invariant := by decide
  refine ⟨hinv, (safeRun_iff_allowedRun hinv _).mpr ⟨.inr (.inl (by decide)),
    .inr (.inr (by decide)), .inr (.inl (by decide)), trivial, ?_, trivial, trivial, trivial⟩⟩
  change (0 : UInt8) ∈ slice _ _ _
  decide +kernel

/-- The start of a handshake response: flags, packet size, character set, filler, and a
user name without its NUL. -/
def openHandshake : PacketBuf :=
  { memory := [0, 2, 0, 0] ++ List.replicate 28 0 ++ [114, 111, 111, 116] ++ List.replicate 4 0
    minCapacity := 40
    maxCapacity := 64
    writeIndex := 36 }

/-- The reads of the handshake parser up to the user name take the read index behind the
write index. -/
theorem not_safeRun_openHandshake :
    openHandshake.Invariant ∧
      SafeRun [.readUint4, .readUint4, .readUint1, .readSkip 23] openHandshake ∧
      ¬ SafeRun [.readUint4, .readUint4, .readUint1, .readSkip 23, .readNullTerminatedString]
        openHandshake := by
  decide +kernel

end PacketBuf

end OblogProxy.Protocol
