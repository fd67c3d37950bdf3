import OblogProxy.Core.Bytes

/-!
# Length-encoded integers

Four functions know the length-encoded form of an integer: `write_lenenc_uint` and
`packet_store_length` write it, `get_packed_integer` says how long it is, and
`get_lenenc_uint` reads it.
-/

namespace OblogProxy.Protocol

open Bytes Option

/-- The form that `write_lenenc_uint` writes.  Of a number of three bytes the upper three
of its four bytes are copied. -/
def lenencUint (integer : ℕ) : Bytes :=
  if integer < 251 then storeLE 1 integer
  else if integer < 2 ^ 16 then 0xFC :: storeLE 2 integer
  else if integer < 2 ^ 24 then 0xFD :: (storeLE 4 integer).drop 1
  else if integer < 2 ^ 64 - 1 then 0xFE :: storeLE 8 integer
  else [0xFB]

/-- The bytes that are written, as many as are returned; `none` is a failure. -/
def writeLenencUint (capacity integer : ℕ) : Option Bytes :=
  if (lenencUint integer).length ≤ capacity then some (lenencUint integer) else none

def packetStoreLength (length : ℕ) : Bytes :=
  if length < 251 then storeLE 1 length
  else if length < 65536 then 252 :: storeLE 2 length
  else if length < 16777216 then 253 :: storeLE 3 length
  else 254 :: storeLE 8 length

/-- The bounds are twice those of the encoding. -/
def getPackedInteger (val : ℕ) : ℕ :=
  if val < 251 then 1
  else if val < 2 <<< 16 then 3
  else if val < 2 <<< 24 then 4
  else 9

def maxPacketIntegerLen : ℕ := 9

/-- The bytes behind the first one as a number, and the position behind the integer. -/
def readBehind (buf : Bytes) (pos width size : ℕ) : Option (ℕ × ℕ) :=
  (readAt buf (pos + 1) width).map fun tmp => (loadLE tmp, pos + size)

/-- `get_lenenc_uint`: the number and the new position; `none` is a read outside of the
buffer.  Of the eight bytes of a long number four are read. -/
def getLenencUint (buf : Bytes) (pos : ℕ) : Option (ℕ × ℕ) :=
  (readAt buf pos 1).bind fun first =>
    let num := loadLE first
    if num < 251 then some (num, pos + 1)
    else if num = 251 then some (2 ^ 64 - 1, pos + 1)
    else if num = 252 then readBehind buf pos 2 3
    else if num = 253 then readBehind buf pos 3 4
    else readBehind buf pos 4 9

theorem length_lenencUint {integer : ℕ} (hinteger : integer < 2 ^ 64 - 1) :
    (lenencUint integer).length = (packetStoreLength integer).length := by
  rw [lenencUint, packetStoreLength]
  split_ifs <;> first | omega | simp

theorem writeLenencUint_eq_some {capacity : ℕ} (hcapacity : maxPacketIntegerLen ≤ capacity)
    (integer : ℕ) : writeLenencUint capacity integer = some (lenencUint integer) := by
  have hlength : (lenencUint integer).length ≤ 9 := by
    rw [lenencUint]
    split_ifs <;> simp
  rw [writeLenencUint, if_pos (hlength.trans hcapacity)]

theorem length_packetStoreLength {length : ℕ} (hlength : length < 2 ^ 16) :
    (packetStoreLength length).length = getPackedInteger length := by
  rw [packetStoreLength, getPackedInteger]
  split_ifs <;> first | omega | simp

/-- `write_lenenc_uint` writes as many bytes as `get_packed_integer` says, they are those of
`packet_store_length`, and `get_lenenc_uint` reads the number back wherever they stand. -/
def LenencAgrees (capacity integer : ℕ) : Prop :=
  ∃ bytes, writeLenencUint capacity integer = some bytes ∧
    bytes.length = getPackedInteger integer ∧ bytes = packetStoreLength integer ∧
    ∀ front rest, getLenencUint (front ++ (bytes ++ rest)) front.length =
      some (integer, front.length + bytes.length)

theorem packetStoreLength_eq (length : ℕ) :
    packetStoreLength length =
      if length < 251 then storeLE 1 length
      else if length < 2 ^ 16 then 252 :: storeLE 2 length
      else if length < 2 ^ 24 then 253 :: storeLE 3 length
      else 254 :: storeLE 8 length :=
  rfl

/-- A number of three bytes is written without its lowest one. -/
theorem lenencUint_eq_packetStoreLength_iff {integer : ℕ} (hinteger : integer < 2 ^ 64 - 1) :
    lenencUint integer = packetStoreLength integer ↔ integer < 2 ^ 16 ∨ 2 ^ 24 ≤ integer := by
  rw [lenencUint, packetStoreLength_eq]
  split_ifs with hone htwo hthree
  · exact iff_of_true rfl (by omega)
  · exact iff_of_true rfl (by omega)
  · refine iff_of_false (fun heq => ?_) (by omega)
    have hbytes : storeLE 3 (integer / 256) = storeLE 3 integer := (List.cons.inj heq).2
    have hload := congrArg loadLE hbytes
    rw [loadLE_storeLE_of_lt (by omega), loadLE_storeLE_of_lt (by omega)] at hload
    omega
  · exact iff_of_true rfl (by omega)

theorem length_packetStoreLength_iff (integer : ℕ) :
    (packetStoreLength integer).length = getPackedInteger integer ↔
      integer < 2 ^ 16 ∨ 2 ^ 17 ≤ integer ∧ integer < 2 ^ 24 ∨ 2 ^ 25 ≤ integer := by
  rw [packetStoreLength, getPackedInteger]
  split_ifs <;> simp <;> omega

section Reading

variable {buf rest : Bytes} {pos : ℕ}

theorem getLenencUint_of_marker {marker : UInt8} {behind : Bytes} {width size : ℕ}
    (hmarker : (marker.toNat, width, size) ∈ [(252, 2, 3), (253, 3, 4), (254, 4, 9)])
    (hdrop : buf.drop pos = marker :: (behind ++ rest)) (hwidth : behind.length = width) :
    getLenencUint buf pos = some (loadLE behind, pos + size) := by
  have hfront : buf.drop pos = [marker] ++ (behind ++ rest) := hdrop
  have hfirst : readAt buf pos 1 = some [marker] := readAt_of_drop hfront rfl
  have hnum : loadLE [marker] = marker.toNat := by simp [loadLE]
  have hrest : buf.drop (pos + 1) = behind ++ rest := drop_add_of_drop hfront rfl
  have hbehind : readBehind buf pos width size = some (loadLE behind, pos + size) := by
    rw [readBehind, readAt_of_drop hrest hwidth, map_some]
  rw [getLenencUint, hfirst, bind_some]
  simp only [hnum]
  simp only [List.mem_cons, Prod.mk.injEq, List.not_mem_nil, or_false] at hmarker
  rcases hmarker with ⟨hcode, rfl, rfl⟩ | ⟨hcode, rfl, rfl⟩ | ⟨hcode, rfl, rfl⟩
  all_goals
    simp only [hcode]
    exact hbehind

/-- Of a long number the lower half is read. -/
theorem getLenencUint_packetStoreLength {integer : ℕ} (hinteger : integer < 2 ^ 64)
    (hdrop : buf.drop pos = packetStoreLength integer ++ rest) :
    getLenencUint buf pos =
      some (integer % 2 ^ 32, pos + (packetStoreLength integer).length) := by
  rw [packetStoreLength] at hdrop ⊢
  split_ifs at hdrop ⊢ with hone htwo hthree
  · have hnum : loadLE (storeLE 1 integer) = integer := loadLE_storeLE_of_lt (by omega)
    rw [getLenencUint, readAt_of_drop hdrop (length_storeLE 1 _), bind_some]
    simp only [hnum, hone, if_true, length_storeLE]
    rw [Nat.mod_eq_of_lt (by omega)]
  · have hmarked : getLenencUint buf pos = some (loadLE (storeLE 2 integer), pos + 3) :=
      getLenencUint_of_marker (by decide) hdrop (length_storeLE 2 _)
    rw [hmarked, loadLE_storeLE_of_lt (by omega), Nat.mod_eq_of_lt (by omega), List.length_cons,
      length_storeLE]
  · have hmarked : getLenencUint buf pos = some (loadLE (storeLE 3 integer), pos + 4) :=
      getLenencUint_of_marker (by decide) hdrop (length_storeLE 3 _)
    rw [hmarked, loadLE_storeLE_of_lt (by omega), Nat.mod_eq_of_lt (by omega), List.length_cons,
      length_storeLE]
  · have hmarked : getLenencUint buf pos = some (loadLE (storeLE 4 integer), pos + 9) :=
      getLenencUint_of_marker (by decide) hdrop (length_storeLE 4 _)
    have hhalf : (256 : ℕ) ^ 4 = 2 ^ 32 := by norm_num
    rw [hmarked, loadLE_storeLE, List.length_cons, length_storeLE, hhalf]

end Reading

/-- The functions agree on the numbers of at most two bytes, and on those of four bytes from
`2 ^ 25` on. -/
theorem lenencAgrees_iff {capacity integer : ℕ} (hcapacity : maxPacketIntegerLen ≤ capacity)
    (hinteger : integer < 2 ^ 64 - 1) :
    LenencAgrees capacity integer ↔
      integer < 2 ^ 16 ∨ 2 ^ 25 ≤ integer ∧ integer < 2 ^ 32 := by
  have hread : ∀ front rest,
      getLenencUint (front ++ (packetStoreLength integer ++ rest)) front.length =
        some (integer % 2 ^ 32, front.length + (packetStoreLength integer).length) :=
    fun front rest => getLenencUint_packetStoreLength (by omega) List.drop_left
  have hwritten := lenencUint_eq_packetStoreLength_iff hinteger
  have hcounted := length_packetStoreLength_iff integer
  constructor
  · rintro ⟨bytes, hwrite, hcount, hbytes, hback⟩
    rw [writeLenencUint_eq_some hcapacity, some_inj] at hwrite
    subst hbytes
    have hnumber := (hread [] []).symm.trans (hback [] [])
    rw [some_inj, Prod.mk.injEq] at hnumber
    have hsame := hwritten.mp hwrite
    omega
  · intro hclass
    have hsame : lenencUint integer = packetStoreLength integer := hwritten.mpr (by omega)
    refine ⟨packetStoreLength integer, ?_, hcounted.mpr (by omega), rfl, fun front rest => ?_⟩
    · rw [writeLenencUint_eq_some hcapacity, hsame]
    · rw [hread, Nat.mod_eq_of_lt (by omega)]

theorem lenencAgrees_twoBytes :
    maxPacketIntegerLen ≤ 9 ∧ 300 < 2 ^ 64 - 1 ∧ LenencAgrees 9 300 :=
  ⟨by decide, by decide, (lenencAgrees_iff (by decide) (by decide)).mpr (by decide)⟩

/-- `2 ^ 16` takes four bytes, three are announced and the lowest one is not written. -/
theorem not_lenencAgrees_threeBytes :
    maxPacketIntegerLen ≤ 9 ∧ 65536 < 2 ^ 64 - 1 ∧ ¬LenencAgrees 9 65536 := by
  refine ⟨by decide, by decide, ?_⟩
  rintro ⟨bytes, hwrite, hcount, -⟩
  have hbytes : bytes = [0xFD, 0, 1, 0] := (some.inj hwrite).symm
  subst hbytes
  exact absurd hcount (by decide)

end OblogProxy.Protocol
