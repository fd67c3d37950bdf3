import Mathlib

/-!
# Byte buffers

Little-endian and big-endian integers, reads at an offset that fail when they run past the
end, and the search of a reader's position by what is left of the buffer:
`bytes.drop pos = value ++ rest` says that `value` stands at `pos`.  Pieces are arrays that are
copied one behind the other, each with a length that is kept apart from it.
-/

namespace OblogProxy

open List

abbrev Bytes := List UInt8

namespace Bytes

/-- The low `width` bytes of a number, least significant first. -/
def storeLE : ℕ → ℕ → Bytes
  | 0, _ => []
  | width + 1, value => UInt8.ofNat (value % 256) :: storeLE width (value / 256)

def loadLE : Bytes → ℕ
  | [] => 0
  | byte :: bytes => byte.toNat + 256 * loadLE bytes

@[simp]
theorem length_storeLE (width value : ℕ) : (storeLE width value).length = width := by
  induction width generalizing value with
  | zero => rfl
  | succ width ih => simp [storeLE, ih]

theorem loadLE_storeLE (width value : ℕ) :
    loadLE (storeLE width value) = value % 256 ^ width := by
  induction width generalizing value with
  | zero => simp [storeLE, loadLE, Nat.mod_one]
  | succ width ih =>
    have hbyte : (UInt8.ofNat (value % 256)).toNat = value % 256 := by simp
    rw [storeLE, loadLE, ih, hbyte, Nat.pow_succ, Nat.mul_comm (256 ^ width) 256, Nat.mod_mul]

theorem loadLE_lt (bytes : Bytes) : loadLE bytes < 256 ^ bytes.length := by
  induction bytes with
  | nil => simp [loadLE]
  | cons byte bytes ih =>
    have hbyte := byte.toNat_lt
    rw [loadLE, length_cons, Nat.pow_succ]
    omega

theorem storeLE_mod (width value : ℕ) : storeLE width (value % 256 ^ width) = storeLE width value := by
  induction width generalizing value with
  | zero => rfl
  | succ width ih =>
    have hlow : value % 256 ^ (width + 1) % 256 = value % 256 :=
      Nat.mod_mod_of_dvd _ (Dvd.intro_left _ (Nat.pow_succ 256 width).symm)
    have hhigh : value % 256 ^ (width + 1) / 256 = value / 256 % 256 ^ width := by
      rw [Nat.pow_succ', Nat.mod_mul_right_div_self]
    rw [storeLE, storeLE, hlow, hhigh, ih]

theorem loadLE_storeLE_of_lt {width value : ℕ} (hvalue : value < 256 ^ width) :
    loadLE (storeLE width value) = value := by
  rw [loadLE_storeLE, Nat.mod_eq_of_lt hvalue]

/-- `length` bytes from `pos` on, fewer at the end of the buffer. -/
def slice (bytes : Bytes) (pos length : ℕ) : Bytes :=
  (bytes.drop pos).take length

/-- A read that fails unless all `length` bytes are there. -/
def readAt (bytes : Bytes) (pos length : ℕ) : Option Bytes :=
  if (slice bytes pos length).length = length then some (slice bytes pos length) else none

/-- Replace the bytes from `pos` on. -/
def overwrite (bytes : Bytes) (pos : ℕ) (value : Bytes) : Bytes :=
  bytes.take pos ++ value ++ bytes.drop (pos + value.length)

section BigEndian

/-- The low `width` bytes of a number, most significant first. -/
def storeBE (width value : ℕ) : Bytes :=
  (storeLE width value).reverse

def loadBE (bytes : Bytes) : ℕ :=
  loadLE bytes.reverse

@[simp]
theorem length_storeBE (width value : ℕ) : (storeBE width value).length = width := by
  rw [storeBE, length_reverse, length_storeLE]

variable {width value : ℕ}

theorem loadBE_storeBE_of_lt (hvalue : value < 256 ^ width) :
    loadBE (storeBE width value) = value := by
  rw [loadBE, storeBE, reverse_reverse, loadLE_storeLE_of_lt hvalue]

/-- The low bytes of a field come first, the quotient behind them. -/
theorem storeLE_add (low high value : ℕ) :
    storeLE (low + high) value = storeLE low value ++ storeLE high (value / 256 ^ low) := by
  induction low generalizing value with
  | zero => simp [storeLE]
  | succ low ih =>
    rw [Nat.add_right_comm, storeLE, storeLE, ih, cons_append, Nat.div_div_eq_div_mul,
      ← Nat.pow_succ']

theorem storeLE_zero (width : ℕ) : storeLE width 0 = replicate width 0 := by
  induction width with
  | zero => rfl
  | succ width ih => simp [storeLE, ih, replicate_succ]

theorem storeBE_zero (width : ℕ) : storeBE width 0 = replicate width 0 := by
  rw [storeBE, storeLE_zero, reverse_replicate]

/-- A wider field starts with zero bytes. -/
theorem storeBE_add (extra : ℕ) (hvalue : value < 256 ^ width) :
    storeBE (extra + width) value = replicate extra 0 ++ storeBE width value := by
  rw [storeBE, Nat.add_comm extra, storeLE_add, Nat.div_eq_of_lt hvalue, storeLE_zero,
    reverse_append, reverse_replicate, storeBE]

theorem storeBE_succ (width value : ℕ) :
    storeBE (width + 1) value = UInt8.ofNat (value / 256 ^ width % 256) :: storeBE width value := by
  rw [storeBE, storeLE_add, reverse_append, storeBE]
  rfl

/-- The first byte of a number in the lower half of its field has its top bit clear. -/
theorem head_storeBE_lt (hvalue : value < 128 * 256 ^ width) :
    (UInt8.ofNat (value / 256 ^ width % 256)).toNat < 128 := by
  have hquotient : value / 256 ^ width < 128 := (Nat.div_lt_iff_lt_mul (by positivity)).mpr hvalue
  rw [UInt8.toNat_ofNat', Nat.mod_mod, Nat.mod_eq_of_lt (by omega)]
  exact hquotient

theorem ofNat_complement (hvalue : value < 256) :
    UInt8.ofNat (255 - value) = ~~~ UInt8.ofNat value := by
  apply UInt8.toNat_inj.mp
  rw [UInt8.toNat_not, UInt8.toNat_ofNat', UInt8.toNat_ofNat', Nat.mod_eq_of_lt hvalue,
    Nat.mod_eq_of_lt (by omega)]
  rfl

theorem storeLE_complement {bound : ℕ} (hbound : value < 256 ^ width * bound) :
    storeLE width (256 ^ width * bound - 1 - value) = (storeLE width value).map (~~~ ·) := by
  induction width generalizing value with
  | zero => rfl
  | succ width ih =>
    rw [Nat.pow_succ', Nat.mul_assoc] at hbound ⊢
    generalize hrest : 256 ^ width * bound = rest at hbound ih ⊢
    have hbyte : (256 * rest - 1 - value) % 256 = 255 - value % 256 := by omega
    have hquotient : (256 * rest - 1 - value) / 256 = rest - 1 - value / 256 := by omega
    rw [storeLE, storeLE, map_cons, hbyte, hquotient, ih (by omega),
      ofNat_complement (Nat.mod_lt _ (by decide))]

/-- A 32-bit complement, cut to the low bytes. -/
theorem storeBE_not (value : UInt32) (hwidth : width ≤ 4) :
    storeBE width (~~~ value).toNat = (storeBE width value.toNat).map (~~~ ·) := by
  have hsize : 256 ^ width * 256 ^ (4 - width) = 2 ^ 32 := by
    rw [← Nat.pow_add, Nat.add_sub_cancel' hwidth]
    rfl
  have hvalue : value.toNat < 256 ^ width * 256 ^ (4 - width) := hsize ▸ value.toNat_lt
  have hstored := storeLE_complement hvalue
  rw [hsize] at hstored
  rw [storeBE, storeBE, UInt32.toNat_not, map_reverse, ← hstored]
  rfl

end BigEndian

variable {bytes value rest : Bytes} {pos : ℕ}

theorem slice_of_drop (hdrop : bytes.drop pos = value ++ rest) :
    slice bytes pos value.length = value := by
  rw [slice, hdrop, take_left]

theorem loadLE_slice_of_drop {width value : ℕ}
    (hdrop : bytes.drop pos = storeLE width value ++ rest) (hvalue : value < 256 ^ width) :
    loadLE (slice bytes pos width) = value := by
  have hslice := slice_of_drop hdrop
  rw [length_storeLE] at hslice
  rw [hslice, loadLE_storeLE_of_lt hvalue]

theorem readAt_of_drop {bytes value rest : Bytes} {pos length : ℕ}
    (hdrop : bytes.drop pos = value ++ rest) (hlength : value.length = length) :
    readAt bytes pos length = some value := by
  subst hlength
  rw [readAt, slice_of_drop hdrop, if_pos rfl]

variable {length : ℕ}

theorem slice_of_readAt (hread : readAt bytes pos length = some value) :
    slice bytes pos length = value := by
  rw [readAt] at hread
  split_ifs at hread
  exact Option.some.inj hread

theorem readAt_eq_none (hshort : (bytes.drop pos).length < length) :
    readAt bytes pos length = none := by
  rw [readAt, if_neg]
  rw [slice, length_take]
  omega

theorem drop_add_of_drop (hdrop : bytes.drop pos = value ++ rest)
    (hlength : value.length = length) : bytes.drop (pos + length) = rest := by
  rw [← drop_drop, hdrop, ← hlength, drop_left]

/-- Reads within a part of the buffer that is already there are not changed by
what is appended later. -/
theorem readAt_take {bound : ℕ} (hbound : pos + length ≤ bound) :
    readAt (bytes.take bound) pos length = readAt bytes pos length := by
  have hslice : slice (bytes.take bound) pos length = slice bytes pos length := by
    rw [slice, slice, drop_take, take_take, Nat.min_eq_left (by omega)]
  rw [readAt, readAt, hslice]

@[simp]
theorem length_overwrite (hfits : pos + value.length ≤ bytes.length) :
    (overwrite bytes pos value).length = bytes.length := by
  simp only [overwrite, length_append, length_take, length_drop]
  omega

theorem overwrite_append {front old value : Bytes} (back : Bytes)
    (hlength : old.length = value.length) :
    overwrite (front ++ (old ++ back)) front.length value = front ++ (value ++ back) := by
  rw [overwrite, take_left, ← hlength, ← length_append, ← append_assoc front,
    drop_left, append_assoc]

/-- Reading up to the end of what was overwritten. -/
theorem slice_overwrite {bytes value : Bytes} {start pos : ℕ} (hstart : start ≤ pos)
    (hfits : pos + value.length ≤ bytes.length) :
    slice (overwrite bytes pos value) start (pos - start + value.length) =
      slice bytes start (pos - start) ++ value := by
  have hfront : ((bytes.drop start).take (pos - start)).length = pos - start := by
    rw [length_take, length_drop]
    omega
  have hdrop : (overwrite bytes pos value).drop start =
      ((bytes.drop start).take (pos - start) ++ value) ++ bytes.drop (pos + value.length) := by
    rw [overwrite, append_assoc, drop_append_of_le_length, drop_take, append_assoc]
    rw [length_take]
    omega
  have hlength : pos - start + value.length =
      ((bytes.drop start).take (pos - start) ++ value).length := by
    rw [length_append, hfront]
  rw [slice, hdrop, hlength, take_left, slice]

end Bytes

end OblogProxy

namespace OblogProxy.Pieces

open Bytes

/-- An array and the number of bytes that are copied from it. -/
abbrev Piece : Type := Bytes × ℕ

def whole (value : Bytes) : Piece :=
  (value, value.length)

def copied (pieces : List Piece) : Bytes :=
  pieces.flatMap fun piece => piece.1.take piece.2

def position (pieces : List Piece) : ℕ :=
  (pieces.map Prod.snd).sum

/-- No copy reads behind the end of an array. -/
def InBounds (pieces : List Piece) : Prop :=
  ∀ piece ∈ pieces, piece.2 ≤ piece.1.length

@[simp]
theorem inBounds_nil : InBounds [] := by
  simp [InBounds]

@[simp]
theorem inBounds_cons (piece : Piece) (pieces : List Piece) :
    InBounds (piece :: pieces) ↔ piece.2 ≤ piece.1.length ∧ InBounds pieces :=
  List.forall_mem_cons

@[simp]
theorem inBounds_append (front back : List Piece) :
    InBounds (front ++ back) ↔ InBounds front ∧ InBounds back :=
  List.forall_mem_append

@[simp]
theorem position_nil : position [] = 0 := rfl

@[simp]
theorem position_cons (piece : Piece) (pieces : List Piece) :
    position (piece :: pieces) = piece.2 + position pieces := by
  simp [position]

@[simp]
theorem position_append (front back : List Piece) :
    position (front ++ back) = position front + position back := by
  simp [position]

@[simp]
theorem copied_cons (piece : Piece) (pieces : List Piece) :
    copied (piece :: pieces) = piece.1.take piece.2 ++ copied pieces :=
  List.flatMap_cons

theorem length_copied {pieces : List Piece} (hbounds : InBounds pieces) :
    (copied pieces).length = position pieces := by
  induction pieces with
  | nil => rfl
  | cons piece pieces ih =>
    rw [inBounds_cons] at hbounds
    rw [copied_cons, position_cons, List.length_append, ih hbounds.2, List.length_take,
      Nat.min_eq_left hbounds.1]

end OblogProxy.Pieces
