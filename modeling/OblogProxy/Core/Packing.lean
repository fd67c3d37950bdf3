import Mathlib

/-!
# Greedy packing into bounded packets

Records arrive in order and are grouped into packets whose total size stays
within a capacity.  A record that alone exceeds the capacity travels in a
packet of its own.  The packing is the reference the record sender is compared
with; nothing here depends on how a particular sender keeps its state.
-/

namespace OblogProxy.Packing

/-- Continue the packing with the records of `pending` already collected. -/
def packFrom (capacity : ℕ) (pending : List ℕ) : List ℕ → List (List ℕ)
  | [] => if pending = [] then [] else [pending]
  | size :: rest =>
    if pending = [] then
      if capacity < size then [size] :: packFrom capacity [] rest
      else packFrom capacity [size] rest
    else if capacity < pending.sum + size then
      if capacity < size then pending :: [size] :: packFrom capacity [] rest
      else pending :: packFrom capacity [size] rest
    else packFrom capacity (pending ++ [size]) rest

def pack (capacity : ℕ) (sizes : List ℕ) : List (List ℕ) :=
  packFrom capacity [] sizes

theorem packFrom_nil_cons (capacity size : ℕ) (rest : List ℕ) :
    packFrom capacity [] (size :: rest) =
      if capacity < size then [size] :: packFrom capacity [] rest
      else packFrom capacity [size] rest := by
  simp [packFrom]

/-- A record that does not fit closes the pending packet and starts over. -/
theorem packFrom_overflow {capacity size : ℕ} {pending rest : List ℕ}
    (hpending : pending ≠ []) (hover : capacity < pending.sum + size) :
    packFrom capacity pending (size :: rest) =
      pending :: packFrom capacity [] (size :: rest) := by
  simp only [packFrom, hpending, if_false, hover, if_true]
  split <;> rfl

theorem packFrom_fits {capacity size : ℕ} {pending rest : List ℕ}
    (hpending : pending ≠ []) (hfits : pending.sum + size ≤ capacity) :
    packFrom capacity pending (size :: rest) =
      packFrom capacity (pending ++ [size]) rest := by
  simp [packFrom, hpending, Nat.not_lt.mpr hfits]

/-- A packing in progress always continues the pending packet: the next packet
begins with the pending records. -/
theorem packFrom_head {capacity : ℕ} (pending rest : List ℕ) (hpending : pending ≠ []) :
    ∃ more packets, packFrom capacity pending rest =
      (pending ++ more) :: packets := by
  induction rest generalizing pending with
  | nil => exact ⟨[], [], by simp [packFrom, hpending]⟩
  | cons size rest ih =>
    by_cases hover : capacity < pending.sum + size
    · exact ⟨[], _, by rw [packFrom_overflow hpending hover, List.append_nil]⟩
    · obtain ⟨more, packets, heq⟩ := ih (pending ++ [size]) (by simp)
      rw [packFrom_fits hpending (Nat.not_lt.mp hover), heq]
      simp

end OblogProxy.Packing

namespace OblogProxy.Fragments

variable {Item : Type*} {limit : ℕ}

def fragments (limit : ℕ) (payload : List Item) : List (List Item) :=
  if _hfull : 0 < limit ∧ limit ≤ payload.length then
    payload.take limit :: fragments limit (payload.drop limit)
  else [payload]
termination_by payload.length
decreasing_by
  rw [List.length_drop]
  omega

theorem fragments_of_lt {payload : List Item} (hshort : payload.length < limit) :
    fragments limit payload = [payload] := by
  rw [fragments, dif_neg fun hfull => hfull.2.not_gt hshort]

theorem fragments_of_le (hlimit : 0 < limit) {payload : List Item}
    (hfull : limit ≤ payload.length) :
    fragments limit payload = payload.take limit :: fragments limit (payload.drop limit) := by
  rw [fragments, dif_pos ⟨hlimit, hfull⟩]

/-- What holds of short payloads, and of a payload when it holds behind its first
fragment, holds of every payload. -/
theorem fragment_induction (hlimit : 0 < limit) {motive : List Item → Prop}
    (short : ∀ payload : List Item, payload.length < limit → motive payload)
    (full : ∀ payload : List Item, limit ≤ payload.length → motive (payload.drop limit) →
      motive payload) (payload : List Item) : motive payload := by
  induction hlength : payload.length using Nat.strong_induction_on generalizing payload with
  | _ length ih =>
    rcases Nat.lt_or_ge payload.length limit with hshort | hfull
    · exact short payload hshort
    · refine full payload hfull (ih _ ?_ _ rfl)
      rw [List.length_drop]
      omega

end OblogProxy.Fragments
