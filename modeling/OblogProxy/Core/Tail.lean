import Mathlib

/-!
# Records of a growing file

A file is a sequence of records of given sizes, and a reader sees some length
of it.  `complete` is what such a reader can take: the records that end within
the length.
-/

namespace OblogProxy.Tail

variable {Record : Type*} (size : Record → ℕ)

def totalSize (records : List Record) : ℕ :=
  (records.map size).sum

/-- The records that fit in `room` bytes, up to the first that does not. -/
def complete : ℕ → List Record → List Record
  | _, [] => []
  | room, record :: records =>
    if size record ≤ room then record :: complete (room - size record) records else []

@[simp]
theorem totalSize_nil : totalSize size [] = 0 :=
  rfl

@[simp]
theorem totalSize_cons (record : Record) (records : List Record) :
    totalSize size (record :: records) = size record + totalSize size records :=
  List.sum_cons

@[simp]
theorem totalSize_append (front back : List Record) :
    totalSize size (front ++ back) = totalSize size front + totalSize size back := by
  simp [totalSize]

theorem length_le_totalSize (hsize : ∀ record, 0 < size record) (records : List Record) :
    records.length ≤ totalSize size records := by
  induction records with
  | nil => exact Nat.le_refl 0
  | cons record records ih =>
    have hrecord := hsize record
    rw [List.length_cons, totalSize_cons]
    omega

theorem totalSize_complete_le (room : ℕ) (records : List Record) :
    totalSize size (complete size room records) ≤ room := by
  induction records generalizing room with
  | nil => exact Nat.zero_le room
  | cons record records ih =>
    rw [complete]
    split_ifs with hfits
    · have htail := ih (room - size record)
      rw [totalSize_cons]
      omega
    · exact Nat.zero_le room

theorem length_complete_le (hsize : ∀ record, 0 < size record) (room : ℕ)
    (records : List Record) : (complete size room records).length ≤ room := by
  induction records generalizing room with
  | nil => exact Nat.zero_le room
  | cons record records ih =>
    rw [complete]
    split_ifs with hfits
    · have htail := ih (room - size record)
      have hrecord := hsize record
      rw [List.length_cons]
      omega
    · exact Nat.zero_le room

theorem complete_map {Other : Type*} (other : Other → Record) (room : ℕ) (records : List Other) :
    complete size room (records.map other) =
      (complete (fun record => size (other record)) room records).map other := by
  induction records generalizing room with
  | nil => rfl
  | cons record records ih =>
    rw [List.map_cons, complete, complete]
    split_ifs with hfits
    · rw [ih, List.map_cons]
    · rfl

/-- What a longer look takes: what the shorter one took, and what has become
complete since. -/
theorem complete_split {front rest : List Record} {shorter longer : ℕ}
    (hfront : complete size shorter (front ++ rest) = front) (hlonger : shorter ≤ longer) :
    complete size longer (front ++ rest) =
      front ++ complete size (longer - totalSize size front) rest := by
  induction front generalizing shorter longer with
  | nil => simp
  | cons record front ih =>
    rw [List.cons_append, complete] at hfront
    split_ifs at hfront with hfits
    · have htail := ih (List.cons.inj hfront).2 (Nat.sub_le_sub_right hlonger (size record))
      rw [List.cons_append, complete, if_pos (hfits.trans hlonger), htail, totalSize_cons,
        Nat.sub_sub, List.cons_append]

variable {room : ℕ}

theorem complete_rest {front rest : List Record}
    (hfront : complete size room (front ++ rest) = front) :
    complete size (room - totalSize size front) rest = [] := by
  have hsplit := complete_split size hfront (Nat.le_refl room)
  rw [hfront] at hsplit
  simpa using hsplit

theorem complete_zero (hsize : ∀ record, 0 < size record) (records : List Record) :
    complete size 0 records = [] := by
  cases records with
  | nil => rfl
  | cons record records => rw [complete, if_neg (Nat.not_le.mpr (hsize record))]

theorem complete_of_le {records : List Record} (hroom : totalSize size records ≤ room) :
    complete size room records = records := by
  induction records generalizing room with
  | nil => rfl
  | cons record records ih =>
    rw [totalSize_cons] at hroom
    rw [complete, if_pos (by omega), ih (by omega)]

theorem exists_rest (room : ℕ) (records : List Record) :
    ∃ rest, records = complete size room records ++ rest := by
  induction records generalizing room with
  | nil => exact ⟨[], rfl⟩
  | cons record records ih =>
    rw [complete]
    split_ifs with hfits
    · obtain ⟨rest, hrest⟩ := ih (room - size record)
      exact ⟨rest, congrArg (record :: ·) hrest⟩
    · exact ⟨record :: records, rfl⟩

theorem lt_of_complete {front back : List Record} {record : Record}
    (hfront : complete size room (front ++ record :: back) = front) :
    room < totalSize size front + size record := by
  induction front generalizing room with
  | nil =>
    rw [List.nil_append, complete] at hfront
    split_ifs at hfront with hfits
    simpa using hfits
  | cons head front ih =>
    rw [List.cons_append, complete] at hfront
    split_ifs at hfront with hfits
    have htail := ih (List.cons.inj hfront).2
    rw [totalSize_cons]
    omega

theorem complete_eq {front back : List Record} {record : Record}
    (hfits : totalSize size front ≤ room) (hnext : room < totalSize size front + size record) :
    complete size room (front ++ record :: back) = front := by
  induction front generalizing room with
  | nil =>
    rw [totalSize_nil, Nat.zero_add] at hnext
    rw [List.nil_append, complete, if_neg (Nat.not_le.mpr hnext)]
  | cons head front ih =>
    rw [totalSize_cons] at hfits hnext
    rw [List.cons_append, complete, if_pos (by omega), ih (by omega) (by omega)]

end OblogProxy.Tail
