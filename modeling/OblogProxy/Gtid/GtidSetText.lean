import OblogProxy.Core.Intervals
import OblogProxy.Core.SortedMap
import OblogProxy.Gtid.Text

/-!
# The meaning of a GTID set text

What a text such as `uuid:1-5:7,uuid:9` says, read off the text alone: which
texts are well formed, which ranges they write for which uuid and which
transactions they denote.  The second half relates this reading to what
`deserialize_gtid_set` stores and `format_string` prints.
-/

namespace OblogProxy.Gtid

open Intervals

/-- A closed range of transaction numbers, `std::pair<uint64_t, uint64_t>`. -/
abbrev TxnRange := ℕ × ℕ

def serverUuidLen : ℕ := 16

/-- A null `_gtid_uuid` is `none`. -/
structure GtidMessage where
  gtidUuid : Option (List UInt8) := none
  gtidTxnIdIntervals : ℕ := 0
  txnRange : List TxnRange := []
deriving DecidableEq

/-- The bytes written over `buffer` from offset `pos` on.  A write past the end
of the allocation shows as a buffer that got longer. -/
def writeAt (buffer : List UInt8) (pos : ℕ) (bytes : List UInt8) : List UInt8 :=
  buffer.take pos ++ bytes ++ buffer.drop (pos + bytes.length)

/-- `uuid_str_to_hex_bin`.  The fresh allocation is taken as zeroed. -/
def uuidStrToHexBin (uuidStr : Text) : Option (List UInt8) :=
  match split uuidStr '-' with
  | [first, second, third, fourth, fifth] =>
    let buffer := writeAt (List.replicate serverUuidLen 0) 0 (hexToBin first)
    let buffer := writeAt buffer 4 (hexToBin second)
    let buffer := writeAt buffer 6 (hexToBin third)
    let buffer := writeAt buffer 8 (hexToBin fourth)
    some (writeAt buffer 10 (hexToBin fifth))
  | _ => none

/-- The loop of `merge_txn_range`: a running range `start, last`, where a
`start` of zero means that none has been read yet. -/
def mergeLoop (start last : ℕ) (merge : List TxnRange) : List TxnRange → List TxnRange
  | [] => if start ≠ 0 then merge ++ [(start, last)] else merge
  | range :: fullRange =>
    if start = 0 then mergeLoop range.1 range.2 merge fullRange
    else if range.1 ≤ (last + 1) % 2 ^ 64 then
      mergeLoop start (max last range.2) merge fullRange
    else mergeLoop range.1 range.2 (merge ++ [(start, last)]) fullRange

def mergeTxnRange (message target : GtidMessage) : GtidMessage :=
  { target with txnRange := mergeLoop 0 0 [] (message.txnRange ++ target.txnRange) }

/-- The loop of `deserialize_gtid_set` over the parts after the uuid.  A part
with more than one dash stops it with an error. -/
def parseRanges (txnRange : List TxnRange) : List Text → Bool × List TxnRange
  | [] => (true, txnRange)
  | part :: parts =>
    match split part '-' with
    | [number] =>
      parseRanges (txnRange ++ [(toUint64 (atoll number), toUint64 (atoll number))]) parts
    | [first, second] =>
      parseRanges (txnRange ++ [(toUint64 (atoll first), toUint64 (atoll second))]) parts
    | _ => (false, txnRange)

namespace GtidMessage

/-- `deserialize_gtid_set`: the message as it is left behind, and whether the
call returned `OMS_OK`. -/
def deserializeGtidSet (message : GtidMessage) (gtidSet : Text) : Bool × GtidMessage :=
  match split gtidSet ':' with
  | uuid :: part :: parts =>
    match uuidStrToHexBin uuid with
    | none => (false, message)
    | some hexBin =>
      match parseRanges message.txnRange (part :: parts) with
      | (false, ranges) =>
        (false, { message with gtidUuid := some hexBin, txnRange := ranges })
      | (true, ranges) =>
        let parsed := { message with gtidUuid := some hexBin, txnRange := ranges }
        (true, mergeTxnRange parsed parsed)
  | _ => (false, message)

/-- `get_gtid_uuid_str`; `none` is the dereference of a null uuid. -/
def getGtidUuidStr (message : GtidMessage) : Option Text :=
  message.gtidUuid.map fun uuid => dumphex (uuid.take serverUuidLen)

def uuidHexBinToStrWithDelim (uuid : List UInt8) : Text :=
  let uuidStr := dumphex (uuid.take serverUuidLen)
  ['-'].intercalate
    [((uuidStr.drop 0).take 8).map Char.toLower, ((uuidStr.drop 8).take 4).map Char.toLower,
      ((uuidStr.drop 12).take 4).map Char.toLower, ((uuidStr.drop 16).take 4).map Char.toLower,
      ((uuidStr.drop 20).take 12).map Char.toLower]

def formatRange (range : TxnRange) : Text :=
  if range.2 ≠ range.1 then
    Nat.toDigits 10 range.1 ++ '-' :: Nat.toDigits 10 range.2
  else Nat.toDigits 10 range.1

/-- `format_string`; `none` is the dereference of a null uuid. -/
def formatString (message : GtidMessage) : Option Text :=
  message.gtidUuid.map fun uuid =>
    uuidHexBinToStrWithDelim uuid ++
      message.txnRange.flatMap fun range => ':' :: formatRange range

end GtidMessage

/-- Ranges on which the loop's sentinel and its 64-bit sum are harmless. -/
def InRange (ranges : List TxnRange) : Prop :=
  ∀ range ∈ ranges, 0 < range.1 ∧ range.2 + 1 < 2 ^ 64

variable {ranges : List TxnRange}

theorem mergeLoop_eq_coalesce (hranges : InRange ranges) {start last : ℕ} (merge : List TxnRange)
    (hstart : start ≠ 0) (hlast : last + 1 < 2 ^ 64) :
    mergeLoop start last merge ranges = merge ++ coalesce (start, last) ranges := by
  induction ranges generalizing start last merge with
  | nil => simp [mergeLoop, coalesce, hstart]
  | cons range ranges ih =>
    obtain ⟨⟨hfirst, hsecond⟩, hrest⟩ := List.forall_mem_cons.mp hranges
    rw [mergeLoop, coalesce, if_neg hstart, Nat.mod_eq_of_lt hlast]
    split_ifs with htouch
    · exact ih hrest merge hstart (by omega)
    · rw [ih hrest _ (by omega) hsecond]
      simp

theorem mergeLoop_eq_mergeAll (hranges : InRange ranges) :
    mergeLoop 0 0 [] ranges = mergeAll ranges := by
  cases ranges with
  | nil => simp [mergeLoop, mergeAll]
  | cons range ranges =>
    obtain ⟨⟨hfirst, hsecond⟩, hrest⟩ := List.forall_mem_cons.mp hranges
    rw [mergeLoop, if_pos rfl, mergeLoop_eq_coalesce hrest [] (by omega) hsecond, mergeAll,
      List.nil_append]

open GtidMessage List

/-- The comma-separated parts; an empty text has none. -/
def setParts (text : Text) : List Text :=
  if text = [] then [] else text.splitOn ','

def readUuid (text : Text) : List UInt8 :=
  (text.splitOn '-').flatMap hexToBin

def readInterval (text : Text) : TxnRange :=
  match text.splitOn '-' with
  | [number] => (readNumber number, readNumber number)
  | [first, last] => (readNumber first, readNumber last)
  | _ => (0, 0)

def readPart (text : Text) : List UInt8 × List TxnRange :=
  match text.splitOn ':' with
  | uuid :: intervals => (readUuid uuid, intervals.map readInterval)
  | [] => ([], [])

/-- Every part of the text, as the uuid and the ranges it writes. -/
def written (text : Text) : List (List UInt8 × List TxnRange) :=
  (setParts text).map readPart

def rangesOf (text : Text) (uuid : List UInt8) : List (List TxnRange) :=
  ((written text).filter fun part => part.1 = uuid).map Prod.snd

/-- The transactions of `uuid` that the text denotes. -/
def denote (text : Text) (uuid : List UInt8) : Set ℕ :=
  members (rangesOf text uuid).flatten

variable {text : Text}

theorem rangesOf_singleton {uuid : List UInt8} (hwritten : written text = [(uuid, ranges)])
    (other : List UInt8) :
    rangesOf text other = if uuid = other then [ranges] else [] := by
  rw [rangesOf, hwritten]
  split_ifs with huuid
  · simp [huuid]
  · simp [huuid]

def ValidUuid (text : Text) : Prop :=
  (text.splitOn '-').map length = [8, 4, 4, 4, 12] ∧
    ∀ piece ∈ text.splitOn '-', ∀ char ∈ piece, isHexDigit char = true

/-- `n` or `n-m` with `1 ≤ n ≤ m < 2^62`. -/
def ValidInterval (text : Text) : Prop :=
  ((text.splitOn '-').length = 1 ∨ (text.splitOn '-').length = 2) ∧
    (∀ number ∈ text.splitOn '-', ValidNumber number) ∧
    1 ≤ (readInterval text).1 ∧ (readInterval text).1 ≤ (readInterval text).2 ∧
    (readInterval text).2 < 2 ^ 62

def ValidPart (text : Text) : Prop :=
  ∃ uuid ∈ (text.splitOn ':').head?, ValidUuid uuid ∧
    (text.splitOn ':').tail ≠ [] ∧
    ∀ interval ∈ (text.splitOn ':').tail, ValidInterval interval

def Valid (text : Text) : Prop :=
  ∀ part ∈ setParts text, ValidPart part

/-- `n` or `n-m` with `1 ≤ n ≤ m` below the bound. -/
def ValidIntervalBelow (bound : ℕ) (text : Text) : Prop :=
  ((text.splitOn '-').length = 1 ∨ (text.splitOn '-').length = 2) ∧
    (∀ number ∈ text.splitOn '-', ValidNumber number) ∧
    1 ≤ (readInterval text).1 ∧ (readInterval text).1 ≤ (readInterval text).2 ∧
    (readInterval text).2 < bound

def ValidPartBelow (bound : ℕ) (text : Text) : Prop :=
  ∃ uuid ∈ (text.splitOn ':').head?, ValidUuid uuid ∧
    (text.splitOn ':').tail ≠ [] ∧
    ∀ interval ∈ (text.splitOn ':').tail, ValidIntervalBelow bound interval

/-- The same with numbers below another bound. -/
def ValidBelow (bound : ℕ) (text : Text) : Prop :=
  ∀ part ∈ setParts text, ValidPartBelow bound part

theorem Valid.below (hvalid : Valid text) : ValidBelow (2 ^ 62) text :=
  hvalid

instance (text : Text) : Decidable (ValidUuid text) :=
  @instDecidableAnd _ _ inferInstance
    (@decidableBAll _ _ (fun piece => decidableBAll _ piece) (text.splitOn '-'))

instance (bound : ℕ) (text : Text) : Decidable (ValidIntervalBelow bound text) :=
  inferInstanceAs (Decidable (
    ((text.splitOn '-').length = 1 ∨ (text.splitOn '-').length = 2) ∧
      (∀ number ∈ text.splitOn '-', ValidNumber number) ∧
      1 ≤ (readInterval text).1 ∧ (readInterval text).1 ≤ (readInterval text).2 ∧
      (readInterval text).2 < bound))

instance (bound : ℕ) (text : Text) : Decidable (ValidPartBelow bound text) :=
  inferInstanceAs (Decidable (∃ uuid ∈ (text.splitOn ':').head?, ValidUuid uuid ∧
    (text.splitOn ':').tail ≠ [] ∧
    ∀ interval ∈ (text.splitOn ':').tail, ValidIntervalBelow bound interval))

instance (bound : ℕ) (text : Text) : Decidable (ValidBelow bound text) :=
  inferInstanceAs (Decidable (∀ part ∈ setParts text, ValidPartBelow bound part))

instance (text : Text) : Decidable (Valid text) :=
  inferInstanceAs (Decidable (ValidBelow (2 ^ 62) text))

/-! ## Characters of well-formed texts

Everything a well-formed text contains lies at or above the comma, so no reader
meets a NUL or a blank. -/

theorem le_toNat_of_splitOn (sep : Char) (hsep : 44 ≤ sep.toNat)
    (hpieces : ∀ piece ∈ text.splitOn sep, ∀ char ∈ piece, 44 ≤ char.toNat) :
    ∀ char ∈ text, 44 ≤ char.toNat := by
  intro char hchar
  rcases mem_splitOn_of_mem sep hchar with rfl | ⟨piece, hpiece, hmem⟩
  · exact hsep
  · exact hpieces piece hpiece char hmem

theorem split_of_le_toNat (sep : Char) (hne : text ≠ []) (hchars : ∀ char ∈ text, 44 ≤ char.toNat) :
    split text sep = text.splitOn sep := by
  refine split_eq_splitOn sep hne fun hnul => ?_
  exact absurd (hchars _ hnul) (by decide)

theorem ne_nil_of_splitOn (sep : Char) (hpieces : text.splitOn sep ≠ [[]]) : text ≠ [] := by
  rintro rfl
  exact hpieces (splitOn_nil sep)

theorem ValidUuid.le_toNat (hvalid : ValidUuid text) : ∀ char ∈ text, 44 ≤ char.toNat := by
  refine le_toNat_of_splitOn '-' (by decide) fun piece hpiece char hchar => ?_
  have := le_toNat_of_isHexDigit (hvalid.2 piece hpiece char hchar)
  omega

variable {bound : ℕ}

theorem ValidIntervalBelow.le_toNat (hvalid : ValidIntervalBelow bound text) :
    ∀ char ∈ text, 44 ≤ char.toNat := by
  refine le_toNat_of_splitOn '-' (by decide) fun piece hpiece char hchar => ?_
  have := le_toNat_of_isHexDigit (isHexDigit_of_isDigit ((hvalid.2.1 piece hpiece).2 char hchar))
  omega

theorem split_validInterval (hvalid : ValidIntervalBelow bound text) :
    split text '-' = text.splitOn '-' := by
  refine split_of_le_toNat '-' (ne_nil_of_splitOn '-' fun hnil => ?_) hvalid.le_toNat
  have hempty : ValidNumber [] := hvalid.2.1 [] (by simp [hnil])
  exact hempty.1 rfl

theorem parseRanges_eq (hlong : bound ≤ 2 ^ 63) {parts : List Text}
    (hvalid : ∀ part ∈ parts, ValidIntervalBelow bound part) (ranges : List TxnRange) :
    parseRanges ranges parts = (true, ranges ++ parts.map readInterval) := by
  induction parts generalizing ranges with
  | nil => simp [parseRanges]
  | cons part parts ih =>
    obtain ⟨hpart, hparts⟩ := forall_mem_cons.mp hvalid
    rw [parseRanges, split_validInterval hpart]
    obtain ⟨hlength, hnumbers, _, hordered, hbound⟩ := hpart
    rcases hlength with hone | htwo
    · obtain ⟨number, hsplit⟩ := length_eq_one_iff.mp hone
      simp only [readInterval, hsplit] at hbound hnumbers ⊢
      have hread := toUint64_atoll (hnumbers number mem_cons_self) (by omega)
      simp [ih hparts, hread, readInterval, hsplit]
    · obtain ⟨first, last, hsplit⟩ := length_eq_two.mp htwo
      simp only [readInterval, hsplit] at hbound hordered hnumbers ⊢
      have hfirst := toUint64_atoll (hnumbers first (by simp)) (by omega)
      have hlast := toUint64_atoll (hnumbers last (by simp)) (by omega)
      simp [ih hparts, hfirst, hlast, readInterval, hsplit]

theorem writeAt_filled (filled bytes : List UInt8) {pos free : ℕ} (hpos : pos = filled.length) :
    writeAt (filled ++ replicate free 0) pos bytes =
      (filled ++ bytes) ++ replicate (free - bytes.length) 0 := by
  subst hpos
  simp [writeAt, drop_append]

theorem uuidStrToHexBin_eq (hvalid : ValidUuid text) :
    uuidStrToHexBin text = some (readUuid text) ∧
      (readUuid text).length = serverUuidLen := by
  have hlengths := hvalid.1
  have hne : text ≠ [] := ne_nil_of_splitOn '-' fun hnil => by simp [hnil] at hlengths
  simp only [map_eq_cons_iff, map_eq_nil_iff] at hlengths
  obtain ⟨first, _, hsplit, hfirst, second, _, rfl, hsecond, third, _, rfl, hthird, fourth, _,
    rfl, hfourth, fifth, _, rfl, hfifth, rfl⟩ := hlengths
  have hlength (piece : Text) : (hexToBin piece).length = (piece.length + 1) / 2 :=
    length_hexToBin piece
  rw [uuidStrToHexBin, readUuid, split_of_le_toNat '-' hne hvalid.le_toNat, hsplit]
  constructor
  · -- Each piece starts where the bytes written so far end.
    have hempty : replicate serverUuidLen (0 : UInt8) = [] ++ replicate 16 0 := rfl
    simp only [hempty]
    rw [writeAt_filled [] _ (by rfl), writeAt_filled _ _ (by simp [hlength, hfirst]),
      writeAt_filled _ _ (by simp [hlength, hfirst, hsecond]),
      writeAt_filled _ _ (by simp [hlength, hfirst, hsecond, hthird]),
      writeAt_filled _ _ (by simp [hlength, hfirst, hsecond, hthird, hfourth])]
    simp [hlength, hfirst, hsecond, hthird, hfourth, hfifth]
  · simp [serverUuidLen, hlength, hfirst, hsecond, hthird, hfourth, hfifth]

theorem ValidPartBelow.le_toNat (hvalid : ValidPartBelow bound text) :
    ∀ char ∈ text, 44 ≤ char.toNat := by
  obtain ⟨uuid, hhead, huuid, _, hintervals⟩ := hvalid
  refine le_toNat_of_splitOn ':' (by decide) fun piece hpiece => ?_
  rw [← cons_head?_tail hhead] at hpiece
  rcases mem_cons.mp hpiece with rfl | hpiece
  · exact huuid.le_toNat
  · exact (hintervals piece hpiece).le_toNat

theorem ValidPartBelow.ne_nil (hvalid : ValidPartBelow bound text) : text ≠ [] := by
  obtain ⟨uuid, _, _, htail, _⟩ := hvalid
  exact ne_nil_of_splitOn ':' fun hnil => htail (by rw [hnil]; rfl)

theorem ValidIntervalBelow.inRange (hlong : bound ≤ 2 ^ 63)
    (hvalid : ValidIntervalBelow bound text) :
    0 < (readInterval text).1 ∧ (readInterval text).2 + 1 < 2 ^ 64 := by
  obtain ⟨_, _, hpositive, _, hbound⟩ := hvalid
  omega

/-- A well-formed part parsed into a message without ranges: its uuid, and its ranges
merged once with themselves.  The count of the message is not touched. -/
theorem deserializeGtidSet_eq (hlong : bound ≤ 2 ^ 63) {message : GtidMessage}
    (hnew : message.txnRange = []) {part : Text} (hvalid : ValidPartBelow bound part) :
    message.deserializeGtidSet part =
      (true, { gtidUuid := some (readPart part).1
               gtidTxnIdIntervals := message.gtidTxnIdIntervals
               txnRange := mergeAll ((readPart part).2 ++ (readPart part).2) }) := by
  have hsplit := split_of_le_toNat ':' hvalid.ne_nil hvalid.le_toNat
  obtain ⟨uuid, hhead, huuid, htail, hintervals⟩ := hvalid
  obtain ⟨interval, intervals, htailEq⟩ := exists_cons_of_ne_nil htail
  have hpieces : part.splitOn ':' = uuid :: interval :: intervals := by
    rw [← cons_head?_tail hhead, htailEq]
  rw [htailEq] at hintervals
  have hrange : InRange ((interval :: intervals).map readInterval) := by
    simp only [InRange, forall_mem_map]
    exact fun piece hpiece => (hintervals piece hpiece).inRange hlong
  rw [deserializeGtidSet, hsplit, readPart, hpieces, hnew]
  simp only [(uuidStrToHexBin_eq huuid).1, parseRanges_eq hlong hintervals, nil_append,
    mergeTxnRange]
  rw [mergeLoop_eq_mergeAll (forall_mem_append.mpr ⟨hrange, hrange⟩)]

def printPart (part : List UInt8 × List TxnRange) : Text :=
  uuidHexBinToStrWithDelim part.1 ++
    part.2.flatMap fun range => ':' :: formatRange range

theorem splitOn_printed {Item : Type*} (sep : Char) (print : Item → Text) {head : Text}
    {items : List Item} (hhead : sep ∉ head) (hitems : ∀ item ∈ items, sep ∉ print item) :
    (head ++ items.flatMap fun item => sep :: print item).splitOn sep =
      head :: items.map print := by
  induction items generalizing head with
  | nil => simpa using splitOn_eq_singleton hhead
  | cons item items ih =>
    obtain ⟨hitem, hitems⟩ := forall_mem_cons.mp hitems
    rw [flatMap_cons, cons_append,
      splitOn_append_cons_self_of_not_mem hhead, ih hitem hitems, map_cons]

variable {sep : Char}

theorem notMem_of_isHexDigit (hdigits : ∀ char ∈ text, isHexDigit char = true)
    (hsep : isHexDigit sep = false) : sep ∉ text := fun hmem => by
  simp [hdigits sep hmem] at hsep

theorem notMem_toDigits (number : ℕ) (hsep : isHexDigit sep = false) :
    sep ∉ Nat.toDigits 10 number :=
  notMem_of_isHexDigit
    (fun char hchar => isHexDigit_of_isDigit ((validNumber_toDigits number).2 char hchar)) hsep

theorem splitOn_formatRange (range : TxnRange) :
    (formatRange range).splitOn '-' =
      if range.2 ≠ range.1 then [Nat.toDigits 10 range.1, Nat.toDigits 10 range.2]
      else [Nat.toDigits 10 range.1] := by
  rw [formatRange]
  split_ifs
  · rw [splitOn_append_cons_self_of_not_mem (notMem_toDigits _ (by decide)),
      splitOn_eq_singleton (notMem_toDigits _ (by decide))]
  · rw [splitOn_eq_singleton (notMem_toDigits _ (by decide))]

theorem readInterval_formatRange (range : TxnRange) :
    readInterval (formatRange range) = range := by
  rw [readInterval, splitOn_formatRange]
  split_ifs with hne
  · simp [readNumber_toDigits]
  · have hsame : range.2 = range.1 := not_not.mp hne
    exact Prod.ext (readNumber_toDigits _) (by simp [readNumber_toDigits, hsame])

theorem validInterval_formatRange {range : TxnRange} (hfirst : 0 < range.1)
    (hlast : range.1 ≤ range.2) (hbound : range.2 < 2 ^ 62) :
    ValidInterval (formatRange range) := by
  rw [ValidInterval, readInterval_formatRange, splitOn_formatRange]
  refine ⟨?_, ?_, hfirst, hlast, hbound⟩
  · split_ifs
    · exact Or.inr rfl
    · exact Or.inl rfl
  · split_ifs
    · simp [validNumber_toDigits]
    · simp [validNumber_toDigits]

theorem notMem_formatRange (range : TxnRange) (hsep : isHexDigit sep = false) (hdash : sep ≠ '-') :
    sep ∉ formatRange range := by
  rw [formatRange]
  split_ifs
  · simp [notMem_toDigits _ hsep, hdash]
  · exact notMem_toDigits _ hsep

/-- The five groups of a printed uuid. -/
def uuidGroups (uuid : List UInt8) : List (List UInt8) :=
  [(uuid.drop 0).take 4, (uuid.drop 4).take 2, (uuid.drop 6).take 2, (uuid.drop 8).take 2,
    (uuid.drop 10).take 6]

section Uuid

variable {uuid : List UInt8} (hlength : uuid.length = serverUuidLen)

include hlength

theorem uuidHexBinToStrWithDelim_eq :
    uuidHexBinToStrWithDelim uuid =
      ['-'].intercalate ((uuidGroups uuid).map fun group => (dumphex group).map Char.toLower) := by
  have hgroup (start count : ℕ) : ((dumphex uuid).drop (2 * start)).take (2 * count) =
      dumphex ((uuid.drop start).take count) := by
    rw [dumphex_drop, dumphex_take]
  rw [uuidHexBinToStrWithDelim, take_of_length_le hlength.le]
  simp only [← hgroup, uuidGroups, map_cons, map_nil]

theorem splitOn_uuid :
    (uuidHexBinToStrWithDelim uuid).splitOn '-' =
      (uuidGroups uuid).map fun group => (dumphex group).map Char.toLower := by
  rw [uuidHexBinToStrWithDelim_eq hlength]
  refine splitOn_intercalate '-' (forall_mem_map.mpr fun group _ => ?_) (by
    simp [uuidGroups])
  exact notMem_of_isHexDigit (fun _ => isHexDigit_of_mem_dumphex) (by decide)

theorem readUuid_printed : readUuid (uuidHexBinToStrWithDelim uuid) = uuid := by
  rw [readUuid, splitOn_uuid hlength, flatMap_map]
  simp only [hexToBin_toLower_dumphex]
  match uuid, hlength with
  | [_, _, _, _, _, _, _, _, _, _, _, _, _, _, _, _], _ => rfl

theorem validUuid_printed : ValidUuid (uuidHexBinToStrWithDelim uuid) := by
  rw [ValidUuid, splitOn_uuid hlength]
  constructor
  · simp [uuidGroups, length_dumphex, hlength, serverUuidLen]
  · refine forall_mem_map.mpr fun group _ char hchar => isHexDigit_of_mem_dumphex hchar

end Uuid

/-- A uuid that is read is printed as the text it was read from, up to case. -/
theorem printed_readUuid (hvalid : ValidUuid text) :
    uuidHexBinToStrWithDelim (readUuid text) = text.map Char.toLower := by
  have hjoin : ['-'].intercalate (text.splitOn '-') = text := intercalate_splitOn '-'
  rw [uuidHexBinToStrWithDelim_eq (uuidStrToHexBin_eq hvalid).2]
  obtain ⟨hlengths, hdigits⟩ := hvalid
  simp only [map_eq_cons_iff, map_eq_nil_iff] at hlengths
  obtain ⟨first, _, hsplit, hfirst, second, _, rfl, hsecond, third, _, rfl, hthird, fourth, _,
    rfl, hfourth, fifth, _, rfl, hfifth, rfl⟩ := hlengths
  rw [hsplit] at hdigits hjoin
  have hpiece : ∀ piece ∈ [first, second, third, fourth, fifth],
      (dumphex (hexToBin piece)).map Char.toLower = piece.map Char.toLower := by
    intro piece hmem
    apply toLower_dumphex_hexToBin (hdigits piece hmem)
    simp only [mem_cons, not_mem_nil, or_false] at hmem
    rcases hmem with rfl | rfl | rfl | rfl | rfl <;> omega
  have hgroups : uuidGroups (readUuid text) =
      [first, second, third, fourth, fifth].map hexToBin := by
    rw [readUuid, hsplit]
    simp [uuidGroups, drop_append, drop_of_length_le, length_hexToBin, hfirst, hsecond,
      hthird, hfourth, hfifth]
  have hlower : '-'.toLower = '-' := rfl
  rw [hgroups, ← hjoin]
  simp [intercalate, intersperse, hpiece, hlower]

theorem notMem_uuid {uuid : List UInt8} (hlength : uuid.length = serverUuidLen)
    (hsep : isHexDigit sep = false) (hdash : sep ≠ '-') :
    sep ∉ uuidHexBinToStrWithDelim uuid := by
  intro hmem
  rcases mem_splitOn_of_mem '-' hmem with heq | ⟨piece, hpiece, hchar⟩
  · exact hdash heq
  · have := (validUuid_printed hlength).2 piece hpiece sep hchar
    simp [this] at hsep

section Part

variable {part : List UInt8 × List TxnRange} (hlength : part.1.length = serverUuidLen)

include hlength

theorem splitOn_printPart :
    (printPart part).splitOn ':' =
      uuidHexBinToStrWithDelim part.1 :: part.2.map formatRange :=
  splitOn_printed ':' formatRange (notMem_uuid hlength (by decide) (by decide))
    fun range _ => notMem_formatRange range (by decide) (by decide)

theorem readPart_printPart : readPart (printPart part) = part := by
  rw [readPart, splitOn_printPart hlength]
  simp only [readUuid_printed hlength, map_map]
  have hranges : (readInterval ∘ formatRange : TxnRange → TxnRange) = id :=
    funext readInterval_formatRange
  rw [hranges, map_id]

theorem comma_notMem_printPart : ',' ∉ printPart part := by
  simp only [printPart, mem_append, mem_flatMap, mem_cons, not_or, not_exists]
  refine ⟨notMem_uuid hlength (by decide) (by decide), ?_⟩
  rintro range ⟨_, heq | hmem⟩
  · exact absurd heq (by decide)
  · exact notMem_formatRange range (by decide) (by decide) hmem

theorem printPart_ne_nil : printPart part ≠ [] := by
  refine ne_nil_of_splitOn ':' fun hnil => ?_
  rw [splitOn_printPart hlength, cons.injEq] at hnil
  have hvalid := (validUuid_printed hlength).1
  rw [hnil.1] at hvalid
  simp at hvalid

end Part

section Printed

variable {parts : List (List UInt8 × List TxnRange)}
  (hlength : ∀ part ∈ parts, part.1.length = serverUuidLen)

include hlength

/-- The parts of a printed set are the texts that were joined. -/
theorem setParts_printed :
    setParts ([','].intercalate (parts.map printPart)) = parts.map printPart := by
  cases parts with
  | nil => simp [setParts]
  | cons part parts =>
    have hsplit : ([','].intercalate ((part :: parts).map printPart)).splitOn ',' =
        (part :: parts).map printPart :=
      splitOn_intercalate ','
        (forall_mem_map.mpr fun item hitem => comma_notMem_printPart (hlength item hitem))
        (by simp)
    have hne : [','].intercalate ((part :: parts).map printPart) ≠ [] := by
      refine ne_nil_of_splitOn ',' fun hnil => ?_
      rw [hsplit, map_cons, cons.injEq] at hnil
      exact printPart_ne_nil (hlength part mem_cons_self) hnil.1
    rw [setParts, if_neg hne, hsplit]

theorem written_printed : written ([','].intercalate (parts.map printPart)) = parts := by
  rw [written, setParts_printed hlength, map_map]
  refine (map_congr_left fun part hpart => ?_).trans (map_id parts)
  exact readPart_printPart (hlength part hpart)

end Printed

theorem validPart_printPart {part : List UInt8 × List TxnRange}
    (hlength : part.1.length = serverUuidLen) (hne : part.2 ≠ [])
    (hproper : Proper part.2) (hbounded : ∀ range ∈ part.2, 0 < range.1 ∧ range.2 < 2 ^ 62) :
    ValidPart (printPart part) := by
  rw [ValidPart, splitOn_printPart hlength]
  refine ⟨_, rfl, validUuid_printed hlength, by simpa using hne, ?_⟩
  refine forall_mem_map.mpr fun range hrange => ?_
  exact validInterval_formatRange (hbounded range hrange).1 (hproper range hrange)
    (hbounded range hrange).2

/-- The text of `printed`, parsed into `message`, gives the uuid and the ranges that were
printed, and their number. -/
def SurvivesPrinting (printed message : GtidMessage) : Prop :=
  ∃ text, printed.formatString = some text ∧
    ∃ parsed, message.deserializeGtidSet text = (true, parsed) ∧
      parsed.gtidUuid = printed.gtidUuid ∧ parsed.txnRange = printed.txnRange ∧
      parsed.gtidTxnIdIntervals = printed.txnRange.length

section Survives

variable {printed message : GtidMessage} {uuid : List UInt8}

/-- What is parsed from the text of a message into one without ranges. -/
theorem deserializeGtidSet_formatString (huuid : printed.gtidUuid = some uuid)
    (hlength : uuid.length = serverUuidLen) (hne : printed.txnRange ≠ [])
    (hcanonical : Canonical printed.txnRange)
    (hbounded : ∀ range ∈ printed.txnRange, 0 < range.1 ∧ range.2 < 2 ^ 62)
    (hnew : message.txnRange = []) :
    ∃ text, printed.formatString = some text ∧
      message.deserializeGtidSet text =
        (true, { printed with gtidTxnIdIntervals := message.gtidTxnIdIntervals }) := by
  have hvalid : ValidPartBelow (2 ^ 62) (printPart (uuid, printed.txnRange)) :=
    validPart_printPart hlength hne hcanonical.proper hbounded
  have hparsed := deserializeGtidSet_eq (by norm_num) hnew hvalid
  rw [readPart_printPart hlength] at hparsed
  simp only [mergeAll_append_self hcanonical, ← huuid] at hparsed
  refine ⟨printPart (uuid, printed.txnRange), ?_, hparsed⟩
  rw [formatString, huuid, Option.map_some, printPart]

/-- The uuid and the ranges always survive.  Nothing sets the count: it is right only if
the message had it before. -/
theorem survivesPrinting_iff (huuid : printed.gtidUuid = some uuid)
    (hlength : uuid.length = serverUuidLen) (hne : printed.txnRange ≠ [])
    (hcanonical : Canonical printed.txnRange)
    (hbounded : ∀ range ∈ printed.txnRange, 0 < range.1 ∧ range.2 < 2 ^ 62)
    (hnew : message.txnRange = []) :
    SurvivesPrinting printed message ↔
      message.gtidTxnIdIntervals = printed.txnRange.length := by
  obtain ⟨text, hformat, hparsed⟩ :=
    deserializeGtidSet_formatString huuid hlength hne hcanonical hbounded hnew
  constructor
  · rintro ⟨found, hfound, parsed, hparse, -, -, hcount⟩
    rw [hformat, Option.some_inj] at hfound
    subst hfound
    rw [hparsed, Prod.mk.injEq] at hparse
    rw [← hcount, ← hparse.2]
  · intro hcount
    exact ⟨text, hformat, _, hparsed, rfl, rfl, hcount⟩

end Survives

def sampleMessage : GtidMessage where
  gtidUuid := some (replicate 16 10)
  txnRange := [(1, 5), (999, 999)]

theorem canonical_sampleMessage : Canonical sampleMessage.txnRange :=
  ⟨by simp [Proper, sampleMessage], by simp [sampleMessage]⟩

theorem bounded_sampleMessage : ∀ range ∈ sampleMessage.txnRange, 0 < range.1 ∧ range.2 < 2 ^ 62 := by
  simp [sampleMessage]

theorem survivesPrinting_counted :
    SurvivesPrinting sampleMessage { gtidTxnIdIntervals := 2 } :=
  (survivesPrinting_iff rfl rfl (cons_ne_nil _ _) canonical_sampleMessage
    bounded_sampleMessage rfl).mpr rfl

/-- A message that was just created counts no ranges, whatever it is given to parse. -/
theorem not_survivesPrinting_created : ¬SurvivesPrinting sampleMessage {} := by
  obtain ⟨text, hformat, hparsed⟩ := @deserializeGtidSet_formatString sampleMessage {} _ rfl rfl
    (cons_ne_nil _ _) canonical_sampleMessage bounded_sampleMessage rfl
  rintro ⟨found, hfound, parsed, hparse, -, -, hcount⟩
  rw [hformat, Option.some_inj] at hfound
  subst hfound
  rw [hparsed, Prod.mk.injEq] at hparse
  rw [← hparse.2] at hcount
  exact absurd hcount (by decide)

open SortedMap

/-- `std::map<std::string, GtidMessage*>`, keyed by the upper-case hexadecimal uuid. -/
abbrev GtidMap := SortedMap Text GtidMessage

namespace BinlogFunction

/-- The body of the loop of `deserialization`; `none` when a part without a
uuid makes the key lookup dereference null. -/
def storeSet (gtidMessage : GtidMap) (gtidSet : Text) : Option GtidMap := do
  let message := (GtidMessage.deserializeGtidSet {} gtidSet).2
  let key ← message.getGtidUuidStr
  match gtidMessage.find key with
  | some target => pure (gtidMessage.insert key (mergeTxnRange message target))
  | none => pure (gtidMessage.insert key message)

def deserialization (gtidStr : Text) (gtidMessage : GtidMap) : Option GtidMap :=
  (split gtidStr ',').foldlM storeSet gtidMessage

def isSubset (subset target : List TxnRange) : Bool :=
  subset.all fun sub => target.any fun tar => tar.1 ≤ sub.1 && sub.2 ≤ tar.2

def gtidSubset (setSub setTarget : Text) : Option ℕ := do
  let subMsg ← deserialization setSub empty
  let targetMsg ← deserialization setTarget empty
  let contained := subMsg.entries.all fun sub =>
    match targetMsg.find sub.1 with
    | none => false
    | some target => isSubset sub.2.txnRange target.txnRange
  pure (if contained then 1 else 0)

/-- The inner loop of `difference` for one target range.  Entries of the result
are the edited ranges in place and the range appended by a split, if any.  The
list ends where the loop breaks: what follows is left as it is. -/
def subtractRange (target : TxnRange) : List TxnRange → List TxnRange × List TxnRange
  | [] => ([], [])
  | range :: origin =>
    if target.2 < range.1 then (range :: origin, [])
    else if range.2 < target.1 then
      let rest := subtractRange target origin
      (range :: rest.1, rest.2)
    else if target.2 < range.2 ∧ range.1 < target.1 then
      (((target.2 + 1) % 2 ^ 64, range.2) :: origin, [(range.1, target.1 - 1)])
    else if range.2 ≤ target.2 then
      let rest := subtractRange target origin
      if target.1 ≤ range.1 then ((0, 0) :: rest.1, rest.2)
      else ((range.1, (target.1 + 1) % 2 ^ 64) :: rest.1, rest.2)
    else if target.1 ≤ range.1 then
      (((target.2 + 1) % 2 ^ 64, range.2) :: origin, [])
    else ((range.1, target.1 - 1) :: origin, [((target.2 + 1) % 2 ^ 64, range.2)])

def RangeLe (left right : TxnRange) : Prop :=
  left.1 < right.1 ∨ (left.1 = right.1 ∧ left.2 ≤ right.2)

instance : DecidableRel RangeLe := fun left right =>
  inferInstanceAs (Decidable (left.1 < right.1 ∨ (left.1 = right.1 ∧ left.2 ≤ right.2)))

def sortRanges (ranges : List TxnRange) : List TxnRange :=
  ranges.insertionSort RangeLe

def subtractAll (origin : List TxnRange) (target : List TxnRange) : List TxnRange :=
  target.foldl (fun origin range =>
    (subtractRange range origin).1 ++ (subtractRange range origin).2) origin

def difference (origin target : List TxnRange) : List TxnRange :=
  (subtractAll (sortRanges origin) (sortRanges target)).filter fun range =>
    range.1 ≠ 0 && range.2 ≠ 0

def subtractEntry (targetMsg resultMsg : GtidMap) (origin : Text × GtidMessage) : GtidMap :=
  match targetMsg.find origin.1 with
  | none =>
    resultMsg.insert origin.1
      { gtidUuid := origin.2.gtidUuid.map fun uuid => uuid.take serverUuidLen
        txnRange := origin.2.txnRange }
  | some target =>
    let diff := difference origin.2.txnRange target.txnRange
    if diff = [] then resultMsg
    else
      resultMsg.insert origin.1
        { gtidUuid := origin.2.gtidUuid.map fun uuid => uuid.take serverUuidLen
          txnRange := sortRanges diff }

/-- `gtid_subtract`: the text appended to an empty `result`. -/
def gtidSubtract (setOrigin setTarget : Text) : Option Text := do
  let originMsg ← deserialization setOrigin empty
  let targetMsg ← deserialization setTarget empty
  let resultMsg := originMsg.entries.foldl (subtractEntry targetMsg) empty
  let texts ← resultMsg.entries.mapM fun entry => entry.2.formatString
  pure ([','].intercalate texts)

end BinlogFunction

end OblogProxy.Gtid
