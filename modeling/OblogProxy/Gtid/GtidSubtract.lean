import OblogProxy.Gtid.Deserialization
import OblogProxy.Gtid.Difference

/-!
# GTID_SUBTRACT

`gtid_subtract` parses both sets, takes the difference uuid by uuid and prints
the result.  Parsing and printing are exact on texts in normal form, so the
text returned denotes the set difference exactly when `difference` computes it
for every uuid the two sets share.
-/

namespace OblogProxy.Gtid

open Intervals BinlogFunction List SortedMap

/-- A GTID set in normal form: every uuid once, its intervals increasing. -/
structure NormalForm (text : Text) : Prop where
  valid : Valid text
  nodup : ((written text).map Prod.fst).Nodup
  increasing : ∀ part ∈ written text, part.2.Pairwise fun left right => left.2 < right.1

theorem NormalForm.members_stored {text : Text} (hnormal : NormalForm text) {map : GtidMap}
    (hmap : MapRepresents (2 ^ 62) (written text) map) (uuid : List UInt8) :
    members (storedRanges map uuid) = denote text uuid := by
  apply hmap.members_stored hnormal.nodup
  intro part hpart number
  have hincreasing : Increasing part.2 :=
    ⟨(written_validRanges hnormal.valid.below hpart).proper, hnormal.increasing part hpart⟩
  exact hincreasing.keeps_iff number

def subtractOne (targetMsg : GtidMap) (key : Text) (message : GtidMessage) :
    Option GtidMessage :=
  match targetMsg.find key with
  | none =>
    some { gtidUuid := message.gtidUuid.map fun uuid => uuid.take serverUuidLen
           txnRange := message.txnRange }
  | some target =>
    if difference message.txnRange target.txnRange = [] then none
    else
      some { gtidUuid := message.gtidUuid.map fun uuid => uuid.take serverUuidLen
             txnRange := sortRanges (difference message.txnRange target.txnRange) }

section Entry

variable (targetMsg resultMsg : GtidMap) (origin : Text × GtidMessage)

theorem subtractEntry_eq :
    subtractEntry targetMsg resultMsg origin =
      match subtractOne targetMsg origin.1 origin.2 with
      | none => resultMsg
      | some message => resultMsg.insert origin.1 message := by
  rw [subtractEntry, subtractOne]
  cases targetMsg.find origin.1 with
  | none => rfl
  | some target =>
    by_cases hempty : difference origin.2.txnRange target.txnRange = []
    · simp [hempty]
    · simp [hempty]

theorem find_subtractEntry_self :
    (subtractEntry targetMsg resultMsg origin).find origin.1 =
      (subtractOne targetMsg origin.1 origin.2).or (resultMsg.find origin.1) := by
  rw [subtractEntry_eq]
  cases subtractOne targetMsg origin.1 origin.2 with
  | none => simp
  | some message => simp

theorem find_subtractEntry_other (key : Text) (hkey : key ≠ origin.1) :
    (subtractEntry targetMsg resultMsg origin).find key = resultMsg.find key := by
  rw [subtractEntry_eq]
  cases subtractOne targetMsg origin.1 origin.2 with
  | none => rfl
  | some message => simp [hkey]

end Entry

def resultMap (originMsg targetMsg : GtidMap) : GtidMap :=
  originMsg.entries.foldl (subtractEntry targetMsg) empty

theorem find_resultMap (originMsg targetMsg : GtidMap) (key : Text) :
    (resultMap originMsg targetMsg).find key =
      (originMsg.find key).bind (subtractOne targetMsg key) := by
  have hfold := find_foldl_entries (find_subtractEntry_self targetMsg)
    (find_subtractEntry_other targetMsg) originMsg empty key
  rwa [find_empty, Option.or_none] at hfold

theorem storedRanges_resultMap (originMsg targetMsg : GtidMap) (uuid : List UInt8) :
    storedRanges (resultMap originMsg targetMsg) uuid =
      if targetMsg.find (dumphex uuid) = none then storedRanges originMsg uuid
      else sortRanges (difference (storedRanges originMsg uuid) (storedRanges targetMsg uuid)) := by
  have hempty (target : List TxnRange) : difference [] target = [] := by
    simp only [difference, sortRanges, insertionSort_nil, filter_eq_nil_iff]
    induction target.insertionSort RangeLe with
    | nil => simp [subtractAll]
    | cons range target ih => simpa [subtractAll, subtractRange] using ih
  rw [storedRanges, find_resultMap, storedRanges, storedRanges]
  cases originMsg.find (dumphex uuid) with
  | none => simp [hempty, sortRanges]
  | some message =>
    rw [Option.bind_some, subtractOne]
    cases targetMsg.find (dumphex uuid) with
    | none => simp
    | some target =>
      by_cases hdiff : difference message.txnRange target.txnRange = []
      · simp [hdiff, sortRanges]
      · simp [hdiff]

/-- Every entry of the result carries the uuid of its key and at least one range. -/
theorem resultMap_keyed {parts : List (List UInt8 × List TxnRange)} {originMsg : GtidMap}
    (horigin : MapRepresents (2 ^ 62) parts originMsg) (targetMsg : GtidMap) {key : Text}
    {message : GtidMessage} (hfind : (resultMap originMsg targetMsg).find key = some message) :
    ∃ uuid, uuid.length = serverUuidLen ∧ key = dumphex uuid ∧
      message.gtidUuid = some uuid ∧ message.txnRange ≠ [] := by
  rw [find_resultMap, Option.bind_eq_some_iff] at hfind
  obtain ⟨origin, hfound, hone⟩ := hfind
  obtain ⟨uuid, hlength, hkey, huuid, hne⟩ := horigin.keyed key origin hfound
  have hcopied : origin.gtidUuid.map (fun uuid => uuid.take serverUuidLen) = some uuid := by
    rw [huuid, Option.map_some, take_of_length_le hlength.le]
  refine ⟨uuid, hlength, hkey, ?_⟩
  rw [subtractOne, hcopied] at hone
  cases htarget : targetMsg.find key with
  | none =>
    rw [htarget] at hone
    obtain rfl := Option.some.inj hone
    exact ⟨rfl, hne⟩
  | some target =>
    simp only [htarget] at hone
    split_ifs at hone with hempty
    obtain rfl := Option.some.inj hone
    refine ⟨rfl, fun hnil => hempty ?_⟩
    have hperm := sortRanges_perm (difference origin.txnRange target.txnRange)
    simp only at hnil
    rw [hnil] at hperm
    exact hperm.nil_eq.symm

def partOf (entry : Text × GtidMessage) : List UInt8 × List TxnRange :=
  (entry.2.gtidUuid.getD [], entry.2.txnRange)

def Printable (map : GtidMap) : Prop :=
  ∀ key message, map.find key = some message →
    ∃ uuid, uuid.length = serverUuidLen ∧ key = dumphex uuid ∧
      message.gtidUuid = some uuid ∧ message.txnRange ≠ []

namespace Printable

variable {map : GtidMap} (hmap : Printable map)

include hmap

theorem entry {entry : Text × GtidMessage} (hentry : entry ∈ map.entries) :
    (partOf entry).1.length = serverUuidLen ∧ entry.1 = dumphex (partOf entry).1 ∧
      entry.2.gtidUuid = some (partOf entry).1 ∧ (partOf entry).2 ≠ [] := by
  obtain ⟨uuid, hlength, hkey, huuid, hne⟩ :=
    hmap entry.1 entry.2 ((map.mem_entries_iff entry.1 entry.2).mp hentry)
  simp only [partOf, huuid, Option.getD_some]
  exact ⟨hlength, hkey, trivial, hne⟩

theorem length_uuid : ∀ part ∈ map.entries.map partOf, part.1.length = serverUuidLen :=
  forall_mem_map.mpr fun _ hentry => (hmap.entry hentry).1

theorem mapM_formatString :
    map.entries.mapM (fun entry => entry.2.formatString) =
      some ((map.entries.map partOf).map printPart) := by
  have hprint : ∀ entry ∈ map.entries,
      entry.2.formatString = some (printPart (partOf entry)) := by
    intro entry hentry
    rw [GtidMessage.formatString, (hmap.entry hentry).2.2.1]
    rfl
  generalize map.entries = entries at hprint ⊢
  induction entries with
  | nil => rfl
  | cons entry entries ih =>
    obtain ⟨hentry, hentries⟩ := forall_mem_cons.mp hprint
    rw [mapM_cons, hentry, ih hentries]
    rfl

theorem nodup : ((map.entries.map partOf).map Prod.fst).Nodup := by
  rw [map_map, List.Nodup, pairwise_map]
  refine (List.Pairwise.and_mem.mp map.sorted).imp ?_
  rintro left right ⟨hleft, hright, hlt⟩ heq
  rw [(hmap.entry hleft).2.1, (hmap.entry hright).2.1] at hlt
  simp only [Function.comp_apply] at heq
  rw [heq] at hlt
  exact lt_irrefl _ hlt

theorem mem_parts_iff (uuid : List UInt8) (ranges : List TxnRange) :
    (uuid, ranges) ∈ map.entries.map partOf ↔
      ∃ message, map.find (dumphex uuid) = some message ∧ message.txnRange = ranges := by
  rw [mem_map]
  constructor
  · rintro ⟨entry, hentry, hpart⟩
    have hkey := (hmap.entry hentry).2.1
    rw [hpart] at hkey
    refine ⟨entry.2, ?_, congrArg Prod.snd hpart⟩
    rw [← hkey]
    exact (map.mem_entries_iff entry.1 entry.2).mp hentry
  · rintro ⟨message, hfind, rfl⟩
    obtain ⟨other, -, hkey, huuid, -⟩ := hmap _ _ hfind
    refine ⟨(dumphex uuid, message), (map.mem_entries_iff _ _).mpr hfind, ?_⟩
    rw [partOf, huuid, Option.getD_some, dumphex_injective hkey]

theorem denote_printed (uuid : List UInt8) :
    denote ([','].intercalate ((map.entries.map partOf).map printPart)) uuid =
      members (storedRanges map uuid) := by
  rw [denote, rangesOf, written_printed hmap.length_uuid]
  change members (rangesFor uuid _).flatten = _
  rcases rangesFor_nodup hmap.nodup uuid with hnone | ⟨ranges, hmem, hone⟩
  · have habsent : map.find (dumphex uuid) = none := by
      by_contra hfound
      obtain ⟨message, hmessage⟩ := Option.ne_none_iff_exists'.mp hfound
      have hmem := (hmap.mem_parts_iff uuid message.txnRange).mpr ⟨message, hmessage, rfl⟩
      simp only [rangesFor, map_eq_nil_iff, filter_eq_nil_iff] at hnone
      exact hnone _ hmem (by simp)
    rw [hnone, storedRanges, habsent]
    rfl
  · obtain ⟨message, hmessage, rfl⟩ := (hmap.mem_parts_iff uuid ranges).mp hmem
    rw [hone, storedRanges, hmessage, flatten_singleton]

end Printable

theorem gtidSubtract_eq {setOrigin setTarget : Text} {originMsg targetMsg : GtidMap}
    (horigin : deserialization setOrigin empty = some originMsg)
    (htarget : deserialization setTarget empty = some targetMsg)
    (hprintable : Printable (resultMap originMsg targetMsg)) :
    gtidSubtract setOrigin setTarget =
      some ([','].intercalate
        (((resultMap originMsg targetMsg).entries.map partOf).map printPart)) := by
  have hmap := hprintable.mapM_formatString
  rw [resultMap] at hmap ⊢
  simp [gtidSubtract, horigin, htarget, hmap]

theorem ValidRanges.positive64 {ranges : List TxnRange} (hvalid : ValidRanges (2 ^ 62) ranges) :
    Positive64 ranges := fun range hrange => by
  obtain ⟨hfirst, hlast⟩ := hvalid.bounded range hrange
  omega

section Subtract

variable {originParts targetParts : List (List UInt8 × List TxnRange)}
  {originMsg targetMsg : GtidMap} (horigin : MapRepresents (2 ^ 62) originParts originMsg)
  (htarget : MapRepresents (2 ^ 62) targetParts targetMsg)

include horigin htarget

/-- For one uuid the result holds the difference of what the two maps hold,
exactly when the target trims no run of the origin. -/
theorem members_resultMap_iff (uuid : List UInt8) :
    members (storedRanges (resultMap originMsg targetMsg) uuid) =
        members (storedRanges originMsg uuid) \ members (storedRanges targetMsg uuid) ↔
      ¬TrimsTail (members (storedRanges originMsg uuid))
        (members (storedRanges targetMsg uuid)) := by
  have hleft := horigin.represents uuid
  have hright := htarget.represents uuid
  rw [storedRanges_resultMap]
  split_ifs with hnone
  · have hempty : storedRanges targetMsg uuid = [] := by rw [storedRanges, hnone]
    rw [hempty, members_nil, Set.sdiff_empty]
    simp only [true_iff]
    rintro ⟨first, last, hlt, -, -, hrun, -⟩
    exact (hrun last hlt le_rfl).2
  · rw [members_perm (sortRanges_perm _)]
    exact members_difference_iff hleft.canonical hleft.valid.positive64 hright.canonical
      hright.valid.positive64

section Trimmed

variable {uuid : List UInt8}
  (htrims : ¬TrimsTail (members (storedRanges originMsg uuid)) (members (storedRanges targetMsg
    uuid)))

include htrims

theorem increasing_resultMap : Increasing (storedRanges (resultMap originMsg targetMsg) uuid) := by
  have hleft := horigin.represents uuid
  have hright := htarget.represents uuid
  rw [storedRanges_resultMap]
  split_ifs
  · exact hleft.canonical.increasing
  · exact increasing_difference hleft.canonical hleft.valid.positive64 hright.canonical
      hright.valid.positive64 htrims

/-- Untrimmed results stay within the numbers of the origin. -/
theorem validRanges_resultMap :
    ValidRanges (2 ^ 62) (storedRanges (resultMap originMsg targetMsg) uuid) := by
  have hproper := (increasing_resultMap horigin htarget htrims).proper
  have hmembers := (members_resultMap_iff horigin htarget uuid).mpr htrims
  refine ⟨hproper, fun range hrange => ?_⟩
  have horiginal {number : ℕ} (hfirst : range.1 ≤ number) (hlast : number ≤ range.2) :
      number ∈ members (storedRanges originMsg uuid) := by
    have hmem : number ∈ members (storedRanges (resultMap originMsg targetMsg) uuid) :=
      ⟨range, hrange, hfirst, hlast⟩
    rw [hmembers] at hmem
    exact hmem.1
  obtain ⟨lower, hlower, hlow, -⟩ := horiginal le_rfl (hproper range hrange)
  obtain ⟨upper, hupper, -, hhigh⟩ := horiginal (hproper range hrange) le_rfl
  have hvalid := (horigin.represents uuid).valid
  have hfirst := (hvalid.bounded lower hlower).1
  have hlast := (hvalid.bounded upper hupper).2
  exact ⟨by omega, by omega⟩

end Trimmed

/-- The printed result is again in normal form and leaves no uuid empty. -/
theorem normalForm_result
    (htrims : ∀ uuid, ¬TrimsTail (members (storedRanges originMsg uuid))
      (members (storedRanges targetMsg uuid)))
    (hprintable : Printable (resultMap originMsg targetMsg)) :
    NormalForm ([','].intercalate
      (((resultMap originMsg targetMsg).entries.map partOf).map printPart)) := by
  have hstored : ∀ part ∈ (resultMap originMsg targetMsg).entries.map partOf,
      part.2 = storedRanges (resultMap originMsg targetMsg) part.1 := by
    intro part hpart
    obtain ⟨message, hfind, hranges⟩ := (hprintable.mem_parts_iff part.1 part.2).mp hpart
    rw [storedRanges, hfind]
    exact hranges.symm
  refine ⟨?_, ?_, ?_⟩
  · intro text htext
    rw [setParts_printed hprintable.length_uuid] at htext
    obtain ⟨part, hpart, rfl⟩ := mem_map.mp htext
    have hvalid := validRanges_resultMap horigin htarget (htrims part.1)
    rw [← hstored part hpart] at hvalid
    obtain ⟨entry, hentry, rfl⟩ := mem_map.mp hpart
    exact validPart_printPart (hprintable.entry hentry).1 (hprintable.entry hentry).2.2.2
      hvalid.proper hvalid.bounded
  · rw [written_printed hprintable.length_uuid]
    exact hprintable.nodup
  · rw [written_printed hprintable.length_uuid]
    intro part hpart
    rw [hstored part hpart]
    exact (increasing_resultMap horigin htarget (htrims part.1)).ordered

end Subtract

theorem NormalForm.denote_nonempty {text : Text} (hnormal : NormalForm text)
    {part : List UInt8 × List TxnRange} (hpart : part ∈ written text) :
    (denote text part.1).Nonempty := by
  have hmem : part.2 ∈ rangesOf text part.1 :=
    mem_map.mpr ⟨part, mem_filter.mpr ⟨hpart, by simp⟩, rfl⟩
  have hproper := (written_validRanges hnormal.valid hpart).proper
  obtain ⟨piece, hpiece, rfl⟩ := mem_map.mp hpart
  obtain ⟨range, hrange⟩ := exists_mem_of_ne_nil _ (hnormal.valid.below piece hpiece).ranges_ne_nil
  exact ⟨range.1, range, mem_flatten.mpr ⟨_, hmem, hrange⟩, le_rfl, hproper range hrange⟩

/-- `difference` and `gtid_subtract` compute the set difference exactly when the
subtracted set does not take away the end of a run of the other and leave its
beginning: for two lists of closed ranges, and uuid by uuid for two texts. -/
theorem gtidSubtract_denotes_iff (origin target : List TxnRange) (setOrigin setTarget : Text) :
    (Canonical origin → Positive64 origin → Canonical target → Positive64 target →
      ((members (difference origin target) = members origin \ members target ∧
        Increasing (sortRanges (difference origin target))) ↔
        ¬TrimsTail (members origin) (members target))) ∧
    (NormalForm setOrigin → NormalForm setTarget →
      ((∃ result, gtidSubtract setOrigin setTarget = some result ∧ NormalForm result ∧
        (∀ uuid, denote result uuid = denote setOrigin uuid \ denote setTarget uuid) ∧
        ∀ part ∈ written result, (denote result part.1).Nonempty) ↔
        ∀ uuid, ¬TrimsTail (denote setOrigin uuid) (denote setTarget uuid))) := by
  constructor
  · intro horigin horiginPositive htarget htargetPositive
    rw [members_difference_iff horigin horiginPositive htarget htargetPositive]
    exact and_iff_left_of_imp
      (increasing_difference horigin horiginPositive htarget htargetPositive)
  · intro hnormalOrigin hnormalTarget
    obtain ⟨originMsg, horigin, horiginMap⟩ := deserialization_represents (by decide) hnormalOrigin.valid.below
    obtain ⟨targetMsg, htarget, htargetMap⟩ := deserialization_represents (by decide) hnormalTarget.valid.below
    have hprintable : Printable (resultMap originMsg targetMsg) := fun _ _ hfind =>
      resultMap_keyed horiginMap targetMsg hfind
    rw [gtidSubtract_eq horigin htarget hprintable]
    simp only [← hnormalOrigin.members_stored horiginMap, ← hnormalTarget.members_stored htargetMap]
    constructor
    · rintro ⟨result, hresult, -, hdenotes, -⟩ uuid
      obtain rfl := Option.some.inj hresult
      rw [← members_resultMap_iff horiginMap htargetMap uuid, ← hprintable.denote_printed uuid]
      exact hdenotes uuid
    · intro htrims
      have hnormal := normalForm_result horiginMap htargetMap htrims hprintable
      refine ⟨_, rfl, hnormal, fun uuid => ?_, fun part hpart => hnormal.denote_nonempty hpart⟩
      rw [hprintable.denote_printed uuid]
      exact (members_resultMap_iff horiginMap htargetMap uuid).mpr (htrims uuid)

/-- Digging a hole into a range is computed correctly: `1-9` without `3-4`. -/
theorem gtidSubtract_denotes_hole :
    (members (difference [(1, 9)] [(3, 4)]) = members [(1, 9)] \ members [(3, 4)] ∧
      Increasing (sortRanges (difference [(1, 9)] [(3, 4)]))) ∧
    ∃ result, gtidSubtract "00000000-0000-0000-0000-00000000000a:1-9".toList
        "00000000-0000-0000-0000-00000000000a:3-4".toList = some result ∧ NormalForm result ∧
      (∀ uuid, denote result uuid =
        denote "00000000-0000-0000-0000-00000000000a:1-9".toList uuid \
          denote "00000000-0000-0000-0000-00000000000a:3-4".toList uuid) ∧
      ∀ part ∈ written result, (denote result part.1).Nonempty := by
  have huntrimmed : ¬TrimsTail (members [(1, 9)]) (members [(3, 4)]) := by
    rintro ⟨first, last, hlt, hfirst, -, hrun, hend⟩
    have hlast := hrun last hlt le_rfl
    simp only [members_cons, members_nil, Set.union_empty, Set.mem_Icc] at hlast hend
    omega
  have hcanonical (range : TxnRange) (hrange : range.1 ≤ range.2) : Canonical [range] :=
    ⟨by simpa [Proper] using hrange, pairwise_singleton _ _⟩
  have horigin : written "00000000-0000-0000-0000-00000000000a:1-9".toList =
      [([0, 0, 0, 0, 0, 0, 0, 0, 0, 0, 0, 0, 0, 0, 0, 10], [(1, 9)])] := by decide
  have htarget : written "00000000-0000-0000-0000-00000000000a:3-4".toList =
      [([0, 0, 0, 0, 0, 0, 0, 0, 0, 0, 0, 0, 0, 0, 0, 10], [(3, 4)])] := by decide
  constructor
  · exact ((gtidSubtract_denotes_iff [(1, 9)] [(3, 4)] [] []).1 (hcanonical _ (by decide))
      (by simp [Positive64]) (hcanonical _ (by decide)) (by simp [Positive64])).mpr huntrimmed
  · refine ((gtidSubtract_denotes_iff [] [] _ _).2 ⟨by decide, by decide, by decide⟩
      ⟨by decide, by decide, by decide⟩).mpr fun uuid => ?_
    rw [denote, denote, rangesOf_singleton horigin, rangesOf_singleton htarget]
    split_ifs
    · simpa only [flatten_singleton] using huntrimmed
    · rintro ⟨first, last, hlt, hfirst, -⟩
      simp at hfirst

/-- `1-5` without `3-7` gives `1-4` instead of `1-2`, as ranges and as text. -/
theorem gtidSubtract_keeps_removed :
    (Canonical [(1, 5)] ∧ Canonical [(3, 7)] ∧
      members (difference [(1, 5)] [(3, 7)]) ≠ members [(1, 5)] \ members [(3, 7)]) ∧
    NormalForm "00000000-0000-0000-0000-00000000000a:1-5".toList ∧
    NormalForm "00000000-0000-0000-0000-00000000000a:3-7".toList ∧
    gtidSubtract "00000000-0000-0000-0000-00000000000a:1-5".toList
      "00000000-0000-0000-0000-00000000000a:3-7".toList =
        some "00000000-0000-0000-0000-00000000000a:1-4".toList ∧
    denote "00000000-0000-0000-0000-00000000000a:1-4".toList
        [0, 0, 0, 0, 0, 0, 0, 0, 0, 0, 0, 0, 0, 0, 0, 10] ≠
      denote "00000000-0000-0000-0000-00000000000a:1-5".toList
          [0, 0, 0, 0, 0, 0, 0, 0, 0, 0, 0, 0, 0, 0, 0, 10] \
        denote "00000000-0000-0000-0000-00000000000a:3-7".toList
          [0, 0, 0, 0, 0, 0, 0, 0, 0, 0, 0, 0, 0, 0, 0, 10] := by
  have hcanonical (range : TxnRange) (hrange : range.1 ≤ range.2) : Canonical [range] :=
    ⟨by simpa [Proper] using hrange, pairwise_singleton _ _⟩
  refine ⟨⟨hcanonical _ (by decide), hcanonical _ (by decide), fun heq => ?_⟩,
    ⟨by decide, by decide, by decide⟩, ⟨by decide, by decide, by decide⟩, by decide, fun heq => ?_⟩
  · have hthree : 3 ∈ members (difference [(1, 5)] [(3, 7)]) := ⟨(1, 4), by decide, by decide⟩
    rw [heq] at hthree
    simp at hthree
  · have hthree : 3 ∈ denote "00000000-0000-0000-0000-00000000000a:1-4".toList
        [0, 0, 0, 0, 0, 0, 0, 0, 0, 0, 0, 0, 0, 0, 0, 10] := ⟨(1, 4), by decide, by decide⟩
    rw [heq] at hthree
    exact hthree.2 ⟨(3, 7), by decide, by decide⟩

end OblogProxy.Gtid
