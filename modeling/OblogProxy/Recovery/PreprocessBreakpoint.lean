import OblogProxy.Recovery.GtidManager
import OblogProxy.Recovery.TornFile
import OblogProxy.Storage.BinlogIndex

/-!
# Recovery of the breakpoint

Before the storage starts again, `preprocess_breakpoint_binlog` compares the last
binlog file with the last record of the index, cuts the file back to a
transaction that the record or the gtid mapping names, and corrects the record.
The storage needs a file without a torn transaction, the length of the file as
the position, and a record that names the last transaction of the file.
-/

namespace OblogProxy.Recovery

open Bytes Event Gtid Storage BinlogIndex List Option

structure Home where
  disk : Disk
  index : BinlogIndex

namespace Home

/-- `remove_binlog`; a record that is not in the index is left alone. -/
def removeBinlog (home : Home) (record : BinlogIndexRecord) : Home :=
  if home.index.any fun line => line.equalTo record then
    { disk := home.disk.remove record.fileName
      index := BinlogIndex.removeBinlog home.index record }
  else home

def truncate (home : Home) (file : Text) (size : ℕ) (record : BinlogIndexRecord) : Home :=
  { disk := home.disk.resizeFile file size
    index := BinlogIndex.updateIndex home.index record }

end Home

section Preprocess

variable (checksum : Checksum) (gtidSeqs : List GtidSeq) (home : Home)
  (record : BinlogIndexRecord) (trx : BinlogTrxOverview)

/-- The record names the last complete transaction. -/
def recoverMatching : Home :=
  let fileSize := home.disk.fileSize record.fileName
  if trx.trxNeedTruncatedGtid = 0 then
    if record.position ≠ fileSize then
      { home with index := BinlogIndex.updateIndex home.index { record with position := fileSize } }
    else home
  else
    let correctRecord :=
      if 0 < trx.lastCompleteTrxGtid then
        { record with
          position := trx.lastCompleteTrxEndPos
          currentMapping := record.beforeMapping }
      else { record with beforeMapping := ([], 0) }
    if trx.lastCompleteTrxEndPos < fileSize then
      home.truncate record.fileName trx.lastCompleteTrxEndPos correctRecord
    else { home with index := BinlogIndex.updateIndex home.index correctRecord }

/-- The binlog file lags behind the index: the gtid mapping has to name a
transaction to cut back to. -/
def recoverLagging : Option Home :=
  match getFirstLeGtidSeq gtidSeqs trx.lastCompleteTrxGtid with
  | none => none
  | some gtidSeq =>
    match (home.disk record.fileName).bind fun file =>
        seekAndVerifyCompleteTrx checksum file gtidSeq.gtidStart with
    | none => none
    | some trxOverview =>
      if trxOverview.trxSpecifyTruncatedEndPos = 0 then some (home.removeBinlog record)
      else
        some (home.truncate record.fileName trxOverview.trxSpecifyTruncatedEndPos
          { record with
            position := trxOverview.trxSpecifyTruncatedEndPos
            currentMapping := (gtidSeq.xidStart, gtidSeq.gtidStart)
            checkpoint := gtidSeq.commitVersionStart })

/-- The binlog file is ahead of the index. -/
def recoverAhead : Home :=
  if trx.trxSpecifyTruncatedEndPos ≠ 0 then
    home.truncate record.fileName trx.trxSpecifyTruncatedEndPos
      { record with
        position := trx.trxSpecifyTruncatedEndPos
        currentMapping := record.beforeMapping }
  else home.removeBinlog record

/-- `preprocess_breakpoint_binlog`, where every file operation succeeds. -/
def preprocessBreakpointBinlog : Option Home :=
  let record := BinlogIndex.getLatestIndex home.index
  if record.fileName = [] then some home
  else
    match (home.disk record.fileName).bind fun file =>
        seekAndVerifyCompleteTrx checksum file record.beforeMapping.2 with
    | none => none
    | some trx =>
      if trx.hasPreviousGtidsEvent = false then some (home.removeBinlog record)
      else if trx.lastCompleteTrxGtid ≤ record.currentMapping.2 ∧
          record.beforeMapping.2 ≤ trx.lastCompleteTrxGtid then
        some (recoverMatching home record trx)
      else if trx.lastCompleteTrxGtid = 0 ∧ trx.trxNeedTruncatedGtid = 0 then some home
      else if trx.lastCompleteTrxGtid < record.beforeMapping.2 then
        recoverLagging checksum gtidSeqs home record trx
      else some (recoverAhead home record trx)

end Preprocess

/-- The last record of the index names the file. -/
structure Home.AtBreakpoint {checksum : Checksum} (home : Home) (record : BinlogIndexRecord)
    (file : BreakpointFile checksum) : Prop where
  latest : BinlogIndex.getLatestIndex home.index = record
  named : record.fileName ≠ []
  onDisk : home.disk record.fileName = some file.bytes

section Breakpoint

variable {checksum : Checksum} {gtidSeqs : List GtidSeq} {home : Home}
  {record : BinlogIndexRecord} {file : BreakpointFile checksum}

section Home

variable (henabled : checksum.enabled = true) (hhome : home.AtBreakpoint record file)

include henabled hhome

theorem preprocessBreakpointBinlog_torn (hxid : file.TornXid) :
    preprocessBreakpointBinlog checksum gtidSeqs home = none := by
  simp [preprocessBreakpointBinlog, hhome.latest, hhome.onDisk, if_neg hhome.named,
    file.seekAndVerifyCompleteTrx_bytes henabled, if_pos hxid]

theorem preprocessBreakpointBinlog_eq (hxid : ¬file.TornXid) :
    preprocessBreakpointBinlog checksum gtidSeqs home =
      if lastNumber 0 file.transactions ≤ record.currentMapping.2 ∧
          record.beforeMapping.2 ≤ lastNumber 0 file.transactions then
        some (recoverMatching home record (file.overview record.beforeMapping.2))
      else if lastNumber 0 file.transactions = 0 ∧ file.tornNumber = 0 then some home
      else if lastNumber 0 file.transactions < record.beforeMapping.2 then
        recoverLagging checksum gtidSeqs home record (file.overview record.beforeMapping.2)
      else some (recoverAhead home record (file.overview record.beforeMapping.2)) := by
  simp only [preprocessBreakpointBinlog, hhome.latest, hhome.onDisk, if_neg hhome.named,
    Option.bind_some, file.seekAndVerifyCompleteTrx_bytes henabled, if_neg hxid]
  rfl

theorem recoverLagging_eq (hxid : ¬file.TornXid) (specify : ℕ) :
    recoverLagging checksum gtidSeqs home record (file.overview specify) =
      (getFirstLeGtidSeq gtidSeqs (lastNumber 0 file.transactions)).map fun gtidSeq =>
        if (file.overview gtidSeq.gtidStart).trxSpecifyTruncatedEndPos = 0 then
          home.removeBinlog record
        else
          home.truncate record.fileName
            (file.overview gtidSeq.gtidStart).trxSpecifyTruncatedEndPos
            { record with
              position := (file.overview gtidSeq.gtidStart).trxSpecifyTruncatedEndPos
              currentMapping := (gtidSeq.xidStart, gtidSeq.gtidStart)
              checkpoint := gtidSeq.commitVersionStart } := by
  have hlast : (file.overview specify).lastCompleteTrxGtid = lastNumber 0 file.transactions := rfl
  rw [recoverLagging, hlast]
  cases getFirstLeGtidSeq gtidSeqs (lastNumber 0 file.transactions) with
  | none => rfl
  | some gtidSeq =>
    simp only [hhome.onDisk, Option.bind_some, file.seekAndVerifyCompleteTrx_bytes henabled,
      if_neg hxid, Option.map_some]
    split_ifs <;> rfl

end Home

/-- A record that was written for the file, or when it was created: its current
mapping is the last transaction of a batch in front of the bytes that are only
partly on disk, and the before mapping is the transaction before it. -/
structure BreakpointFile.WrittenFor (file : BreakpointFile checksum)
    (record : BinlogIndexRecord) : Prop where
  before : record.beforeMapping.2 = record.currentMapping.2 - 1
  created : file.first ≤ record.currentMapping.2 + 1
  written : record.currentMapping.2 < file.first + file.transactions.length ∨
    record.currentMapping.2 = file.first + file.transactions.length ∧ file.tornNumber ≠ 0

theorem BreakpointFile.lastNumber_transactions (file : BreakpointFile checksum) :
    lastNumber 0 file.transactions =
      if file.transactions.length = 0 then 0 else file.first + file.transactions.length - 1 := by
  have hnumbers := congrArg List.getLast? file.numbers
  rw [List.getLast?_map] at hnumbers
  rw [lastNumber, hnumbers, List.getLast?_range']
  split_ifs <;> simp

/-- The breakpoint is recovered, unless the file ends inside a commit behind its
header, or the first transaction of the file is torn and the record names a
transaction before it that the mapping file does not know. -/
theorem preprocessBreakpointBinlog_isSome_iff (henabled : checksum.enabled = true)
    (hhome : home.AtBreakpoint record file) (hwritten : file.WrittenFor record) :
    (preprocessBreakpointBinlog checksum gtidSeqs home).isSome ↔
      ¬file.TornXid ∧
        (file.transactions = [] → file.tornNumber ≠ 0 → 0 < record.beforeMapping.2 →
          (getFirstLeGtidSeq gtidSeqs 0).isSome) := by
  by_cases hxid : file.TornXid
  · simp [preprocessBreakpointBinlog_torn henabled hhome hxid, hxid]
  rw [preprocessBreakpointBinlog_eq henabled hhome hxid, recoverLagging_eq henabled hhome hxid]
  obtain ⟨hbefore, hcreated, hlast⟩ := hwritten
  have hnumber := file.lastNumber_transactions
  by_cases hempty : file.transactions = []
  · rw [hempty] at hnumber ⊢
    have hzero : lastNumber 0 [] = 0 := rfl
    rw [hzero]
    by_cases hmatching : record.beforeMapping.2 = 0
    · simp [hmatching, hxid]
    rw [if_neg (by omega)]
    by_cases htorn : file.tornNumber = 0
    · simp [htorn, hxid]
    · simp [htorn, hxid, Nat.pos_of_ne_zero hmatching]
  · -- the record is at most one transaction ahead of the file
    have hlength : file.transactions.length ≠ 0 := by simpa using hempty
    rw [if_neg hlength] at hnumber
    split_ifs
    all_goals first | omega | simp [hempty, hxid]

end Breakpoint

def sampleFile (cut : ℕ) (hcut : cut < 138) : BreakpointFile zeroChecksum where
  formatDescription := sampleFormatDescription
  previousGtids := samplePreviousGtids
  first := 1
  transactions := [sampleTransaction 155 1]
  next := sampleTransaction 293 2
  cut := cut
  formatDescription_kind := sampleFormatDescription_kind
  previousGtids_kind := samplePreviousGtids_kind
  placed := placed_sampleTransactions
  fits := fits_sampleTransactions
  first_pos := by decide
  numbered := rfl
  cut_lt := hcut

def sampleFreshFile (cut : ℕ) (hcut : cut < 138) : BreakpointFile zeroChecksum where
  formatDescription := sampleFormatDescription
  previousGtids := samplePreviousGtids
  first := 3
  transactions := []
  next := sampleTransaction 155 3
  cut := cut
  formatDescription_kind := sampleFormatDescription_kind
  previousGtids_kind := samplePreviousGtids_kind
  placed := by decide
  fits := by
    intro transaction hmem event hevent
    rw [List.nil_append, List.mem_singleton] at hmem
    subst hmem
    exact fits_sampleTransaction 155 (by decide) hevent
  first_pos := by decide
  numbered := rfl
  cut_lt := hcut

def sampleRecord (before position : ℕ) : BinlogIndexRecord :=
  { fileName := ['f'], index := 1, beforeMapping := (['a'], before)
    currentMapping := (['b'], before + 1), position }

def sampleHome (file : BreakpointFile zeroChecksum) (record : BinlogIndexRecord) : Home :=
  { disk := Disk.write (fun _ => none) record.fileName file.bytes, index := [record] }

theorem atBreakpoint_sample (file : BreakpointFile zeroChecksum) (before position : ℕ) :
    (sampleHome file (sampleRecord before position)).AtBreakpoint (sampleRecord before position)
      file :=
  ⟨rfl, by simp [sampleRecord], by simp [sampleHome]⟩

/-- A file that ends behind the gtid event of its second transaction is
recovered. -/
theorem preprocessBreakpointBinlog_sample :
    (preprocessBreakpointBinlog zeroChecksum []
      (sampleHome (sampleFile 70 (by decide)) (sampleRecord 0 293))).isSome :=
  (preprocessBreakpointBinlog_isSome_iff rfl (atBreakpoint_sample _ 0 293)
    ⟨rfl, by decide, by decide⟩).mpr ⟨by decide, by decide⟩

/-- The recovery fails for a file that ends behind the header of a commit, and
for a new file whose first transaction is torn behind its gtid event. -/
theorem preprocessBreakpointBinlog_fails :
    ((sampleFile 126 (by decide)).WrittenFor (sampleRecord 0 293) ∧
      preprocessBreakpointBinlog zeroChecksum []
        (sampleHome (sampleFile 126 (by decide)) (sampleRecord 0 293)) = none) ∧
    (sampleFreshFile 65 (by decide)).WrittenFor (sampleRecord 1 155) ∧
      preprocessBreakpointBinlog zeroChecksum []
        (sampleHome (sampleFreshFile 65 (by decide)) (sampleRecord 1 155)) = none := by
  refine ⟨⟨⟨rfl, by decide, by decide⟩, ?_⟩, ⟨rfl, by decide, by decide⟩, ?_⟩
  · exact preprocessBreakpointBinlog_torn rfl (atBreakpoint_sample _ 0 293) (by decide)
  · have hxid : ¬(sampleFreshFile 65 (by decide)).TornXid := by decide
    rw [preprocessBreakpointBinlog_eq rfl (atBreakpoint_sample _ 1 155) hxid,
      recoverLagging_eq rfl (atBreakpoint_sample _ 1 155) hxid]
    decide

variable {checksum : Checksum} {gtidSeqs : List GtidSeq} {home after : Home}
  {record : BinlogIndexRecord} {file : BreakpointFile checksum}

/-- The file ends with its header or with a complete transaction, the stored
position is its length, no complete transaction up to the current mapping is
lost, and the stored record names the last transaction that is left. -/
def BreakpointFile.Consistent (file : BreakpointFile checksum) (record : BinlogIndexRecord)
    (after : Home) : Prop :=
  ∃ kept, kept <+: file.transactions ∧
    after.disk record.fileName = some (file.keep kept) ∧
    (getLatestIndex after.index).position = (file.keep kept).length ∧
    (∀ transaction ∈ file.transactions, transaction.number ≤ record.currentMapping.2 →
      transaction ∈ kept) ∧
    ∀ last ∈ kept.getLast?,
      last.number = (getLatestIndex after.index).currentMapping.2 ∨
        last.number = (getLatestIndex after.index).beforeMapping.2

/-- When the recovery leaves a consistent breakpoint, if it keeps the file.  The
cases are those of the recovery: the record names the last complete transaction;
the file has no transaction and is left as it is; the file lags behind the
record; the file is ahead of it. -/
def BreakpointFile.ConsistentWhen (file : BreakpointFile checksum) (gtidSeqs : List GtidSeq)
    (record : BinlogIndexRecord) : Prop :=
  let last := lastNumber 0 file.transactions
  if last ≤ record.currentMapping.2 ∧ record.beforeMapping.2 ≤ last then
    if file.tornNumber = 0 then file.cut = 0
    else if 0 < last then last = record.beforeMapping.2
    else record.position = file.endPos []
  else if last = 0 ∧ file.tornNumber = 0 then file.cut = 0 ∧ record.position = file.endPos []
  else if last < record.beforeMapping.2 then
    ∀ gtidSeq ∈ getFirstLeGtidSeq gtidSeqs last,
      file.first ≤ gtidSeq.gtidStart → gtidSeq.gtidStart = last
  else record.beforeMapping.2 < file.first

namespace BreakpointFile

variable {kept : List Transaction}

section Keep

variable (file)

theorem length_bytes : file.bytes.length = file.endPos file.transactions + file.cut := by
  have hcut := file.cut_lt
  rw [bytes, length_append, length_keep, length_take, length_eventsBytes]
  omega

theorem endPos_append (front back : List Transaction) :
    file.endPos (front ++ back) = file.endPos front +
      Tail.totalSize (ObLogEvent.eventLength checksum) (back.flatMap Transaction.events) := by
  simp [endPos, Nat.add_assoc]

theorem totalSize_transaction_pos (transaction : Transaction) :
    0 < Tail.totalSize (ObLogEvent.eventLength checksum) transaction.events := by
  obtain ⟨event, gtid, middle, last, hevents, -⟩ := transaction.exists_last
  rw [hevents, Tail.totalSize_cons]
  exact Nat.add_pos_left (event.eventLength_pos checksum) _

theorem endPos_injective {front back : List Transaction} (hinitial : front <+: back)
    (hpos : file.endPos front = file.endPos back) : front = back := by
  obtain ⟨rest, rfl⟩ := hinitial
  cases rest with
  | nil => simp
  | cons transaction rest =>
    have hsize := @totalSize_transaction_pos checksum transaction
    rw [endPos_append, flatMap_cons, Tail.totalSize_append] at hpos
    omega

theorem endPos_le {front back : List Transaction} (hinitial : front <+: back) :
    file.endPos front ≤ file.endPos back := by
  obtain ⟨rest, rfl⟩ := hinitial
  rw [endPos_append]
  exact Nat.le_add_right _ _

theorem keep_inj {left right : List Transaction} (hleft : left <+: file.transactions)
    (hright : right <+: file.transactions) : file.keep left = file.keep right ↔ left = right := by
  refine ⟨fun hkeep => ?_, fun h => h ▸ rfl⟩
  have hpos := congrArg List.length hkeep
  rw [length_keep, length_keep] at hpos
  rcases prefix_or_prefix_of_prefix hleft hright with hinitial | hinitial
  · exact file.endPos_injective hinitial hpos
  · exact (file.endPos_injective hinitial hpos.symm).symm

theorem bytes_eq_keep_iff (hkept : kept <+: file.transactions) :
    file.bytes = file.keep kept ↔ kept = file.transactions ∧ file.cut = 0 := by
  constructor
  · intro hbytes
    have hlength := congrArg List.length hbytes
    rw [length_bytes, length_keep] at hlength
    have hle := file.endPos_le hkept
    exact ⟨file.endPos_injective hkept (by omega), by omega⟩
  · rintro ⟨rfl, hcut⟩
    rw [bytes, hcut, take_zero, append_nil]

theorem take_bytes (hkept : kept <+: file.transactions) :
    file.bytes.take (file.endPos kept) = file.keep kept := by
  obtain ⟨rest, hrest⟩ := hkept
  rw [bytes, ← hrest, keep, flatMap_append, ← append_assoc file.header,
    eventsBytes_append, ← append_assoc binlogMagic, ← keep, append_assoc]
  exact take_left' (file.length_keep kept)

theorem getElem?_number (place : ℕ) (hplace : place < file.transactions.length) :
    (file.transactions[place]?).map Transaction.number = some (file.first + place) := by
  have hnumbers := congrArg (·[place]?) file.numbers
  simpa [getElem?_range', hplace] using hnumbers

theorem mem_take_iff {transaction : Transaction} (hmem : transaction ∈ file.transactions)
    (count : ℕ) :
    transaction ∈ file.transactions.take count ↔ transaction.number < file.first + count := by
  constructor
  · intro htake
    obtain ⟨place, hplace⟩ := mem_iff_getElem?.mp htake
    rw [getElem?_take] at hplace
    split_ifs at hplace with hcount
    have hlength := (List.getElem?_eq_some_iff.mp hplace).1
    have hnumber := file.getElem?_number place hlength
    rw [hplace, map_some, some.injEq] at hnumber
    omega
  · intro hnumber
    obtain ⟨place, hplace⟩ := mem_iff_getElem?.mp hmem
    have hlength := (List.getElem?_eq_some_iff.mp hplace).1
    have hat := file.getElem?_number place hlength
    rw [hplace, map_some, some.injEq] at hat
    apply mem_iff_getElem?.mpr
    exact ⟨place, by rw [getElem?_take, if_pos (by omega), hplace]⟩

theorem exists_number {number : ℕ} (hfirst : file.first ≤ number)
    (hlast : number < file.first + file.transactions.length) :
    ∃ transaction ∈ file.transactions, transaction.number = number := by
  have hat := file.getElem?_number (number - file.first) (by omega)
  obtain ⟨transaction, hplace, hnumber⟩ := map_eq_some_iff.mp hat
  exact ⟨transaction, mem_of_getElem? hplace, by omega⟩

theorem number_le_last {transaction : Transaction} (hmem : transaction ∈ file.transactions) :
    transaction.number ≤ lastNumber 0 file.transactions := by
  have hlast := file.lastNumber_transactions
  have hlength := length_pos_of_mem hmem
  rw [if_neg (by omega)] at hlast
  have htake := (file.mem_take_iff hmem file.transactions.length).mp (by simpa using hmem)
  omega

end Keep

section After

theorem consistent_iff_keep (hkept : kept <+: file.transactions)
    (hdisk : after.disk record.fileName = some (file.keep kept)) :
    file.Consistent record after ↔
      (getLatestIndex after.index).position = file.endPos kept ∧
      (∀ transaction ∈ file.transactions, transaction.number ≤ record.currentMapping.2 →
        transaction ∈ kept) ∧
      ∀ last ∈ kept.getLast?,
        last.number = (getLatestIndex after.index).currentMapping.2 ∨
          last.number = (getLatestIndex after.index).beforeMapping.2 := by
  constructor
  · rintro ⟨other, hother, hfile, hconsistent⟩
    rw [hdisk, some.injEq, file.keep_inj hkept hother] at hfile
    subst hfile
    rwa [length_keep] at hconsistent
  · intro hconsistent
    exact ⟨kept, hkept, hdisk, by rwa [length_keep]⟩

/-- A file that is left as it is must not have a torn transaction. -/
theorem consistent_iff_bytes (hdisk : after.disk record.fileName = some file.bytes) :
    file.Consistent record after ↔ file.cut = 0 ∧
      (getLatestIndex after.index).position = file.endPos file.transactions ∧
      ∀ last ∈ file.transactions.getLast?,
        last.number = (getLatestIndex after.index).currentMapping.2 ∨
          last.number = (getLatestIndex after.index).beforeMapping.2 := by
  constructor
  · rintro ⟨kept, hkept, hfile, hposition, -, hlast⟩
    rw [hdisk, some.injEq, file.bytes_eq_keep_iff hkept] at hfile
    obtain ⟨rfl, hcut⟩ := hfile
    exact ⟨hcut, by rwa [length_keep] at hposition, hlast⟩
  · rintro ⟨hcut, hposition, hlast⟩
    have hbytes := (file.bytes_eq_keep_iff (prefix_refl _)).mpr ⟨rfl, hcut⟩
    rw [hbytes] at hdisk
    rw [consistent_iff_keep (prefix_refl _) hdisk]
    exact ⟨hposition, fun transaction hmem _ => hmem, hlast⟩

theorem forall_getLast?_iff {P : ℕ → Prop} :
    (∀ last ∈ file.transactions.getLast?, P last.number) ↔
      0 < lastNumber 0 file.transactions → P (lastNumber 0 file.transactions) := by
  have hnumber := file.lastNumber_transactions
  have hfirst := file.first_pos
  rw [lastNumber] at *
  cases hlast : file.transactions.getLast? with
  | none => simp
  | some last =>
    rw [hlast] at hnumber
    have hlength : file.transactions.length ≠ 0 := by
      intro hzero
      rw [length_eq_zero_iff.mp hzero] at hlast
      simp at hlast
    rw [if_neg hlength] at hnumber
    simp only [map_some, getD_some, mem_some_iff, forall_eq'] at hnumber ⊢
    exact ⟨fun h _ => h, fun h => h (by omega)⟩

theorem fileSize_bytes (hhome : home.AtBreakpoint record file) :
    home.disk.fileSize record.fileName = file.endPos file.transactions + file.cut := by
  rw [Disk.fileSize, Disk.content, hhome.onDisk, getD_some, length_bytes]

theorem disk_truncate (hhome : home.AtBreakpoint record file) (hkept : kept <+: file.transactions)
    (corrected : BinlogIndexRecord) :
    (home.truncate record.fileName (file.endPos kept) corrected).disk record.fileName =
      some (file.keep kept) := by
  rw [Home.truncate]
  dsimp only
  rw [Disk.resizeFile, Disk.write_self, Disk.content, hhome.onDisk, getD_some,
    file.take_bytes hkept]

theorem getLatestIndex_truncate (home : Home) (name : Gtid.Text) (size : ℕ)
    (corrected : BinlogIndexRecord) :
    getLatestIndex (home.truncate name size corrected).index = corrected :=
  getLatestIndex_updateIndex _ _

theorem disk_removeBinlog (hhome : home.AtBreakpoint record file) :
    (home.removeBinlog record).disk record.fileName = none := by
  have hmem : record ∈ home.index := by
    have hlatest := hhome.latest
    rw [getLatestIndex] at hlatest
    cases hlast : home.index.getLast? with
    | none =>
      rw [hlast] at hlatest
      exact absurd (hlatest ▸ rfl) hhome.named
    | some line =>
      rw [hlast, getD_some] at hlatest
      exact hlatest ▸ mem_of_getLast? hlast
  have hfound : home.index.any (fun line => line.equalTo record) = true :=
    any_eq_true.mpr ⟨record, hmem, by simp [BinlogIndexRecord.equalTo]⟩
  rw [Home.removeBinlog, if_pos hfound]
  exact Function.update_self _ _ _

theorem eq_nil_of_lastNumber (hlast : lastNumber 0 file.transactions = 0) :
    file.transactions = [] := by
  have hnumber := file.lastNumber_transactions
  have hfirst := file.first_pos
  split_ifs at hnumber with hlength
  · exact length_eq_zero_iff.mp hlength
  · omega

theorem cut_pos (htorn : file.tornNumber ≠ 0) : 0 < file.cut := by
  obtain ⟨torn, back, -, -, hfits, -⟩ := file.exists_torn
  rw [tornNumber] at htorn
  cases hfront : file.tornFront with
  | nil => simp [hfront] at htorn
  | cons event front =>
    have hevent := event.eventLength_pos checksum
    rw [hfront, Tail.totalSize_cons] at hfits
    omega

/-- Without a torn transaction only the position is corrected. -/
theorem recoverMatching_complete {trx : BinlogTrxOverview}
    (hlatest : getLatestIndex home.index = record) (hneed : trx.trxNeedTruncatedGtid = 0) :
    (recoverMatching home record trx).disk = home.disk ∧
      getLatestIndex (recoverMatching home record trx).index =
        { record with position := home.disk.fileSize record.fileName } := by
  rw [recoverMatching]
  split_ifs with hposition
  · exact ⟨rfl, getLatestIndex_updateIndex _ _⟩
  · rw [hlatest, ← not_not.mp hposition]
    exact ⟨rfl, rfl⟩

/-- The record that `recoverMatching` stores for a torn transaction. -/
def correctedRecord (record : BinlogIndexRecord) (last endPos : ℕ) : BinlogIndexRecord :=
  if 0 < last then { record with position := endPos, currentMapping := record.beforeMapping }
  else { record with beforeMapping := ([], 0) }

theorem recoverMatching_torn {trx : BinlogTrxOverview} (hneed : trx.trxNeedTruncatedGtid ≠ 0)
    (hend : trx.lastCompleteTrxEndPos < home.disk.fileSize record.fileName) :
    recoverMatching home record trx =
      home.truncate record.fileName trx.lastCompleteTrxEndPos
        (correctedRecord record trx.lastCompleteTrxGtid trx.lastCompleteTrxEndPos) := by
  rw [recoverMatching]
  rw [if_neg hneed, if_pos hend, correctedRecord]

theorem consistent_recoverMatching (hhome : home.AtBreakpoint record file)
    (hconsecutive : record.currentMapping.2 = record.beforeMapping.2 + 1)
    (hmatching : lastNumber 0 file.transactions ≤ record.currentMapping.2 ∧
      record.beforeMapping.2 ≤ lastNumber 0 file.transactions) :
    file.Consistent record
        (recoverMatching home record (file.overview record.beforeMapping.2)) ↔
      if file.tornNumber = 0 then file.cut = 0
      else if 0 < lastNumber 0 file.transactions then
        lastNumber 0 file.transactions = record.beforeMapping.2
      else record.position = file.endPos [] := by
  have hsize := fileSize_bytes hhome
  by_cases htorn : file.tornNumber = 0
  · obtain ⟨hdisk, hlatest⟩ := @recoverMatching_complete home record
      (file.overview record.beforeMapping.2) hhome.latest htorn
    rw [if_pos htorn, consistent_iff_bytes ((congrFun hdisk _).trans hhome.onDisk), hlatest, hsize,
      forall_getLast?_iff (P := fun number => number = record.currentMapping.2 ∨
        number = record.beforeMapping.2)]
    constructor
    · exact fun h => h.1
    · exact fun hcut => ⟨hcut, by simp [hcut], fun _ => by omega⟩
  · have hcut := cut_pos htorn
    have hend : (file.overview record.beforeMapping.2).lastCompleteTrxEndPos <
        home.disk.fileSize record.fileName := by
      rw [hsize]
      exact Nat.lt_add_of_pos_right hcut
    rw [if_neg htorn, recoverMatching_torn htorn hend]
    dsimp only [overview]
    rw [consistent_iff_keep (prefix_refl _) (disk_truncate hhome (prefix_refl _) _),
      getLatestIndex_truncate, correctedRecord]
    split_ifs with hlast
    · rw [forall_getLast?_iff (P := fun number => number = record.beforeMapping.2 ∨
        number = record.beforeMapping.2)]
      constructor
      · exact fun h => (h.2.2 hlast).elim id id
      · exact fun h => ⟨rfl, fun transaction hmem _ => hmem, fun _ => Or.inl h⟩
    · have hempty := eq_nil_of_lastNumber (Nat.eq_zero_of_not_pos hlast)
      simp [hempty]

variable {number : ℕ}

theorem number_getLast?_take (hfirst : file.first ≤ number)
    (hlast : number < file.first + file.transactions.length) {last : Transaction}
    (hmem : last ∈ (file.transactions.take (number - file.first + 1)).getLast?) :
    last.number = number := by
  have hat := file.getElem?_number (number - file.first) (by omega)
  obtain ⟨transaction, hplace, hnumber⟩ := map_eq_some_iff.mp hat
  rw [getLast?_take, if_neg (Nat.succ_ne_zero _), Nat.add_sub_cancel, hplace,
    some_or, mem_some_iff] at hmem
  subst hmem
  omega

/-- A file that is cut back to the transaction of the current mapping. -/
theorem consistent_truncate (hhome : home.AtBreakpoint record file) (hfirst : file.first ≤ number)
    (hlast : number < file.first + file.transactions.length) {corrected : BinlogIndexRecord}
    (hmapping : corrected.currentMapping.2 = number) (hposition : corrected.position =
      file.endPos (file.transactions.take (number - file.first + 1))) :
    file.Consistent record (home.truncate record.fileName
        (file.endPos (file.transactions.take (number - file.first + 1))) corrected) ↔
      ∀ transaction ∈ file.transactions, transaction.number ≤ record.currentMapping.2 →
        transaction.number ≤ number := by
  have hkept := take_prefix (number - file.first + 1) file.transactions
  rw [consistent_iff_keep hkept (disk_truncate hhome hkept corrected), getLatestIndex_truncate]
  constructor
  · rintro ⟨-, hcovered, -⟩ transaction hmem hnumber
    have htake := (file.mem_take_iff hmem _).mp (hcovered transaction hmem hnumber)
    omega
  · intro hcovered
    refine ⟨hposition, ?_, ?_⟩
    · intro transaction hmem hnumber
      have hle := hcovered transaction hmem hnumber
      exact (file.mem_take_iff hmem _).mpr (by omega)
    · intro last hmem
      exact Or.inl ((number_getLast?_take hfirst hlast hmem).trans hmapping.symm)

theorem specifyTruncatedEndPos_eq_zero (number : ℕ) :
    (file.overview number).trxSpecifyTruncatedEndPos = 0 ↔
      ¬(file.first ≤ number ∧ number < file.first + file.transactions.length) := by
  rw [overview]
  split_ifs with hnumber
  · simp [hnumber, endPos, binlogMagicSize]
  · simp [hnumber]

theorem specifyTruncatedEndPos_eq
    (hnumber : file.first ≤ number ∧ number < file.first + file.transactions.length) :
    (file.overview number).trxSpecifyTruncatedEndPos =
      file.endPos (file.transactions.take (number - file.first + 1)) := by
  exact if_pos hnumber

def KeptConsistent (file : BreakpointFile checksum) (record : BinlogIndexRecord)
    (after : Home) : Prop :=
  (after.disk record.fileName).isSome → file.Consistent record after

section Home

variable (hhome : home.AtBreakpoint record file)

include hhome

theorem keptConsistent_removeBinlog :
    file.KeptConsistent record (home.removeBinlog record) := by
  intro hsome
  rw [disk_removeBinlog hhome] at hsome
  exact absurd hsome (by simp)

theorem keptConsistent_recoverMatching (specify : ℕ) :
    file.KeptConsistent record (recoverMatching home record (file.overview specify)) ↔
      file.Consistent record (recoverMatching home record (file.overview specify)) := by
  apply imp_iff_right
  by_cases htorn : file.tornNumber = 0
  · obtain ⟨hdisk, -⟩ := @recoverMatching_complete home record (file.overview specify)
      hhome.latest htorn
    rw [hdisk, hhome.onDisk, isSome_some]
  · have hcut := cut_pos htorn
    have hend : (file.overview specify).lastCompleteTrxEndPos <
        home.disk.fileSize record.fileName := by
      rw [fileSize_bytes hhome]
      exact Nat.lt_add_of_pos_right hcut
    rw [recoverMatching_torn htorn hend]
    dsimp only [overview]
    rw [disk_truncate hhome (prefix_refl _), isSome_some]

theorem keptConsistent_unchanged (hlast : lastNumber 0 file.transactions = 0) :
    file.KeptConsistent record home ↔ file.cut = 0 ∧ record.position = file.endPos [] := by
  have hempty := eq_nil_of_lastNumber hlast
  rw [KeptConsistent, hhome.onDisk, isSome_some, imp_iff_right rfl,
    consistent_iff_bytes hhome.onDisk, hhome.latest, hempty]
  simp

theorem keptConsistent_recoverLagging
    (hconsecutive : record.currentMapping.2 = record.beforeMapping.2 + 1)
    (hlagging : lastNumber 0 file.transactions < record.beforeMapping.2) {number : ℕ}
    (hnumber : number ≤ lastNumber 0 file.transactions) {corrected : BinlogIndexRecord}
    (hmapping : corrected.currentMapping.2 = number)
    (hposition : corrected.position = (file.overview number).trxSpecifyTruncatedEndPos) :
    file.KeptConsistent record
        (if (file.overview number).trxSpecifyTruncatedEndPos = 0 then home.removeBinlog record
        else home.truncate record.fileName (file.overview number).trxSpecifyTruncatedEndPos
          corrected) ↔
      (file.first ≤ number → number = lastNumber 0 file.transactions) := by
  have hlast := file.lastNumber_transactions
  have hfirst := file.first_pos
  by_cases hfound : file.first ≤ number ∧ number < file.first + file.transactions.length
  · rw [if_neg (fun hzero => (specifyTruncatedEndPos_eq_zero number).mp hzero hfound),
      specifyTruncatedEndPos_eq hfound, KeptConsistent, disk_truncate hhome (List.take_prefix _ _),
      isSome_some, imp_iff_right rfl, consistent_truncate hhome hfound.1 hfound.2 hmapping
      (hposition.trans (specifyTruncatedEndPos_eq hfound)), imp_iff_right hfound.1]
    constructor
    · intro hcovered
      obtain ⟨transaction, hmem, htransaction⟩ := file.exists_number
        (hfound.1.trans hnumber) (by split_ifs at hlast <;> omega)
      have hle := hcovered transaction hmem (by omega)
      omega
    · intro heq transaction hmem _
      exact heq ▸ file.number_le_last hmem
  · rw [if_pos ((specifyTruncatedEndPos_eq_zero number).mpr hfound)]
    refine iff_of_true (keptConsistent_removeBinlog hhome) fun hle => absurd ⟨hle, ?_⟩ hfound
    split_ifs at hlast <;> omega

theorem keptConsistent_recoverAhead
    (hconsecutive : record.currentMapping.2 = record.beforeMapping.2 + 1)
    (hahead : record.currentMapping.2 < lastNumber 0 file.transactions) :
    file.KeptConsistent record
        (recoverAhead home record (file.overview record.beforeMapping.2)) ↔
      record.beforeMapping.2 < file.first := by
  have hlast := file.lastNumber_transactions
  rw [recoverAhead, ite_not]
  by_cases hfound : file.first ≤ record.beforeMapping.2 ∧
      record.beforeMapping.2 < file.first + file.transactions.length
  · rw [if_neg (fun hzero => (specifyTruncatedEndPos_eq_zero _).mp hzero hfound),
      specifyTruncatedEndPos_eq hfound, KeptConsistent, disk_truncate hhome (List.take_prefix _ _),
      isSome_some, imp_iff_right rfl, consistent_truncate hhome hfound.1 hfound.2 rfl rfl]
    -- the transaction of the current mapping is complete in the file and cut off
    refine iff_of_false (fun hcovered => ?_) (by omega)
    obtain ⟨transaction, hmem, htransaction⟩ := @exists_number checksum file
      record.currentMapping.2 (by omega) (by split_ifs at hlast <;> omega)
    have hle := hcovered transaction hmem htransaction.le
    omega
  · rw [if_pos ((specifyTruncatedEndPos_eq_zero _).mpr hfound)]
    refine iff_of_true (keptConsistent_removeBinlog hhome) ?_
    by_contra hle
    exact hfound ⟨Nat.not_lt.mp hle, by split_ifs at hlast <;> omega⟩

end Home

end After

/-- The recovery leaves a consistent breakpoint if it keeps the file, in exactly
the cases of `ConsistentWhen` and when it fails because of a torn commit. -/
theorem preprocessBreakpointBinlog_consistent_iff (henabled : checksum.enabled = true)
    (hhome : home.AtBreakpoint record file)
    (hconsecutive : record.currentMapping.2 = record.beforeMapping.2 + 1) :
    (∀ after, preprocessBreakpointBinlog checksum gtidSeqs home = some after →
        (after.disk record.fileName).isSome → file.Consistent record after) ↔
      file.TornXid ∨ file.ConsistentWhen gtidSeqs record := by
  by_cases hxid : file.TornXid
  · simp [preprocessBreakpointBinlog_torn henabled hhome hxid, hxid]
  rw [or_iff_right hxid, preprocessBreakpointBinlog_eq henabled hhome hxid,
    recoverLagging_eq henabled hhome hxid, ConsistentWhen]
  by_cases hmatching : lastNumber 0 file.transactions ≤ record.currentMapping.2 ∧
      record.beforeMapping.2 ≤ lastNumber 0 file.transactions
  · rw [if_pos hmatching, if_pos hmatching, ← consistent_recoverMatching hhome hconsecutive
      hmatching, ← keptConsistent_recoverMatching hhome]
    simp [KeptConsistent]
  rw [if_neg hmatching, if_neg hmatching]
  by_cases hempty : lastNumber 0 file.transactions = 0 ∧ file.tornNumber = 0
  · rw [if_pos hempty, if_pos hempty, ← keptConsistent_unchanged hhome hempty.1]
    simp [KeptConsistent]
  rw [if_neg hempty, if_neg hempty]
  by_cases hlagging : lastNumber 0 file.transactions < record.beforeMapping.2
  · rw [if_pos hlagging, if_pos hlagging]
    have hbranch := fun gtidSeq (hfound : getFirstLeGtidSeq gtidSeqs
        (lastNumber 0 file.transactions) = some gtidSeq) =>
      @keptConsistent_recoverLagging _ _ _ _ hhome hconsecutive hlagging _
        (getFirstLeGtidSeq_le hfound)
        { record with
          position := (file.overview gtidSeq.gtidStart).trxSpecifyTruncatedEndPos
          currentMapping := (gtidSeq.xidStart, gtidSeq.gtidStart)
          checkpoint := gtidSeq.commitVersionStart } rfl rfl
    simp only [map_eq_some_iff, forall_exists_index, and_imp, mem_def]
    constructor
    · intro hkept gtidSeq hfound
      exact (hbranch gtidSeq hfound).mp (hkept _ gtidSeq hfound rfl)
    · rintro hwhen after gtidSeq hfound rfl
      exact (hbranch gtidSeq hfound).mpr (hwhen gtidSeq hfound)
  · rw [if_neg hlagging, if_neg hlagging, ← keptConsistent_recoverAhead hhome hconsecutive
      (by omega)]
    simp [KeptConsistent]

/-- A file that ends behind its first transaction is left consistent. -/
theorem preprocessBreakpointBinlog_consistent_sample :
    (sampleHome (sampleFile 0 (by decide)) (sampleRecord 0 293)).AtBreakpoint
        (sampleRecord 0 293) (sampleFile 0 (by decide)) ∧
      ∀ after, preprocessBreakpointBinlog zeroChecksum []
          (sampleHome (sampleFile 0 (by decide)) (sampleRecord 0 293)) = some after →
        (after.disk (sampleRecord 0 293).fileName).isSome →
          (sampleFile 0 (by decide)).Consistent (sampleRecord 0 293) after :=
  ⟨atBreakpoint_sample _ 0 293,
    (preprocessBreakpointBinlog_consistent_iff rfl (atBreakpoint_sample _ 0 293) rfl).mpr
      (Or.inr (by
        rfl))⟩

/-- The first ten bytes of a gtid event stay in the file. -/
theorem preprocessBreakpointBinlog_keeps_torn :
    ∃ after, preprocessBreakpointBinlog zeroChecksum []
        (sampleHome (sampleFile 10 (by decide)) (sampleRecord 0 293)) = some after ∧
      (after.disk (sampleRecord 0 293).fileName).isSome ∧
      ¬(sampleFile 10 (by decide)).Consistent (sampleRecord 0 293) after := by
  have hhome := atBreakpoint_sample (sampleFile 10 (by decide)) 0 293
  have hxid : ¬(sampleFile 10 (by decide)).TornXid := by decide
  refine ⟨_, (preprocessBreakpointBinlog_eq rfl hhome hxid).trans (if_pos (by decide)), ?_⟩
  have hconsistent := consistent_recoverMatching hhome rfl (by decide)
  rw [if_pos (by decide), ← keptConsistent_recoverMatching hhome, KeptConsistent] at hconsistent
  exact Classical.not_imp.mp (hconsistent.not.mpr (by decide))

end BreakpointFile

end OblogProxy.Recovery
