import OblogProxy.Recovery.PreprocessBreakpoint
import OblogProxy.Recovery.ScanTermination

/-!
# A start from a torn index

A crash while a record is added leaves a piece of its line at the end of the index.
The piece is then the last line, so it is what `preprocess_breakpoint_binlog` and
`BinlogStorage::init` take for the latest record; and a piece without all its fields
is taken for no record at all.
-/

namespace OblogProxy.Recovery

open Bytes Event Gtid Lines Loop
  OblogProxy.Storage IndexFile List Option

/-- What happens to the last record of the index. -/
inductive IndexChange where
  | keep
  | update (record : BinlogIndexRecord)
  | remove

/-- The size to which the binlog file is cut, if it is, and the change of the index. -/
abbrev BreakpointChange : Type := Option ℕ × IndexChange

section Change

variable (checksum : Checksum) (gtidSeqs : List GtidSeq) (disk : Disk)
  (record : BinlogIndexRecord) (trx : BinlogTrxOverview)

def changeMatching : BreakpointChange :=
  let fileSize := disk.fileSize record.fileName
  if trx.trxNeedTruncatedGtid = 0 then
    if record.position ≠ fileSize then (none, .update { record with position := fileSize })
    else (none, .keep)
  else
    let correctRecord :=
      if 0 < trx.lastCompleteTrxGtid then
        { record with
          position := trx.lastCompleteTrxEndPos
          currentMapping := record.beforeMapping }
      else { record with beforeMapping := ([], 0) }
    (if trx.lastCompleteTrxEndPos < fileSize then some trx.lastCompleteTrxEndPos else none,
      .update correctRecord)

def changeLagging : Option BreakpointChange :=
  match getFirstLeGtidSeq gtidSeqs trx.lastCompleteTrxGtid with
  | none => none
  | some gtidSeq =>
    match (disk record.fileName).bind fun file =>
        seekAndVerifyCompleteTrx checksum file gtidSeq.gtidStart with
    | none => none
    | some trxOverview =>
      if trxOverview.trxSpecifyTruncatedEndPos = 0 then some (none, .remove)
      else
        some (some trxOverview.trxSpecifyTruncatedEndPos, .update
          { record with
            position := trxOverview.trxSpecifyTruncatedEndPos
            currentMapping := (gtidSeq.xidStart, gtidSeq.gtidStart)
            checkpoint := gtidSeq.commitVersionStart })

def changeAhead : BreakpointChange :=
  if trx.trxSpecifyTruncatedEndPos ≠ 0 then
    (some trx.trxSpecifyTruncatedEndPos, .update
      { record with
        position := trx.trxSpecifyTruncatedEndPos
        currentMapping := record.beforeMapping })
  else (none, .remove)

/-- The change that `preprocess_breakpoint_binlog` makes for the latest record. -/
def breakpointChange : Option BreakpointChange :=
  match (disk record.fileName).bind fun file =>
      seekAndVerifyCompleteTrx checksum file record.beforeMapping.2 with
  | none => none
  | some trx =>
    if trx.hasPreviousGtidsEvent = false then some (none, .remove)
    else if trx.lastCompleteTrxGtid ≤ record.currentMapping.2 ∧
        record.beforeMapping.2 ≤ trx.lastCompleteTrxGtid then
      some (changeMatching disk record trx)
    else if trx.lastCompleteTrxGtid = 0 ∧ trx.trxNeedTruncatedGtid = 0 then some (none, .keep)
    else if trx.lastCompleteTrxGtid < record.beforeMapping.2 then
      changeLagging checksum gtidSeqs disk record trx
    else some (changeAhead record trx)

end Change

def Home.applyChange (home : Home) (record : BinlogIndexRecord) : BreakpointChange → Home
  | (size, change) =>
    let disk := match size with
      | none => home.disk
      | some size => home.disk.resizeFile record.fileName size
    match change with
    | .keep => { home with disk }
    | .update changed => { disk, index := BinlogIndex.updateIndex home.index changed }
    | .remove => { home with disk }.removeBinlog record

section Apply

variable {checksum : Checksum} {gtidSeqs : List GtidSeq} (home : Home)
  (record : BinlogIndexRecord) (trx : BinlogTrxOverview)

theorem recoverMatching_eq_applyChange :
    recoverMatching home record trx =
      home.applyChange record (changeMatching home.disk record trx) := by
  simp only [recoverMatching, changeMatching]
  split_ifs <;> rfl

theorem recoverLagging_eq_map :
    recoverLagging checksum gtidSeqs home record trx =
      (changeLagging checksum gtidSeqs home.disk record trx).map (home.applyChange record) := by
  rw [recoverLagging, changeLagging]
  cases getFirstLeGtidSeq gtidSeqs trx.lastCompleteTrxGtid with
  | none => rfl
  | some gtidSeq =>
    dsimp only
    cases (home.disk record.fileName).bind fun file =>
        seekAndVerifyCompleteTrx checksum file gtidSeq.gtidStart with
    | none => rfl
    | some trxOverview =>
      dsimp only
      split_ifs <;> rfl

theorem recoverAhead_eq_applyChange :
    recoverAhead home record trx = home.applyChange record (changeAhead record trx) := by
  rw [recoverAhead, changeAhead]
  split_ifs <;> rfl

/-- The recovery of the breakpoint is this change of the latest record. -/
theorem preprocessBreakpointBinlog_eq_map (checksum : Checksum) (gtidSeqs : List GtidSeq) :
    preprocessBreakpointBinlog checksum gtidSeqs home =
      let record := BinlogIndex.getLatestIndex home.index
      if record.fileName = [] then some home
      else (breakpointChange checksum gtidSeqs home.disk record).map (home.applyChange record) := by
  simp only [preprocessBreakpointBinlog, breakpointChange]
  split_ifs
  · rfl
  · cases (home.disk (BinlogIndex.getLatestIndex home.index).fileName).bind fun file =>
        seekAndVerifyCompleteTrx checksum file
          (BinlogIndex.getLatestIndex home.index).beforeMapping.2 with
    | none => rfl
    | some trx =>
      dsimp only
      rw [recoverMatching_eq_applyChange, recoverLagging_eq_map, recoverAhead_eq_applyChange]
      split_ifs <;> rfl

end Apply

structure IndexHome where
  disk : Disk
  index : Text

/-- What a first start takes its record from. -/
structure FirstStart where
  names : FileNames
  initialMapping : Mapping := ([], 0)
  startTimestamp : ℕ := 0

def FirstStart.record (first : FirstStart) : BinlogIndexRecord where
  fileName := first.names.path 1
  index := 1
  currentMapping := first.initialMapping
  checkpoint := first.startTimestamp

inductive StartOutcome where
  | failed
  /-- As if nothing had been written; the index is left like this. -/
  | firstStart (index : Text)
  | resumes (record : BinlogIndexRecord)

variable {records : BinlogIndex}

namespace IndexHome

variable (checksum : Checksum) (gtidSeqs : List GtidSeq) (first : FirstStart) (home : IndexHome)

/-- The change on files and the text of the index; `none` is an exception. -/
def applyChange (record : BinlogIndexRecord) : BreakpointChange → Option IndexHome
  | (size, change) =>
    let disk := match size with
      | none => home.disk
      | some size => home.disk.resizeFile record.fileName size
    match change with
    | .keep => some { home with disk }
    | .update changed => some { disk, index := updateIndex home.index changed }
    | .remove =>
      (removeBinlog home.index record).map fun
        | none => { home with disk }
        | some index => { disk := disk.remove record.fileName, index }

/-- `preprocess_breakpoint_binlog` on the text of the index. -/
def preprocess : Option IndexHome := do
  let record ← getLatestIndex home.index
  if record.fileName = [] then return home
  else
    let change ← breakpointChange checksum gtidSeqs home.disk record
    home.applyChange record change

/-- `BinlogStorage::init`, up to the choice that `recover_safely` makes. -/
def init : StartOutcome :=
  match getLatestIndex home.index with
  | none => .failed
  | some record =>
    if record.fileName = [] then .firstStart (addIndex home.index first.record)
    else if record.position = 0 then .firstStart home.index
    else .resumes record

def start : StartOutcome :=
  match home.preprocess checksum gtidSeqs with
  | none => .failed
  | some home => home.init first

/-- On an index of complete records the text is changed as the list is. -/
theorem applyChange_indexText (hreadable : ∀ record ∈ records, record.Readable) (disk : Disk)
    (record : BinlogIndexRecord) (change : BreakpointChange) :
    applyChange ⟨disk, indexText records⟩ record change =
      let home := Home.applyChange ⟨disk, records⟩ record change
      some ⟨home.disk, indexText home.index⟩ := by
  obtain ⟨size, change⟩ := change
  cases change with
  | keep => rfl
  | update changed =>
    simp only [applyChange, Home.applyChange, updateIndex_indexText hreadable]
  | remove =>
    simp only [applyChange, Home.applyChange, removeBinlog_indexText hreadable,
      map_some, Home.removeBinlog]
    split_ifs <;> rfl

/-- On an index of complete records the recovery of the breakpoint is the one on the
list of records. -/
theorem preprocess_indexText (hreadable : ∀ record ∈ records, record.Readable) (disk : Disk) :
    preprocess checksum gtidSeqs ⟨disk, indexText records⟩ =
      (preprocessBreakpointBinlog checksum gtidSeqs ⟨disk, records⟩).map fun home =>
        ⟨home.disk, indexText home.index⟩ := by
  rw [preprocess, getLatestIndex_indexText hreadable, preprocessBreakpointBinlog_eq_map]
  simp only [bind_eq_bind, bind_some]
  split_ifs
  · rfl
  · cases breakpointChange checksum gtidSeqs disk (BinlogIndex.getLatestIndex records) with
    | none => rfl
    | some change => exact applyChange_indexText hreadable disk _ change

end IndexHome

open IndexHome

section Scan

variable {checksum : Checksum} {file : Bytes}

/-- The positions behind transactions are not at the start of the file. -/
structure EndPositions (overview : BinlogTrxOverview) : Prop where
  last_pos : 0 < overview.lastCompleteTrxGtid → 0 < overview.lastCompleteTrxEndPos
  last_lt : overview.lastCompleteTrxEndPos < 2 ^ 32
  specify_lt : overview.trxSpecifyTruncatedEndPos < 2 ^ 32

theorem EndPositions.completeTrx {overview : BinlogTrxOverview}
    (hoverview : EndPositions overview) {endPos : ℕ} (hpos : 0 < endPos) (hlt : endPos < 2 ^ 32) :
    EndPositions (overview.completeTrx endPos) := by
  refine ⟨fun _ => hpos, hlt, ?_⟩
  rw [BinlogTrxOverview.completeTrx]
  split_ifs
  · exact hlt
  · exact hoverview.specify_lt

theorem EndPositions.visitTrx {pos : ℕ} {header : OblogEventHeader} {scan : TrxScan}
    (hscan : EndPositions scan.toBinlogTrxOverview) (hpos : 0 < header.nextPosition)
    (hlt : header.nextPosition < 2 ^ 32) :
    EndPositions (visitTrx checksum file pos header scan).toBinlogTrxOverview := by
  have hcomplete := hscan.completeTrx hpos hlt
  rw [Recovery.visitTrx]
  split
  · exact ⟨fun _ => hpos, hlt, hscan.specify_lt⟩
  · split
    · exact hscan
    · exact ⟨hscan.last_pos, hscan.last_lt, hscan.specify_lt⟩
  · split
    · exact hscan
    · split_ifs
      · exact hscan
      · exact hcomplete
  · exact hcomplete
  · exact hscan

section Sought

variable {specify : ℕ} {trx : BinlogTrxOverview}
  (hseek : seekAndVerifyCompleteTrx checksum file specify = some trx)

include hseek

theorem seekAndVerifyCompleteTrx_endPositions (hadvance : HeadersAdvance file) :
    EndPositions trx := by
  have hstart : EndPositions { trxSpecifyTruncatedGtid := specify } := by
    refine ⟨fun hlt => absurd hlt (Nat.lt_irrefl 0), by norm_num, by norm_num⟩
  rw [seekAndVerifyCompleteTrx] at hseek
  split_ifs at hseek
  · split at hseek
    · cases hseek
    · rename_i scan stop hscan
      have hkeeps : ∀ pos buff (scan : TrxScan),
          pos < (OblogEventHeader.deserialize buff).nextPosition →
            EndPositions scan.toBinlogTrxOverview →
              EndPositions (visitTrx checksum file pos (OblogEventHeader.deserialize buff)
                scan).toBinlogTrxOverview := by
        intro pos buff scan hlt hkept
        exact hkept.visitTrx (Nat.zero_lt_of_lt hlt)
          (OblogEventHeader.deserialize_nextPosition_lt buff)
      have hfinal := @scanEvents_invariant _ _ _ (fun scan => EndPositions scan.toBinlogTrxOverview)
        hadvance hkeeps _ _ _ _ _ .refl hstart hscan
      split_ifs at hseek <;> cases hseek <;> exact hfinal
  · cases hseek
    exact hstart

theorem length_pos_of_hasPreviousGtidsEvent (hprevious : trx.hasPreviousGtidsEvent = true) :
    0 < file.length := by
  rw [seekAndVerifyCompleteTrx] at hseek
  split_ifs at hseek with hmagic
  · exact Nat.lt_of_lt_of_le (by decide) (length_of_magic hmagic)
  · cases hseek
    cases hprevious

end Sought

end Scan

/-- The binlog files and the checkpoints of the mapping file, as they are written: the
headers of a file are at positions that move forward, and a checkpoint can stand in a
record. -/
structure Scannable (disk : Disk) (gtidSeqs : List GtidSeq) : Prop where
  length_lt : ∀ fileName file, disk fileName = some file → file.length < 2 ^ 63
  advance : ∀ fileName file, disk fileName = some file → HeadersAdvance file
  mapping : ∀ gtidSeq ∈ gtidSeqs, MappingWritable (gtidSeq.xidStart, gtidSeq.gtidStart)
  commitVersion_lt : ∀ gtidSeq ∈ gtidSeqs, gtidSeq.commitVersionStart < 2 ^ 63

section Updated

variable {checksum : Checksum} {gtidSeqs : List GtidSeq} {disk : Disk}
  {record changed : BinlogIndexRecord} {trx : BinlogTrxOverview} {size : Option ℕ}

structure Corrects (changed record : BinlogIndexRecord) : Prop where
  equalTo : changed.equalTo record = true
  writable : changed.Writable

section Corrects

variable (hwritable : record.Writable)

include hwritable

theorem corrects_position {position : ℕ} {current : Mapping} (hcurrent : MappingWritable current)
    {checkpoint : ℕ} (hcheckpoint : checkpoint < 2 ^ 63) (hpos : 0 < position)
    (hlt : position < 2 ^ 63) :
    Corrects { record with position, currentMapping := current, checkpoint } record where
  equalTo := by simp [BinlogIndexRecord.equalTo]
  writable :=
    { hwritable with
      current := hcurrent
      checkpoint_lt := hcheckpoint
      position_pos := hpos
      position_lt := hlt }

theorem changeMatching_corrects (htrx : EndPositions trx)
    (hsize : 0 < disk.fileSize record.fileName) (hsizeLt : disk.fileSize record.fileName < 2 ^ 63)
    (hchange : (changeMatching disk record trx).2 = .update changed) : Corrects changed record := by
  by_cases hneed : trx.trxNeedTruncatedGtid = 0
  · simp only [changeMatching, if_pos hneed] at hchange
    split_ifs at hchange
    cases hchange
    exact corrects_position hwritable hwritable.current hwritable.checkpoint_lt hsize hsizeLt
  · simp only [changeMatching, if_neg hneed] at hchange
    cases hchange
    split_ifs with hlast
    · exact corrects_position hwritable hwritable.before hwritable.checkpoint_lt
        (htrx.last_pos hlast) (htrx.last_lt.trans (by norm_num))
    · exact ⟨by simp [BinlogIndexRecord.equalTo],
        { hwritable with before := ⟨by simp, by norm_num⟩ }⟩

theorem changeLagging_corrects (hscannable : Scannable disk gtidSeqs) {change : BreakpointChange}
    (hlagging : changeLagging checksum gtidSeqs disk record trx = some change)
    (hchange : change.2 = .update changed) : Corrects changed record := by
  rw [changeLagging] at hlagging
  split at hlagging
  · cases hlagging
  · rename_i gtidSeq hfound
    split at hlagging
    · cases hlagging
    · rename_i trxOverview hseek
      have hmem : gtidSeq ∈ gtidSeqs := mem_reverse.mp (mem_of_find?_eq_some hfound)
      obtain ⟨file, hfile, hscan⟩ := bind_eq_some_iff.mp hseek
      have htrx := seekAndVerifyCompleteTrx_endPositions hscan (hscannable.advance _ _ hfile)
      split_ifs at hlagging with hzero
      · cases hlagging
        cases hchange
      · cases hlagging
        cases hchange
        exact corrects_position hwritable (hscannable.mapping gtidSeq hmem)
          (hscannable.commitVersion_lt gtidSeq hmem) (Nat.pos_of_ne_zero hzero)
          (htrx.specify_lt.trans (by norm_num))

theorem changeAhead_corrects (htrx : EndPositions trx)
    (hchange : (changeAhead record trx).2 = .update changed) : Corrects changed record := by
  rw [changeAhead] at hchange
  split_ifs at hchange with hzero
  cases hchange
  exact corrects_position hwritable hwritable.before hwritable.checkpoint_lt
    (Nat.pos_of_ne_zero hzero) (htrx.specify_lt.trans (by norm_num))

/-- The recovery of the breakpoint only ever puts another record of the same file in
the place of a record. -/
theorem breakpointChange_corrects (hscannable : Scannable disk gtidSeqs) {change : BreakpointChange}
    (hbreakpoint : breakpointChange checksum gtidSeqs disk record = some change)
    (hchange : change.2 = .update changed) : Corrects changed record := by
  rw [breakpointChange] at hbreakpoint
  split at hbreakpoint
  · cases hbreakpoint
  · rename_i trx hseek
    obtain ⟨file, hfile, hscan⟩ := bind_eq_some_iff.mp hseek
    have htrx := seekAndVerifyCompleteTrx_endPositions hscan (hscannable.advance _ _ hfile)
    have hsize : disk.fileSize record.fileName = file.length := by
      rw [Disk.fileSize, Disk.content, hfile, getD_some]
    split_ifs at hbreakpoint with hprevious hmatching hempty hlagging
    · cases hbreakpoint
      cases hchange
    · cases hbreakpoint
      refine changeMatching_corrects hwritable htrx ?_ ?_ hchange
      · rw [hsize]
        exact length_pos_of_hasPreviousGtidsEvent hscan (by simpa using hprevious)
      · rw [hsize]
        exact hscannable.length_lt _ _ hfile
    · cases hbreakpoint
      cases hchange
    · exact changeLagging_corrects hwritable hscannable hbreakpoint hchange
    · cases hbreakpoint
      exact changeAhead_corrects hwritable htrx hchange

end Corrects

end Updated

/-- Complete records, and a piece of the line of a further one, which is for another
file. -/
structure TornIndex where
  complete : BinlogIndex
  further : BinlogIndexRecord
  torn : Text
  complete_ne_nil : complete ≠ []
  writable : ∀ record ∈ complete, record.Writable
  writable_further : further.Writable
  other : ∀ record ∈ complete, record.equalTo further = false
  torn_ne_nil : torn ≠ []
  torn_le : torn <+: further.line

namespace TornIndex

variable (index : TornIndex)

def text : Text :=
  indexText index.complete ++ index.torn

/-- The start fails, or it goes on from the last complete record or the torn one. -/
def SafeStart (checksum : Checksum) (gtidSeqs : List GtidSeq) (first : FirstStart) (disk : Disk) :
    Prop :=
  match start checksum gtidSeqs first ⟨disk, index.text⟩ with
  | .failed => True
  | .firstStart _ => False
  | .resumes record =>
    record.equalTo (BinlogIndex.getLatestIndex index.complete) = true ∨
      record.equalTo index.further = true

variable {index} {checksum : Checksum} {gtidSeqs : List GtidSeq} {first : FirstStart}
  {disk : Disk}

theorem mem_torn {char : Char} (hchar : char ∈ index.torn) :
    char ≠ '\n' ∧ char ≠ Char.ofNat 0 := by
  rcases mem_append.mp (index.torn_le.subset hchar) with hfront | hdigit
  · exact index.writable_further.mem_front hfront
  · exact (indexChar_toDigits _ _ hdigit).2

theorem newline_not_mem_torn : '\n' ∉ index.torn :=
  fun hchar => (mem_torn hchar).1 rfl

/-- The piece is taken for the latest record. -/
theorem getLatestIndex_text :
    getLatestIndex index.text = BinlogIndexRecord.parse {} index.torn := by
  have hlatest := getLatestIndex_append index.newline_not_mem_torn (Or.inl rfl)
    (indexText_cases index.complete) index.torn_ne_nil
  rwa [append_nil] at hlatest

/-- Without all the tabs the index is taken for an empty one. -/
theorem start_of_count_lt (hcount : index.torn.count '\t' < 5) :
    start checksum gtidSeqs first ⟨disk, index.text⟩ =
      .firstStart (addIndex index.text first.record) := by
  have hlatest : getLatestIndex index.text = some {} := by
    rw [getLatestIndex_text]
    exact BinlogIndexRecord.parse_of_count_lt (fun hchar => (mem_torn hchar).2 rfl) hcount
  simp [start, preprocess, init, hlatest]

/-- The record that a piece with some digits of the position is read as. -/
structure ReadsAs (index : TornIndex) (record : BinlogIndexRecord) : Prop where
  writable : record.Writable
  equalTo : record.equalTo index.further = true
  parse : BinlogIndexRecord.parse {} index.torn = some record

theorem parse_torn (hcount : 5 ≤ index.torn.count '\t') :
    BinlogIndexRecord.parse {} index.torn = none ∨ ∃ record, index.ReadsAs record := by
  have hwritable := index.writable_further
  obtain ⟨position, htorn, hposition⟩ :=
    exists_of_length_le_count hwritable.tab_not_mem index.torn_le hcount
  rcases eq_or_ne position [] with rfl | hne
  · refine Or.inl ?_
    rw [htorn, append_nil]
    exact hwritable.parse_front
  · obtain ⟨missing, hdigits⟩ := hposition
    have hvalid : ValidNumber position := by
      refine ⟨hne, fun char hchar => (validNumber_toDigits index.further.position).2 char ?_⟩
      rw [← hdigits]
      exact mem_append_left missing hchar
    have hpos : 0 < readNumber position :=
      readNumber_pos hwritable.position_pos ⟨missing, hdigits⟩ hne
    have hle : readNumber position ≤ index.further.position :=
      calc readNumber position ≤ readNumber position * 10 ^ missing.length :=
            Nat.le_mul_of_pos_right _ (by positivity)
        _ ≤ readNumber (position ++ missing) := by
            rw [readNumber_append]
            exact Nat.le_add_right _ _
        _ = index.further.position := by rw [hdigits, readNumber_toDigits]
    have hlt : readNumber position < 2 ^ 63 := hle.trans_lt hwritable.position_lt
    refine Or.inr ⟨{ index.further with position := readNumber position }, ?_, ?_, ?_⟩
    · exact { hwritable with position_pos := hpos, position_lt := hlt }
    · simp [BinlogIndexRecord.equalTo]
    · have hparse := hwritable.parse_line hvalid hlt (Or.inl rfl)
      rwa [append_nil, ← htorn] at hparse

theorem updateIndex_text (record : BinlogIndexRecord) :
    updateIndex index.text record = indexText (index.complete ++ [record]) := by
  have hupdate := updateIndex_append index.newline_not_mem_torn (Or.inl rfl)
    (indexText_cases index.complete) index.torn_ne_nil record
  rw [indexText_append, indexText_singleton]
  rwa [append_nil] at hupdate

theorem removeBinlog_text {record : BinlogIndexRecord} (hread : index.ReadsAs record) :
    removeBinlog index.text record =
      some (some (indexText index.complete)) := by
  have hkept : ∀ line ∈ index.complete, (!line.equalTo record) = true := by
    intro line hline
    have hfurther := index.other line hline
    rw [BinlogIndexRecord.equalTo_congr_right hread.equalTo, hfurther]
    rfl
  have hreadable : ∀ line ∈ index.complete, line.Readable := fun line hline =>
    (index.writable line hline).toReadable
  rw [removeBinlog, text, getLines_indexText_append hreadable,
    getLines_unterminated index.newline_not_mem_torn index.torn_ne_nil,
    mapM_parse_append hreadable, mapM_cons, hread.parse]
  have hfilter : BinlogIndex.removeBinlog (index.complete ++ [record]) record =
      index.complete := by
    rw [BinlogIndex.removeBinlog, filter_append, filter_eq_self.mpr hkept]
    simp
  simp [hfilter]

theorem init_indexText (hne : records ≠ []) (hwritable : ∀ record ∈ records, record.Writable) :
    init first ⟨disk, indexText records⟩ =
      .resumes (BinlogIndex.getLatestIndex records) := by
  have hlatest : (BinlogIndex.getLatestIndex records).Writable := by
    rw [BinlogIndex.getLatestIndex, getLast?_eq_some_getLast hne, getD_some]
    exact hwritable _ (getLast_mem hne)
  rw [init, getLatestIndex_indexText fun record hmem => (hwritable record hmem).toReadable]
  simp only [if_neg hlatest.fileName_ne_nil, if_neg hlatest.position_pos.ne']

theorem safeStart_of_readsAs (hscannable : Scannable disk gtidSeqs) {record : BinlogIndexRecord}
    (hread : index.ReadsAs record) : index.SafeStart checksum gtidSeqs first disk := by
  have hlatest : getLatestIndex index.text = some record := by
    rw [getLatestIndex_text, hread.parse]
  rw [SafeStart, start, preprocess, hlatest]
  simp only [bind_eq_bind, bind_some, if_neg hread.writable.fileName_ne_nil]
  cases hbreakpoint : breakpointChange checksum gtidSeqs disk record with
  | none => trivial
  | some change =>
    obtain ⟨size, change⟩ := change
    cases change with
    | keep =>
      -- the piece is left as it is
      simp only [bind_some, applyChange, init, hlatest,
        if_neg hread.writable.fileName_ne_nil, if_neg hread.writable.position_pos.ne']
      exact Or.inr hread.equalTo
    | update changed =>
      have hcorrects := breakpointChange_corrects hread.writable hscannable hbreakpoint rfl
      have hall : ∀ line ∈ index.complete ++ [changed], line.Writable := by
        simpa [or_imp, forall_and] using ⟨index.writable, hcorrects.writable⟩
      simp only [bind_some, applyChange, updateIndex_text,
        init_indexText (append_ne_nil_of_right_ne_nil _ (cons_ne_nil _ _)) hall]
      refine Or.inr ?_
      rw [BinlogIndex.getLatestIndex, getLast?_concat, getD_some,
        ← BinlogIndexRecord.equalTo_congr_right hread.equalTo]
      exact hcorrects.equalTo
    | remove =>
      simp only [bind_some, applyChange, removeBinlog_text hread,
        map_some, init_indexText index.complete_ne_nil index.writable]
      exact Or.inl (BinlogIndexRecord.equalTo_self _)

/-- A start is safe exactly if the piece has all five tabs of the record. -/
theorem safeStart_iff (index : TornIndex) (checksum : Checksum) (gtidSeqs : List GtidSeq)
    (first : FirstStart) (disk : Disk) (hscannable : Scannable disk gtidSeqs) :
    index.SafeStart checksum gtidSeqs first disk ↔ 5 ≤ index.torn.count '\t' := by
  constructor
  · intro hsafe
    by_contra hcount
    rw [SafeStart, start_of_count_lt (Nat.lt_of_not_le hcount)] at hsafe
    exact hsafe
  · intro hcount
    rcases parse_torn hcount with hnone | ⟨record, hread⟩
    · rw [SafeStart, start, preprocess, getLatestIndex_text, hnone]
      trivial
    · exact safeStart_of_readsAs hscannable hread

end TornIndex

def sampleIndexRecord (name : Char) (index : ℕ) : BinlogIndexRecord where
  fileName := [name]
  index := index
  position := 120

theorem writable_sampleIndexRecord {name : Char} (hname : IndexChar name) {index : ℕ}
    (hindex : index < 2 ^ 63) : (sampleIndexRecord name index).Writable where
  fileName_ne_nil := cons_ne_nil _ _
  fileName := by simpa [sampleIndexRecord] using hname
  index_lt := hindex
  current := ⟨by simp [sampleIndexRecord], by norm_num [sampleIndexRecord]⟩
  before := ⟨by simp [sampleIndexRecord], by norm_num [sampleIndexRecord]⟩
  checkpoint_lt := by norm_num [sampleIndexRecord]
  position_pos := by norm_num [sampleIndexRecord]
  position_lt := by norm_num [sampleIndexRecord]

def sampleTornIndex (size : ℕ) : TornIndex where
  complete := [sampleIndexRecord 'a' 1]
  further := sampleIndexRecord 'b' 2
  torn := (sampleIndexRecord 'b' 2).line.take (size + 1)
  complete_ne_nil := cons_ne_nil _ _
  writable := by
    simpa using writable_sampleIndexRecord (by unfold IndexChar; decide) (by norm_num)
  writable_further := writable_sampleIndexRecord (by unfold IndexChar; decide) (by norm_num)
  other := by decide
  torn_ne_nil := by
    simp [take_eq_nil_iff, line_ne_nil]
  torn_le := take_prefix _ _

def sampleIndexDisk : Disk :=
  Function.update (fun _ => none) ['b'] (some binlogMagic)

theorem preprocess_indexText_sampleIndexDisk :
    preprocess zeroChecksum [] ⟨sampleIndexDisk, indexText [(sampleTornIndex 0).further]⟩ =
      (preprocessBreakpointBinlog zeroChecksum [] ⟨sampleIndexDisk,
        [(sampleTornIndex 0).further]⟩).map fun home => ⟨home.disk, indexText home.index⟩ :=
  preprocess_indexText _ _
    (forall_mem_singleton.mpr (sampleTornIndex 0).writable_further.toReadable) _

theorem scannable_sampleIndexDisk : Scannable sampleIndexDisk [] := by
  have hfile : ∀ fileName file, sampleIndexDisk fileName = some file → file = binlogMagic := by
    intro fileName file hfile
    by_cases hname : fileName = ['b']
    · rw [hname, sampleIndexDisk, Function.update_self] at hfile
      exact (some.inj hfile).symm
    · rw [sampleIndexDisk, Function.update_of_ne hname] at hfile
      cases hfile
  refine ⟨?_, ?_, by simp, by simp⟩
  · intro fileName file hdisk
    rw [hfile fileName file hdisk]
    norm_num [binlogMagic]
  · intro fileName file hdisk
    rw [hfile fileName file hdisk]
    rw [headersAdvance_iff_advances]
    apply advances_of_last
    intro next hnext
    cases hnext

def sampleFirstStart : FirstStart where
  names := ⟨['b', 'i', 'n'], 6⟩

namespace TornIndex

theorem safeStart_sampleTornIndex :
    Scannable sampleIndexDisk [] ∧
      (sampleTornIndex 12).SafeStart zeroChecksum [] sampleFirstStart sampleIndexDisk :=
  ⟨scannable_sampleIndexDisk,
    (safeStart_iff (sampleTornIndex 12) zeroChecksum [] sampleFirstStart sampleIndexDisk
      scannable_sampleIndexDisk).mpr (by decide)⟩

/-- The position and the tab before it are missing: a record for the first file is
added to the piece. -/
theorem not_safeStart_sampleTornIndex :
    start zeroChecksum [] sampleFirstStart
        ⟨sampleIndexDisk, (sampleTornIndex 10).text⟩ =
      .firstStart (addIndex (sampleTornIndex 10).text sampleFirstStart.record) ∧
    ¬(sampleTornIndex 10).SafeStart zeroChecksum [] sampleFirstStart sampleIndexDisk := by
  have hstart := @start_of_count_lt (sampleTornIndex 10) zeroChecksum [] sampleFirstStart
    sampleIndexDisk (by decide)
  refine ⟨hstart, ?_⟩
  exact id

end TornIndex

end OblogProxy.Recovery
