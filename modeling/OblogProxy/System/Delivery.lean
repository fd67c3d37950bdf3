import OblogProxy.Dump.FinishFile
import OblogProxy.Recovery.RestartAgreement

/-!
# From the stored files to a client

What every run of an instance keeps, over its first start, its batches and its restarts: the
index and the disk describe each other, a stop between two transactions costs nothing, and a
client that follows the last file gets each of its events once and in order.
-/

namespace OblogProxy.System

open Event Gtid List Recovery Storage Dump BinlogDumper ObLogEvent Tail BinlogIndex

variable {dumper : BinlogDumper} {checksum : Checksum}

/-- However the calls cut the file, a dumper that skips nothing sends what is complete at the
last length.  `shorter` is the length of the call before, which has left nothing to take. -/
theorem sentCalls_plain (hmod : dumper.gtidMod = false) {lengths : List ℕ} {entries : List Entry}
    {pos shorter : ℕ} (hdone : complete (entrySize checksum) (shorter - pos) entries = [])
    (hgrowing : (shorter :: lengths).Pairwise (· ≤ ·)) :
    dumper.sentCalls checksum lengths entries pos =
      (complete (entrySize checksum) (lengths.getLastD shorter - pos) entries).map Prod.fst := by
  induction lengths generalizing entries pos shorter with
  | nil => rw [getLastD_nil, hdone, sentCalls, map_nil]
  | cons length lengths ih =>
    obtain ⟨rest, hrest⟩ := exists_rest (entrySize checksum) (length - pos) entries
    have hlater := (pairwise_cons.mp hgrowing).2
    have hlast : length ≤ lengths.getLastD length := by
      rcases mem_cons.mp (getLastD_mem_cons : lengths.getLastD length ∈ _) with heq | hmem
      · exact heq.ge
      · exact (pairwise_cons.mp hlater).1 _ hmem
    rw [getLastD_cons, sentCalls, sentRun_eq_self hmod]
    generalize hnow : complete (entrySize checksum) (length - pos) entries = now at hrest ⊢
    subst hrest
    have hleft := complete_rest (entrySize checksum) hnow
    have hsplit := complete_split (entrySize checksum) hnow (Nat.sub_le_sub_right hlast pos)
    rw [Nat.sub_sub] at hleft hsplit
    rw [drop_left, ih hleft hlater, hsplit, map_append]

theorem eventLength_of_placed {pos : ℕ} {events : List ObLogEvent}
    (hplaced : Placed checksum pos events) :
    ∀ event ∈ events, event.eventLength checksum < 2 ^ 32 := by
  induction events generalizing pos with
  | nil => exact fun _ hevent => absurd hevent not_mem_nil
  | cons event events ih =>
    obtain ⟨⟨hnext, hbound⟩, hrest⟩ := hplaced
    exact forall_mem_cons.mpr ⟨by omega, ih hrest⟩

theorem rotate_none : ∀ event ∈ (none : Option ObLogEvent), event.kind = .rotate := nofun

/-- The file in use, as a dumper reads it. -/
def openFile (config : Config) (file : LogFile) (transactions : List Transaction) : BinlogFile where
  formatDescription := file.formatDescription config
  previousGtids := newPreviousGtidsLogEvent config.checksum config.serverId file.timestamp
    file.previousGtids
  transactions
  rotate := none
  formatDescription_kind := rfl
  previousGtids_kind := rfl
  rotate_kind := rotate_none

theorem events_openFile {config : Config} {file : LogFile} {transactions : List Transaction}
    (hevents : file.events = transactions.flatMap Transaction.events) (hopen : file.rotate = none) :
    (openFile config file transactions).events = file.allEvents config := by
  rw [LogFile.allEvents, hevents, hopen]
  rfl

section Run

variable (config : Config) (henabled : config.checksum.enabled = true)
  (hvalid : ValidUuid config.masterServerUuid) (hinitial : config.initialObTxnGtidSeq < 2 ^ 64)
  (storage : BinlogStorage) (files : Files) (hrun : Run config storage files)

include henabled hvalid hinitial hrun

/-- The lines of the index have increasing numbers, each names a file that is laid out behind
a header, and there is no file behind the last one. -/
theorem run_index_describes_disk :
    files.index.Pairwise (fun line next => line.index < next.index) ∧
      (∀ line ∈ files.index, line.fileName = config.names.path line.index ∧
        ∃ file : LogFile, file.Laid config ∧ file.Headed config ∧
          files.disk line.fileName = some (file.bytes config)) ∧
      ∀ index > files.index.getLatestIndex.index, files.disk (config.names.path index) = none := by
  obtain ⟨layout, before, first, transactions, hleft⟩ := hrun.exists_left henabled hvalid hinitial
  obtain ⟨position, hlatest, -⟩ := hleft.exists_position
  have hready := hleft.ready
  have hnumber : files.index.getLatestIndex.index = layout.current.index :=
    (congrArg BinlogIndexRecord.index hlatest).trans hready.recordIndex
  have hname : files.index.getLatestIndex.fileName = config.names.path layout.current.index :=
    (congrArg BinlogIndexRecord.fileName hlatest).trans hready.recordFile
  rw [← dropLast_append_getLatestIndex hready.index_ne_nil]
  refine ⟨?_, ?_, ?_⟩
  · rw [pairwise_append]
    refine ⟨hleft.shelved.increasing, pairwise_singleton _ _, ?_⟩
    intro line hline last hlast
    rw [mem_singleton.mp hlast, hnumber]
    exact hleft.shelved.earlier line hline
  · rw [forall_mem_append, forall_mem_singleton]
    refine ⟨fun line hline => ⟨hleft.shelved.named line hline, hleft.shelved.onDisk line hline⟩,
      hnumber ▸ hname, layout.current, hleft.stores.laid, hleft.stores.headed, ?_⟩
    rw [hname, ← hready.recordFile]
    exact hready.recordOnDisk
  · rw [dropLast_append_getLatestIndex hready.index_ne_nil, hnumber]
    exact hready.fresh

/-- At the next start the recovery changes no file, and of the index only the position of the
last line, which becomes the size of the last file.  The gtid events of that file have
consecutive numbers, and all numbers up to the last of them count as executed. -/
theorem run_restarts_whole (gtidSeqs : List GtidSeq) :
    ∃ found gtids scan offset first last,
      preprocessBreakpointBinlog config.checksum gtidSeqs ⟨files.disk, files.index⟩ =
        some found ∧
      found.disk = files.disk ∧
      found.index = files.index.updateIndex { files.index.getLatestIndex with
        position := files.disk.fileSize files.index.getLatestIndex.fileName } ∧
      initGtidVariables config found = some gtids ∧
      gtids.gtidExecutedSet = gtidsUpTo config.masterServerUuid last ∧
      seekGtidEventOf files.disk files.index.getLatestIndex.fileName {} = some (scan, offset) ∧
      scan.gtidLogEvents.map GtidLogEvent.gtidTxnId = range' first scan.gtidLogEvents.length ∧
      (scan.gtidLogEvents ≠ [] → last + 1 = first + scan.gtidLogEvents.length) := by
  obtain ⟨layout, before, first, transactions, hleft⟩ := hrun.exists_left henabled hvalid hinitial
  obtain ⟨position, hlatest, -⟩ := hleft.exists_position
  obtain ⟨lastXid, hseek⟩ := seekGtidEvent_stores hvalid hleft.stores {}
  obtain ⟨purged, hvariables⟩ := initGtidVariables_recorded hvalid hleft.recorded
  have hdisk := hleft.ready.recordOnDisk
  have hnumbers : (layout.current.events.filterMap gtidLogEventOf).map GtidLogEvent.gtidTxnId =
      range' first transactions.length := by
    rw [hleft.stores.events, numbers_gtidLogEventsOf, hleft.stores.numbers]
  have hlength : (layout.current.events.filterMap gtidLogEventOf).length =
      transactions.length := by
    simpa using congrArg length hnumbers
  have hscan : seekGtidEventOf files.disk files.index.getLatestIndex.fileName {} =
      seekGtidEvent (layout.current.bytes config) {} := by
    rw [hlatest, seekGtidEventOf, hdisk]
  refine ⟨_, _, _, _, first, _, preprocessBreakpointBinlog_left henabled hvalid hleft gtidSeqs,
    rfl, ?_, hvariables, rfl, hscan.trans hseek, ?_, ?_⟩
  · rw [hlatest, Disk.fileSize, Disk.content, hdisk]
    rfl
  · rw [nil_append, hlength]
    exact hnumbers
  · rw [nil_append, hlength]
    intro hne
    have htransactions : transactions ≠ [] := by
      rintro rfl
      exact hne (length_eq_zero_iff.mp hlength)
    rw [executedGtid, if_neg htransactions]
    exact hleft.mappings.stored htransactions

/-- The last file has transactions with consecutive numbers, and a client that follows it by
position gets its events, each once and in order, whatever lengths the dumper observes until
it has seen the whole file. -/
theorem run_delivered :
    ∃ (file : BinlogFile) (first : ℕ),
      files.disk files.index.getLatestIndex.fileName = some (file.bytes config.checksum) ∧
      file.transactions.map Transaction.number = range' first file.transactions.length ∧
      ∀ (dumper : BinlogDumper) (opened : ℕ) (lengths : List ℕ), dumper.gtidMod = false →
        entriesPos config.checksum file ≤ opened → (opened :: lengths).Pairwise (· ≤ ·) →
        lengths.getLast? = some (file.bytes config.checksum).length →
        dumper.sendBinlog (file.bytes config.checksum) binlogMagicSize opened lengths =
          some (file.events.map (packet config.checksum)) := by
  obtain ⟨layout, before, first, transactions, hleft⟩ := hrun.exists_left henabled hvalid hinitial
  obtain ⟨position, hlatest, -⟩ := hleft.exists_position
  have hevents := @events_openFile config _ _ hleft.stores.events hleft.ready.unrotated
  have hsizes := eventLength_of_placed hleft.stores.laid.placed
  rw [← hevents] at hsizes
  refine ⟨openFile config layout.current transactions, first, ?_, hleft.stores.numbers, ?_⟩
  · rw [hlatest, BinlogFile.bytes, hevents]
    exact hleft.ready.recordOnDisk
  · generalize openFile config layout.current transactions = file at hsizes
    intro dumper opened lengths hmod hopened hgrowing hlast
    have hbase : (entriesPos config.checksum file :: lengths).Pairwise (· ≤ ·) := by
      rw [pairwise_cons] at hgrowing ⊢
      exact ⟨fun length hlength => hopened.trans (hgrowing.1 length hlength), hgrowing.2⟩
    have hdone : complete (entrySize config.checksum)
        (entriesPos config.checksum file - entriesPos config.checksum file)
        (fileEntries dumper.excludeGtid file) = [] := by
      rw [Nat.sub_self]
      exact complete_zero _ (fun entry => eventLength_pos _ _) _
    rw [sendBinlog_eq hsizes (Nat.le_add_right _ _) hopened hgrowing,
      sentCalls_plain hmod hdone hbase, getLastD_eq_getLast?, hlast, Option.getD_some,
      length_bytes, Nat.add_sub_cancel_left, complete_of_le, map_fileEntries]
    · rfl
    · rw [← map_fileEntries dumper.excludeGtid, totalSize, totalSize, map_map]
      rfl

end Run

theorem run_index_describes_disk_restarted :
    restarted.2.index.Pairwise fun line next => line.index < next.index :=
  (run_index_describes_disk roomyConfig rfl (by decide) (by decide) _ _ run_restarted).1

theorem run_restarts_whole_restarted :
    ∃ found, preprocessBreakpointBinlog roomyConfig.checksum []
        ⟨restarted.2.disk, restarted.2.index⟩ = some found ∧ found.disk = restarted.2.disk := by
  obtain ⟨found, -, -, -, -, -, hfound, hdisk, -⟩ :=
    run_restarts_whole roomyConfig rfl (by decide) (by decide) _ _ run_restarted []
  exact ⟨found, hfound, hdisk⟩

theorem run_delivered_restarted :
    ∃ file : BinlogFile,
      restarted.2.disk restarted.2.index.getLatestIndex.fileName =
        some (file.bytes roomyConfig.checksum) ∧
      plainDumper.sendBinlog (file.bytes roomyConfig.checksum) binlogMagicSize
          (file.bytes roomyConfig.checksum).length [(file.bytes roomyConfig.checksum).length] =
        some (file.events.map (packet roomyConfig.checksum)) := by
  obtain ⟨file, first, hdisk, -, hsent⟩ :=
    run_delivered roomyConfig rfl (by decide) (by decide) _ _ run_restarted
  refine ⟨file, hdisk, hsent plainDumper _ _ rfl ?_ (by simp) rfl⟩
  rw [length_bytes]
  exact Nat.le_add_right _ _

end OblogProxy.System
