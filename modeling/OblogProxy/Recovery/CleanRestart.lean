import OblogProxy.Recovery.CompleteFile
import OblogProxy.Storage.Bookkeeping

/-!
# Restarting behind a complete transaction

A process that was stopped between two transactions starts again on the files it has
left.  Nothing is cut back.  The start computes the numbers that are executed twice: from
the last file and the mappings of its index line, and from the point at which it goes on.
-/

namespace OblogProxy.Recovery

open Bytes Event Gtid Storage Option

variable {config : Config} {storage : BinlogStorage} {files : Files} {layout : Layout}
  {before first : ℕ} {transactions : List Transaction}

section Numbers

variable {file : LogFile}

section Last

variable (hstores : file.Stores config before first transactions)

include hstores

theorem getLast_numbers :
    (transactions.map Transaction.number).getLast? =
      if transactions = [] then none else some (first + transactions.length - 1) := by
  rw [hstores.numbers, List.getLast?_range']
  cases transactions with
  | nil => rfl
  | cons transaction rest => simp

theorem lastNumber_stores :
    lastNumber 0 transactions =
      if transactions = [] then 0 else first + transactions.length - 1 := by
  rw [lastNumber, ← List.getLast?_map, getLast_numbers hstores]
  split_ifs <;> rfl

theorem getLast_gtidLogEvents :
    ((file.events.filterMap gtidLogEventOf).getLast?.map GtidLogEvent.gtidTxnId) =
      if transactions = [] then none else some (first + transactions.length - 1) := by
  rw [← List.getLast?_map, hstores.events, numbers_gtidLogEventsOf, getLast_numbers hstores]

end Last

end Numbers

/-- The recovery of the breakpoint brings the position of the last line up to date. -/
theorem preprocessBreakpointBinlog_left (henabled : config.checksum.enabled = true)
    (hvalid : ValidUuid config.masterServerUuid)
    (hleft : Left config storage files layout before first transactions) (gtidSeqs : List GtidSeq) :
    preprocessBreakpointBinlog config.checksum gtidSeqs ⟨files.disk, files.index⟩ =
      some ⟨files.disk, files.index.updateIndex (endRecord config storage layout)⟩ := by
  obtain ⟨position, hlatest, hposition⟩ := hleft.exists_position
  have hordered := hleft.mappings.ordered
  have hdisk := hleft.ready.recordOnDisk
  have hname : storage.indexRecord.fileName ≠ [] := by
    rw [hleft.ready.recordFile]
    exact config.names.path_ne_nil _
  have hsize : files.disk.fileSize storage.indexRecord.fileName =
      (layout.current.bytes config).length := by
    rw [Disk.fileSize, Disk.content, hdisk, getD_some]
  obtain ⟨trx, htrx, hprevious, hneed, hlast⟩ :=
    seekAndVerifyCompleteTrx_stores hvalid hleft.stores henabled hleft.ready.unrotated
      storage.indexRecord.beforeMapping.2
  rw [lastNumber_stores hleft.stores] at hlast
  have hsame : position = (layout.current.bytes config).length →
      files.index.updateIndex (endRecord config storage layout) = files.index := by
    intro heq
    refine updateIndex_of_indexed hleft.ready ?_
    rw [Indexed, hlatest, heq]
  simp only [preprocessBreakpointBinlog, hlatest, if_neg hname, hdisk, bind_some, htrx,
    hprevious, Bool.true_eq_false, if_false, hneed]
  by_cases hmatch : trx.lastCompleteTrxGtid ≤ storage.indexRecord.currentMapping.2 ∧
      storage.indexRecord.beforeMapping.2 ≤ trx.lastCompleteTrxGtid
  · rw [if_pos hmatch, recoverMatching]
    simp only [hneed, if_true, hsize]
    split_ifs with hmoved
    · rfl
    · rw [hsame (by simpa using hmoved)]
  · -- without a transaction in the last file the numbers of the record are not compared
    have hnone : transactions = [] := by
      by_contra hne
      have hstored := hleft.mappings.stored hne
      rw [if_neg hne] at hlast
      omega
    rw [if_pos hnone] at hlast
    rw [if_neg hmatch, if_pos ⟨hlast, trivial⟩]
    rw [hsame]
    rcases hposition with hposition | ⟨-, hzero⟩
    · exact hposition
    · omega

theorem fetchIndexVector_settled (hsettled : Settled config storage files layout)
    (hpositive : 0 < layout.current.index) : fetchIndexVector files.index = files.index := by
  rw [fetchIndexVector, List.filter_eq_self, hsettled.index_eq, List.forall_mem_append,
    List.forall_mem_singleton, endRecord]
  simp only [decide_eq_true_eq]
  exact ⟨hsettled.shelved.positive, hsettled.ready.recordIndex ▸ hpositive⟩

/-- Every line names a file whose header can be read. -/
theorem exists_getPreviousGtidSet (hvalid : ValidUuid config.masterServerUuid)
    (hrecorded : Recorded config storage files layout before first transactions)
    {line : BinlogIndexRecord} (hline : line ∈ files.index) :
    ∃ previousGtids, (files.disk line.fileName).bind getPreviousGtidSet = some previousGtids := by
  have hsettled := hrecorded.settled
  rw [hsettled.index_eq, List.mem_append, List.mem_singleton] at hline
  rcases hline with hline | rfl
  · obtain ⟨file, hlaid, ⟨count, hcount, hprevious⟩, hdisk⟩ := hsettled.shelved.onDisk line hline
    rw [hdisk, bind_some]
    exact ⟨_, getPreviousGtidSet_laid hvalid hprevious hlaid hcount⟩
  · rw [endRecord, hsettled.ready.recordOnDisk, bind_some]
    exact ⟨_, getPreviousGtidSet_laid hvalid hrecorded.stores.previousGtids hrecorded.stores.laid
      hrecorded.stores.bound⟩

/-- The number that `init_gtid_variables` finds in the last file or in its line. -/
theorem max_lastExecutedGtid {record : BinlogIndexRecord}
    (hmappings : Mappings config record before first transactions) (hle : before ≤ first)
    {found : List (OblogEventHeader × Bytes)}
    (hfound : (found.map fun event => (GtidLogEvent.deserialize event.2)).getLast?.map
      GtidLogEvent.gtidTxnId =
        if transactions = [] then none else some (first + transactions.length - 1)) :
    max before (lastExecutedGtid record found) = executedGtid record before transactions := by
  rw [List.getLast?_map] at hfound
  by_cases hnone : transactions = []
  · rw [if_pos hnone, map_map, map_eq_none_iff] at hfound
    have hawaits := hmappings.awaits
    have hempty := hmappings.empty hnone
    simp only [lastExecutedGtid, hfound, executedGtid, if_pos hnone]
    rcases hempty with hempty | ⟨hnext, hfirst⟩
    · split_ifs <;> omega
    · have hid := (hawaits.mpr ⟨hnone, hnext⟩).2.2
      split_ifs <;> omega
  · rw [if_neg hnone] at hfound
    obtain ⟨gtid, hgtid, hnumber⟩ := map_eq_some_iff.mp hfound
    obtain ⟨event, hevent, rfl⟩ := map_eq_some_iff.mp hgtid
    have hstored := hmappings.stored hnone
    have hlength := List.length_pos_iff.mpr hnone
    simp only [lastExecutedGtid, hevent, hnumber, executedGtid, if_neg hnone]
    omega

theorem initGtidVariables_recorded (hvalid : ValidUuid config.masterServerUuid)
    (hrecorded : Recorded config storage files layout before first transactions) :
    ∃ gtidPurgedSet, initGtidVariables config ⟨files.disk, files.index⟩ =
      some ⟨gtidPurgedSet, gtidsUpTo config.masterServerUuid
        (executedGtid storage.indexRecord before transactions)⟩ := by
  have hsettled := hrecorded.settled
  obtain ⟨line, rest, hindex⟩ := List.exists_cons_of_ne_nil hsettled.ready.index_ne_nil
  have hhead : files.index.head? = some line := by rw [hindex, List.head?_cons]
  have hlast : files.index.getLast? = some (endRecord config storage layout) := by
    rw [hsettled.index_eq, List.getLast?_concat]
  obtain ⟨purged, hpurged⟩ := exists_getPreviousGtidSet hvalid hrecorded
    (hindex ▸ List.mem_cons_self)
  have hdisk : files.disk (endRecord config storage layout).fileName =
      some (layout.current.bytes config) := hsettled.ready.recordOnDisk
  have hprevious := getPreviousGtidSet_laid hvalid hrecorded.stores.previousGtids
    hrecorded.stores.laid hrecorded.stores.bound
  obtain ⟨found, hseek, hfound⟩ := seekEvents_stores hvalid hrecorded.stores
  have hexecuted := max_lastExecutedGtid hrecorded.mappings hrecorded.counts.le_first
    (hfound ▸ getLast_gtidLogEvents hrecorded.stores)
  refine ⟨purged, ?_⟩
  simp only [initGtidVariables, fetchIndexVector_settled hsettled hrecorded.positive, hhead, hlast,
    hpurged, hdisk, hprevious, hseek, bind_some, map_some]
  congr 2
  have hrecord : lastExecutedGtid (endRecord config storage layout) found =
      lastExecutedGtid storage.indexRecord found := rfl
  rw [hrecord, mergeExecuted, ← hexecuted]
  split_ifs with hpositive
  · exact mergeGtidBefore_gtidsUpTo hvalid hrecorded.stores.bound Nat.one_pos
      (Nat.le_add_left _ _) _
  · rw [Nat.eq_zero_of_not_pos hpositive, max_eq_left (Nat.zero_le _)]

/-- The start goes on behind what is executed.  A heartbeat counts an initial transaction
that has not come yet; a last transaction without an id is counted with the next number. -/
def ResumesBehind (config : Config) (start : Start) (record : BinlogIndexRecord)
    (event : Option GtidLogEvent) : Prop :=
  ((heartbeatCheckpoint start record event).isSome → ¬AwaitsInitial config record) ∧
    ((heartbeatCheckpoint start record event).isNone → event.isSome →
      record.currentMapping.1 ≠ [])

instance (config : Config) (start : Start) (record : BinlogIndexRecord)
    (event : Option GtidLogEvent) : Decidable (ResumesBehind config start record event) :=
  inferInstanceAs (Decidable (_ ∧ _))

section Resume

variable {start : Start} {record : BinlogIndexRecord} {resumed : BinlogStorage}

theorem resumesBehind_of_none (config : Config) {event : Option GtidLogEvent}
    (hheartbeat : heartbeatCheckpoint start record event = none) :
    ResumesBehind config start record event ↔
      (event.isSome → record.currentMapping.1 ≠ []) := by
  simp [ResumesBehind, hheartbeat]

theorem initRestartPoint_eq {event : Option GtidLogEvent}
    (hseq : storage.txnGtidSeq = record.currentMapping.2) :
    initRestartPoint start record event storage =
      match heartbeatCheckpoint start record event with
      | some gtidSeq =>
        some { storage with
          filterUtilCheckpointTrx := false
          filterCheckpointTrx := false
          startTimestamp := gtidSeq.commitVersionStart
          txnGtidSeq := (record.currentMapping.2 + 1) % 2 ^ 64 }
      | none =>
        if record.currentMapping.1 = [] then
          some { storage with
            txnMapping := record.currentMapping
            startTimestamp := record.checkpoint
            txnGtidSeq := (record.currentMapping.2 + 1) % 2 ^ 64 }
        else
          (checkpointTimestamp start record record.currentMapping.2).map fun startTimestamp =>
            { storage with txnMapping := record.currentMapping, startTimestamp } := by
  have hmapping : checkpointMapping record record.currentMapping.2 =
      some record.currentMapping := by
    rw [checkpointMapping, if_pos rfl]
  rw [initRestartPoint, hseq, hmapping]
  cases hheartbeat : heartbeatCheckpoint start record event with
  | none => rfl
  | some gtidSeq =>
    have hstarts := (filter_eq_some_iff.mp hheartbeat).2
    simp only [startsAtHeartbeat, Bool.and_eq_true, decide_eq_true_eq] at hstarts
    rw [← hstarts.1.1.2]

/-- How a storage goes on: with the next number, waiting for the transaction of the current
mapping, or waiting in vain with the next number. -/
inductive Resumes (start : Start) (record : BinlogIndexRecord) (event : Option GtidLogEvent)
    (resumed : BinlogStorage) : Prop
  | behind (hwhy : (heartbeatCheckpoint start record event).isSome ∨
        event = none ∧ record.currentMapping.1 = [])
      (hoff : resumed.filterUtilCheckpointTrx = false)
      (hseq : resumed.txnGtidSeq = (record.currentMapping.2 + 1) % 2 ^ 64)
  | waiting (hheartbeat : heartbeatCheckpoint start record event = none)
      (hid : record.currentMapping.1 ≠ [])
      (hwaiting : Waiting resumed record.currentMapping.1 record.currentMapping.2)
      (hcheckpoint : resumed.filterCheckpointTrx =
        decide (event.isSome ∨ record.beforeMapping.1 ≠ []))
  | lost (hheartbeat : heartbeatCheckpoint start record event = none) (hevent : event.isSome)
      (hid : record.currentMapping.1 = []) (hutil : resumed.filterUtilCheckpointTrx = true)
      (hcheckpoint : resumed.filterCheckpointTrx = true)
      (hseq : resumed.txnGtidSeq = (record.currentMapping.2 + 1) % 2 ^ 64)

/-- The members that the recovery starts with. -/
structure Fresh (storage : BinlogStorage) : Prop where
  filterUtil : storage.filterUtilCheckpointTrx = true
  meetInitial : storage.meetInitialTrx = false
  filterCheckpoint : storage.filterCheckpointTrx = true

section Resumed

variable {gtidLogEvents : List GtidLogEvent}
  (hlast : ∀ event ∈ gtidLogEvents.getLast?, event.gtidTxnId = record.currentMapping.2)

include hlast

theorem resumeStorage_resumes (hfresh : Fresh storage)
    (hresume : resumeStorage start record gtidLogEvents storage = some resumed) :
    Resumes start record gtidLogEvents.getLast? resumed ∧
      resumed.previousGtidMessages = storage.previousGtidMessages ∧
      resumed.firstGtidSeq = storage.firstGtidSeq := by
  rw [resumeStorage] at hresume
  cases hevent : gtidLogEvents.getLast? with
  | none =>
    rw [hevent] at hresume
    rw [initRestartPoint_eq rfl] at hresume
    cases hheartbeat : heartbeatCheckpoint start record none with
    | some gtidSeq =>
      simp only [hheartbeat, map_some, Bool.false_eq_true, if_false] at hresume
      obtain rfl := some.inj hresume
      exact ⟨.behind (.inl (by rw [hheartbeat]; rfl)) rfl rfl, rfl, rfl⟩
    | none =>
      by_cases hid : record.currentMapping.1 = []
      · simp only [hheartbeat, if_pos hid, map_some, hfresh.filterUtil, if_true]
          at hresume
        obtain rfl := some.inj hresume
        exact ⟨.behind (.inr ⟨rfl, hid⟩) (by simp [hid]) rfl, rfl, rfl⟩
      · simp only [hheartbeat, if_neg hid, map_map] at hresume
        obtain ⟨startTimestamp, -, rfl⟩ := map_eq_some_iff.mp hresume
        simp only [Function.comp_apply, hfresh.filterUtil, if_true, and_true]
        exact .waiting hheartbeat hid ⟨by simp [hid], hfresh.meetInitial, rfl, rfl⟩ (by simp)
  | some event =>
    rw [hevent] at hresume
    dsimp only at hresume
    rw [initRestartPoint_eq (hlast event hevent)] at hresume
    cases hheartbeat : heartbeatCheckpoint start record (some event) with
    | some gtidSeq =>
      simp only [hheartbeat] at hresume
      obtain rfl := some.inj hresume
      exact ⟨.behind (.inl (by rw [hheartbeat]; rfl)) rfl rfl, rfl, rfl⟩
    | none =>
      by_cases hid : record.currentMapping.1 = []
      · simp only [hheartbeat, if_pos hid] at hresume
        obtain rfl := some.inj hresume
        exact ⟨.lost hheartbeat rfl hid hfresh.filterUtil hfresh.filterCheckpoint rfl, rfl, rfl⟩
      · simp only [hheartbeat, if_neg hid] at hresume
        obtain ⟨startTimestamp, -, rfl⟩ := map_eq_some_iff.mp hresume
        refine ⟨.waiting hheartbeat hid ⟨hfresh.filterUtil, hfresh.meetInitial, rfl, ?_⟩ ?_,
          rfl, rfl⟩
        · exact hlast event hevent
        · simp [hfresh.filterCheckpoint]

/-- A start that finds no restart point waits for the transaction of the current mapping. -/
theorem resumesBehind_of_resumeStorage (config : Config)
    (hresume : resumeStorage start record gtidLogEvents storage = none) :
    ResumesBehind config start record gtidLogEvents.getLast? := by
  rw [resumeStorage] at hresume
  cases hevent : gtidLogEvents.getLast? with
  | none =>
    rw [hevent] at hresume
    rw [map_eq_none_iff, initRestartPoint_eq rfl] at hresume
    cases hheartbeat : heartbeatCheckpoint start record none with
    | some gtidSeq => simp [hheartbeat] at hresume
    | none => simp [resumesBehind_of_none config hheartbeat]
  | some event =>
    rw [hevent] at hresume
    dsimp only at hresume
    rw [initRestartPoint_eq (hlast event hevent)] at hresume
    cases hheartbeat : heartbeatCheckpoint start record (some event) with
    | some gtidSeq => simp [hheartbeat] at hresume
    | none =>
      rw [resumesBehind_of_none config hheartbeat]
      rintro - hid
      simp [hheartbeat, hid] at hresume

end Resumed

section Agreement

variable {event : Option GtidLogEvent}

theorem lastGtid_of_succ {number : ℕ} (hnumber : number < 2 ^ 64)
    (hseq : resumed.txnGtidSeq = (number + 1) % 2 ^ 64)
    (hoff : resumed.filterUtilCheckpointTrx = false) : lastGtid resumed = number := by
  rw [lastGtid, hoff, hseq, Bool.false_and, if_neg Bool.false_ne_true]
  omega

section Next

variable (hmappings : Mappings config record before first transactions) (hle : before ≤ first)
  (hbound : first + transactions.length < 2 ^ 64) (hroom : before + 1 < 2 ^ 64)
  (hevent : event.isSome ↔ transactions ≠ [])

include hmappings hle hbound hroom hevent

/-- Whether the transaction that is waited for is executed is seen from the mapping before
it, when the last file has none. -/
theorem max_lastGtid_waiting
    (hwaiting : Waiting resumed record.currentMapping.1 record.currentMapping.2)
    (hid : record.currentMapping.1 ≠ []) (hcheckpoint : resumed.filterCheckpointTrx =
      decide (event.isSome ∨ record.beforeMapping.1 ≠ [])) :
    max before (lastGtid resumed) = executedGtid record before transactions := by
  have hpositive := hmappings.positive hid
  rw [lastGtid, hwaiting.filterUtil, hwaiting.gtidSeq, hcheckpoint, Bool.true_and]
  rcases hmappings.executed_cases hle with
    ⟨hawaits, hge, hexecuted⟩ | ⟨⟨-, -, hbefore⟩, hnone, hnumber, -, hexecuted⟩
  · have hlt := hmappings.succ_lt hbound hroom hawaits
    split_ifs with hskips
    · rw [hexecuted, max_eq_right hge]
    · have hnone : transactions = [] := by
        simp only [decide_eq_true_eq, not_or] at hskips
        rw [hevent] at hskips
        exact not_not.mp hskips.1
      rw [executedGtid, if_pos hnone] at hexecuted ⊢
      omega
  · rw [if_neg (by simp [hevent, hnone, hbefore]), hexecuted]
    omega

/-- The numbers that `recover_safely` counts as executed are those that
`init_gtid_variables` counts, exactly if the start goes on behind them. -/
theorem Resumes.max_lastGtid_eq_iff (hresumes : Resumes start record event resumed) :
    max before (lastGtid resumed) = executedGtid record before transactions ↔
      ResumesBehind config start record event := by
  have hcases := hmappings.executed_cases hle
  cases hresumes with
  | behind hwhy hoff hseq =>
    rcases hcases with ⟨hawaits, hge, hexecuted⟩ | ⟨hawaits, hnone, hnumber, hfirst, hexecuted⟩
    · have hlast := lastGtid_of_succ (by have := hmappings.succ_lt hbound hroom hawaits; omega)
        hseq hoff
      rw [hlast, hexecuted, max_eq_right hge]
      refine iff_of_true rfl ⟨fun _ => hawaits, fun hnone hsome => ?_⟩
      rcases hwhy with hheartbeat | ⟨rfl, -⟩
      · simp [isNone_iff_eq_none.mp hnone] at hheartbeat
      · cases hsome
    · -- the heartbeat counts the transaction that has not come
      have hlast := lastGtid_of_succ (by omega) hseq hoff
      have hid := hmappings.again hnone (by omega)
      refine iff_of_false (by omega) fun hbehind => ?_
      rcases hwhy with hsome | ⟨-, hempty⟩
      · exact hbehind.1 hsome hawaits
      · exact hid hempty
  | waiting hheartbeat hid hwaiting hcheckpoint =>
    refine iff_of_true (max_lastGtid_waiting hmappings hle hbound hroom hevent hwaiting hid
      hcheckpoint) ?_
    rw [resumesBehind_of_none config hheartbeat]
    exact fun _ => hid
  | lost hheartbeat hsome hid hutil hcheckpoint hseq =>
    -- the number behind the last transaction counts as executed
    have hne := hevent.mp hsome
    have hnumber := hmappings.stored hne
    have hlast : lastGtid resumed = record.currentMapping.2 + 1 := by
      rw [lastGtid, hutil, hcheckpoint, Bool.and_self, if_pos rfl, hseq]
      exact Nat.mod_eq_of_lt (by omega)
    rw [hlast, executedGtid, if_neg hne, resumesBehind_of_none config hheartbeat]
    refine iff_of_false ?_ fun hbehind => hbehind hsome hid
    omega

/-- A storage that goes on behind what is executed has the next number, or it numbers the
transaction of the current mapping again. -/
theorem Resumes.exists_next (hresumes : Resumes start record event resumed)
    (hbehind : ResumesBehind config start record event) :
    ∃ number, Next resumed number ∧ 0 < number ∧ number < 2 ^ 64 ∧
      executedGtid record before transactions ≤ number ∧
      number ≤ executedGtid record before transactions + 1 ∧
      Mappings config record (executedGtid record before transactions) number [] := by
  have hcases := hmappings.executed_cases hle
  cases hresumes with
  | behind hwhy hoff hseq =>
    have hawaits : ¬AwaitsInitial config record := by
      rcases hwhy with hsome | ⟨-, hempty⟩
      · exact hbehind.1 hsome
      · intro hawaits
        rcases hcases with ⟨hnot, -⟩ | ⟨-, hnone, hnumber, hfirst, -⟩
        · exact hnot hawaits
        · exact hmappings.again hnone (by omega) hempty
    have hlt := hmappings.succ_lt hbound hroom hawaits
    rw [Nat.mod_eq_of_lt hlt] at hseq
    rcases hcases with ⟨-, hge, hexecuted⟩ | ⟨hinitial, -⟩
    · rw [hexecuted]
      refine ⟨_, next_of_unfiltered hoff hseq, by omega, hlt, by omega, le_rfl,
        hmappings.reopen hawaits (by omega)⟩
    · exact absurd hinitial hawaits
  | waiting hheartbeat hid hwaiting hcheckpoint =>
    have hpositive := hmappings.positive hid
    have hnext : Next resumed (if resumed.filterCheckpointTrx then record.currentMapping.2 + 1
      else record.currentMapping.2) := .inr ⟨_, _, hwaiting, rfl⟩
    refine ⟨_, hnext, ?_⟩
    rcases hcases with ⟨hawaits, hge, hexecuted⟩ | ⟨hawaits, hnone, hnumber, hfirst, hexecuted⟩
    · have hlt := hmappings.succ_lt hbound hroom hawaits
      rw [hexecuted]
      refine ⟨?_, ?_, ?_, ?_, hmappings.reopen hawaits fun _ => hid⟩ <;> split_ifs <;> omega
    · have hskips : resumed.filterCheckpointTrx = false := by
        rw [hcheckpoint]
        simp [hevent, hnone, hawaits.2.2]
      rw [hskips, if_neg Bool.false_ne_true, hexecuted]
      rw [hnone] at hbound hmappings
      rw [hfirst, ← hnumber] at hbound hmappings
      exact ⟨hpositive, hbound, by omega, by omega, hmappings⟩
  | lost hheartbeat hsome hid hutil hcheckpoint hseq =>
    exact absurd hid ((resumesBehind_of_none config hheartbeat).mp hbehind hsome)

end Next

end Agreement

end Resume

end OblogProxy.Recovery
