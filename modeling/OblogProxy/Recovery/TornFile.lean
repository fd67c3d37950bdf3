import OblogProxy.Recovery.CompleteTrx

/-!
# A file with a torn end

A binlog file that was cut at an arbitrary byte is a header, complete
transactions and the first bytes of one more.  The scan finds the last complete
transaction and the number of the torn one, unless the file ends inside a commit
whose header is complete: then it takes the commit for the end of the
transaction, and the verification of the checksum fails.  The last file of an instance
that has stopped is such a file, with consecutive numbers.
-/

namespace OblogProxy.Recovery

open Bytes Event Gtid ObLogEvent Tail List Transaction

structure TornFile (checksum : Checksum) where
  formatDescription : ObLogEvent
  previousGtids : ObLogEvent
  transactions : List Transaction
  next : Transaction
  /-- How many bytes of the next transaction are in the file. -/
  cut : ℕ
  formatDescription_kind : formatDescription.kind = .formatDescription
  previousGtids_kind : previousGtids.kind = .previousGtids
  placed : Placed checksum binlogMagicSize (formatDescription :: previousGtids ::
    (transactions ++ [next]).flatMap events)
  fits : ∀ transaction ∈ transactions ++ [next], ∀ event ∈ transaction.events, event.body.Fits
  cut_lt : cut < totalSize (eventLength checksum) next.events

namespace TornFile

variable {checksum : Checksum} (file : TornFile checksum)

def header : List ObLogEvent :=
  [file.formatDescription, file.previousGtids]

def keep (kept : List Transaction) : Bytes :=
  binlogMagic ++ eventsBytes checksum (file.header ++ kept.flatMap events)

def bytes : Bytes :=
  file.keep file.transactions ++ (eventsBytes checksum file.next.events).take file.cut

def endPos (kept : List Transaction) : ℕ :=
  binlogMagicSize + totalSize (eventLength checksum)
    (file.header ++ kept.flatMap events)

def tornFront : List ObLogEvent :=
  complete (eventLength checksum) file.cut file.next.events

def tornNumber : ℕ :=
  match file.tornFront with
  | [] => 0
  | _ :: _ => file.next.number

/-- The file ends inside a commit, behind its header. -/
def TornXid : Prop :=
  (∃ event ∈ file.next.events[file.tornFront.length]?, event.kind = .xid) ∧
    totalSize (eventLength checksum) file.tornFront + commonHeaderLength ≤ file.cut

instance : Decidable file.TornXid :=
  inferInstanceAs (Decidable (_ ∧ _))

def overview (trxSpecifyTruncatedGtid : ℕ) : BinlogTrxOverview :=
  { hasPreviousGtidsEvent := true
    lastCompleteTrxEndPos := file.endPos file.transactions
    lastCompleteTrxGtid := lastNumber 0 file.transactions
    trxNeedTruncatedGtid := file.tornNumber
    trxSpecifyTruncatedGtid
    trxSpecifyTruncatedEndPos := endPosOf checksum trxSpecifyTruncatedGtid (file.endPos [])
      file.transactions 0 }

theorem length_keep (kept : List Transaction) : (file.keep kept).length = file.endPos kept := by
  rw [keep, endPos, length_append, length_eventsBytes]
  rfl

theorem exists_torn : ∃ torn back, file.next.events = file.tornFront ++ torn :: back ∧
    file.next.events[file.tornFront.length]? = some torn ∧
    totalSize (eventLength checksum) file.tornFront ≤ file.cut ∧
    file.cut < totalSize (eventLength checksum) file.tornFront +
      torn.eventLength checksum := by
  have hfits := totalSize_complete_le (eventLength checksum) file.cut
    file.next.events
  obtain ⟨rest, hrest⟩ := exists_rest (eventLength checksum) file.cut
    file.next.events
  cases rest with
  | nil =>
    -- all events would be complete
    have hcut := file.cut_lt
    rw [append_nil] at hrest
    rw [← hrest] at hfits
    omega
  | cons torn back =>
    have hlt := lt_of_complete (eventLength checksum)
      ((congrArg (complete (eventLength checksum) file.cut) hrest).symm)
    refine ⟨torn, back, hrest, ?_, hfits, hlt⟩
    conv_lhs => rw [hrest]
    simp [tornFront]

variable {torn : ObLogEvent} {back : List ObLogEvent}

theorem take_cut (hevents : file.next.events = file.tornFront ++ torn :: back)
    (hfits : totalSize (eventLength checksum) file.tornFront ≤ file.cut)
    (hcut : file.cut < totalSize (eventLength checksum) file.tornFront +
      torn.eventLength checksum) :
    (eventsBytes checksum file.next.events).take file.cut =
      eventsBytes checksum file.tornFront ++ (torn.flushToBuff checksum).take
        (file.cut - totalSize (eventLength checksum) file.tornFront) := by
  have hshort : file.cut - totalSize (eventLength checksum) file.tornFront ≤
      (torn.flushToBuff checksum).length := by
    rw [length_flushToBuff]
    omega
  rw [hevents, eventsBytes_append, eventsBytes_cons, take_append, length_eventsBytes,
    take_of_length_le ((length_eventsBytes _ _).trans_le hfits),
    take_append_of_le_length hshort]

/-- A torn event other than a commit is passed over. -/
theorem visitTrx_torn {bytes : Bytes} {pos : ℕ} (scan : TrxScan)
    (hread : readAt bytes pos (torn.eventLength checksum) = none)
    (hlength : torn.eventLength checksum < 2 ^ 32) (hxid : torn.kind ≠ .xid)
    (hprevious : torn.kind ≠ .previousGtids) :
    visitTrx checksum bytes pos (readHeader checksum torn) scan = scan := by
  rw [kind] at hxid hprevious
  cases hbody : torn.body with
  | xid xid => simp [hbody] at hxid
  | previousGtids messages => simp [hbody] at hprevious
  | rows kind content =>
    cases kind <;>
      simp only [visitTrx, readHeader_typeCode, hbody, EventBody.typeCode, RowsKind.typeCode]
  | _ =>
    simp only [visitTrx, readHeader_typeCode, hbody, EventBody.typeCode,
      readHeader_eventLength hlength, hread]

theorem seenEvents_tornFront (hevents : file.next.events = file.tornFront ++ torn :: back)
    (pos : ℕ) {scan : TrxScan} (hneed : scan.trxNeedTruncatedGtid = 0) :
    seenEvents seenTrx checksum pos file.tornFront scan =
      { scan with trxNeedTruncatedGtid := file.tornNumber } := by
  obtain ⟨event, gtid, middle, last, hshape, hgtid, hnumber, hmiddle, -⟩ := file.next.exists_last
  rw [tornNumber]
  cases hfront : file.tornFront with
  | nil =>
    rw [seenEvents, ← hneed]
  | cons head front =>
    rw [hfront, hshape, cons_append] at hevents
    obtain ⟨rfl, hrest⟩ := cons.inj hevents
    have hopening : ∀ event ∈ front, event.kind = .start ∨ event.kind = .rows := by
      have hinitial : front <+: middle := by
        have hfront : front <+: middle ++ [last] := ⟨torn :: back, hrest.symm⟩
        rcases prefix_concat_iff.mp hfront with heq | hinitial
        · have hlength := congrArg List.length hrest
          rw [heq] at hlength
          simp at hlength
        · exact hinitial
      exact fun event hmem => hmiddle event (hinitial.subset hmem)
    rw [seenEvents_opening checksum scan hgtid hopening, hnumber]

def completeEvents : List ObLogEvent :=
  file.header ++ (file.transactions.flatMap events ++ file.tornFront)

theorem placed_completeEvents (hevents : file.next.events = file.tornFront ++ torn :: back) :
    Placed checksum binlogMagicSize (file.completeEvents ++ torn :: back) := by
  have hplaced := file.placed
  rw [flatMap_append, flatMap_singleton, hevents] at hplaced
  simpa only [completeEvents, header, append_assoc, cons_append, nil_append]
    using hplaced

theorem fits_completeEvents {event : ObLogEvent} (hmem : event ∈ file.completeEvents) :
    event.body.Fits := by
  simp only [completeEvents, header, mem_append, mem_cons, not_mem_nil, or_false,
    mem_flatMap] at hmem
  rcases hmem with (rfl | rfl) | ⟨transaction, htransaction, hevent⟩ | hevent
  · exact fits_of_kind (Or.inl file.formatDescription_kind)
  · exact fits_of_kind (Or.inr (Or.inl file.previousGtids_kind))
  · exact file.fits transaction (mem_append_left _ htransaction) event hevent
  · obtain ⟨torn, back, hevents, -⟩ := file.exists_torn
    apply file.fits file.next (by simp) event
    rw [hevents]
    exact mem_append_left _ hevent

theorem seenEvents_header (trxSpecifyTruncatedGtid : ℕ) :
    (seenEvents seenTrx checksum binlogMagicSize file.header
        { trxSpecifyTruncatedGtid }).toBinlogTrxOverview =
      { hasPreviousGtidsEvent := true
        lastCompleteTrxEndPos := file.endPos []
        trxSpecifyTruncatedGtid } := by
  obtain ⟨hformat, hprevious, -⟩ := file.placed
  rw [header, seenTrx_header checksum file.formatDescription_kind file.previousGtids_kind _
    ⟨hformat, hprevious, trivial⟩]
  simp [endPos, header]

theorem seenEvents_completeEvents (trxSpecifyTruncatedGtid : ℕ) :
    (seenEvents seenTrx checksum binlogMagicSize file.completeEvents
      { trxSpecifyTruncatedGtid }).toBinlogTrxOverview = file.overview trxSpecifyTruncatedGtid := by
  obtain ⟨torn, back, hevents, -⟩ := file.exists_torn
  have hheader := file.seenEvents_header trxSpecifyTruncatedGtid
  have hplaced := file.placed_completeEvents hevents
  rw [completeEvents, append_assoc, placed_append, append_assoc, placed_append]
    at hplaced
  rw [completeEvents, seenEvents_append, seenEvents_append]
  generalize seenEvents seenTrx checksum binlogMagicSize file.header
    { trxSpecifyTruncatedGtid } = scan at hheader ⊢
  have hend : scan.lastCompleteTrxEndPos =
      binlogMagicSize + totalSize (eventLength checksum) file.header := by
    rw [hheader]
    simp [endPos]
  have hscan := seenEvents_transactions checksum hplaced.2.1
    (congrArg (·.trxNeedTruncatedGtid) hheader) hend
  have hneed := (congrArg (·.trxNeedTruncatedGtid) hscan).trans
    (congrArg (·.trxNeedTruncatedGtid) hheader)
  rw [file.seenEvents_tornFront hevents _ hneed]
  simp [hscan, hheader, overview, endPos, Nat.add_assoc]

def tornPos : ℕ :=
  binlogMagicSize + totalSize (eventLength checksum) file.completeEvents

/-- The bytes behind the complete events are a part of the event that is torn. -/
structure TornPart (torn : ObLogEvent) (part : Bytes) : Prop where
  event : file.next.events[file.tornFront.length]? = some torn
  drop : file.bytes.drop binlogMagicSize = eventsBytes checksum file.completeEvents ++ part
  part_prefix : part <+: torn.flushToBuff checksum
  length : totalSize (eventLength checksum) file.tornFront + part.length = file.cut
  short : part.length < torn.eventLength checksum
  placed : Placed checksum binlogMagicSize file.completeEvents
  next : torn.nextPosition = file.tornPos + torn.eventLength checksum
  bound : torn.nextPosition < 2 ^ 32

theorem exists_tornPart : ∃ torn part, file.TornPart torn part := by
  obtain ⟨torn, back, hevents, htorn, hfits, hcut⟩ := file.exists_torn
  have hplaced := (placed_append checksum _ _ _).mp (file.placed_completeEvents hevents)
  obtain ⟨hcomplete, ⟨hnext, hbound⟩, -⟩ := hplaced
  refine ⟨torn, (torn.flushToBuff checksum).take
    (file.cut - totalSize (eventLength checksum) file.tornFront), htorn, ?_,
    take_prefix _ _, ?_, ?_, hcomplete, hnext, hbound⟩
  · rw [bytes, keep, file.take_cut hevents hfits hcut, completeEvents]
    simp only [eventsBytes_append, append_assoc]
    rfl
  all_goals
    rw [length_take, length_flushToBuff]
    omega

section TornPart

variable {file} {torn : ObLogEvent} {part : Bytes}

section TornPart

variable (hpart : file.TornPart torn part)

include hpart

theorem TornPart.drop_tornPos : file.bytes.drop file.tornPos = part :=
  drop_add_of_drop hpart.drop (length_eventsBytes checksum file.completeEvents)

theorem TornPart.tornXid_iff :
    file.TornXid ↔ torn.kind = .xid ∧ commonHeaderLength ≤ part.length := by
  have hlength := hpart.length
  rw [TornXid, hpart.event]
  simp only [Option.mem_some_iff, exists_eq_left']
  refine and_congr_right fun _ => ?_
  omega

theorem TornPart.scanEvents_bytes (scan : TrxScan) :
    ∃ stop, scanEvents (visitTrx checksum file.bytes) file.bytes (file.bytes.length + 1)
        binlogMagicSize scan =
      some (if commonHeaderLength ≤ part.length then
        visitTrx checksum file.bytes file.tornPos (readHeader checksum torn)
          (seenEvents seenTrx checksum binlogMagicSize file.completeEvents scan)
        else seenEvents seenTrx checksum binlogMagicSize file.completeEvents scan, stop) := by
  -- every event takes at least one byte, so that there is fuel for all of them
  obtain ⟨fuel, hfuel⟩ : ∃ fuel, file.bytes.length + 1 =
      file.completeEvents.length + (fuel + 2) := by
    have hsize := length_le_totalSize _ (eventLength_pos checksum)
      file.completeEvents
    have hbytes := congrArg List.length hpart.drop
    rw [length_drop, length_append, length_eventsBytes] at hbytes
    have hheader : file.header.length ≤ file.completeEvents.length := by
      rw [completeEvents, length_append]
      exact Nat.le_add_right _ _
    simp only [binlogMagicSize, header, length_cons, length_nil] at hbytes hheader
    refine ⟨file.bytes.length - 1 - file.completeEvents.length, ?_⟩
    omega
  rw [hfuel, scanEvents_events (sees_visitTrx checksum file.bytes)
    (fun _ => file.fits_completeEvents) hpart.drop hpart.placed]
  exact scanEvents_torn hpart.drop_tornPos hpart.part_prefix hpart.short hpart.next hpart.bound
    fuel _

theorem TornPart.visitTrx_eq (hxid : ¬file.TornXid) (scan : TrxScan) :
    (if commonHeaderLength ≤ part.length then
      visitTrx checksum file.bytes file.tornPos (readHeader checksum torn) scan else scan) =
      scan := by
  split_ifs with hheader
  · have hnext := hpart.next
    have hbound := hpart.bound
    apply visitTrx_torn scan (readAt_eq_none (hpart.drop_tornPos ▸ hpart.short)) (by omega)
    · exact fun hkind => hxid (hpart.tornXid_iff.mpr ⟨hkind, hheader⟩)
    · exact (file.next.kind_ne_control (mem_of_getElem? hpart.event)).2.2
  · rfl

end TornPart

end TornPart

theorem seekAndVerifyCompleteTrx_bytes (henabled : checksum.enabled = true)
    (trxSpecifyTruncatedGtid : ℕ) :
    seekAndVerifyCompleteTrx checksum file.bytes trxSpecifyTruncatedGtid =
      if file.TornXid then none else some (file.overview trxSpecifyTruncatedGtid) := by
  obtain ⟨torn, part, hpart⟩ := file.exists_tornPart
  obtain ⟨stop, hscan⟩ := hpart.scanEvents_bytes { trxSpecifyTruncatedGtid }
  have hoverview := file.seenEvents_completeEvents trxSpecifyTruncatedGtid
  have hchecked := @TrxScan.Checked.seenEvents checksum file.bytes _ henabled _ _
    { trxSpecifyTruncatedGtid } hpart.drop hpart.placed (by simp [TrxScan.Checked])
  have hmagic : slice file.bytes 0 binlogMagicSize = binlogMagic := by
    rfl
  rw [seekAndVerifyCompleteTrx, if_pos hmagic, hscan]
  generalize seenEvents seenTrx checksum binlogMagicSize file.completeEvents
    { trxSpecifyTruncatedGtid } = scan at hoverview hchecked ⊢
  have hprevious : scan.hasPreviousGtidsEvent = true :=
    congrArg (·.hasPreviousGtidsEvent) hoverview
  by_cases hxid : file.TornXid
  · obtain ⟨hkind, hheader⟩ := hpart.tornXid_iff.mp hxid
    obtain ⟨xid, hbody⟩ := kind_eq_xid.mp hkind
    have hlength : torn.eventLength checksum < 2 ^ 32 := by
      have hnext := hpart.next
      have hbound := hpart.bound
      omega
    have hverify := verifyEventChecksum_torn hpart.drop_tornPos hpart.part_prefix hheader
      hpart.short hlength
    rw [if_pos hxid, if_pos hheader]
    simp [visitTrx, readHeader_typeCode, hbody, EventBody.typeCode, TrxScan.completeTrx,
      BinlogTrxOverview.completeTrx, hprevious, hverify]
  · rw [if_neg hxid, hpart.visitTrx_eq hxid]
    simp [hchecked hprevious, hoverview]

/-- The gtid event of the transaction that is torn is complete. -/
def GtidComplete : Prop :=
  ∃ event ∈ file.next.events.head?, event.eventLength checksum ≤ file.cut

instance : Decidable file.GtidComplete :=
  inferInstanceAs (Decidable (∃ event ∈ file.next.events.head?, _))

theorem tornNumber_eq :
    file.tornNumber = if file.GtidComplete then file.next.number else 0 := by
  obtain ⟨event, gtid, middle, last, hevents, -⟩ := file.next.exists_last
  have hcomplete : file.GtidComplete ↔ event.eventLength checksum ≤ file.cut := by
    simp [GtidComplete, hevents]
  simp only [tornNumber, tornFront, hevents, complete, hcomplete]
  split_ifs <;> rfl

/-- Whenever `seek_and_verify_complete_trx` accepts a file with a torn end, what it
reports is exact. -/
theorem seekAndVerifyCompleteTrx_exact (henabled : checksum.enabled = true)
    (trxSpecifyTruncatedGtid : ℕ) (overview : BinlogTrxOverview)
    (hok : seekAndVerifyCompleteTrx checksum file.bytes trxSpecifyTruncatedGtid =
      some overview) :
    overview.lastCompleteTrxGtid = lastNumber 0 file.transactions ∧
    overview.lastCompleteTrxEndPos = (file.keep file.transactions).length ∧
    overview.trxNeedTruncatedGtid = (if file.GtidComplete then file.next.number else 0) ∧
    ∀ front transaction back, file.transactions = front ++ transaction :: back →
      transaction.number = trxSpecifyTruncatedGtid →
      (∀ later ∈ back, later.number ≠ trxSpecifyTruncatedGtid) →
        overview.trxSpecifyTruncatedEndPos = (file.keep (front ++ [transaction])).length := by
  rw [file.seekAndVerifyCompleteTrx_bytes henabled] at hok
  split_ifs at hok with hxid
  obtain rfl := Option.some.inj hok
  refine ⟨rfl, (file.length_keep _).symm, file.tornNumber_eq, ?_⟩
  intro front transaction back htransactions hnumber hlater
  have hend : (file.overview trxSpecifyTruncatedGtid).trxSpecifyTruncatedEndPos =
      endPosOf checksum trxSpecifyTruncatedGtid (file.endPos []) file.transactions 0 := rfl
  rw [hend, htransactions, endPosOf_append, endPosOf, if_pos hnumber,
    endPosOf_of_forall_ne checksum hlater, length_keep, endPos, endPos]
  simp [Nat.add_assoc]

end TornFile

def zeroChecksum : Checksum := ⟨true, fun _ => 0⟩

def sampleTransaction (pos number : ℕ) : Transaction :=
  ⟨[{ timestamp := 0, serverId := 1, nextPosition := pos + 65
      body := .gtid ⟨1, List.replicate 16 0, number, 0, 0, 2⟩ },
    { timestamp := 0, serverId := 1, nextPosition := pos + 107
      body := .query ⟨0, 0, 0, [], [], QueryEvent.beginVar, false⟩ },
    { timestamp := 0, serverId := 1, nextPosition := pos + 138, body := .xid 0 }],
    @IsTransaction.dml _ _ _ [] rfl rfl (by simp) rfl⟩

theorem fits_sampleTransaction (pos : ℕ) {number : ℕ} (hnumber : number < 2 ^ 64)
    {event : ObLogEvent} (hmem : event ∈ (sampleTransaction pos number).events) :
    event.body.Fits := by
  simp only [sampleTransaction, mem_cons, not_mem_nil, or_false] at hmem
  rcases hmem with rfl | rfl | rfl
  · exact ⟨by simp, by simp [serverUuidLen], hnumber, by simp, by simp, by simp⟩
  · exact ⟨by decide, by decide⟩
  · trivial

def sampleFormatDescription : ObLogEvent :=
  { timestamp := 0, serverId := 1, nextPosition := 124, body := .formatDescription 0 }

def samplePreviousGtids : ObLogEvent :=
  { timestamp := 0, serverId := 1, nextPosition := 155, body := .previousGtids [] }

theorem sampleFormatDescription_kind : sampleFormatDescription.kind = .formatDescription :=
  rfl

theorem samplePreviousGtids_kind : samplePreviousGtids.kind = .previousGtids :=
  rfl

theorem placed_sampleTransactions :
    Placed zeroChecksum binlogMagicSize (sampleFormatDescription :: samplePreviousGtids ::
      ([sampleTransaction 155 1] ++ [sampleTransaction 293 2]).flatMap events) := by
  decide

theorem fits_sampleTransactions :
    ∀ transaction ∈ [sampleTransaction 155 1] ++ [sampleTransaction 293 2],
      ∀ event ∈ transaction.events, event.body.Fits := by
  intro transaction hmem event hevent
  rw [mem_append, mem_singleton, mem_singleton] at hmem
  rcases hmem with rfl | rfl
  · exact fits_sampleTransaction 155 (by decide) hevent
  · exact fits_sampleTransaction 293 (by decide) hevent

def sampleTornFile (cut : ℕ) (hcut : cut < 138) : TornFile zeroChecksum where
  formatDescription := sampleFormatDescription
  previousGtids := samplePreviousGtids
  transactions := [sampleTransaction 155 1]
  next := sampleTransaction 293 2
  cut := cut
  formatDescription_kind := sampleFormatDescription_kind
  previousGtids_kind := samplePreviousGtids_kind
  placed := placed_sampleTransactions
  fits := fits_sampleTransactions
  cut_lt := hcut

/-- The file ends behind the gtid event of its second transaction. -/
theorem seekAndVerifyCompleteTrx_sampleTornFile :
    ∃ overview,
      seekAndVerifyCompleteTrx zeroChecksum (sampleTornFile 70 (by decide)).bytes 1 =
        some overview ∧
      overview.lastCompleteTrxGtid = 1 ∧
      overview.lastCompleteTrxEndPos =
        ((sampleTornFile 70 (by decide)).keep [sampleTransaction 155 1]).length ∧
      overview.trxNeedTruncatedGtid = 2 ∧
      overview.trxSpecifyTruncatedEndPos =
        ((sampleTornFile 70 (by decide)).keep [sampleTransaction 155 1]).length := by
  have hok := (sampleTornFile 70 (by decide)).seekAndVerifyCompleteTrx_bytes rfl 1
  obtain ⟨hlast, hend, hneed, hspecify⟩ :=
    (sampleTornFile 70 (by decide)).seekAndVerifyCompleteTrx_exact rfl 1 _ hok
  refine ⟨_, hok, hlast, hend, ?_, ?_⟩
  · exact hneed.trans (by decide)
  · exact hspecify [] (sampleTransaction 155 1) [] rfl rfl (by simp)

structure BreakpointFile (checksum : Checksum) where
  formatDescription : ObLogEvent
  previousGtids : ObLogEvent
  /-- The number of the first transaction. -/
  first : ℕ
  transactions : List Transaction
  next : Transaction
  /-- How many bytes of the next transaction are in the file. -/
  cut : ℕ
  formatDescription_kind : formatDescription.kind = .formatDescription
  previousGtids_kind : previousGtids.kind = .previousGtids
  placed : Placed checksum binlogMagicSize (formatDescription :: previousGtids ::
    (transactions ++ [next]).flatMap events)
  fits : ∀ transaction ∈ transactions ++ [next], ∀ event ∈ transaction.events, event.body.Fits
  first_pos : 0 < first
  numbered : (transactions ++ [next]).map number =
    range' first (transactions.length + 1)
  cut_lt : cut < totalSize (eventLength checksum) next.events

namespace BreakpointFile

variable {checksum : Checksum} (file : BreakpointFile checksum)

def header : List ObLogEvent :=
  [file.formatDescription, file.previousGtids]

def keep (kept : List Transaction) : Bytes :=
  binlogMagic ++ eventsBytes checksum (file.header ++ kept.flatMap events)

def bytes : Bytes :=
  file.keep file.transactions ++ (eventsBytes checksum file.next.events).take file.cut

def endPos (kept : List Transaction) : ℕ :=
  binlogMagicSize + totalSize (eventLength checksum)
    (file.header ++ kept.flatMap events)

def tornFront : List ObLogEvent :=
  complete (eventLength checksum) file.cut file.next.events

def tornNumber : ℕ :=
  match file.tornFront with
  | [] => 0
  | _ :: _ => file.next.number

/-- The file ends inside a commit, behind its header. -/
def TornXid : Prop :=
  (∃ event ∈ file.next.events[file.tornFront.length]?, event.kind = .xid) ∧
    totalSize (eventLength checksum) file.tornFront + commonHeaderLength ≤ file.cut

instance : Decidable file.TornXid :=
  inferInstanceAs (Decidable (_ ∧ _))

def overview (trxSpecifyTruncatedGtid : ℕ) : BinlogTrxOverview :=
  { hasPreviousGtidsEvent := true
    lastCompleteTrxEndPos := file.endPos file.transactions
    lastCompleteTrxGtid := lastNumber 0 file.transactions
    trxNeedTruncatedGtid := file.tornNumber
    trxSpecifyTruncatedGtid
    trxSpecifyTruncatedEndPos :=
      if file.first ≤ trxSpecifyTruncatedGtid ∧
          trxSpecifyTruncatedGtid < file.first + file.transactions.length then
        file.endPos (file.transactions.take (trxSpecifyTruncatedGtid - file.first + 1))
      else 0 }

theorem length_keep (kept : List Transaction) : (file.keep kept).length = file.endPos kept := by
  rw [keep, endPos, length_append, length_eventsBytes]
  rfl

theorem numbers : file.transactions.map number =
    range' file.first file.transactions.length := by
  have hnumbered := file.numbered
  rw [map_append, range'_1_concat, map_cons, map_nil] at hnumbered
  exact (append_inj' hnumbered rfl).1

/-- The file without the numbers of its transactions. -/
def toTornFile : TornFile checksum :=
  { formatDescription := file.formatDescription
    previousGtids := file.previousGtids
    transactions := file.transactions
    next := file.next
    cut := file.cut
    formatDescription_kind := file.formatDescription_kind
    previousGtids_kind := file.previousGtids_kind
    placed := file.placed
    fits := file.fits
    cut_lt := file.cut_lt }

theorem exists_torn : ∃ torn back, file.next.events = file.tornFront ++ torn :: back ∧
    file.next.events[file.tornFront.length]? = some torn ∧
    totalSize (eventLength checksum) file.tornFront ≤ file.cut ∧
    file.cut < totalSize (eventLength checksum) file.tornFront +
      torn.eventLength checksum :=
  file.toTornFile.exists_torn

theorem overview_toTornFile (trxSpecifyTruncatedGtid : ℕ) :
    file.toTornFile.overview trxSpecifyTruncatedGtid = file.overview trxSpecifyTruncatedGtid := by
  have hend : endPosOf checksum trxSpecifyTruncatedGtid (file.endPos []) file.transactions 0 =
      (file.overview trxSpecifyTruncatedGtid).trxSpecifyTruncatedEndPos := by
    simp [overview, endPosOf_eq checksum file.numbers, endPos, Nat.add_assoc]
  exact congrArg (fun endPos =>
    { file.overview trxSpecifyTruncatedGtid with trxSpecifyTruncatedEndPos := endPos }) hend

theorem seekAndVerifyCompleteTrx_bytes (henabled : checksum.enabled = true)
    (trxSpecifyTruncatedGtid : ℕ) :
    seekAndVerifyCompleteTrx checksum file.bytes trxSpecifyTruncatedGtid =
      if file.TornXid then none else some (file.overview trxSpecifyTruncatedGtid) := by
  rw [← overview_toTornFile]
  exact file.toTornFile.seekAndVerifyCompleteTrx_bytes henabled trxSpecifyTruncatedGtid

end BreakpointFile

end OblogProxy.Recovery
