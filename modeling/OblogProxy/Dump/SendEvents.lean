import OblogProxy.Dump.SeekFirstBinlogFile
import OblogProxy.Event.LogEvent

/-!
# Sending a binlog file

`BinlogDumper::send_binlog` follows a file that is still being written: it sends
the format description event and then calls `send_events` for every length of
the file it observes.  In GTID mode the events of the transactions that the
client has executed are skipped.  The decision is taken at the gtid event and
kept in a local variable of `send_events`.
-/

namespace OblogProxy.Dump

open Bytes Event Gtid Tail ObLogEvent List

/-- The members of `BinlogDumper` that decide what is skipped. -/
structure BinlogDumper where
  gtidMod : Bool
  excludeGtid : GtidMap

namespace BinlogDumper

/-- `handle_gtid_event`, on the bytes of the event. -/
def handleGtidEvent (dumper : BinlogDumper) (buff : Bytes) : Bool :=
  let gtidLogEvent := GtidLogEvent.deserialize buff
  dumper.excludeGtid.entries.any fun gtid =>
    decide (gtid.2.gtidUuid.map (fun uuid => dumphex (uuid.take serverUuidLen)) =
        some (dumphex gtidLogEvent.gtidUuid)) &&
      gtid.2.txnRange.any fun range =>
        decide (gtidLogEvent.gtidTxnId < range.2) && decide (range.1 ≤ gtidLogEvent.gtidTxnId)

def skipEvent (dumper : BinlogDumper) (header : OblogEventHeader) (buff : Bytes)
    (skipRecord : Bool) : Bool :=
  if dumper.gtidMod && !dumper.excludeGtid.entries.isEmpty then
    match header.typeCode with
    | .rotateEvent => false
    | .gtidLogEvent => dumper.handleGtidEvent buff
    | _ => skipRecord
  else false

/-- What `seek_event` returns: the event type, or `UNKNOWN_EVENT` for a skipped
event, the packet it queues, the moved checkpoint and the new `skip_record`. -/
structure Sought where
  result : EventType
  packet : Option Bytes
  checkpoint : ℕ
  skipRecord : Bool

/-- `seek_event`; `none` is `OMS_FAILED`. -/
def seekEvent (dumper : BinlogDumper) (stream : Bytes) (checkpoint : ℕ) (skipRecord : Bool) :
    Option Sought := do
  let buff ← readAt stream checkpoint commonHeaderLength
  let header := OblogEventHeader.deserialize buff
  let eventBuf ← readAt stream checkpoint header.eventLength
  let skipRecord := dumper.skipEvent header eventBuf skipRecord
  let checkpoint := checkpoint + header.eventLength
  if skipRecord then some ⟨.unknownEvent, none, checkpoint, skipRecord⟩
  else some ⟨header.typeCode, some (0 :: eventBuf), checkpoint, skipRecord⟩

/-- `is_legal_event`: the event ends within the observed length. -/
def isLegalEvent (stream : Bytes) (offset endPos : ℕ) : Bool :=
  if endPos < offset + commonHeaderLength then false
  else
    match readAt stream offset commonHeaderLength with
    | none => false
    | some buff => offset + (OblogEventHeader.deserialize buff).eventLength ≤ endPos

/-- The loop of `send_events`: the packets sent and the checkpoint behind them.
`none` is a failed read, or a loop that does not end within the fuel. -/
def sendLoop (dumper : BinlogDumper) (stream : Bytes) (endPos : ℕ) :
    ℕ → ℕ → Bool → Option (List Bytes × ℕ)
  | 0, _, _ => none
  | fuel + 1, checkpoint, skipRecord =>
    if decide (checkpoint < endPos) && isLegalEvent stream checkpoint endPos then
      match dumper.seekEvent stream checkpoint skipRecord with
      | none => none
      | some sought =>
        let packets := if sought.result = .unknownEvent then [] else sought.packet.toList
        if sought.result = .rotateEvent then some (packets, sought.checkpoint)
        else
          (sendLoop dumper stream endPos fuel sought.checkpoint sought.skipRecord).map
            fun rest => (packets ++ rest.1, rest.2)
    else some ([], checkpoint)

/-- `send_events`, which starts with `skip_record = false`. -/
def sendEvents (dumper : BinlogDumper) (stream : Bytes) (startPos endPos : ℕ) :
    Option (List Bytes × ℕ) :=
  sendLoop dumper stream endPos (endPos + 1) startPos false

/-- The calls of `send_events` in `send_binlog`, one for each observed length. -/
def sendLengths (dumper : BinlogDumper) (file : Bytes) :
    List ℕ → ℕ → Option (List Bytes × ℕ)
  | [], checkpoint => some ([], checkpoint)
  | endPos :: lengths, checkpoint =>
    match dumper.sendEvents (file.take endPos) checkpoint endPos with
    | none => none
    | some sent =>
      (sendLengths dumper file lengths sent.2).map fun rest => (sent.1 ++ rest.1, rest.2)

/-- `send_binlog` on a file that has the length `opened` when the format
description event is sent and then the given lengths. -/
def sendBinlog (dumper : BinlogDumper) (file : Bytes) (startPos opened : ℕ) (lengths : List ℕ) :
    Option (List Bytes) :=
  match dumper.seekEvent (file.take opened) binlogMagicSize false with
  | none => none
  | some sought =>
    if sought.result = .formatDescriptionEvent then
      (sendLengths dumper file lengths (max startPos sought.checkpoint)).map
        fun rest => sought.packet.toList ++ rest.1
    else none

/-- The decision of `skip_event` on an event of the file. -/
def skips (dumper : BinlogDumper) (checksum : Checksum) (event : ObLogEvent)
    (skipRecord : Bool) : Bool :=
  if dumper.gtidMod && !dumper.excludeGtid.entries.isEmpty then
    match event.kind with
    | .rotate => false
    | .gtid => dumper.handleGtidEvent (event.flushToBuff checksum)
    | _ => skipRecord
  else false

variable {dumper : BinlogDumper} {checksum : Checksum}

section Reading

variable {file rest : Bytes} {event : ObLogEvent} {pos bound : ℕ}

theorem skipEvent_eq {header : OblogEventHeader} (htype : header.typeCode = event.body.typeCode)
    (skipRecord : Bool) :
    dumper.skipEvent header (event.flushToBuff checksum) skipRecord =
      dumper.skips checksum event skipRecord := by
  rw [skipEvent, skips, htype, kind]
  cases event.body with
  | query query => rcases query.kind_cases with hkind | hkind | hkind <;> simp [EventBody.typeCode, hkind]
  | rows kind content => cases kind <;> rfl
  | _ => rfl

theorem typeCode_eq_rotate : event.body.typeCode = .rotateEvent ↔ event.kind = .rotate := by
  rw [kind]
  cases event.body with
  | query query =>
    rcases query.kind_cases with hkind | hkind | hkind <;> simp [EventBody.typeCode, hkind]
  | rows kind content => cases kind <;> simp [EventBody.typeCode, RowsKind.typeCode]
  | _ => simp [EventBody.typeCode]

theorem typeCode_ne_unknown : event.body.typeCode ≠ .unknownEvent := by
  cases event.body with
  | rows kind content => cases kind <;> simp [EventBody.typeCode, RowsKind.typeCode]
  | _ => simp [EventBody.typeCode]

section Front

variable (hdrop : file.drop pos = event.flushToBuff checksum ++ rest)

include hdrop

theorem readAt_event (hlength : event.eventLength checksum < 2 ^ 32)
    (hbound : pos + event.eventLength checksum ≤ bound) :
    ∃ buff, readAt (file.take bound) pos commonHeaderLength = some buff ∧
      (OblogEventHeader.deserialize buff).typeCode = event.body.typeCode ∧
      (OblogEventHeader.deserialize buff).eventLength = event.eventLength checksum ∧
      readAt (file.take bound) pos (event.eventLength checksum) =
        some (event.flushToBuff checksum) := by
  have hheader := event.deserialize_header checksum []
  rw [append_nil] at hheader
  refine ⟨(event.header checksum).flushToBuff, ?_, ?_, ?_, ?_⟩
  · have hmin := event.commonHeaderLength_le_eventLength checksum
    rw [readAt_take (by omega)]
    exact readAt_of_drop hdrop (OblogEventHeader.length_flushToBuff _)
  · rw [hheader]
  · rw [hheader]
    exact Nat.mod_eq_of_lt hlength
  · rw [readAt_take hbound]
    exact readAt_of_drop hdrop (event.length_flushToBuff checksum)

theorem seekEvent_eq (hlength : event.eventLength checksum < 2 ^ 32)
    (hbound : pos + event.eventLength checksum ≤ bound) (skipRecord : Bool) :
    dumper.seekEvent (file.take bound) pos skipRecord =
      some (if dumper.skips checksum event skipRecord then
          ⟨.unknownEvent, none, pos + event.eventLength checksum, true⟩
        else ⟨event.body.typeCode, some (0 :: event.flushToBuff checksum),
          pos + event.eventLength checksum, false⟩) := by
  obtain ⟨buff, hbuff, htype, hlen, hevent⟩ := readAt_event hdrop hlength hbound
  simp only [seekEvent, hbuff, Option.bind_eq_bind, Option.bind_some, hlen, hevent,
    skipEvent_eq htype, htype]
  cases dumper.skips checksum event skipRecord <;> rfl

theorem isLegalEvent_event (hlength : event.eventLength checksum < 2 ^ 32) :
    isLegalEvent (file.take bound) pos bound =
      decide (pos + event.eventLength checksum ≤ bound) := by
  have hmin := event.commonHeaderLength_le_eventLength checksum
  rw [isLegalEvent]
  by_cases hbound : bound < pos + commonHeaderLength
  · rw [if_pos hbound]
    symm
    rw [decide_eq_false_iff_not]
    omega
  · have hheader := event.deserialize_header checksum []
    rw [append_nil] at hheader
    rw [flushToBuff, append_assoc] at hdrop
    rw [if_neg hbound, readAt_take (by omega),
      readAt_of_drop hdrop (OblogEventHeader.length_flushToBuff _)]
    simp only [hheader, Nat.mod_eq_of_lt hlength]

end Front

theorem isLegalEvent_end (hdrop : file.drop pos = []) :
    isLegalEvent (file.take bound) pos bound = false := by
  have hshort : readAt (file.take bound) pos commonHeaderLength = none := by
    apply readAt_eq_none
    rw [drop_take, hdrop, take_nil]
    decide
  rw [isLegalEvent, hshort]
  split_ifs <;> rfl

end Reading

/-- The events that a call sends, of those it reads. -/
def sentRun (dumper : BinlogDumper) (checksum : Checksum) : Bool → List ObLogEvent → List ObLogEvent
  | _, [] => []
  | skipRecord, event :: events =>
    if dumper.skips checksum event skipRecord then sentRun dumper checksum true events
    else event :: sentRun dumper checksum false events

def packet (checksum : Checksum) (event : ObLogEvent) : Bytes :=
  0 :: event.flushToBuff checksum

/-- A rotate event is the last one. -/
def RotateLast (events : List ObLogEvent) : Prop :=
  ∀ event ∈ events.dropLast, event.kind ≠ .rotate

theorem RotateLast.tail {event : ObLogEvent} {events : List ObLogEvent}
    (hlast : RotateLast (event :: events)) :
    RotateLast events ∧ (event.kind = .rotate → events = []) := by
  cases events with
  | nil => simp [RotateLast]
  | cons next events =>
    obtain ⟨hevent, hevents⟩ := forall_mem_cons.mp hlast
    exact ⟨hevents, fun hkind => absurd hkind hevent⟩

theorem RotateLast.suffix {front back : List ObLogEvent} (hlast : RotateLast (front ++ back)) :
    RotateLast back := by
  induction front with
  | nil => exact hlast
  | cons event front ih => exact ih hlast.tail.1

section Loop

variable {file : Bytes} {bound : ℕ} {events : List ObLogEvent} {pos : ℕ}
  (hdrop : file.drop pos = eventsBytes checksum events)
  (hlengths : ∀ event ∈ events, event.eventLength checksum < 2 ^ 32) (hlast : RotateLast events)
  (hpos : pos ≤ bound)

include hdrop hlengths hlast hpos

theorem sendLoop_eq {fuel : ℕ}
    (hfuel : (complete (eventLength checksum) (bound - pos) events).length < fuel)
    (skipRecord : Bool) :
    dumper.sendLoop (file.take bound) bound fuel pos skipRecord =
      some ((dumper.sentRun checksum skipRecord (complete (eventLength checksum)
          (bound - pos) events)).map (packet checksum),
        pos + totalSize (eventLength checksum)
          (complete (eventLength checksum) (bound - pos) events)) := by
  induction events generalizing pos fuel skipRecord with
  | nil =>
    obtain ⟨fuel, rfl⟩ := Nat.exists_eq_succ_of_ne_zero (Nat.ne_zero_of_lt hfuel)
    rw [sendLoop, isLegalEvent_end hdrop]
    simp [complete, sentRun]
  | cons event events ih =>
    obtain ⟨fuel, rfl⟩ := Nat.exists_eq_succ_of_ne_zero (Nat.ne_zero_of_lt hfuel)
    obtain ⟨hlength, hrest⟩ := forall_mem_cons.mp hlengths
    obtain ⟨hlastRest, hrotate⟩ := hlast.tail
    have hpositive := event.eventLength_pos checksum
    rw [sendLoop, isLegalEvent_event hdrop hlength]
    by_cases hfits : event.eventLength checksum ≤ bound - pos
    · have hend : pos + event.eventLength checksum ≤ bound := by omega
      rw [complete, if_pos hfits, Nat.sub_sub] at hfuel ⊢
      rw [length_cons, Nat.succ_lt_succ_iff] at hfuel
      have htail := fun skipRecord => ih (drop_add_of_drop hdrop
        (event.length_flushToBuff checksum)) hrest hlastRest hend hfuel skipRecord
      rw [decide_eq_true hend, decide_eq_true (show pos < bound by omega),
        seekEvent_eq hdrop hlength hend, sentRun]
      cases hskips : dumper.skips checksum event skipRecord with
      | true => simp [htail, Nat.add_assoc]
      | false =>
        by_cases hkind : event.kind = .rotate
        · obtain rfl := hrotate hkind
          simp [typeCode_eq_rotate.mpr hkind, complete, sentRun, packet]
        · have htype : event.body.typeCode ≠ .rotateEvent := mt typeCode_eq_rotate.mp hkind
          simp [htail, htype, typeCode_ne_unknown, packet, Nat.add_assoc]
    · have hend : ¬pos + event.eventLength checksum ≤ bound := by omega
      rw [complete, if_neg hfits, decide_eq_false hend, Bool.and_false]
      simp [sentRun]

theorem sendEvents_eq :
    dumper.sendEvents (file.take bound) pos bound =
      some ((dumper.sentRun checksum false (complete (eventLength checksum)
          (bound - pos) events)).map (packet checksum),
        pos + totalSize (eventLength checksum)
          (complete (eventLength checksum) (bound - pos) events)) := by
  apply sendLoop_eq hdrop hlengths hlast hpos _
  have hcount := length_complete_le (eventLength checksum)
    (eventLength_pos checksum) (bound - pos) events
  omega

end Loop

/-- An event of a file, and whether its transaction is to be skipped. -/
abbrev Entry := ObLogEvent × Bool

def entrySize (checksum : Checksum) (entry : Entry) : ℕ :=
  entry.1.eventLength checksum

def wanted (entries : List Entry) : List ObLogEvent :=
  (entries.filter fun entry => !entry.2).map Prod.fst

theorem wanted_append (front back : List Entry) :
    wanted (front ++ back) = wanted front ++ wanted back := by
  simp [wanted]

/-- The marks are what one uninterrupted call would decide from `skipRecord` on. -/
def Marked (dumper : BinlogDumper) (checksum : Checksum) : Bool → List Entry → Prop
  | _, [] => True
  | skipRecord, entry :: entries =>
    dumper.skips checksum entry.1 skipRecord = entry.2 ∧ Marked dumper checksum entry.2 entries

/-- The events sent by the calls for the given lengths. -/
def sentCalls (dumper : BinlogDumper) (checksum : Checksum) :
    List ℕ → List Entry → ℕ → List ObLogEvent
  | [], _, _ => []
  | length :: lengths, entries, pos =>
    let now := complete (entrySize checksum) (length - pos) entries
    dumper.sentRun checksum false (now.map Prod.fst) ++
      sentCalls dumper checksum lengths (entries.drop now.length)
        (pos + totalSize (entrySize checksum) now)

variable {lengths : List ℕ} {skipRecord : Bool}

section Calls

variable {entries : List Entry}

theorem sendLengths_eq {file : Bytes} {pos : ℕ}
    (hdrop : file.drop pos = eventsBytes checksum (entries.map Prod.fst))
    (hsizes : ∀ entry ∈ entries, entry.1.eventLength checksum < 2 ^ 32)
    (hlast : RotateLast (entries.map Prod.fst)) (hpos : ∀ length ∈ lengths, pos ≤ length)
    (hlengths : lengths.Pairwise (· ≤ ·)) :
    (dumper.sendLengths file lengths pos).map Prod.fst =
      some ((dumper.sentCalls checksum lengths entries pos).map (packet checksum)) := by
  induction lengths generalizing entries pos with
  | nil => rfl
  | cons length lengths ih =>
    obtain ⟨hnext, hgrowing⟩ := pairwise_cons.mp hlengths
    have hlength := hpos length mem_cons_self
    have hevents : ∀ event ∈ entries.map Prod.fst, event.eventLength checksum < 2 ^ 32 :=
      forall_mem_map.mpr hsizes
    have htaken : complete (eventLength checksum) (length - pos)
        (entries.map Prod.fst) =
          (complete (entrySize checksum) (length - pos) entries).map Prod.fst :=
      complete_map _ _ _ _
    obtain ⟨rest, hrest⟩ := exists_rest (entrySize checksum) (length - pos) entries
    have hroom := totalSize_complete_le (entrySize checksum) (length - pos) entries
    rw [sendLengths, sendEvents_eq hdrop hevents hlast hlength, htaken, sentCalls]
    generalize complete (entrySize checksum) (length - pos) entries = now at hrest hroom ⊢
    subst hrest
    have hsize : totalSize (eventLength checksum) (now.map Prod.fst) =
        totalSize (entrySize checksum) now := by
      rw [totalSize, map_map]
      rfl
    have hrestDrop : file.drop (pos + totalSize (entrySize checksum) now) =
        eventsBytes checksum (rest.map Prod.fst) := by
      rw [map_append, eventsBytes_append] at hdrop
      apply drop_add_of_drop hdrop
      rw [length_eventsBytes, hsize]
    rw [map_append] at hlast
    have htail := ih hrestDrop (fun entry hentry => hsizes entry (mem_append_right _ hentry))
      hlast.suffix (fun later hlater => by have := hnext later hlater; omega) hgrowing
    obtain ⟨sent, hsent⟩ := Option.map_eq_some_iff.mp htail
    simp [hsize, hsent.1, hsent.2]

/-- An event of a skipped transaction behind its gtid event. -/
def Inside (entry : Entry) : Prop :=
  entry.2 = true ∧ entry.1.kind ≠ .gtid

theorem sentRun_marked (hmarked : dumper.Marked checksum skipRecord entries) :
    dumper.sentRun checksum skipRecord (entries.map Prod.fst) = wanted entries := by
  induction entries generalizing skipRecord with
  | nil => rfl
  | cons entry entries ih =>
    obtain ⟨hmark, hrest⟩ := hmarked
    rw [map_cons, sentRun, hmark]
    have htail := ih hrest
    cases hskip : entry.2 with
    | true =>
      simpa [wanted, hskip] using htail
    | false =>
      simpa [wanted, hskip] using htail

section Appended

variable {front back : List Entry} (hmarked : dumper.Marked checksum skipRecord (front ++ back))

include hmarked

theorem Marked.left : dumper.Marked checksum skipRecord front := by
  induction front generalizing skipRecord with
  | nil => trivial
  | cons entry front ih => exact ⟨hmarked.1, ih hmarked.2⟩

theorem Marked.right : ∃ carried, dumper.Marked checksum carried back := by
  induction front generalizing skipRecord with
  | nil => exact ⟨skipRecord, hmarked⟩
  | cons entry front ih => exact ih hmarked.2

end Appended

/-- Forgetting that the current transaction is skipped never sends less. -/
theorem length_sentRun_le (dumper : BinlogDumper) (checksum : Checksum) (skipRecord : Bool)
    (events : List ObLogEvent) :
    (dumper.sentRun checksum skipRecord events).length ≤
      (dumper.sentRun checksum false events).length := by
  induction events generalizing skipRecord with
  | nil => exact Nat.le_refl _
  | cons event events ih =>
    have hcarried := ih true
    have hskips : dumper.skips checksum event skipRecord = dumper.skips checksum event false ∨
        dumper.skips checksum event false = false := by
      simp only [skips]
      split_ifs <;> cases event.kind <;> simp
    rw [sentRun, sentRun]
    rcases hskips with hsame | hfalse
    · rw [hsame]
    · rw [hfalse]
      cases dumper.skips checksum event skipRecord with
      | true => simpa using Nat.le_succ_of_le hcarried
      | false => exact Nat.le_refl _

section Mode

variable (hmode : (dumper.gtidMod && !dumper.excludeGtid.entries.isEmpty) = true)
include hmode

section Resumed

variable {skipRecord : Bool} {entry : Entry} {entries : List Entry}
  (hmarked : dumper.Marked checksum skipRecord (entry :: entries))

include hmarked

/-- A call may start anew at an entry that is not inside a skipped transaction. -/
theorem Marked.resume (hentry : ¬Inside entry) :
    dumper.Marked checksum false (entry :: entries) := by
  obtain ⟨hmark, hrest⟩ := hmarked
  refine ⟨?_, hrest⟩
  rw [skips, if_pos hmode] at hmark ⊢
  by_cases hgtid : entry.1.kind = .gtid
  · rw [hgtid] at hmark ⊢
    exact hmark
  · have hunmarked : entry.2 = false := by simpa [Inside, hgtid] using hentry
    rw [hunmarked]
    cases hkind : entry.1.kind with
    | gtid => exact absurd hkind hgtid
    | _ => rfl

/-- Starting anew inside a skipped transaction sends an event too many. -/
theorem length_wanted_lt (hentry : Inside entry) :
    (wanted (entry :: entries)).length <
      (dumper.sentRun checksum false ((entry :: entries).map Prod.fst)).length := by
  obtain ⟨hmark, hrest⟩ := hmarked
  obtain ⟨hskip, hgtid⟩ := hentry
  have hfalse : dumper.skips checksum entry.1 false = false := by
    rw [skips, if_pos hmode]
    cases hkind : entry.1.kind with
    | gtid => exact absurd hkind hgtid
    | _ => rfl
  have hwanted : wanted (entry :: entries) = wanted entries := by simp [wanted, hskip]
  have hle := length_sentRun_le dumper checksum entry.2 (entries.map Prod.fst)
  rw [sentRun_marked hrest] at hle
  rw [hwanted, map_cons, sentRun, hfalse]
  simpa using Nat.lt_succ_of_le hle

end Resumed

/-- No call starts inside a skipped transaction. -/
def StartsOutside (checksum : Checksum) : List ℕ → List Entry → ℕ → Prop
  | [], _, _ => True
  | length :: lengths, entries, pos =>
    let now := complete (entrySize checksum) (length - pos) entries
    (∀ entry ∈ now.head?, ¬Inside entry) ∧
      StartsOutside checksum lengths (entries.drop now.length)
        (pos + totalSize (entrySize checksum) now)

/-- One call sends what is wanted of the entries it reads, and more if it
starts inside a skipped transaction. -/
theorem sentRun_resumed (hmarked : dumper.Marked checksum skipRecord entries) :
    ((∀ entry ∈ entries.head?, ¬Inside entry) →
      dumper.sentRun checksum false (entries.map Prod.fst) = wanted entries) ∧
    (¬(∀ entry ∈ entries.head?, ¬Inside entry) →
      (wanted entries).length <
        (dumper.sentRun checksum false (entries.map Prod.fst)).length) := by
  cases entries with
  | nil => simp [sentRun, wanted]
  | cons entry entries =>
    simp only [head?_cons, Option.mem_some_iff, forall_eq', not_not]
    exact ⟨fun hentry => sentRun_marked (hmarked.resume hmode hentry),
      length_wanted_lt hmode hmarked⟩

/-- The calls send what is wanted of the last length, and more if one of them
starts inside a skipped transaction.  `shorter` is the length of the call
before, which has left nothing to take. -/
theorem sentCalls_wanted {pos shorter : ℕ} (hmarked : dumper.Marked checksum skipRecord entries)
    (hdone : complete (entrySize checksum) (shorter - pos) entries = [])
    (hgrowing : (shorter :: lengths).Pairwise (· ≤ ·)) :
    (StartsOutside checksum lengths entries pos →
      dumper.sentCalls checksum lengths entries pos =
        wanted (complete (entrySize checksum) (lengths.getLastD shorter - pos) entries)) ∧
    (¬StartsOutside checksum lengths entries pos →
      (wanted (complete (entrySize checksum) (lengths.getLastD shorter - pos)
        entries)).length < (dumper.sentCalls checksum lengths entries pos).length) := by
  induction lengths generalizing entries pos shorter skipRecord with
  | nil => simp [StartsOutside, sentCalls, hdone, wanted]
  | cons length lengths ih =>
    obtain ⟨rest, hrest⟩ := exists_rest (entrySize checksum) (length - pos) entries
    rw [getLastD_cons, sentCalls, StartsOutside]
    have hgrowingRest := (pairwise_cons.mp hgrowing).2
    have hlast : length ≤ lengths.getLastD length := by
      have hmem : lengths.getLastD length ∈ length :: lengths := getLastD_mem_cons
      rcases mem_cons.mp hmem with heq | hmem
      · exact heq.ge
      · exact (pairwise_cons.mp hgrowingRest).1 _ hmem
    generalize hnow : complete (entrySize checksum) (length - pos) entries = now at hrest ⊢
    subst hrest
    have hsplit := complete_split (entrySize checksum) hnow
      (Nat.sub_le_sub_right hlast pos)
    obtain ⟨carried, hcarried⟩ := hmarked.right
    obtain ⟨hcall, hcallLt⟩ := sentRun_resumed hmode hmarked.left
    have hdoneRest := complete_rest (entrySize checksum) hnow
    rw [Nat.sub_sub] at hdoneRest hsplit
    obtain ⟨htail, htailLt⟩ := ih hcarried hdoneRest hgrowingRest
    rw [hsplit, drop_left, wanted_append]
    constructor
    · rintro ⟨hhead, houtside⟩
      rw [hcall hhead, htail houtside]
    · intro hbad
      rw [length_append, length_append]
      by_cases hhead : ∀ entry ∈ now.head?, ¬Inside entry
      · rw [hcall hhead]
        have hlt := htailLt fun houtside => hbad ⟨hhead, houtside⟩
        omega
      · have hlt := hcallLt hhead
        by_cases houtside : StartsOutside checksum lengths rest
            (pos + totalSize (entrySize checksum) now)
        · rw [htail houtside]
          omega
        · have hltRest := htailLt houtside
          omega

end Mode

/-- The call that observes the length `longer` after the length `shorter` starts
inside a skipped transaction: with an event behind the gtid event that has
become complete between the two lengths, while all events before it were
complete already.  `base` is the position of the first entry. -/
def StartsInside (checksum : Checksum) (base : ℕ) (entries : List Entry) (shorter longer : ℕ) :
    Prop :=
  ∃ front entry back, entries = front ++ entry :: back ∧ Inside entry ∧
    base + totalSize (entrySize checksum) front ≤ shorter ∧
    shorter < base + totalSize (entrySize checksum) front + entrySize checksum entry ∧
    base + totalSize (entrySize checksum) front + entrySize checksum entry ≤ longer

theorem startsInside_iff {base shorter longer : ℕ} {front rest : List Entry}
    (hfront : complete (entrySize checksum) (shorter - base) (front ++ rest) = front)
    (hbase : base ≤ shorter) :
    StartsInside checksum base (front ++ rest) shorter longer ↔
      ∃ entry ∈ (complete (entrySize checksum)
        (longer - (base + totalSize (entrySize checksum) front)) rest).head?, Inside entry := by
  constructor
  · rintro ⟨before, entry, back, hsplit, hinside, hstart, hcut, hend⟩
    have hbefore : complete (entrySize checksum) (shorter - base)
        (before ++ entry :: back) = before := by
      apply complete_eq <;> omega
    rw [← hsplit, hfront] at hbefore
    subst hbefore
    obtain rfl := append_cancel_left hsplit
    refine ⟨entry, ?_, hinside⟩
    rw [complete, if_pos (by omega)]
    rfl
  · rintro ⟨entry, hentry, hinside⟩
    cases rest with
    | nil => simp [complete] at hentry
    | cons head rest =>
      rw [complete] at hentry
      split_ifs at hentry with hfits
      · obtain rfl : head = entry := by simpa using hentry
        have hcut := lt_of_complete (entrySize checksum) hfront
        have hroom := totalSize_complete_le (entrySize checksum) (shorter - base)
          (front ++ head :: rest)
        rw [hfront] at hroom
        refine ⟨front, head, rest, rfl, hinside, by omega, by omega, ?_⟩
        omega
      · simp at hentry

theorem startsOutside_iff {lengths : List ℕ} {base shorter : ℕ} {front rest : List Entry}
    (hfront : complete (entrySize checksum) (shorter - base) (front ++ rest) = front)
    (hbase : base ≤ shorter) (hgrowing : (shorter :: lengths).Pairwise (· ≤ ·)) :
    StartsOutside checksum lengths rest (base + totalSize (entrySize checksum) front) ↔
      (shorter :: lengths).IsChain fun shorter longer =>
        ¬StartsInside checksum base (front ++ rest) shorter longer := by
  induction lengths generalizing shorter front rest with
  | nil => simp [StartsOutside]
  | cons length lengths ih =>
    obtain ⟨hshorter, hgrowingRest⟩ := pairwise_cons.mp hgrowing
    have hlonger : shorter - base ≤ length - base :=
      Nat.sub_le_sub_right (hshorter length mem_cons_self) base
    rw [StartsOutside, isChain_cons_cons, startsInside_iff hfront hbase]
    obtain ⟨back, hback⟩ := exists_rest (entrySize checksum)
      (length - (base + totalSize (entrySize checksum) front)) rest
    have hnext := complete_split (entrySize checksum) hfront hlonger
    rw [Nat.sub_sub] at hnext
    generalize complete (entrySize checksum)
      (length - (base + totalSize (entrySize checksum) front)) rest = now at hback hnext ⊢
    subst hback
    rw [← append_assoc] at hnext
    have htail := ih hnext (hbase.trans (hshorter length mem_cons_self)) hgrowingRest
    rw [totalSize_append, ← Nat.add_assoc, append_assoc] at htail
    rw [drop_left, htail]
    simp

end Calls

/-- The number lies in a half-open range of the set for the uuid. -/
def Excluded (exclude : GtidMap) (uuid : Bytes) (number : ℕ) : Prop :=
  ∃ gtid ∈ exclude.entries, gtid.2.gtidUuid.map (·.take serverUuidLen) = some uuid ∧
    ∃ range ∈ gtid.2.txnRange, range.1 ≤ number ∧ number < range.2

instance (exclude : GtidMap) (uuid : Bytes) (number : ℕ) :
    Decidable (Excluded exclude uuid number) :=
  inferInstanceAs (Decidable (∃ gtid ∈ exclude.entries, _))

theorem handleGtidEvent_eq (dumper : BinlogDumper) (checksum : Checksum) {event : ObLogEvent}
    {gtid : GtidLogEvent} (hbody : event.body = .gtid gtid) (hfits : gtid.Fits) :
    dumper.handleGtidEvent (event.flushToBuff checksum) =
      decide (Excluded dumper.excludeGtid gtid.gtidUuid gtid.gtidTxnId) := by
  have huuid : ∀ uuid : Option Bytes,
      uuid.map (fun uuid => dumphex (uuid.take serverUuidLen)) = some (dumphex gtid.gtidUuid) ↔
        uuid.map (·.take serverUuidLen) = some gtid.gtidUuid := by
    intro uuid
    cases uuid with
    | none => simp
    | some uuid => simp [dumphex_injective.eq_iff]
  rw [Bool.eq_iff_iff, decide_eq_true_iff, handleGtidEvent,
    event.deserialize_gtid checksum hbody hfits]
  simp [huuid, Excluded, and_comm (a := gtid.gtidTxnId < _)]

def excludesTransaction (exclude : GtidMap) (transaction : Transaction) : Bool :=
  transaction.events.any fun event =>
    match event.body with
    | .gtid gtid => decide (Excluded exclude gtid.gtidUuid gtid.gtidTxnId)
    | _ => false

/-- The events of a file behind the format description event, each with the
mark of its transaction. -/
def fileEntries (exclude : GtidMap) (file : BinlogFile) : List Entry :=
  (file.previousGtids, false) ::
    (file.transactions.flatMap (fun transaction =>
        transaction.events.map fun event => (event, excludesTransaction exclude transaction)) ++
      file.rotate.toList.map fun event => (event, false))

theorem map_fileEntries (exclude : GtidMap) (file : BinlogFile) :
    (fileEntries exclude file).map Prod.fst = file.tailEvents := by
  simp [fileEntries, BinlogFile.tailEvents, map_flatMap, Function.comp_def]

section File

variable (hmode : (dumper.gtidMod && !dumper.excludeGtid.entries.isEmpty) = true)
include hmode

theorem marked_body {body : List ObLogEvent} {rest : List Entry}
    (hbody : ∀ event ∈ body, event.kind ≠ .gtid ∧ event.kind ≠ .rotate)
    (hrest : dumper.Marked checksum skipRecord rest) :
    dumper.Marked checksum skipRecord (body.map (fun event => (event, skipRecord)) ++ rest) := by
  induction body with
  | nil => exact hrest
  | cons event body ih =>
    obtain ⟨⟨hgtid, hrotate⟩, hbodyRest⟩ := forall_mem_cons.mp hbody
    refine ⟨?_, ih hbodyRest⟩
    rw [skips, if_pos hmode]
    cases hkind : event.kind with
    | gtid => exact absurd hkind hgtid
    | rotate => exact absurd hkind hrotate
    | _ => rfl

theorem marked_transaction (skipRecord : Bool) {transaction : Transaction} {rest : List Entry}
    (hfits : ∀ event ∈ transaction.events, ∀ gtid, event.body = .gtid gtid → gtid.Fits)
    (hrest : ∀ carried, dumper.Marked checksum carried rest) :
    dumper.Marked checksum skipRecord (transaction.events.map (fun event =>
      (event, excludesTransaction dumper.excludeGtid transaction)) ++ rest) := by
  obtain ⟨first, body, hevents, hkind, -, hbody⟩ := transaction.exists_body
  obtain ⟨gtid, hgtid⟩ := kind_eq_gtid.mp hkind
  have hother : ∀ event ∈ body, event.kind ≠ .gtid ∧ event.kind ≠ .rotate :=
    fun event hevent => ⟨(hbody event hevent).1, (hbody event hevent).2.2⟩
  have hmark : excludesTransaction dumper.excludeGtid transaction =
      decide (Excluded dumper.excludeGtid gtid.gtidUuid gtid.gtidTxnId) := by
    have hnone : (body.any fun event =>
        match event.body with
        | .gtid gtid => decide (Excluded dumper.excludeGtid gtid.gtidUuid gtid.gtidTxnId)
        | _ => false) = false := by
      rw [any_eq_false]
      intro event hevent
      cases heventBody : event.body with
      | gtid gtid =>
        exact absurd (kind_eq_gtid.mpr ⟨gtid, heventBody⟩) (hother event hevent).1
      | _ => simp
    rw [excludesTransaction, hevents, any_cons, hnone, hgtid, Bool.or_false]
  rw [hevents, map_cons]
  refine ⟨?_, marked_body hmode hother (hrest _)⟩
  rw [skips, if_pos hmode, hkind, hmark]
  exact handleGtidEvent_eq dumper checksum hgtid
    (hfits first (hevents ▸ mem_cons_self) gtid hgtid)

theorem marked_fileEntries {file : BinlogFile}
    (hfits : ∀ transaction ∈ file.transactions, ∀ event ∈ transaction.events, ∀ gtid,
      event.body = .gtid gtid → gtid.Fits) :
    dumper.Marked checksum false (fileEntries dumper.excludeGtid file) := by
  have hrotate : ∀ carried, dumper.Marked checksum carried
      (file.rotate.toList.map fun event => (event, false)) := by
    intro carried
    cases hlast : file.rotate with
    | none => trivial
    | some event =>
      refine ⟨?_, trivial⟩
      rw [skips, if_pos hmode, file.rotate_kind event hlast]
  have htransactions : ∀ (transactions : List Transaction), (∀ transaction ∈ transactions,
      ∀ event ∈ transaction.events, ∀ gtid, event.body = .gtid gtid → gtid.Fits) →
      ∀ carried, dumper.Marked checksum carried (transactions.flatMap (fun transaction =>
        transaction.events.map fun event =>
          (event, excludesTransaction dumper.excludeGtid transaction)) ++
        file.rotate.toList.map fun event => (event, false)) := by
    intro transactions
    induction transactions with
    | nil => exact fun _ => hrotate
    | cons transaction transactions ih =>
      intro hall carried
      obtain ⟨hfirst, hothers⟩ := forall_mem_cons.mp hall
      rw [flatMap_cons, append_assoc]
      exact marked_transaction hmode carried hfirst (ih hothers)
  refine ⟨?_, htransactions file.transactions hfits false⟩
  rw [skips, if_pos hmode, file.previousGtids_kind]

end File

theorem rotateLast_tailEvents (file : BinlogFile) : RotateLast file.tailEvents := by
  have hbody : ∀ event ∈ file.previousGtids :: file.transactions.flatMap Transaction.events,
      event.kind ≠ .rotate := by
    intro event hevent
    rcases mem_cons.mp hevent with rfl | hevent
    · simp [file.previousGtids_kind]
    · obtain ⟨transaction, -, hevent⟩ := mem_flatMap.mp hevent
      obtain ⟨gtid, body, hevents, hgtid, -, hothers⟩ := transaction.exists_body
      rw [hevents] at hevent
      rcases mem_cons.mp hevent with rfl | hevent
      · simp [hgtid]
      · exact (hothers event hevent).2.2
  rw [RotateLast, BinlogFile.tailEvents, ← cons_append]
  intro event hevent
  cases hrotate : file.rotate with
  | none =>
    rw [hrotate, Option.toList_none, append_nil] at hevent
    exact hbody event (dropLast_subset _ hevent)
  | some rotate =>
    rw [hrotate, Option.toList_some, dropLast_concat] at hevent
    exact hbody event hevent

def entriesPos (checksum : Checksum) (file : BinlogFile) : ℕ :=
  binlogMagicSize + file.formatDescription.eventLength checksum

/-- The first call starts with the previous-gtids event. -/
theorem not_startsInside_first (checksum : Checksum) (exclude : GtidMap) (file : BinlogFile)
    (length : ℕ) :
    ¬StartsInside checksum (entriesPos checksum file) (fileEntries exclude file)
      (entriesPos checksum file) length := by
  rintro ⟨front, entry, back, hsplit, hinside, hstart, -, -⟩
  cases front with
  | nil =>
    obtain ⟨rfl, -⟩ := cons.inj hsplit
    exact absurd hinside.1 (by simp)
  | cons head front =>
    have hpositive := head.1.eventLength_pos checksum
    rw [totalSize_cons, entrySize] at hstart
    omega

theorem typeCode_formatDescription (file : BinlogFile) :
    file.formatDescription.body.typeCode = .formatDescriptionEvent := by
  have hkind := file.formatDescription_kind
  rw [kind] at hkind
  cases hbody : file.formatDescription.body with
  | query query =>
    rw [hbody] at hkind
    rcases query.kind_cases with hquery | hquery | hquery <;> simp [hquery] at hkind
  | rows kind content => simp [hbody] at hkind
  | formatDescription timestamp => rfl
  | _ => simp [hbody] at hkind

theorem drop_formatDescription (checksum : Checksum) (file : BinlogFile) :
    (file.bytes checksum).drop binlogMagicSize =
      file.formatDescription.flushToBuff checksum ++ eventsBytes checksum file.tailEvents := by
  exact drop_left' rfl

theorem skips_formatDescription (dumper : BinlogDumper) (checksum : Checksum)
    (file : BinlogFile) : dumper.skips checksum file.formatDescription false = false := by
  rw [skips, file.formatDescription_kind]
  split_ifs <;> rfl

theorem sendBinlog_eq {dumper : BinlogDumper} {checksum : Checksum} {file : BinlogFile}
    {startPos opened : ℕ} (hsizes : ∀ event ∈ file.events, event.eventLength checksum < 2 ^ 32)
    (hstart : startPos ≤ entriesPos checksum file) (hopened : entriesPos checksum file ≤ opened)
    (hgrowing : (opened :: lengths).Pairwise (· ≤ ·)) :
    dumper.sendBinlog (file.bytes checksum) startPos opened lengths =
      some ((file.formatDescription :: dumper.sentCalls checksum lengths
        (fileEntries dumper.excludeGtid file) (entriesPos checksum file)).map
          (packet checksum)) := by
  obtain ⟨hlater, hlengths⟩ := pairwise_cons.mp hgrowing
  obtain ⟨hformat, htail⟩ := forall_mem_cons.mp hsizes
  have hdrop := drop_formatDescription checksum file
  have hentries := drop_add_of_drop hdrop (file.formatDescription.length_flushToBuff checksum)
  rw [← map_fileEntries dumper.excludeGtid] at hentries htail
  have hlast : RotateLast ((fileEntries dumper.excludeGtid file).map Prod.fst) := by
    rw [map_fileEntries]
    exact rotateLast_tailEvents file
  have hsent : (dumper.sendLengths (file.bytes checksum) lengths
      (entriesPos checksum file)).map Prod.fst = _ :=
    sendLengths_eq hentries (forall_mem_map.mp htail) hlast
      (fun length hlength => hopened.trans (hlater length hlength)) hlengths
  obtain ⟨sent, hcalls, hpackets⟩ := Option.map_eq_some_iff.mp hsent
  rw [sendBinlog, seekEvent_eq hdrop hformat hopened, skips_formatDescription]
  simp only [Bool.false_eq_true, if_false, typeCode_formatDescription, if_true]
  rw [← entriesPos, Nat.max_eq_right hstart, hcalls, Option.map_some, hpackets]
  rfl

/-- The client gets exactly the events of the transactions that are not
excluded, if and only if no call of `send_events` starts inside an excluded
transaction. -/
theorem sendBinlog_skips_exactly_iff (dumper : BinlogDumper) (checksum : Checksum)
    (file : BinlogFile) (startPos opened : ℕ) (lengths : List ℕ)
    (hmod : dumper.gtidMod = true) (hexclude : dumper.excludeGtid.entries ≠ [])
    (hfits : ∀ transaction ∈ file.transactions, ∀ event ∈ transaction.events, ∀ gtid,
      event.body = .gtid gtid → gtid.Fits)
    (hsizes : ∀ event ∈ file.events, event.eventLength checksum < 2 ^ 32)
    (hstart : startPos ≤ entriesPos checksum file) (hopened : entriesPos checksum file ≤ opened)
    (hgrowing : (opened :: lengths).Pairwise (· ≤ ·)) :
    dumper.sendBinlog (file.bytes checksum) startPos opened lengths =
        some ((file.formatDescription :: wanted (complete (entrySize checksum)
          (lengths.getLastD (entriesPos checksum file) - entriesPos checksum file)
          (fileEntries dumper.excludeGtid file))).map (packet checksum)) ↔
      lengths.IsChain fun shorter longer =>
        ¬StartsInside checksum (entriesPos checksum file)
          (fileEntries dumper.excludeGtid file) shorter longer := by
  have hmode : (dumper.gtidMod && !dumper.excludeGtid.entries.isEmpty) = true := by
    simpa [hmod] using hexclude
  obtain ⟨hlater, hlengths⟩ := pairwise_cons.mp hgrowing
  have hbase : (entriesPos checksum file :: lengths).Pairwise (· ≤ ·) :=
    pairwise_cons.mpr ⟨fun length hlength => hopened.trans (hlater length hlength), hlengths⟩
  have hdone : complete (entrySize checksum)
      (entriesPos checksum file - entriesPos checksum file)
      (fileEntries dumper.excludeGtid file) = [] := by
    rw [Nat.sub_self]
    exact complete_zero _ (fun entry => entry.1.eventLength_pos checksum) _
  have hchain : StartsOutside checksum lengths (fileEntries dumper.excludeGtid file)
      (entriesPos checksum file) ↔ lengths.IsChain fun shorter longer =>
        ¬StartsInside checksum (entriesPos checksum file)
          (fileEntries dumper.excludeGtid file) shorter longer := by
    have hfirst := @startsOutside_iff checksum lengths (entriesPos checksum file)
      (entriesPos checksum file) [] (fileEntries dumper.excludeGtid file) hdone
      (Nat.le_refl _) hbase
    rw [totalSize_nil, Nat.add_zero] at hfirst
    rw [hfirst]
    cases lengths with
    | nil => simp
    | cons length lengths =>
      rw [isChain_cons_cons]
      exact and_iff_right (not_startsInside_first checksum _ file length)
  obtain ⟨hexact, hmore⟩ := sentCalls_wanted hmode (marked_fileEntries hmode hfits) hdone hbase
  rw [sendBinlog_eq hsizes hstart hopened hgrowing, ← hchain]
  constructor
  · intro hsent
    by_contra hinside
    have hlength := congrArg (Option.map length) hsent
    simp only [Option.map_some, length_map, length_cons, Option.some.injEq, Nat.succ_inj] at hlength
    exact absurd hlength (hmore hinside).ne'
  · intro houtside
    rw [hexact houtside]

def noChecksum : Checksum := ⟨false, fun _ => 0⟩

def executedOne : BinlogDumper :=
  ⟨true, SortedMap.empty.insert [] ⟨some (replicate 16 0), 1, [(1, 2)]⟩⟩

def commitOne : ObLogEvent :=
  smallEvent [] (.xid 0)

def transactionOne : Transaction :=
  ⟨[smallEvent [] (.gtid ⟨1, replicate 16 0, 1, 0, 0, 2⟩),
    smallEvent [] (.query ⟨0, 0, 0, [], [], QueryEvent.beginVar, false⟩), commitOne],
    @IsTransaction.dml _ _ _ [] rfl rfl (by simp) rfl⟩

def fileOne : BinlogFile :=
  { formatDescription := smallEvent [] (.formatDescription 0)
    previousGtids := smallEvent [] (.previousGtids [])
    transactions := [transactionOne]
    rotate := none
    formatDescription_kind := rfl
    previousGtids_kind := rfl
    rotate_kind := by simp }

/-- The whole transaction is seen by one call, which skips it. -/
theorem sendBinlog_skips_whole :
    executedOne.sendBinlog (fileOne.bytes noChecksum) 4 147 [147, 273] =
      some ([fileOne.formatDescription, fileOne.previousGtids].map (packet noChecksum)) := by
  refine (sendBinlog_skips_exactly_iff executedOne noChecksum fileOne 4 147 [147, 273] rfl
    (by decide) ?_ (by decide) (by decide) (by decide) (by decide)).mpr ?_
  · intro transaction htransaction event hevent gtid hgtid
    obtain rfl : transaction = transactionOne := by simpa [fileOne] using htransaction
    simp only [transactionOne, commitOne, smallEvent, mem_cons, not_mem_nil, or_false] at hevent
    rcases hevent with rfl | rfl | rfl <;> cases hgtid
    constructor <;> decide
  · refine isChain_pair.mpr fun hinside => ?_
    obtain ⟨entry, hentry, -, hkind⟩ := (@startsInside_iff noChecksum 120 147 273
      [(fileOne.previousGtids, false)] (fileEntries executedOne.excludeGtid fileOne).tail
      rfl (by decide)).mp hinside
    obtain rfl := Option.mem_some_iff.mp hentry
    exact hkind rfl

/-- The file is seen once between `BEGIN` and the commit, and once complete: the
commit of the excluded transaction is sent. -/
theorem sendBinlog_sends_commit :
    executedOne.sendBinlog (fileOne.bytes noChecksum) 4 246 [246, 273] =
      some ([fileOne.formatDescription, fileOne.previousGtids, commitOne].map
        (packet noChecksum)) ∧
    excludesTransaction executedOne.excludeGtid transactionOne = true := by
  decide +kernel

end BinlogDumper

end OblogProxy.Dump
