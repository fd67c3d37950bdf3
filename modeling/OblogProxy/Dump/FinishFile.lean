import OblogProxy.Dump.SendEvents

/-!
# When a file has been sent

The loop of `send_binlog` asks `seek_binlog_end_pos` how far the file may be sent.  A file
that is no longer active has been sent once its end is reached and its rotate event was
sent; the dumper remembers the latter by the name of the file.
-/

namespace OblogProxy.Dump

open Bytes Event Gtid ObLogEvent Tail List BinlogFile

/-- What an iteration observes: the file of the index record in memory, the size of the
file and, if new events are waited for, the size that is found then. -/
structure Observed where
  memoryFile : Text
  size : ℕ
  awaited : ℕ

def isActive (memoryFile file : Text) : Bool :=
  memoryFile.isEmpty || memoryFile == file

/-- What `seek_binlog_end_pos` returns: a position, `OMS_BINLOG_SKIP` or `OMS_FAILED`. -/
inductive EndPos where
  | found (endPos : ℕ)
  | skip
  | failed
deriving DecidableEq

inductive IoResult where
  | success
  | fail
deriving DecidableEq

/-- The members that the loop changes, and the packets that were sent. -/
structure DumpState where
  checkpoint : ℕ
  rotateFile : Text
  sent : List Bytes
deriving DecidableEq

namespace BinlogDumper

def seekBinlogEndPos (nonBlock : Bool) (file rotateFile : Text) (checkpoint : ℕ)
    (observed : Observed) : EndPos :=
  if isActive observed.memoryFile file then
    if checkpoint < observed.size then .found observed.size
    else if nonBlock then .skip
    else .found observed.awaited
  else if checkpoint = observed.size ∧ file = rotateFile then .skip
  else if observed.size < checkpoint then .failed
  else .found observed.size

/-- Whether the loop of `send_events` is left at a rotate event. -/
def sendsRotate (dumper : BinlogDumper) (stream : Bytes) (endPos : ℕ) : ℕ → ℕ → Bool → Bool
  | 0, _, _ => false
  | fuel + 1, checkpoint, skipRecord =>
    if decide (checkpoint < endPos) && isLegalEvent stream checkpoint endPos then
      match dumper.seekEvent stream checkpoint skipRecord with
      | none => false
      | some sought =>
        decide (sought.result = .rotateEvent) ||
          sendsRotate dumper stream endPos fuel sought.checkpoint sought.skipRecord
    else false

section Loop

variable (dumper : BinlogDumper) (nonBlock : Bool) (name : Text) (file : Bytes)

def sendUpTo (endPos : ℕ) (state : DumpState) : Option DumpState :=
  (dumper.sendEvents (file.take endPos) state.checkpoint endPos).map fun (packets, checkpoint) =>
    { checkpoint
      rotateFile :=
        if dumper.sendsRotate (file.take endPos) endPos (endPos + 1) state.checkpoint false then name
        else state.rotateFile
      sent := state.sent ++ packets }

/-- The loop of `send_binlog` over a connection that stays alive; `none` is a loop that does
not end within the fuel. -/
def sendBinlogLoop (observe : ℕ → Observed) :
    ℕ → ℕ → DumpState → Option (IoResult × DumpState)
  | 0, _, _ => none
  | fuel + 1, iteration, state =>
    match seekBinlogEndPos nonBlock name state.rotateFile state.checkpoint (observe iteration) with
    | .skip => some (.success, state)
    | .failed => some (.fail, state)
    | .found endPos =>
      match dumper.sendUpTo name file endPos state with
      | none => some (.fail, state)
      | some next => sendBinlogLoop observe fuel (iteration + 1) next

/-- `send_binlog` on a file whose bytes do not change. -/
def finishBinlog (startPos : ℕ) (rotateFile : Text) (observe : ℕ → Observed) (fuel : ℕ) :
    Option (IoResult × DumpState) :=
  match dumper.seekEvent file binlogMagicSize false with
  | none => some (.fail, ⟨binlogMagicSize, rotateFile, []⟩)
  | some sought =>
    if sought.result = .formatDescriptionEvent then
      dumper.sendBinlogLoop nonBlock name file observe fuel 0
        ⟨max startPos sought.checkpoint, rotateFile, sought.packet.toList⟩
    else some (.fail, ⟨sought.checkpoint, rotateFile, []⟩)

end Loop

variable {dumper : BinlogDumper} {checksum : Checksum} {nonBlock : Bool} {name : Text}

section Closed

variable {file : Bytes} {state : DumpState} {events : List ObLogEvent}

theorem sentRun_eq_self (hmod : dumper.gtidMod = false) (skipRecord : Bool) :
    dumper.sentRun checksum skipRecord events = events := by
  induction events generalizing skipRecord with
  | nil => rfl
  | cons event events ih =>
    have hskips : dumper.skips checksum event skipRecord = false := by
      rw [skips, hmod]
      rfl
    rw [sentRun, hskips, if_neg Bool.false_ne_true, ih]

/-- The loop over the whole rest of a file is left at its rotate event, if there is one. -/
theorem sendsRotate_eq {pos : ℕ} (hdrop : file.drop pos = eventsBytes checksum events)
    (hlengths : ∀ event ∈ events, event.eventLength checksum < 2 ^ 32) {fuel : ℕ}
    (hfuel : events.length < fuel) {bound : ℕ}
    (hbound : pos + totalSize (eventLength checksum) events ≤ bound) (skipRecord : Bool) :
    dumper.sendsRotate (file.take bound) bound fuel pos skipRecord =
      events.any fun event => event.kind = .rotate := by
  induction events generalizing pos fuel skipRecord with
  | nil =>
    obtain ⟨fuel, rfl⟩ := Nat.exists_eq_succ_of_ne_zero (Nat.ne_zero_of_lt hfuel)
    rw [sendsRotate, isLegalEvent_end hdrop]
    simp
  | cons event events ih =>
    obtain ⟨fuel, rfl⟩ := Nat.exists_eq_succ_of_ne_zero (Nat.ne_zero_of_lt hfuel)
    rw [length_cons, Nat.succ_lt_succ_iff] at hfuel
    rw [totalSize_cons] at hbound
    obtain ⟨hlength, hrest⟩ := forall_mem_cons.mp hlengths
    have hpositive := event.eventLength_pos checksum
    have htail := ih (drop_add_of_drop hdrop (event.length_flushToBuff checksum)) hrest hfuel
      (by omega)
    rw [sendsRotate, isLegalEvent_event hdrop hlength,
      decide_eq_true (show pos + event.eventLength checksum ≤ bound by omega),
      decide_eq_true (show pos < bound by omega),
      seekEvent_eq hdrop hlength (by omega), any_cons]
    -- a rotate event is never skipped
    cases hskips : dumper.skips checksum event skipRecord with
    | true =>
      have hkind : event.kind ≠ .rotate := by
        intro hkind
        rw [skips, hkind] at hskips
        split_ifs at hskips
      simp [htail, hkind]
    | false => simp [htail, typeCode_eq_rotate]

theorem sendUpTo_eq (hdrop : file.drop state.checkpoint = eventsBytes checksum events)
    (hlengths : ∀ event ∈ events, event.eventLength checksum < 2 ^ 32) (hlast : RotateLast events)
    (hsize : state.checkpoint + totalSize (eventLength checksum) events =
      file.length) :
    dumper.sendUpTo name file file.length state =
      some ⟨file.length,
        if events.any fun event => event.kind = .rotate then name else state.rotateFile,
        state.sent ++ (dumper.sentRun checksum false events).map (packet checksum)⟩ := by
  have hcount := length_le_totalSize (eventLength checksum)
    (eventLength_pos checksum) events
  rw [sendUpTo, sendEvents_eq hdrop hlengths hlast (by omega),
    complete_of_le _ (by omega), sendsRotate_eq hdrop hlengths (by omega) (by omega)]
  simp [hsize]

def Inactive (name : Text) (size : ℕ) (observe : ℕ → Observed) : Prop :=
  ∀ iteration, isActive (observe iteration).memoryFile name = false ∧
    (observe iteration).size = size

variable {observe : ℕ → Observed}

section Inactive

variable (hobserve : Inactive name file.length observe)

include hobserve

theorem seekBinlogEndPos_inactive (iteration : ℕ) (hle : state.checkpoint ≤ file.length) :
    seekBinlogEndPos nonBlock name state.rotateFile state.checkpoint (observe iteration) =
      if state.checkpoint = file.length ∧ name = state.rotateFile then .skip
      else .found file.length := by
  obtain ⟨hactive, hsize⟩ := hobserve iteration
  rw [seekBinlogEndPos, hactive, if_neg Bool.false_ne_true, hsize, if_neg (Nat.not_lt.mpr hle)]

/-- At the end of a file whose rotate event was sent, the loop is left. -/
theorem sendBinlogLoop_done (hend : state.checkpoint = file.length)
    (hrotate : name = state.rotateFile) (fuel iteration : ℕ) :
    dumper.sendBinlogLoop nonBlock name file observe (fuel + 1) iteration state =
      some (.success, state) := by
  rw [sendBinlogLoop, seekBinlogEndPos_inactive hobserve iteration hend.le, if_pos ⟨hend, hrotate⟩]

/-- At the end of a file whose rotate event was not sent, nothing is left to send and the
loop goes on for ever. -/
theorem sendBinlogLoop_stuck (hend : state.checkpoint = file.length)
    (hrotate : name ≠ state.rotateFile) (fuel iteration : ℕ) :
    dumper.sendBinlogLoop nonBlock name file observe fuel iteration state = none := by
  induction fuel generalizing iteration with
  | zero => rfl
  | succ fuel ih =>
    have hdrop : file.drop state.checkpoint = eventsBytes noChecksum [] := by
      rw [hend, drop_length]
      rfl
    have hsame : dumper.sendUpTo name file file.length state = some state := by
      rw [sendUpTo_eq hdrop (by simp) (by simp [RotateLast]) (by simpa using hend)]
      simp [sentRun, ← hend]
    rw [sendBinlogLoop, seekBinlogEndPos_inactive hobserve iteration hend.le,
      if_neg fun hdone => hrotate hdone.2]
    simp only [hsame]
    exact ih (iteration + 1)

/-- One iteration sends the rest of a file with its rotate event, and the next one finds
that the file has been sent. -/
theorem sendBinlogLoop_finishes (hdrop : file.drop state.checkpoint = eventsBytes checksum events)
    (hlengths : ∀ event ∈ events, event.eventLength checksum < 2 ^ 32) (hlast : RotateLast events)
    (hsize : state.checkpoint + totalSize (eventLength checksum) events =
      file.length)
    (hrotate : ∃ event ∈ events, event.kind = .rotate) :
    dumper.sendBinlogLoop nonBlock name file observe 2 0 state =
      some (.success, ⟨file.length, name,
        state.sent ++ (dumper.sentRun checksum false events).map (packet checksum)⟩) := by
  have hany : (events.any fun event => event.kind = .rotate) = true := by
    simpa using hrotate
  have hlt : state.checkpoint < file.length := by
    obtain ⟨event, hevent, -⟩ := hrotate
    have hcount := length_le_totalSize (eventLength checksum)
      (eventLength_pos checksum) events
    have hpositive := length_pos_of_mem hevent
    omega
  rw [sendBinlogLoop, seekBinlogEndPos_inactive hobserve 0 hlt.le,
    if_neg fun hdone => hlt.ne hdone.1]
  simp only [sendUpTo_eq hdrop hlengths hlast hsize, if_pos hany]
  exact sendBinlogLoop_done hobserve rfl rfl 0 1

end Inactive

end Closed

/-- The position is where the events `back` start, or the first of all. -/
def StartsAt (checksum : Checksum) (file : BinlogFile) (startPos : ℕ)
    (front back : List ObLogEvent) : Prop :=
  file.tailEvents = front ++ back ∧
    (startPos = binlogMagicSize ∧ front = [] ∨
      startPos = entriesPos checksum file +
        totalSize (eventLength checksum) front)

section File

variable {file : BinlogFile} {startPos : ℕ} {front back : List ObLogEvent}

theorem length_bytes (checksum : Checksum) (file : BinlogFile) :
    (file.bytes checksum).length = entriesPos checksum file +
      totalSize (eventLength checksum) file.tailEvents := by
  rw [bytes, length_append, length_eventsBytes, events, totalSize_cons, entriesPos, Nat.add_assoc]
  rfl

section StartsAt

variable (hstart : StartsAt checksum file startPos front back)

include hstart

theorem StartsAt.max_eq :
    max startPos (entriesPos checksum file) =
      entriesPos checksum file + totalSize (eventLength checksum) front := by
  obtain ⟨-, ⟨rfl, rfl⟩ | rfl⟩ := hstart
  · rw [entriesPos, totalSize_nil]
    omega
  · omega

theorem StartsAt.eq_nil_iff : back = [] ↔ ¬startPos < (file.bytes checksum).length := by
  have hpositive := length_le_totalSize (eventLength checksum)
    (eventLength_pos checksum) back
  obtain ⟨hsplit, hpos⟩ := hstart
  rw [length_bytes, hsplit, totalSize_append]
  constructor
  · rintro rfl
    rcases hpos with ⟨-, rfl⟩ | rfl
    · exact absurd hsplit (by simp [tailEvents])
    · simp
  · intro hend
    rw [← length_eq_zero_iff]
    rcases hpos with ⟨rfl, rfl⟩ | rfl
    · rw [entriesPos] at hend
      omega
    · omega

theorem StartsAt.drop_eq :
    (file.bytes checksum).drop (entriesPos checksum file +
      totalSize (eventLength checksum) front) = eventsBytes checksum back := by
  have htail := drop_add_of_drop (drop_formatDescription checksum file)
    (file.formatDescription.length_flushToBuff checksum)
  rw [hstart.1, eventsBytes_append] at htail
  exact drop_add_of_drop htail (length_eventsBytes checksum front)

theorem StartsAt.exists_rotate (hclosed : file.rotate.isSome) (hback : back ≠ []) :
    ∃ event ∈ back, event.kind = .rotate := by
  obtain ⟨rotate, hrotate⟩ := Option.isSome_iff_exists.mp hclosed
  have hlast : back.getLast hback = rotate := by
    have hall : file.tailEvents.getLast? = some rotate := by
      rw [tailEvents, hrotate, Option.toList_some, ← cons_append, getLast?_concat]
    rw [hstart.1, getLast?_append_of_ne_nil _ hback, getLast?_eq_getLast_of_ne_nil hback]
      at hall
    exact Option.some.inj hall
  exact ⟨rotate, hlast ▸ getLast_mem hback, file.rotate_kind rotate hrotate⟩

/-- The loop starts behind the format description event, or at the position. -/
theorem finishBinlog_eq (hsizes : ∀ event ∈ file.events, event.eventLength checksum < 2 ^ 32)
    (rotateFile : Text) (observe : ℕ → Observed) (fuel : ℕ) :
    dumper.finishBinlog nonBlock name (file.bytes checksum) startPos rotateFile observe fuel =
      dumper.sendBinlogLoop nonBlock name (file.bytes checksum) observe fuel 0
        ⟨entriesPos checksum file + totalSize (eventLength checksum) front,
          rotateFile, [packet checksum file.formatDescription]⟩ := by
  have hbound : binlogMagicSize + file.formatDescription.eventLength checksum ≤
      (file.bytes checksum).length := by
    rw [length_bytes, entriesPos]
    omega
  have hsought := @seekEvent_eq dumper checksum (file.bytes checksum) _ file.formatDescription
    binlogMagicSize (file.bytes checksum).length (drop_formatDescription checksum file)
    (hsizes _ mem_cons_self) hbound false
  rw [take_length, skips_formatDescription, if_neg Bool.false_ne_true,
    typeCode_formatDescription] at hsought
  rw [finishBinlog, hsought, ← hstart.max_eq]
  rfl

end StartsAt

end File

/-- Of a closed file the dumper sends everything from the position on and goes on with the
next file, if and only if the position is not already the end of the file or the rotate
event of the file was sent before; otherwise it never comes back. -/
theorem finishBinlog_iff (dumper : BinlogDumper) (checksum : Checksum) (file : BinlogFile)
    (name rotateFile : Text) (startPos : ℕ) (front back : List ObLogEvent) (observe : ℕ → Observed)
    (hsizes : ∀ event ∈ file.events, event.eventLength checksum < 2 ^ 32)
    (hclosed : file.rotate.isSome) (hstart : StartsAt checksum file startPos front back)
    (hobserve : Inactive name (file.bytes checksum).length observe) :
    (∃ fuel state, dumper.finishBinlog false name (file.bytes checksum) startPos rotateFile observe
        fuel = some (.success, state) ∧
      state.sent = (file.formatDescription :: dumper.sentRun checksum false back).map
        (packet checksum) ∧
      (dumper.gtidMod = false →
        state.sent = (file.formatDescription :: back).map (packet checksum))) ↔
      startPos < (file.bytes checksum).length ∨ name = rotateFile := by
  have hsize : entriesPos checksum file + totalSize (eventLength checksum) front +
      totalSize (eventLength checksum) back = (file.bytes checksum).length := by
    rw [length_bytes, hstart.1, totalSize_append, Nat.add_assoc]
  have hself := fun hmod => @sentRun_eq_self dumper checksum back hmod false
  simp only [finishBinlog_eq hstart hsizes]
  by_cases hback : back = []
  · have hend : ¬startPos < (file.bytes checksum).length := hstart.eq_nil_iff.mp hback
    subst hback
    constructor
    · rintro ⟨fuel, state, hfinish, -⟩
      refine Or.inr (by_contra fun hrotate => ?_)
      rw [sendBinlogLoop_stuck hobserve hsize hrotate] at hfinish
      cases hfinish
    · intro hdone
      have hrotate : name = rotateFile := hdone.resolve_left hend
      exact ⟨1, _, sendBinlogLoop_done hobserve hsize hrotate 0 0, rfl, fun _ => rfl⟩
  · refine iff_of_true ⟨2, _, sendBinlogLoop_finishes hobserve hstart.drop_eq ?_ ?_ hsize
      (hstart.exists_rotate hclosed hback), rfl, ?_⟩
      (Or.inl (not_not.mp (mt hstart.eq_nil_iff.mpr hback)))
    · intro event hevent
      refine hsizes event (mem_cons_of_mem _ ?_)
      rw [hstart.1]
      exact mem_append_right _ hevent
    · have hlast := rotateLast_tailEvents file
      rw [hstart.1] at hlast
      exact hlast.suffix
    · intro hmod
      rw [hself hmod]
      rfl

def closedOne : BinlogFile :=
  { fileOne with
    rotate := some (smallEvent [] (.rotate ⟨4, ['2']⟩))
    rotate_kind := by rintro _ ⟨⟩; rfl }

def plainDumper : BinlogDumper :=
  ⟨false, SortedMap.empty⟩

def observedOne : ℕ → Observed :=
  fun _ => ⟨['2'], (closedOne.bytes noChecksum).length, 0⟩

theorem inactive_observedOne : Inactive ['1'] (closedOne.bytes noChecksum).length observedOne :=
  fun _ => ⟨rfl, rfl⟩

theorem eventLength_closedOne :
    ∀ event ∈ closedOne.events, event.eventLength noChecksum < 2 ^ 32 := by
  decide

theorem finishBinlog_iff_closedOne :
    ∃ fuel state, plainDumper.finishBinlog false ['1'] (closedOne.bytes noChecksum) 4 []
        observedOne fuel = some (.success, state) ∧
      state.sent = closedOne.events.map (packet noChecksum) := by
  have hstart : StartsAt noChecksum closedOne 4 [] closedOne.tailEvents :=
    ⟨rfl, Or.inl ⟨rfl, rfl⟩⟩
  obtain ⟨fuel, state, hfinish, -, hsent⟩ := (finishBinlog_iff plainDumper noChecksum closedOne
    ['1'] [] 4 [] closedOne.tailEvents observedOne eventLength_closedOne rfl hstart
    inactive_observedOne).mpr (Or.inl (by decide +kernel))
  exact ⟨fuel, state, hfinish, hsent rfl⟩

/-- A client that starts at the end of the closed file is never taken to the next one. -/
theorem finishBinlog_stuck_at_end :
    StartsAt noChecksum closedOne (closedOne.bytes noChecksum).length closedOne.tailEvents [] ∧
      Inactive ['1'] (closedOne.bytes noChecksum).length observedOne ∧
      ∀ fuel, plainDumper.finishBinlog false ['1'] (closedOne.bytes noChecksum)
        (closedOne.bytes noChecksum).length [] observedOne fuel = none := by
  have hstart : StartsAt noChecksum closedOne (closedOne.bytes noChecksum).length
      closedOne.tailEvents [] :=
    ⟨(append_nil _).symm, Or.inr (length_bytes noChecksum closedOne)⟩
  refine ⟨hstart, inactive_observedOne, fun fuel => ?_⟩
  rw [finishBinlog_eq hstart eventLength_closedOne]
  exact sendBinlogLoop_stuck inactive_observedOne (length_bytes noChecksum closedOne).symm
    (by decide) fuel 0

end BinlogDumper

end OblogProxy.Dump
