import OblogProxy.Core.Loop
import OblogProxy.Event.ControlEvents
import OblogProxy.Recovery.TornFile

/-!
# Scans of a damaged file

`seek_gtid_event`, `seek_and_verify_complete_trx` and `seek_events` go on at the
next position that a header gives, whatever it is.  The first two stop at a header
that is cut off.  `seek_events` reads from a stream that does not report short
reads: it takes what is left in its buffer for the header, and once a read has
failed the buffer does not change any more.
-/

namespace OblogProxy.Recovery

open Bytes Event Gtid Loop OblogEventHeader

/-- What the caller of `seek_gtid_event` gets. -/
structure GtidScan where
  gtidLogEvents : List GtidLogEvent := []
  rotateExisted : Bool := false
  checksumFlag : ℕ := 0
  lastXid : ℕ := 0
  previousGtidMessages : List GtidMessage := []

def visitGtid (file : Bytes) (pos : ℕ) (header : OblogEventHeader) (scan : GtidScan) : GtidScan :=
  match header.typeCode with
  | .xidEvent =>
    match readAt file pos header.eventLength with
    | none => scan
    | some buffer => { scan with lastXid := loadLE (slice buffer 19 8) }
  | .gtidLogEvent =>
    match readAt file pos header.eventLength with
    | none => scan
    | some buffer =>
      { scan with
        gtidLogEvents := scan.gtidLogEvents ++ [GtidLogEvent.deserialize buffer] }
  | .rotateEvent => { scan with rotateExisted := true }
  | .formatDescriptionEvent =>
    match readAt file pos header.eventLength with
    | none => scan
    | some buffer =>
      { scan with checksumFlag := loadLE (slice buffer (76 + logEventTypes) 1) }
  | .previousGtidsLogEvent =>
    match readAt file pos header.eventLength with
    | none => scan
    | some buffer =>
      { scan with
        previousGtidMessages := scan.previousGtidMessages ++
          (PreviousGtidsLogEvent.deserialize buffer).gtidMessages.entries.map Prod.snd }
  | _ => scan

/-- `seek_gtid_event` of a file that can be opened, from its start; `none` is a
failure, of which an endless loop is one. -/
def seekGtidEvent (file : Bytes) (scan : GtidScan) : Option (GtidScan × ℕ) :=
  if slice file 0 binlogMagicSize = binlogMagic then
    scanEvents (visitGtid file) file (file.length + 1) binlogMagicSize scan
  else none

section Headers

variable (file : Bytes)

/-- Where the loop goes on; `none` is the end of the loop. -/
def nextHeader (pos : ℕ) : Option ℕ :=
  if pos < file.length then
    (readAt file pos commonHeaderLength).map fun buff =>
      (deserialize buff).nextPosition
  else none

variable {file}

theorem scanEvents_isSome_iff {State : Type} (visit : ℕ → OblogEventHeader → State → State)
    (fuel pos : ℕ) (state : State) :
    (scanEvents visit file (fuel + 1) pos state).isSome ↔
      EndsWithin (nextHeader file) fuel pos := by
  induction fuel generalizing pos state with
  | zero =>
    rw [scanEvents, EndsWithin, nextHeader]
    split_ifs with hpos
    · cases readAt file pos commonHeaderLength <;> simp [scanEvents]
    · simp
  | succ fuel ih =>
    rw [scanEvents, EndsWithin, nextHeader]
    split_ifs with hpos
    · cases readAt file pos commonHeaderLength with
      | none => simp
      | some buff => simp [ih]
    · simp

/-- The headers are read at positions that move forward. -/
def HeadersAdvance (file : Bytes) : Prop :=
  ∀ pos next, Reaches (nextHeader file) binlogMagicSize pos → nextHeader file pos = some next →
    pos < next

/-- The two functions that read from a `FILE` end within as many iterations as the
file has bytes, and their position never moves backwards. -/
structure HeaderScansBounded (file : Bytes) : Prop where
  seekGtidEvent : ∀ scan,
    (scanEvents (visitGtid file) file file.length binlogMagicSize scan).isSome
  seekAndVerifyCompleteTrx : ∀ checksum scan,
    (scanEvents (visitTrx checksum file) file file.length binlogMagicSize scan).isSome
  forward : ∀ pos next, Reaches (nextHeader file) binlogMagicSize pos →
    nextHeader file pos = some next → pos ≤ next

/-- What every visit keeps that goes forward, a scan keeps. -/
theorem scanEvents_invariant {State : Type} {visit : ℕ → OblogEventHeader → State → State}
    {Inv : State → Prop} (hadvance : HeadersAdvance file)
    (hvisit : ∀ pos buff state, pos < (deserialize buff).nextPosition →
      Inv state → Inv (visit pos (deserialize buff) state))
    {fuel pos stop : ℕ} {state final : State}
    (hpos : Reaches (nextHeader file) binlogMagicSize pos) (hstate : Inv state)
    (hscan : scanEvents visit file fuel pos state = some (final, stop)) : Inv final := by
  induction fuel generalizing pos state with
  | zero => cases hscan
  | succ fuel ih =>
    rw [scanEvents] at hscan
    split_ifs at hscan with hlt
    · cases hread : readAt file pos commonHeaderLength with
      | none =>
        rw [hread] at hscan
        cases hscan
        exact hstate
      | some buff =>
        rw [hread] at hscan
        have hnext : nextHeader file pos =
            some (deserialize buff).nextPosition := by
          rw [nextHeader, if_pos hlt, hread, Option.map_some]
        exact ih (hpos.next hnext)
          (hvisit pos buff state (hadvance pos _ hpos hnext) hstate) hscan
    · cases hscan
      exact hstate

theorem headersAdvance_iff_advances :
    HeadersAdvance file ↔ Advances (nextHeader file) id binlogMagicSize := by
  refine forall₂_congr fun pos next => ?_
  refine forall₂_congr fun _ hnext => ?_
  constructor
  · exact Or.inl
  · rintro (hlt | ⟨heq, hend⟩)
    · exact hlt
    · -- a position that is kept is read again
      change next = pos at heq
      rw [heq, hnext] at hend
      cases hend

theorem length_of_magic (hmagic : slice file 0 binlogMagicSize = binlogMagic) :
    binlogMagicSize ≤ file.length := by
  have hbytes := congrArg List.length hmagic
  rw [slice, List.length_take, List.drop_zero] at hbytes
  simp only [binlogMagicSize, binlogMagic, List.length_cons, List.length_nil] at hbytes ⊢
  omega

theorem headerScansBounded_iff (hmagic : slice file 0 binlogMagicSize = binlogMagic) :
    HeaderScansBounded file ↔ HeadersAdvance file := by
  have hlength := length_of_magic hmagic
  obtain ⟨fuel, hfuel⟩ : ∃ fuel, file.length = fuel + 1 :=
    ⟨file.length - 1, by rw [binlogMagicSize] at hlength; omega⟩
  have hbounded := @bounded_iff_advances _ (nextHeader file) binlogMagicSize id file.length fuel
    (fun pos next hnext => by
      rw [nextHeader] at hnext
      split_ifs at hnext with hpos
      exact hpos) (by
      rintro pos next later hreaches hnext rfl hlater
      obtain rfl := Option.some.inj (hnext.symm.trans hlater)
      exact ⟨rfl, by rw [hlater]; rfl⟩) (by rw [binlogMagicSize, id]; omega)
  rw [headersAdvance_iff_advances, ← hbounded]
  constructor
  · rintro ⟨hgtid, -, hforward⟩
    refine ⟨?_, hforward⟩
    have hends := hgtid {}
    rw [hfuel, scanEvents_isSome_iff] at hends
    exact hends
  · rintro ⟨hends, hforward⟩
    refine ⟨?_, ?_, hforward⟩
    · intro scan
      rw [hfuel, scanEvents_isSome_iff]
      exact hends
    · intro checksum scan
      rw [hfuel, scanEvents_isSome_iff]
      exact hends

end Headers

def enumEndEvent : EventType := .otherEvent 40

def isSought : EventType → Bool
  | .queryEvent | .rotateEvent | .formatDescriptionEvent | .xidEvent | .tableMapEvent
  | .writeRowsEvent | .updateRowsEvent | .partialUpdateRowsEvent | .deleteRowsEvent
  | .gtidLogEvent | .previousGtidsLogEvent => true
  | _ => false

/-- `FsUtil::read_file` from an `ifstream`, with the state of the stream and the
buffer it leaves.  A short read fills the front of the buffer and fails the stream;
a stream that has failed neither seeks nor reads. -/
def readStream (file : Bytes) (failed : Bool) (content : Bytes) (startPos len : ℕ) :
    Bool × Bytes :=
  if failed then (true, content)
  else
    let read := slice file startPos len
    (decide (read.length < len), read ++ content.drop read.length)

/-- The variables of the loop of `seek_events`.  An event is kept with its header
and the bytes that were read of it. -/
structure SeekEvents where
  pos : ℕ := binlogMagicSize
  failed : Bool := false
  buff : Bytes
  logEvents : List (OblogEventHeader × Bytes) := []
  /-- The loop was left by `break`. -/
  broken : Bool := false
deriving DecidableEq

def IsAskedFor (eventType : EventType) (header : OblogEventHeader) : Prop :=
  (eventType = enumEndEvent ∨ header.typeCode = eventType) ∧ isSought header.typeCode

instance (eventType : EventType) (header : OblogEventHeader) :
    Decidable (IsAskedFor eventType header) :=
  inferInstanceAs (Decidable (_ ∧ _))

/-- One iteration of `seek_events`; `none` is the end of the loop. -/
def seekEventsStep (file : Bytes) (eventType : EventType) (single : Bool) (state : SeekEvents) :
    Option SeekEvents :=
  if state.broken then none
  else if state.pos < file.length then
    let read := readStream file state.failed state.buff state.pos commonHeaderLength
    let header := deserialize read.2
    let event := readStream file read.1 [] state.pos header.eventLength
    let logEvents :=
      if IsAskedFor eventType header then state.logEvents ++ [(header, event.2)]
      else state.logEvents
    some
      { pos := header.nextPosition
        failed := event.1
        buff := read.2
        logEvents
        broken := single && !logEvents.isEmpty }
  else none

/-- For all that may be sought, and whatever the buffer holds at first, `seek_events`
ends within as many iterations as the file has bytes, and its position never moves
backwards. -/
def SeekEventsBounded (file : Bytes) : Prop :=
  ∀ eventType single buff,
    Bounded (seekEventsStep file eventType single) SeekEvents.pos file.length { buff }

/-- Every iteration of `seek_events` moves its position forward, unless it is the
last one and keeps it. -/
def SeekEventsAdvance (file : Bytes) : Prop :=
  ∀ eventType single buff,
    Advances (seekEventsStep file eventType single) SeekEvents.pos { buff }

section Stream

variable {file : Bytes} {eventType : EventType} {single : Bool}

theorem readStream_again {failed later : Bool} {content : Bytes} {pos len : ℕ}
    (hlater : (readStream file failed content pos len).1 = true → later = true) :
    (readStream file later (readStream file failed content pos len).2 pos len).2 =
      (readStream file failed content pos len).2 := by
  cases later with
  | true => rfl
  | false =>
    cases failed with
    | true => exact absurd (hlater rfl) Bool.false_ne_true
    | false => simp [readStream]

theorem seekEventsStep_eq_some {state next : SeekEvents}
    (hstep : seekEventsStep file eventType single state = some next) :
    state.broken = false ∧ state.pos < file.length ∧
      next.buff = (readStream file state.failed state.buff state.pos commonHeaderLength).2 ∧
      ((readStream file state.failed state.buff state.pos commonHeaderLength).1 = true →
        next.failed = true) ∧
      next.pos = (deserialize next.buff).nextPosition ∧
      (∃ event, next.logEvents =
        if IsAskedFor eventType (deserialize next.buff) then
          state.logEvents ++ [event]
        else state.logEvents) ∧
      next.broken = (single && !next.logEvents.isEmpty) := by
  rw [seekEventsStep] at hstep
  split_ifs at hstep with hbroken hpos
  obtain rfl := Option.some.inj hstep
  refine ⟨by simpa using hbroken, hpos, rfl, ?_, rfl, ⟨_, rfl⟩, rfl⟩
  intro hfailed
  simp only [hfailed]
  rfl

/-- An iteration that keeps the position is repeated for ever. -/
theorem seekEventsStep_repeats {state next later : SeekEvents}
    (hstep : seekEventsStep file eventType single state = some next) (hsame : next.pos = state.pos)
    (hlater : seekEventsStep file eventType single next = some later) :
    later.pos = next.pos ∧ (seekEventsStep file eventType single later).isSome := by
  obtain ⟨-, -, hbuff, hfailed, hpos, ⟨event, hevents⟩, hbroken⟩ := seekEventsStep_eq_some hstep
  obtain ⟨hgoes, hlt, hbuffLater, -, hposLater, ⟨eventLater, heventsLater⟩, hbrokenLater⟩ :=
    seekEventsStep_eq_some hlater
  have hbuffSame : later.buff = next.buff := by
    rw [hbuffLater, hsame, hbuff]
    exact readStream_again hfailed
  have hposSame : later.pos = next.pos := by
    rw [hposLater, hpos, hbuffSame]
  have hgoesOn : later.broken = false := by
    cases single with
    | false => simpa using hbrokenLater
    | true =>
      -- nothing was found by the first of the two iterations, so nothing by the second
      rw [hgoes] at hbroken
      have hnone : next.logEvents = [] := by simpa using hbroken.symm
      rw [hnone] at hevents heventsLater
      split_ifs at hevents with hasked
      · simp at hevents
      · rw [hbuffSame, if_neg hasked] at heventsLater
        simp [hbrokenLater, heventsLater]
  refine ⟨hposSame, ?_⟩
  rw [seekEventsStep, hgoesOn, if_neg Bool.false_ne_true, if_pos (hposSame ▸ hlt)]
  rfl

theorem seekEventsBounded_iff (hmagic : slice file 0 binlogMagicSize = binlogMagic) :
    SeekEventsBounded file ↔ SeekEventsAdvance file := by
  have hlength := length_of_magic hmagic
  refine forall₃_congr fun eventType single buff => ?_
  apply @bounded_iff_advances _ _ _ _ file.length
  · exact fun state next hstep => (seekEventsStep_eq_some hstep).2.1
  · exact fun state next later _ hstep hsame hlater => seekEventsStep_repeats hstep hsame hlater
  · change file.length + 1 - binlogMagicSize ≤ file.length
    rw [binlogMagicSize]
    omega

end Stream

theorem advances_of_last {State : Type} {step : State → Option State} {position : State → ℕ}
    {start : State}
    (hlast : ∀ next, step start = some next → position start < position next ∧ step next = none) :
    Advances step position start := by
  have hreached : ∀ state, Reaches step start state → state = start ∨ step state = none := by
    intro state hreaches
    induction hreaches with
    | refl => exact Or.inl rfl
    | next _ hstep ih =>
      rcases ih with rfl | hnone
      · exact Or.inr (hlast _ hstep).2
      · rw [hnone] at hstep
        cases hstep
  intro state next hreaches hstep
  rcases hreached state hreaches with rfl | hnone
  · exact Or.inl (hlast next hstep).1
  · rw [hnone] at hstep
    cases hstep

def formatDescriptionFile : Bytes :=
  binlogMagic ++ sampleFormatDescription.flushToBuff zeroChecksum

def circularFile : Bytes :=
  binlogMagic ++ (⟨0, .xidEvent, 1, 19, 4, 0⟩ : OblogEventHeader).flushToBuff

def tornFile : Bytes :=
  binlogMagic ++ eventsBytes zeroChecksum [sampleFormatDescription, samplePreviousGtids] ++ [0]

def tornState : SeekEvents :=
  { pos := 155, buff := (samplePreviousGtids.header zeroChecksum).flushToBuff }

theorem reaches_tornState :
    Reaches (seekEventsStep tornFile .xidEvent false) { buff := List.replicate 19 0 }
      tornState := by
  have hfirst : seekEventsStep tornFile .xidEvent false { buff := List.replicate 19 0 } =
      some { pos := 124, buff := (sampleFormatDescription.header zeroChecksum).flushToBuff } := by
    decide +kernel
  have hsecond : seekEventsStep tornFile .xidEvent false
      { pos := 124, buff := (sampleFormatDescription.header zeroChecksum).flushToBuff } =
        some tornState := by
    decide +kernel
  exact (Reaches.refl.next hfirst).next hsecond

end OblogProxy.Recovery
