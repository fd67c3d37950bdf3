import OblogProxy.Storage.Segments

/-!
# The layout of the binlog files

The files that an instance writes: each starts with its header, holds its
events in order, and ends, once it is closed, with the rotate event that names
the next file.  `Ready` relates the storage, the disk and the index to such a
list of files between two events.
-/

namespace OblogProxy.Storage

open Bytes Event Gtid List Disk

theorem isOwnMessage_of_uuid {serverUuid : Text} (hvalid : ValidUuid serverUuid)
    {message : GtidMessage} (huuid : message.gtidUuid = some (readUuid serverUuid)) :
    isOwnMessage serverUuid message = true := by
  rw [isOwnMessage, huuid]
  simp [sameIgnoringCase, printed_readUuid hvalid, Char.toLower_toLower_eq_toLower]

theorem distinctUuids_mergeGtidBefore {serverUuid : Text} (hvalid : ValidUuid serverUuid)
    {messages : List GtidMessage} (hdistinct : DistinctUuids messages) (gtidRange : TxnRange) :
    DistinctUuids (mergeGtidBefore serverUuid messages gtidRange) := by
  obtain ⟨huuid, hnodup⟩ := hdistinct
  obtain ⟨hread, hlength⟩ := uuidStrToHexBin_eq hvalid
  rw [mergeGtidBefore]
  split_ifs with hown hrange
  · constructor
    · intro message hmessage
      obtain ⟨original, horiginal, rfl⟩ := mem_map.mp hmessage
      split_ifs
      · exact huuid original horiginal
      · exact huuid original horiginal
    · rw [map_map]
      have hsame : messages.map (GtidMessage.gtidUuid ∘ fun message =>
          if isOwnMessage serverUuid message = true then extendTxnRange message gtidRange
          else message) = messages.map GtidMessage.gtidUuid := by
        apply map_congr_left
        intro message _
        dsimp only [Function.comp]
        split_ifs <;> rfl
      rw [hsame]
      exact hnodup
  · constructor
    · intro message hmessage
      rcases mem_append.mp hmessage with hmessage | hmessage
      · exact huuid message hmessage
      · rw [mem_singleton.mp hmessage]
        exact ⟨readUuid serverUuid, hread, hlength⟩
    · rw [map_append, nodup_append]
      refine ⟨hnodup, nodup_singleton _, ?_⟩
      intro left hleft right hright heq
      obtain ⟨message, hmessage, rfl⟩ := mem_map.mp hleft
      rw [map_singleton, mem_singleton] at hright
      apply hown
      rw [any_eq_true]
      exact ⟨message, hmessage, isOwnMessage_of_uuid hvalid (heq.trans (hright.trans hread))⟩
  · exact ⟨huuid, hnodup⟩

structure LogFile where
  index : ℕ
  timestamp : ℕ
  previousGtids : List GtidMessage
  events : List ObLogEvent := []
  rotate : Option ObLogEvent := none

open LogFile

namespace LogFile

variable (config : Config) (file : LogFile)

/-- The flag of a file that is in use is cleared when the file is closed. -/
def formatDescription : ObLogEvent :=
  { newFormatDescriptionEvent config.checksum config.serverId file.timestamp with
    flags := if file.rotate.isSome then 0 else 1 }

def header : List ObLogEvent :=
  [file.formatDescription config,
    newPreviousGtidsLogEvent config.checksum config.serverId file.timestamp file.previousGtids]

def allEvents : List ObLogEvent :=
  file.header config ++ (file.events ++ file.rotate.toList)

def bytes : Bytes :=
  binlogMagic ++ eventsBytes config.checksum (file.allEvents config)

/-- Every event of the file ends where its next position says. -/
structure Laid : Prop where
  uuids : DistinctUuids file.previousGtids
  placed : Placed config.checksum binlogMagicSize (file.allEvents config)

theorem length_bytes : (file.bytes config).length =
    binlogMagicSize + Tail.totalSize (ObLogEvent.eventLength config.checksum)
      (file.allEvents config) := by
  rw [bytes, length_append, length_eventsBytes]
  rfl

end LogFile

/-- The files since some point, the last of them in use. -/
structure Layout where
  closed : List LogFile := []
  current : LogFile

namespace Layout

variable (layout : Layout)

def files : List LogFile :=
  layout.closed ++ [layout.current]

def events : List ObLogEvent :=
  layout.files.flatMap LogFile.events

def append (event : ObLogEvent) : Layout :=
  { layout with current := { layout.current with events := layout.current.events ++ [event] } }

def rotate (rotate : PendingRotate) : Layout :=
  { closed := layout.closed ++ [{ layout.current with rotate := some rotate.event }]
    current :=
      { index := rotate.index
        timestamp := rotate.event.timestamp
        previousGtids := rotate.nextPreviousGtids } }

@[simp]
theorem events_append (event : ObLogEvent) :
    (layout.append event).events = layout.events ++ [event] := by
  simp [events, files, append]

@[simp]
theorem events_rotate (rotate : PendingRotate) :
    (layout.rotate rotate).events = layout.events := by
  simp [events, files, Layout.rotate]

end Layout

/-- The storage, the disk and the index agree with the files. -/
structure Ready (config : Config) (storage : BinlogStorage) (files : Files) (layout : Layout) :
    Prop where
  fileName : files.fileName = config.names.path layout.current.index
  fileIndex : storage.binlogFileIndex = layout.current.index
  recordFile : storage.indexRecord.fileName = config.names.path layout.current.index
  recordIndex : storage.indexRecord.index = layout.current.index
  curPos : storage.curPos = (layout.current.bytes config).length
  chain : layout.files.IsChain fun file next => next.index = file.index + 1
  before : ∀ file ∈ layout.closed, file.index < layout.current.index
  laid : ∀ file ∈ layout.files, file.Laid config
  rotates : ∀ file ∈ layout.closed, ∃ rotate, file.rotate = some rotate ∧
    rotate.body = .rotate ⟨binlogMagicSize, config.names.fillBinlogFileName (file.index + 1)⟩
  unrotated : layout.current.rotate = none
  onDisk : ∀ file ∈ layout.files,
    files.disk (config.names.path file.index) = some (file.bytes config)
  fresh : ∀ index, layout.current.index < index → files.disk (config.names.path index) = none
  uuids : DistinctUuids storage.previousGtidMessages
  indexed : ∃ older, files.index.map BinlogIndexRecord.fileName =
    older ++ layout.files.map fun file => config.names.path file.index

def gtidMapping (event : ObLogEvent) : Option Mapping :=
  match event.body with
  | .gtid gtid => some (event.obTxn, gtid.gtidTxnId)
  | _ => none

/-- The index record carries the mapping of the last gtid event. -/
def Mapped (storage : BinlogStorage) (layout : Layout) : Prop :=
  ∀ mapping ∈ (layout.events.filterMap gtidMapping).getLast?,
    storage.indexRecord.currentMapping = mapping

/-- The last line of the index is the index record, at the end of the file. -/
def Indexed (config : Config) (storage : BinlogStorage) (files : Files) (layout : Layout) : Prop :=
  files.index.getLatestIndex =
    { storage.indexRecord with position := (layout.current.bytes config).length }

/-- The event ends a transaction beyond `max_binlog_size`. -/
def closes (config : Config) (event : ObLogEvent) : Bool :=
  mayRotate event && decide (config.maxBinlogSize < event.nextPosition)

/-- A file is closed behind the first event that ends a transaction beyond
`max_binlog_size`, and behind no other. -/
structure BySize (config : Config) (layout : Layout) : Prop where
  closed : ∀ file ∈ layout.closed, ∃ front last, file.events = front ++ [last] ∧
    closes config last = true ∧ ∀ event ∈ front, closes config event = false
  current : ∀ event ∈ layout.current.events, closes config event = false

section Append

variable {config : Config} {storage : BinlogStorage} {files : Files} {layout : Layout}

theorem LogFile.bytes_append (file : LogFile) (hopen : file.rotate = none) (event : ObLogEvent) :
    ({ file with events := file.events ++ [event] } : LogFile).bytes config =
      file.bytes config ++ event.flushToBuff config.checksum := by
  simp [bytes, allEvents, header, formatDescription, hopen]

theorem LogFile.Laid.append {file : LogFile} (hlaid : file.Laid config)
    (hopen : file.rotate = none) {event : ObLogEvent}
    (hnext : event.nextPosition = (file.bytes config).length + event.eventLength config.checksum)
    (hbound : event.nextPosition < 2 ^ 32) :
    ({ file with events := file.events ++ [event] } : LogFile).Laid config := by
  refine ⟨hlaid.uuids, ?_⟩
  have hevents : ({ file with events := file.events ++ [event] } : LogFile).allEvents config =
      file.allEvents config ++ [event] := by
    simp [allEvents, header, formatDescription, hopen]
  rw [hevents, placed_append]
  refine ⟨hlaid.placed, ⟨?_, hbound⟩, trivial⟩
  rw [hnext, length_bytes]

theorem Ready.indexed_update (hready : Ready config storage files layout)
    (record : BinlogIndexRecord)
    (hrecord : record.fileName = config.names.path layout.current.index) :
    ∃ older, (files.index.updateIndex record).map BinlogIndexRecord.fileName =
      older ++ layout.files.map fun file => config.names.path file.index := by
  obtain ⟨older, holder⟩ := hready.indexed
  refine ⟨older, ?_⟩
  rw [Layout.files, map_append, map_singleton, ← append_assoc] at holder ⊢
  have hfront := congrArg dropLast holder
  rw [← map_dropLast, dropLast_concat] at hfront
  rw [BinlogIndex.updateIndex, map_append, hfront, map_singleton, hrecord]

theorem Ready.append (hready : Ready config storage files layout) (event : ObLogEvent)
    (hnext : event.nextPosition = storage.curPos + event.eventLength config.checksum)
    (hbound : event.nextPosition < 2 ^ 32) {record : BinlogIndexRecord}
    (hrecord : record.fileName = config.names.path layout.current.index) :
    Ready config { storage with curPos := event.nextPosition }
      (files.persistentBinlog (event.flushToBuff config.checksum) record) (layout.append event) := by
  have hlast : layout.current ∈ layout.files := mem_append_right _ mem_cons_self
  have hcontent : files.disk.content files.fileName = layout.current.bytes config := by
    rw [content, hready.fileName, hready.onDisk _ hlast, Option.getD_some]
  have hdisk : (files.persistentBinlog (event.flushToBuff config.checksum) record).disk =
      files.disk.write (config.names.path layout.current.index)
        ((layout.append event).current.bytes config) := by
    rw [Layout.append, layout.current.bytes_append hready.unrotated, ← hcontent, ← hready.fileName]
    rfl
  have hother : ∀ index ≠ layout.current.index,
      (files.persistentBinlog (event.flushToBuff config.checksum) record).disk
        (config.names.path index) = files.disk (config.names.path index) := by
    intro index hindex
    rw [hdisk, write_of_ne _ _ (config.names.path_injective.ne hindex)]
  constructor
  case fileName => exact hready.fileName
  case fileIndex => exact hready.fileIndex
  case recordFile => exact hready.recordFile
  case recordIndex => exact hready.recordIndex
  case curPos =>
    rw [Layout.append, layout.current.bytes_append hready.unrotated, length_append,
      ObLogEvent.length_flushToBuff, ← hready.curPos, hnext]
  case chain =>
    have hchain := hready.chain
    rw [Layout.files, isChain_append] at hchain
    rw [Layout.files, Layout.append, isChain_append]
    exact ⟨hchain.1, isChain_singleton _, by simpa using hchain.2.2⟩
  case before => exact hready.before
  case laid =>
    intro file hfile
    rcases mem_append.mp hfile with hfile | hfile
    · exact hready.laid file (mem_append_left _ hfile)
    · rw [mem_singleton.mp hfile]
      exact (hready.laid _ hlast).append hready.unrotated (hready.curPos ▸ hnext) hbound
  case rotates => exact hready.rotates
  case unrotated => exact hready.unrotated
  case onDisk =>
    intro file hfile
    rcases mem_append.mp hfile with hfile | hfile
    · rw [hother _ (hready.before file hfile).ne]
      exact hready.onDisk file (mem_append_left _ hfile)
    · rw [mem_singleton.mp hfile, hdisk]
      exact write_self _ _ _
  case fresh =>
    intro index hindex
    rw [hother index (Nat.ne_of_gt hindex)]
    exact hready.fresh index hindex
  case uuids => exact hready.uuids
  case indexed =>
    have hfiles : ((layout.append event).files.map fun file => config.names.path file.index) =
        layout.files.map fun file => config.names.path file.index := by
      simp [Layout.files, Layout.append]
    rw [hfiles]
    exact hready.indexed_update _ hrecord

theorem LogFile.bytes_close (file : LogFile) (hopen : file.rotate = none) (rotate : ObLogEvent) :
    overwrite (file.bytes config ++ rotate.flushToBuff config.checksum)
        (binlogMagicSize + flagsOffset) (storeLE flagsLen 0) =
      ({ file with rotate := some rotate } : LogFile).bytes config := by
  obtain ⟨front, back, hfront, hused, hclosed⟩ := exists_flags_split config.checksum
    (show (newFormatDescriptionEvent config.checksum config.serverId file.timestamp).body =
      .formatDescription file.timestamp from rfl)
  have hlength : (binlogMagic ++ front).length = binlogMagicSize + flagsOffset := by
    rw [length_append, hfront]
    rfl
  have hflags := @overwrite_append (binlogMagic ++ front) (storeLE flagsLen 1) (storeLE flagsLen 0)
    (back ++ (eventsBytes config.checksum (newPreviousGtidsLogEvent config.checksum config.serverId
      file.timestamp file.previousGtids :: file.events) ++ rotate.flushToBuff config.checksum))
    (by simp)
  rw [hlength] at hflags
  simp only [bytes, allEvents, header, formatDescription, hopen,
    cons_append, nil_append, eventsBytes_cons, eventsBytes_append, append_assoc,
    Option.toList_none, Option.toList_some, eventsBytes_nil, Option.isSome_none,
    Option.isSome_some, Bool.false_eq_true, if_false, if_true, hused, hclosed] at hflags ⊢
  simpa using hflags

theorem LogFile.Laid.close {file : LogFile} (hlaid : file.Laid config)
    (hopen : file.rotate = none) {event : ObLogEvent}
    (hnext : event.nextPosition = (file.bytes config).length + event.eventLength config.checksum)
    (hbound : event.nextPosition < 2 ^ 32) :
    ({ file with rotate := some event } : LogFile).Laid config := by
  refine ⟨hlaid.uuids, ?_⟩
  obtain ⟨hformat, hrest⟩ := hlaid.placed
  have hlength := file.length_bytes config
  rw [hopen, Option.toList_none, append_nil] at hrest
  rw [allEvents, hopen, Option.toList_none, append_nil, header,
    cons_append, Tail.totalSize_cons] at hlength
  refine ⟨hformat, ?_⟩
  change Placed _ (binlogMagicSize + (file.formatDescription config).eventLength config.checksum)
    ((newPreviousGtidsLogEvent config.checksum config.serverId file.timestamp
      file.previousGtids :: file.events) ++ [event])
  rw [placed_append]
  refine ⟨hrest, ⟨?_, hbound⟩, trivial⟩
  rw [hnext, hlength]
  simp [Nat.add_assoc]

theorem LogFile.laid_new (index timestamp : ℕ) {previousGtids : List GtidMessage}
    (huuids : DistinctUuids previousGtids)
    (hfits : 147 + 2 * config.checksum.len + (previousGtids.map gtidLength).sum < 2 ^ 32) :
    ({ index, timestamp, previousGtids } : LogFile).Laid config := by
  have hformat := eventLength_newFormatDescriptionEvent config.checksum config.serverId timestamp
  have hprevious :=
    eventLength_newPreviousGtidsLogEvent config.checksum config.serverId timestamp huuids
  have hformatNext :
      (newFormatDescriptionEvent config.checksum config.serverId timestamp).nextPosition =
        120 + config.checksum.len := by
    change binlogMagicSize + (newFormatDescriptionEvent config.checksum config.serverId
      timestamp).eventLength config.checksum = _
    rw [hformat, binlogMagicSize]
    omega
  have hpreviousNext : (newPreviousGtidsLogEvent config.checksum config.serverId timestamp
      previousGtids).nextPosition =
        147 + 2 * config.checksum.len + (previousGtids.map gtidLength).sum := by
    change (_ + (newPreviousGtidsLogEvent config.checksum config.serverId timestamp
      previousGtids).eventLength config.checksum) % 2 ^ 32 = _
    omega
  refine ⟨huuids, ⟨?_, ?_⟩, ⟨?_, ?_⟩, trivial⟩
  · exact rfl
  · change (newFormatDescriptionEvent config.checksum config.serverId timestamp).nextPosition < _
    omega
  · change _ = binlogMagicSize + (newFormatDescriptionEvent config.checksum config.serverId
      timestamp).eventLength config.checksum + _
    rw [hpreviousNext, hprevious, hformat, binlogMagicSize]
    omega
  · rw [hpreviousNext]
    exact hfits

/-- What a rotation writes: the closed file, the header of the next one, and
two lines of the index. -/
structure Rotated (config : Config) (files after : Files) (layout : Layout)
    (rotate : PendingRotate) : Prop where
  disk : after.disk = (files.disk.write (config.names.path layout.current.index)
      (({ layout.current with rotate := some rotate.event } : LogFile).bytes config)).write
    (config.names.path rotate.index) (headerBytes config.checksum config.serverId
      rotate.event.timestamp rotate.nextPreviousGtids)
  fileName : after.fileName = config.names.path rotate.index
  index : ∃ closing opening, after.index = (files.index.updateIndex closing).addIndex opening ∧
    closing.fileName = config.names.path layout.current.index ∧
    opening.fileName = config.names.path rotate.index

/-- The rotate event names the next file and stands at the end of the current one. -/
structure ToNext (config : Config) (storage : BinlogStorage) (rotate : PendingRotate) :
    Prop where
  index : rotate.index = storage.binlogFileIndex + 1
  name : rotate.nextBinlogFileName = config.names.fillBinlogFileName rotate.index
  body : rotate.event.body = .rotate ⟨binlogMagicSize, rotate.nextBinlogFileName⟩
  next : rotate.event.nextPosition = storage.curPos + rotate.event.eventLength config.checksum
  bound : rotate.event.nextPosition < 2 ^ 32
  uuids : DistinctUuids rotate.nextPreviousGtids
  header : 147 + 2 * config.checksum.len + (rotate.nextPreviousGtids.map gtidLength).sum < 2 ^ 32

/-- The storage stands behind the header of the file that a rotation has opened. -/
structure AtStart (config : Config) (storage : BinlogStorage) (rotate : PendingRotate) : Prop where
  fileIndex : storage.binlogFileIndex = rotate.index
  recordFile : storage.indexRecord.fileName = config.names.path rotate.index
  recordIndex : storage.indexRecord.index = rotate.index
  curPos : storage.curPos =
    147 + 2 * config.checksum.len + (rotate.nextPreviousGtids.map gtidLength).sum
  uuids : DistinctUuids storage.previousGtidMessages

theorem Ready.rotate (hready : Ready config storage files layout) {rotate : PendingRotate}
    (hnext : ToNext config storage rotate) {after : Files}
    (hrotated : Rotated config files after layout rotate) {stored : BinlogStorage}
    (hstored : AtStart config stored rotate) : Ready config stored after (layout.rotate rotate) := by
  have hlast : layout.current ∈ layout.files := mem_append_right _ mem_cons_self
  have hindex : rotate.index = layout.current.index + 1 := by
    rw [hnext.index, hready.fileIndex]
  have hne : layout.current.index ≠ rotate.index := by omega
  have hother : ∀ index, index ≠ layout.current.index → index ≠ rotate.index →
      after.disk (config.names.path index) = files.disk (config.names.path index) := by
    intro index hcurrent hnew
    rw [hrotated.disk, write_of_ne _ _ (config.names.path_injective.ne hnew),
      write_of_ne _ _ (config.names.path_injective.ne hcurrent)]
  have hclosed := (hready.laid _ hlast).close hready.unrotated (hready.curPos ▸ hnext.next)
    hnext.bound
  constructor
  case fileName => exact hrotated.fileName
  case fileIndex => exact hstored.fileIndex
  case recordFile => exact hstored.recordFile
  case recordIndex => exact hstored.recordIndex
  case curPos =>
    rw [hstored.curPos]
    exact (length_headerBytes config.checksum config.serverId rotate.event.timestamp
      hnext.uuids).symm
  case chain =>
    have hchain := hready.chain
    rw [Layout.files, isChain_append] at hchain
    rw [Layout.files, Layout.rotate, isChain_append, isChain_append]
    refine ⟨⟨hchain.1, isChain_singleton _, by simpa using hchain.2.2⟩, isChain_singleton _, ?_⟩
    simpa using hindex
  case before =>
    intro file hfile
    rcases mem_append.mp hfile with hfile | hfile
    · exact (hready.before file hfile).trans (by rw [Layout.rotate]; dsimp only; omega)
    · rw [mem_singleton.mp hfile, Layout.rotate]
      dsimp only
      omega
  case laid =>
    intro file hfile
    rcases mem_append.mp hfile with hfile | hfile
    · rcases mem_append.mp hfile with hfile | hfile
      · exact hready.laid file (mem_append_left _ hfile)
      · rw [mem_singleton.mp hfile]
        exact hclosed
    · rw [mem_singleton.mp hfile]
      exact laid_new _ _ hnext.uuids hnext.header
  case rotates =>
    intro file hfile
    rcases mem_append.mp hfile with hfile | hfile
    · exact hready.rotates file hfile
    · rw [mem_singleton.mp hfile]
      refine ⟨rotate.event, rfl, ?_⟩
      rw [hnext.body, hnext.name, hindex]
  case unrotated => rfl
  case onDisk =>
    intro file hfile
    rcases mem_append.mp hfile with hfile | hfile
    · rcases mem_append.mp hfile with hfile | hfile
      · have hearlier := hready.before file hfile
        rw [hother _ (by omega) (by omega)]
        exact hready.onDisk file (mem_append_left _ hfile)
      · rw [mem_singleton.mp hfile, hrotated.disk,
          write_of_ne _ _ (config.names.path_injective.ne hne), write_self]
    · rw [mem_singleton.mp hfile, hrotated.disk]
      exact write_self _ _ _
  case fresh =>
    intro index hfresh
    have hlater : rotate.index < index := hfresh
    rw [hother index (by omega) (by omega)]
    exact hready.fresh index (by omega)
  case uuids => exact hstored.uuids
  case indexed =>
    obtain ⟨closing, opening, hafter, hclosing, hopening⟩ := hrotated.index
    obtain ⟨older, holder⟩ := hready.indexed_update closing hclosing
    rw [hafter, BinlogIndex.addIndex, map_append, holder, map_singleton, hopening]
    simp [Layout.files, Layout.rotate]

theorem ready_new {rotate : PendingRotate} (huuids : DistinctUuids rotate.nextPreviousGtids)
    (hheader : 147 + 2 * config.checksum.len +
      (rotate.nextPreviousGtids.map gtidLength).sum < 2 ^ 32)
    (hstart : AtStart config storage rotate)
    (hdisk : files.disk (config.names.path rotate.index) = some (headerBytes config.checksum
      config.serverId rotate.event.timestamp rotate.nextPreviousGtids))
    (hfresh : ∀ index, rotate.index < index → files.disk (config.names.path index) = none)
    (hfileName : files.fileName = config.names.path rotate.index)
    (hindexed : ∃ older, files.index.map BinlogIndexRecord.fileName =
      older ++ [config.names.path rotate.index]) :
    Ready config storage files
      { current :=
          { index := rotate.index
            timestamp := rotate.event.timestamp
            previousGtids := rotate.nextPreviousGtids } } := by
  constructor
  case fileName => exact hfileName
  case fileIndex => exact hstart.fileIndex
  case recordFile => exact hstart.recordFile
  case recordIndex => exact hstart.recordIndex
  case curPos =>
    rw [hstart.curPos]
    exact (length_headerBytes config.checksum config.serverId rotate.event.timestamp huuids).symm
  case chain => exact isChain_singleton _
  case before => simp
  case laid =>
    intro file hfile
    rw [mem_singleton.mp hfile]
    exact laid_new _ _ huuids hheader
  case rotates => simp
  case unrotated => rfl
  case onDisk =>
    intro file hfile
    rw [mem_singleton.mp hfile]
    exact hdisk
  case fresh => exact hfresh
  case uuids => exact hstart.uuids
  case indexed => exact hindexed

theorem Checksum.len_of_enabled {checksum : Checksum} (henabled : checksum.enabled = true) :
    checksum.len = 4 := by
  rw [Checksum.len, if_pos henabled]

/-- `init_next_binlog_file` behind the rotate event. -/
theorem rotated_initNextBinlogFile (hready : Ready config storage files layout)
    {rotate : PendingRotate} (hnext : ToNext config storage rotate) {record : BinlogIndexRecord}
    (hrecord : record.fileName = config.names.path layout.current.index) :
    Rotated config files ((files.persistentBinlog (rotate.event.flushToBuff config.checksum)
      record).initNextBinlogFile config rotate record) layout rotate := by
  have hlast : layout.current ∈ layout.files := mem_append_right _ mem_cons_self
  have hlater : rotate.index = layout.current.index + 1 := by
    rw [hnext.index, hready.fileIndex]
  have hindex : rotate.index - 1 = layout.current.index := by omega
  have hcontent : files.disk.content (config.names.path layout.current.index) =
      layout.current.bytes config := by
    rw [content, hready.onDisk _ hlast, Option.getD_some]
  have hpath : dataPath rotate.nextBinlogFileName = config.names.path rotate.index := by
    rw [hnext.name, FileNames.path]
  have hne : config.names.path rotate.index ≠ config.names.path layout.current.index :=
    config.names.path_injective.ne (by omega)
  have hempty : files.disk.content (config.names.path rotate.index) = [] := by
    rw [content, hready.fresh _ (by omega), Option.getD_none]
  refine ⟨?_, hpath, ?_⟩
  · simp [Files.initNextBinlogFile, Files.addNextBinlogIndex, Files.persistentBinlog,
      rewrite, appendFile, hpath, hindex, hready.fileName, hcontent,
      content_write_of_ne _ _ hne, hempty, layout.current.bytes_close hready.unrotated]
  · refine ⟨_, _, rfl, hrecord, hpath⟩

theorem toNext_pendingRotate (hvalid : ValidUuid config.masterServerUuid)
    (hready : Ready config storage files layout)
    (hend : storage.curPos + (pendingRotate config storage).event.eventLength config.checksum <
      2 ^ 32)
    (hheader : 147 + 2 * config.checksum.len +
      ((pendingRotate config storage).nextPreviousGtids.map gtidLength).sum < 2 ^ 32) :
    ToNext config storage (pendingRotate config storage) := by
  have hposition : (pendingRotate config storage).event.nextPosition =
      storage.curPos + (pendingRotate config storage).event.eventLength config.checksum :=
    Nat.mod_eq_of_lt hend
  exact ⟨rfl, rfl, rfl, hposition, hposition ▸ hend,
    distinctUuids_mergeGtidBefore hvalid hready.uuids _, hheader⟩

theorem startPos_eq (henabled : config.checksum.enabled = true) {messages : List GtidMessage}
    (hheader : 147 + 2 * config.checksum.len + (messages.map gtidLength).sum < 2 ^ 32) :
    startPos config messages =
      147 + 2 * config.checksum.len + (messages.map gtidLength).sum := by
  rw [Checksum.len_of_enabled henabled] at hheader ⊢
  rw [startPos, Checksum.len_of_enabled henabled, binlogStartFixedPos, Nat.mod_eq_of_lt (by omega)]

end Append

section StoreEvent

variable {config : Config} {storage admitted : BinlogStorage} {files : Files} {layout : Layout}
  {event stamped : ObLogEvent}

variable {other : BinlogStorage}

theorem Ready.of_same (hready : Ready config storage files layout)
    (hindex : other.binlogFileIndex = storage.binlogFileIndex)
    (hrecordFile : other.indexRecord.fileName = storage.indexRecord.fileName)
    (hrecordIndex : other.indexRecord.index = storage.indexRecord.index)
    (hpos : other.curPos = storage.curPos)
    (hmessages : other.previousGtidMessages = storage.previousGtidMessages) :
    Ready config other files layout :=
  { hready with
    fileIndex := hindex.trans hready.fileIndex
    recordFile := hrecordFile.trans hready.recordFile
    recordIndex := hrecordIndex.trans hready.recordIndex
    curPos := hpos.trans hready.curPos
    uuids := hmessages ▸ hready.uuids }

theorem Ready.admitEvent (hready : Ready config storage files layout) (event : ObLogEvent) :
    Ready config (admitEvent config storage event).1 files layout := by
  rcases admitEvent_cases config storage event with
    ⟨-, _, _, _, _, hcase⟩ | ⟨_, _, _, -, -, hcase⟩ | ⟨-, -, _, hcase⟩
  all_goals
    rw [hcase]
    exact hready.of_same rfl rfl rfl rfl rfl

theorem Mapped.append_other (hmapped : Mapped storage layout)
    (hrecord : other.indexRecord.currentMapping = storage.indexRecord.currentMapping)
    (hevent : gtidMapping event = none) : Mapped other (layout.append event) := by
  rw [Mapped, Layout.events_append, filterMap_append, hrecord,
    filterMap_cons_none hevent, filterMap_nil, append_nil]
  exact hmapped

theorem mapped_append_gtid {mapping : Mapping} (hevent : gtidMapping event = some mapping)
    (hrecord : storage.indexRecord.currentMapping = mapping) :
    Mapped storage (layout.append event) := by
  rw [Mapped, Layout.events_append, filterMap_append]
  simpa [hevent] using hrecord

theorem Mapped.rotate (hmapped : Mapped storage layout)
    (hrecord : other.indexRecord.currentMapping = storage.indexRecord.currentMapping)
    (rotate : PendingRotate) : Mapped other (layout.rotate rotate) := by
  rw [Mapped, Layout.events_rotate, hrecord]
  exact hmapped

theorem BySize.append (hsize : BySize config layout) (hevent : closes config event = false) :
    BySize config (layout.append event) := by
  refine ⟨hsize.closed, ?_⟩
  intro other hother
  rcases mem_append.mp hother with hother | hother
  · exact hsize.current other hother
  · rw [mem_singleton.mp hother]
    exact hevent

theorem BySize.append_rotate (hsize : BySize config layout) (hevent : closes config event = true)
    (rotate : PendingRotate) : BySize config ((layout.append event).rotate rotate) := by
  refine ⟨?_, by simp [Layout.rotate]⟩
  intro file hfile
  rcases mem_append.mp hfile with hfile | hfile
  · exact hsize.closed file hfile
  · rw [mem_singleton.mp hfile]
    exact ⟨layout.current.events, event, rfl, hevent, hsize.current⟩

/-- The mappings and the rotation of an event that is kept. -/
theorem admitEvent_kept {isRotate : Bool}
    (hentry : admitEvent config storage event = (admitted, stamped, some isRotate)) :
    (gtidMapping stamped = some admitted.indexRecord.currentMapping ∨
      (gtidMapping stamped = none ∧
        admitted.indexRecord.currentMapping = storage.indexRecord.currentMapping)) ∧
    isRotate = closes config (placedEvent config admitted stamped) := by
  obtain ⟨hpos, hlength, -⟩ := admitEvent_same config storage event
  rw [hentry] at hpos hlength
  have hexceeds : exceedsMaxBinlogSize config storage event =
      decide (config.maxBinlogSize < positionBehind config admitted stamped) := by
    rw [exceedsMaxBinlogSize, positionBehind, hpos, hlength]
  have hmay : ∀ number xid, mayRotate { event with body := numbered number xid event.body } =
      mayRotate event := by
    intro number xid
    rw [mayRotate, mayRotate]
    cases event.body <;> rfl
  rcases admitEvent_cases config storage event with
    ⟨-, _, _, _, _, hcase⟩ | ⟨gtid, _, _, hbody, -, hcase⟩ | ⟨hkind, -, _, hcase⟩
  · simp [hcase] at hentry
  · rw [hcase, Prod.mk.injEq, Prod.mk.injEq] at hentry
    obtain ⟨rfl, rfl, hrotate⟩ := hentry
    refine ⟨Or.inl ?_, ?_⟩
    · simp [gtidMapping, hbody, numbered, acceptGtid]
    · rw [← Option.some.inj hrotate]
      simp [closes, placedEvent, mayRotate, hbody, numbered]
  · rw [hcase, Prod.mk.injEq, Prod.mk.injEq] at hentry
    obtain ⟨rfl, rfl, hrotate⟩ := hentry
    refine ⟨Or.inr ⟨?_, rfl⟩, ?_⟩
    · rw [gtidMapping]
      cases hbody : event.body with
      | gtid gtid => exact absurd (ObLogEvent.kind_eq_gtid.mpr ⟨gtid, hbody⟩) hkind
      | _ => simp [numbered]
    · rw [← Option.some.inj hrotate, hexceeds, closes]
      congr 1
      exact (hmay _ _).symm

theorem Ready.fileSize (hready : Ready config storage files layout) :
    files.disk.fileSize files.fileName = (layout.current.bytes config).length := by
  rw [Disk.fileSize, Disk.content, hready.fileName,
    hready.onDisk _ (mem_append_right _ mem_cons_self), Option.getD_some]

section Fits

variable (hready : Ready config storage files layout) (hfits : EventFits config storage event)

include hready hfits

theorem ready_placed {isRotate : Bool}
    (hentry : admitEvent config storage event = (admitted, stamped, some isRotate)) :
    Ready config (placed config admitted stamped)
      (files.persistentBinlog ((placedEvent config admitted stamped).flushToBuff config.checksum)
        admitted.indexRecord) (layout.append (placedEvent config admitted stamped)) := by
  obtain ⟨hpos, hlength, -⟩ := admitEvent_same config storage event
  have hreadyAdmitted := hready.admitEvent event
  rw [hentry] at hpos hlength hreadyAdmitted
  have hbehind : positionBehind config admitted stamped =
      admitted.curPos + stamped.eventLength config.checksum := by
    rw [hfits.positionBehind_eq hentry, hpos, hlength]
  exact hreadyAdmitted.append (placedEvent config admitted stamped) hbehind
    (Nat.mod_lt _ (by decide)) hreadyAdmitted.recordFile

theorem storeEvent_stays
    (hentry : admitEvent config storage event = (admitted, stamped, some false)) :
    Ready config (storeEvent config (storage, files) event).1
        (storeEvent config (storage, files) event).2
        (layout.append (placedEvent config admitted stamped)) ∧
      Indexed config (storeEvent config (storage, files) event).1
        (storeEvent config (storage, files) event).2
        (layout.append (placedEvent config admitted stamped)) := by
  have happended := ready_placed hready hfits hentry
  rw [storeEvent, hentry]
  refine ⟨happended, ?_⟩
  rw [Indexed, ← happended.fileSize]
  exact BinlogIndex.getLatestIndex_updateIndex _ _

theorem storeEvent_rotates (henabled : config.checksum.enabled = true)
    (hvalid : ValidUuid config.masterServerUuid)
    (hentry : admitEvent config storage event = (admitted, stamped, some true)) :
    Ready config (storeEvent config (storage, files) event).1
        (storeEvent config (storage, files) event).2
        ((layout.append (placedEvent config admitted stamped)).rotate
          (pendingRotate config (placed config admitted stamped))) ∧
      Indexed config (storeEvent config (storage, files) event).1
        (storeEvent config (storage, files) event).2
        ((layout.append (placedEvent config admitted stamped)).rotate
          (pendingRotate config (placed config admitted stamped))) := by
  have happended := ready_placed hready hfits hentry
  have hreadyAdmitted := hready.admitEvent event
  rw [hentry] at hreadyAdmitted
  have hroom := hfits.rotated (pendingRotate config (placed config admitted stamped))
    (by rw [rotation, hentry]; rfl)
  rw [Checksum.len_of_enabled henabled, binlogStartFixedPos, ← hfits.positionBehind_eq hentry]
    at hroom
  have hnext := toNext_pendingRotate hvalid happended hroom.1
    (by rw [Checksum.len_of_enabled henabled]; omega)
  have hrotated := @Ready.rotate _ _ _ _ happended _ hnext _
    (rotated_initNextBinlogFile happended hnext hreadyAdmitted.recordFile)
    (nextFile config (placed config admitted stamped))
    ⟨rfl, rfl, rfl, startPos_eq henabled hnext.header, hnext.uuids⟩
  rw [storeEvent, hentry]
  dsimp only
  rw [← Files.persistentBinlog_persistentBinlog _ _ _ admitted.indexRecord]
  refine ⟨hrotated, ?_⟩
  rw [Indexed, ← hrotated.fileSize]
  exact BinlogIndex.getLatestIndex_addIndex _ _

theorem storeEvent_kept (henabled : config.checksum.enabled = true)
    (hvalid : ValidUuid config.masterServerUuid) {isRotate : Bool}
    (hentry : admitEvent config storage event = (admitted, stamped, some isRotate)) :
    ∃ after, Ready config (storeEvent config (storage, files) event).1
        (storeEvent config (storage, files) event).2 after ∧
      Indexed config (storeEvent config (storage, files) event).1
        (storeEvent config (storage, files) event).2 after ∧
      after.events = layout.events ++ [placedEvent config admitted stamped] ∧
      layout.closed <+: after.closed ∧
      (Mapped storage layout → Mapped (storeEvent config (storage, files) event).1 after) ∧
      (BySize config layout → BySize config after) := by
  obtain ⟨hmapping, hrotate⟩ := admitEvent_kept hentry
  have hmapped : Mapped storage layout →
      Mapped (placed config admitted stamped) (layout.append (placedEvent config admitted stamped)) := by
    intro hmapped
    rcases hmapping with hgtid | ⟨hother, hrecord⟩
    · exact mapped_append_gtid hgtid rfl
    · exact hmapped.append_other hrecord hother
  cases isRotate with
  | false =>
    obtain ⟨happended, hindexed⟩ := storeEvent_stays hready hfits hentry
    refine ⟨_, happended, hindexed, layout.events_append _, prefix_rfl, ?_,
      fun hsize => hsize.append hrotate.symm⟩
    rw [storeEvent, hentry]
    exact hmapped
  | true =>
    obtain ⟨hrotated, hindexed⟩ := storeEvent_rotates hready hfits henabled hvalid hentry
    refine ⟨_, hrotated, hindexed, ?_, prefix_append _ _, ?_,
      fun hsize => hsize.append_rotate hrotate.symm _⟩
    · rw [Layout.events_rotate, Layout.events_append]
    · rw [storeEvent, hentry]
      exact fun hstart => (hmapped hstart).rotate rfl _

end Fits

theorem storeEvent_dropped (hready : Ready config storage files layout)
    (hentry : admitEvent config storage event = (admitted, stamped, none)) :
    storeEvent config (storage, files) event = (admitted, files) ∧
      Ready config admitted files layout ∧
      admitted.indexRecord = storage.indexRecord := by
  have hreadyAdmitted := hready.admitEvent event
  rw [hentry] at hreadyAdmitted
  exact ⟨by rw [storeEvent, hentry], hreadyAdmitted, admitEvent_dropped hentry⟩

def keptEvents (config : Config) (storage : BinlogStorage) (events : List ObLogEvent) :
    List ObLogEvent :=
  (advanceAll config storage events).2.filter fun event => !event.filter

theorem storeEvent_fst (state : BinlogStorage × Files) (event : ObLogEvent) :
    (storeEvent config state event).1 = (advance config state.1 event).1 := by
  rw [storeEvent]
  rcases hentry : admitEvent config state.1 event with ⟨admitted, stamped, _ | _ | _⟩
  · rw [advance_dropped hentry]
  · rw [advance_kept hentry]
  · rw [advance_rotated hentry]

theorem storeEvents_layout (henabled : config.checksum.enabled = true)
    (hvalid : ValidUuid config.masterServerUuid) {events : List ObLogEvent}
    (hnew : ∀ event ∈ events, event.filter = true) (hready : Ready config storage files layout)
    (hfits : PositionsFit config storage events) :
    ∃ after, Ready config (storeEvents config (storage, files) events).1
        (storeEvents config (storage, files) events).2 after ∧
      after.events = layout.events ++ keptEvents config storage events ∧
      layout.closed <+: after.closed ∧
      (Indexed config storage files layout ∨ keptEvents config storage events ≠ [] →
        Indexed config (storeEvents config (storage, files) events).1
          (storeEvents config (storage, files) events).2 after) ∧
      (Mapped storage layout → Mapped (storeEvents config (storage, files) events).1 after) ∧
      (BySize config layout → BySize config after) := by
  induction events generalizing storage files layout with
  | nil =>
    refine ⟨layout, hready, by simp [keptEvents, advanceAll], prefix_rfl, ?_, id, id⟩
    simp [keptEvents, advanceAll, storeEvents]
  | cons event events ih =>
    obtain ⟨hevent, hevents⟩ := hfits
    obtain ⟨hfirst, hothers⟩ := forall_mem_cons.mp hnew
    rw [storeEvents, foldl_cons, ← storeEvents]
    rcases hentry : admitEvent config storage event with ⟨admitted, stamped, _ | isRotate⟩
    · obtain ⟨hstore, hreadyAdmitted, hrecord⟩ := storeEvent_dropped hready hentry
      have hfilter := (admitEvent_same config storage event).2.2
      rw [hentry, hfirst] at hfilter
      dsimp only at hfilter
      rw [advance_dropped hentry] at hevents
      obtain ⟨after, hafter, hlist, hclosed, hindexed, hmapped, hsize⟩ :=
        ih hothers hreadyAdmitted hevents
      have hkept : keptEvents config storage (event :: events) =
          keptEvents config admitted events := by
        simp [keptEvents, advanceAll, advance_dropped hentry, hfilter]
      rw [hstore, hkept]
      refine ⟨after, hafter, hlist, hclosed, ?_, ?_, hsize⟩
      · rwa [Indexed, hrecord] at hindexed
      · rwa [Mapped, hrecord] at hmapped
    · obtain ⟨next, hreadyNext, hindexedNext, hlistNext, hclosedNext, hmappedNext, hsizeNext⟩ :=
        storeEvent_kept hready hevent henabled hvalid hentry
      have hplaced : (advance config storage event).2 = placedEvent config admitted stamped := by
        cases isRotate with
        | false => rw [advance_kept hentry]
        | true => rw [advance_rotated hentry]
      have hkept : keptEvents config storage (event :: events) =
          placedEvent config admitted stamped ::
            keptEvents config (storeEvent config (storage, files) event).1 events := by
        rw [keptEvents, advanceAll, hplaced, storeEvent_fst]
        rfl
      rw [← storeEvent_fst (storage, files)] at hevents
      obtain ⟨after, hafter, hlist, hclosed, hindexed, hmapped, hsize⟩ :=
        ih hothers hreadyNext hevents
      refine ⟨after, hafter, ?_, hclosedNext.trans hclosed, fun _ => hindexed (Or.inl hindexedNext),
        fun hstart => hmapped (hmappedNext hstart), fun hstart => hsize (hsizeNext hstart)⟩
      rw [hlist, hlistNext, hkept, append_assoc, singleton_append]

end StoreEvent

end OblogProxy.Storage
