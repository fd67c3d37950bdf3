import OblogProxy.Core.Bytes
import OblogProxy.Core.Lines
import OblogProxy.Gtid.Text

/-!
# Binlog files and their index

Names of binlog files, the files on disk, and the records of `mysql-bin.index`,
kept as the list of its lines.  Every change of the index by the storage thread is one
atomic step: `update_index` for the file being written, which is the last one, or
`add_index` for the next file.

The index is a text file with one record a line, its fields separated by tabs.  The last
record is found by going back from the end of the file to the newline before it; a line with
another number of fields is no error, the record just stays empty.
-/

namespace OblogProxy.Storage

open Gtid Lines List

/-- The options that name a binlog file: `binlog_log_bin_prefix` and
`binlog_file_name_fill_zeroes_width`. -/
structure FileNames where
  logBin : Text
  width : ℕ

def FileNames.fillBinlogFileName (names : FileNames) (index : ℕ) : Text :=
  names.logBin ++ '.' :: (Nat.toDigits 10 index).leftpad names.width '0'

theorem readNumber_leftpad (width index : ℕ) :
    readNumber ((Nat.toDigits 10 index).leftpad width '0') = index := by
  rw [readNumber, List.leftpad, Nat.ofDigitChars_append, Nat.ofDigitChars_replicate_zero,
    Nat.mul_zero]
  exact readNumber_toDigits index

theorem FileNames.fillBinlogFileName_injective (names : FileNames) :
    Function.Injective names.fillBinlogFileName := by
  intro left right heq
  have hdigits := congrArg readNumber (List.cons.inj (List.append_cancel_left heq)).2
  simpa only [readNumber_leftpad] using hdigits

theorem FileNames.fillBinlogFileName_ne_nil (names : FileNames) (index : ℕ) :
    names.fillBinlogFileName index ≠ [] := by
  simp [FileNames.fillBinlogFileName]

def binlogDataDir : Text := ['.', '/', 'd', 'a', 't', 'a', '/']

def dataPath (fileName : Text) : Text :=
  binlogDataDir ++ fileName

def FileNames.path (names : FileNames) (index : ℕ) : Text :=
  dataPath (names.fillBinlogFileName index)

theorem FileNames.path_injective (names : FileNames) : Function.Injective names.path :=
  (List.append_right_injective _).comp names.fillBinlogFileName_injective

theorem FileNames.path_ne_nil (names : FileNames) (index : ℕ) : names.path index ≠ [] := by
  exact List.append_ne_nil_of_right_ne_nil _ (names.fillBinlogFileName_ne_nil index)

/-- The content of each file that exists. -/
abbrev Disk := Text → Option Bytes

namespace Disk

def content (disk : Disk) (file : Text) : Bytes :=
  (disk file).getD []

def fileSize (disk : Disk) (file : Text) : ℕ :=
  (disk.content file).length

def write (disk : Disk) (file : Text) (bytes : Bytes) : Disk :=
  Function.update disk file (some bytes)

def appendFile (disk : Disk) (file : Text) (bytes : Bytes) : Disk :=
  disk.write file (disk.content file ++ bytes)

def rewrite (disk : Disk) (file : Text) (bytes : Bytes) (startPos : ℕ) : Disk :=
  disk.write file (Bytes.overwrite (disk.content file) startPos bytes)

def resizeFile (disk : Disk) (file : Text) (size : ℕ) : Disk :=
  disk.write file ((disk.content file).take size)

def remove (disk : Disk) (file : Text) : Disk :=
  Function.update disk file none

section Written

variable (disk : Disk) (bytes : Bytes)

@[simp]
theorem write_self (file : Text) : disk.write file bytes file = some bytes :=
  Function.update_self _ _ _

theorem write_of_ne {file other : Text} (hother : other ≠ file) :
    disk.write file bytes other = disk other :=
  Function.update_of_ne hother _ _

@[simp]
theorem content_write_self (file : Text) : (disk.write file bytes).content file = bytes := by
  simp [content, write]

@[simp]
theorem content_write_of_ne {file other : Text} (hother : other ≠ file) :
    (disk.write file bytes).content other = disk.content other := by
  simp [content, write, hother]

end Written

@[simp]
theorem write_write (disk : Disk) (file : Text) (first second : Bytes) :
    (disk.write file first).write file second = disk.write file second :=
  Function.update_idem _ _ _

end Disk

/-- An OceanBase transaction with its number in the binlog. -/
abbrev Mapping := Text × ℕ

structure BinlogIndexRecord where
  fileName : Text := []
  index : ℕ := 0
  beforeMapping : Mapping := ([], 0)
  currentMapping : Mapping := ([], 0)
  checkpoint : ℕ := 0
  position : ℕ := 0
deriving DecidableEq

open BinlogIndexRecord

def BinlogIndexRecord.equalTo (record other : BinlogIndexRecord) : Bool :=
  record.fileName = other.fileName && record.index = other.index

@[simp]
theorem BinlogIndexRecord.equalTo_self (record : BinlogIndexRecord) :
    record.equalTo record = true := by
  simp [equalTo]

theorem BinlogIndexRecord.equalTo_congr_right {record other : BinlogIndexRecord}
    (hequal : record.equalTo other = true) (line : BinlogIndexRecord) :
    line.equalTo record = line.equalTo other := by
  simp only [equalTo, Bool.and_eq_true, decide_eq_true_eq] at hequal
  rw [equalTo, equalTo, hequal.1, hequal.2]

/-- The lines of `mysql-bin.index`. -/
abbrev BinlogIndex := List BinlogIndexRecord

namespace BinlogIndex

def addIndex (index : BinlogIndex) (record : BinlogIndexRecord) : BinlogIndex :=
  index ++ [record]

/-- `update_index` replaces the last line. -/
def updateIndex (index : BinlogIndex) (record : BinlogIndexRecord) : BinlogIndex :=
  index.dropLast ++ [record]

/-- `get_latest_index`; without a line the record keeps its defaults. -/
def getLatestIndex (index : BinlogIndex) : BinlogIndexRecord :=
  index.getLast?.getD {}

/-- The lines that `remove_binlog` keeps. -/
def removeBinlog (index : BinlogIndex) (record : BinlogIndexRecord) : BinlogIndex :=
  index.filter fun line => !line.equalTo record

@[simp]
theorem getLatestIndex_addIndex (index : BinlogIndex) (record : BinlogIndexRecord) :
    getLatestIndex (addIndex index record) = record := by
  simp [getLatestIndex, addIndex]

@[simp]
theorem getLatestIndex_updateIndex (index : BinlogIndex) (record : BinlogIndexRecord) :
    getLatestIndex (updateIndex index record) = record := by
  simp [getLatestIndex, updateIndex]

theorem updateIndex_getLatestIndex {index : BinlogIndex} (hindex : index ≠ []) :
    updateIndex index (getLatestIndex index) = index := by
  rw [updateIndex, getLatestIndex, List.getLast?_eq_some_getLast hindex, Option.getD_some,
    List.dropLast_append_getLast]

@[simp]
theorem updateIndex_updateIndex (index : BinlogIndex) (first second : BinlogIndexRecord) :
    updateIndex (updateIndex index first) second = updateIndex index second := by
  simp [updateIndex]

end BinlogIndex

inductive IndexStep where
  | update (record : BinlogIndexRecord)
  | add (record : BinlogIndexRecord)
deriving DecidableEq

namespace IndexStep

def apply : IndexStep → BinlogIndex → BinlogIndex
  | update record, index => index.updateIndex record
  | add record, index => index.addIndex record

def isUpdate : IndexStep → Bool
  | update _ => true
  | add _ => false

/-- An update is for the last file; an added file is new. -/
def Allowed (index : BinlogIndex) : IndexStep → Prop
  | update record =>
    index ≠ [] ∧ record.fileName = index.getLatestIndex.fileName ∧
      record.index = index.getLatestIndex.index
  | add record => 0 < record.index ∧ record.fileName ∉ index.map fileName

instance (index : BinlogIndex) : (step : IndexStep) → Decidable (step.Allowed index)
  | update _ => inferInstanceAs (Decidable (_ ∧ _))
  | add _ => inferInstanceAs (Decidable (_ ∧ _))

end IndexStep

def applySteps (steps : List IndexStep) (index : BinlogIndex) : BinlogIndex :=
  steps.foldl (fun index step => step.apply index) index

def AllowedSteps : List IndexStep → BinlogIndex → Prop
  | [], _ => True
  | step :: steps, index => step.Allowed index ∧ AllowedSteps steps (step.apply index)

instance decidableAllowedSteps :
    (steps : List IndexStep) → (index : BinlogIndex) → Decidable (AllowedSteps steps index)
  | [], _ => isTrue trivial
  | _ :: steps, _ =>
    have := decidableAllowedSteps steps
    inferInstanceAs (Decidable (_ ∧ _))

@[simp]
theorem applySteps_nil (index : BinlogIndex) : applySteps [] index = index :=
  rfl

@[simp]
theorem applySteps_cons (step : IndexStep) (steps : List IndexStep) (index : BinlogIndex) :
    applySteps (step :: steps) index = applySteps steps (step.apply index) :=
  rfl

theorem applySteps_append (first second : List IndexStep) (index : BinlogIndex) :
    applySteps (first ++ second) index = applySteps second (applySteps first index) :=
  List.foldl_append

theorem allowedSteps_append {first second : List IndexStep} {index : BinlogIndex} :
    AllowedSteps (first ++ second) index ↔
      AllowedSteps first index ∧ AllowedSteps second (applySteps first index) := by
  induction first generalizing index with
  | nil => simp [AllowedSteps]
  | cons step steps ih => simp [AllowedSteps, ih, and_assoc]

namespace BinlogIndex

def fileNames (index : BinlogIndex) : List Gtid.Text :=
  index.map fileName

/-- Every line has its own file, and a number that `fetch_index_vector` accepts. -/
structure WellFormed (index : BinlogIndex) : Prop where
  nodup : index.fileNames.Nodup
  positive : ∀ line ∈ index, 0 < line.index

instance (index : BinlogIndex) : Decidable index.WellFormed :=
  decidable_of_iff (index.fileNames.Nodup ∧ ∀ line ∈ index, 0 < line.index)
    ⟨fun ⟨hnodup, hpositive⟩ => ⟨hnodup, hpositive⟩, fun ⟨hnodup, hpositive⟩ => ⟨hnodup, hpositive⟩⟩

variable {index : BinlogIndex}

theorem dropLast_append_getLatestIndex (hne : index ≠ []) :
    index.dropLast ++ [index.getLatestIndex] = index := by
  rw [getLatestIndex, List.getLast?_eq_getLast_of_ne_nil hne, Option.getD_some,
    List.dropLast_append_getLast hne]

theorem getLatestIndex_mem (hne : index ≠ []) : index.getLatestIndex ∈ index := by
  rw [getLatestIndex, List.getLast?_eq_getLast_of_ne_nil hne, Option.getD_some]
  exact List.getLast_mem hne

theorem fileNames_updateIndex {record : BinlogIndexRecord}
    (hallowed : (IndexStep.update record).Allowed index) :
    (index.updateIndex record).fileNames = index.fileNames := by
  obtain ⟨hne, hname, -⟩ := hallowed
  conv_rhs => rw [← dropLast_append_getLatestIndex hne]
  simp [updateIndex, fileNames, hname]

@[simp]
theorem fileNames_addIndex (record : BinlogIndexRecord) :
    (index.addIndex record).fileNames = index.fileNames ++ [record.fileName] := by
  simp [addIndex, fileNames]

theorem WellFormed.apply (hwf : index.WellFormed) {step : IndexStep}
    (hallowed : step.Allowed index) : (step.apply index).WellFormed := by
  cases step with
  | update record =>
    refine ⟨(fileNames_updateIndex hallowed).symm ▸ hwf.nodup, ?_⟩
    obtain ⟨hne, -, hindex⟩ := hallowed
    intro line hline
    rcases List.mem_append.mp hline with hfront | hlast
    · exact hwf.positive line (List.mem_of_mem_dropLast hfront)
    · rw [List.mem_singleton.mp hlast, hindex]
      exact hwf.positive _ (getLatestIndex_mem hne)
  | add record =>
    obtain ⟨hpositive, hfresh⟩ := hallowed
    constructor
    · rw [IndexStep.apply, fileNames_addIndex]
      exact hwf.nodup.append (List.nodup_singleton _) (List.disjoint_singleton.mpr hfresh)
    · intro line hline
      rcases List.mem_append.mp hline with hfront | hlast
      · exact hwf.positive line hfront
      · rw [List.mem_singleton.mp hlast]
        exact hpositive

theorem WellFormed.applySteps (hwf : index.WellFormed) {steps : List IndexStep}
    (hallowed : AllowedSteps steps index) : (applySteps steps index).WellFormed := by
  induction steps generalizing index with
  | nil => exact hwf
  | cons step steps ih => exact ih (hwf.apply hallowed.1) hallowed.2

theorem fileNames_subset_applySteps {steps : List IndexStep} (hallowed : AllowedSteps steps index) :
    index.fileNames ⊆ (Storage.applySteps steps index).fileNames := by
  induction steps generalizing index with
  | nil => exact List.Subset.refl _
  | cons step steps ih =>
    refine List.Subset.trans ?_ (ih hallowed.2)
    cases step with
    | update record =>
      change _ ⊆ (index.updateIndex record).fileNames
      rw [fileNames_updateIndex hallowed.1]
      exact List.Subset.refl _
    | add record =>
      change _ ⊆ (index.addIndex record).fileNames
      rw [fileNames_addIndex]
      exact List.subset_append_left _ _

end BinlogIndex

/-- `std::stol`; `none` is an exception. -/
def stol (text : Text) : Option ℤ :=
  let (sign, digits) : ℤ × Text :=
    match text.dropWhile isSpace with
    | '-' :: digits => (-1, digits)
    | '+' :: digits => (1, digits)
    | digits => (1, digits)
  let value := sign * decimal digits
  if (digits.takeWhile Char.isDigit).isEmpty then none
  else if -2 ^ 63 ≤ value ∧ value < 2 ^ 63 then some value
  else none

def getMappingStr (mapping : Mapping) : Text :=
  mapping.1 ++ '=' :: Nat.toDigits 10 mapping.2

/-- Without `=` the whole text is taken for both parts. -/
def parseMappingStr (mappingStr : Text) : Option Mapping :=
  if mappingStr = [] then some ([], 0)
  else
    let second :=
      if '=' ∈ mappingStr then (mappingStr.dropWhile (· ≠ '=')).tail else mappingStr
    (stol second).map fun number => (mappingStr.takeWhile (· ≠ '='), toUint64 number)

namespace BinlogIndexRecord

def headFields (record : BinlogIndexRecord) : List Text :=
  [record.fileName, Nat.toDigits 10 record.index, getMappingStr record.currentMapping,
    getMappingStr record.beforeMapping, Nat.toDigits 10 record.checkpoint]

def line (record : BinlogIndexRecord) : Text :=
  terminated '\t' record.headFields ++ Nat.toDigits 10 record.position

def toText (record : BinlogIndexRecord) : Text :=
  record.line ++ ['\n']

/-- `none` is an exception; the record keeps its fields if there are not six of
them. -/
def parse (record : BinlogIndexRecord) (content : Text) : Option BinlogIndexRecord :=
  match split content '\t' with
  | [fileName, index, current, before, checkpoint, position] => do
      let index ← stol index
      let currentMapping ← parseMappingStr current
      let beforeMapping ← parseMappingStr before
      let checkpoint ← stol checkpoint
      let position ← stol position
      return {
        fileName
        index := toUint64 index
        currentMapping
        beforeMapping
        checkpoint := toUint64 checkpoint
        position := toUint64 position }
  | _ => some record

end BinlogIndexRecord

namespace IndexFile

/-- `FsUtil::seekg_last_line`, from the position that is tried next.  The first byte of
the file is not looked at. -/
def seekgLastLine (text : Text) : ℕ → ℕ
  | position + 3 =>
    if text[position + 1]? = some '\n' then position + 2
    else seekgLastLine text (position + 2)
  | _ => 0

def lastLineStart (text : Text) : ℕ :=
  seekgLastLine text text.length

def lineAt (text : Text) (start : ℕ) : Text :=
  let rest := text.drop start
  rest.takeWhile (· ≠ '\n') ++ (rest.dropWhile (· ≠ '\n')).take 1

def getLatestIndex (text : Text) : Option BinlogIndexRecord :=
  parse {} (lineAt text (lastLineStart text))

def addIndex (text : Text) (record : BinlogIndexRecord) : Text :=
  text ++ record.toText

def updateIndex (text : Text) (record : BinlogIndexRecord) : Text :=
  text.take (lastLineStart text) ++ record.toText

def indexText (records : BinlogIndex) : Text :=
  records.flatMap toText

def removeBinlog (text : Text) (record : BinlogIndexRecord) : Option (Option Text) := do
  let records ← (getLines '\n' text).mapM (parse {})
  return if records.any fun line => line.equalTo record then
    some (indexText (BinlogIndex.removeBinlog records record))
  else none

end IndexFile

/-- A character that does not end a field or a line. -/
def IndexChar (char : Char) : Prop :=
  char ≠ '\t' ∧ char ≠ '\n' ∧ char ≠ Char.ofNat 0

/-- A transaction id that can stand in front of `=`, and a number that fits a
`long`. -/
structure MappingWritable (mapping : Mapping) : Prop where
  xid : ∀ char ∈ mapping.1, IndexChar char ∧ char ≠ '='
  number_lt : mapping.2 < 2 ^ 63

/-- A record that is read back from its line. -/
structure BinlogIndexRecord.Readable (record : BinlogIndexRecord) : Prop where
  fileName : ∀ char ∈ record.fileName, IndexChar char
  index_lt : record.index < 2 ^ 63
  current : MappingWritable record.currentMapping
  before : MappingWritable record.beforeMapping
  checkpoint_lt : record.checkpoint < 2 ^ 63
  position_lt : record.position < 2 ^ 63

structure BinlogIndexRecord.Writable (record : BinlogIndexRecord) : Prop
    extends record.Readable where
  fileName_ne_nil : record.fileName ≠ []
  position_pos : 0 < record.position

theorem indexChar_of_isDigit {char : Char} (hdigit : char.isDigit = true) : IndexChar char := by
  refine ⟨?_, ?_, ?_⟩ <;> rintro rfl <;> exact absurd hdigit (by decide)

theorem indexChar_toDigits (number : ℕ) : ∀ char ∈ Nat.toDigits 10 number, IndexChar char :=
  fun char hchar => indexChar_of_isDigit ((validNumber_toDigits number).2 char hchar)

theorem takeWhile_isDigit_append {number tail : Text} (hvalid : ValidNumber number)
    (htail : tail = [] ∨ tail = ['\n']) : (number ++ tail).takeWhile Char.isDigit = number := by
  rw [takeWhile_append_of_pos hvalid.2]
  rcases htail with rfl | rfl
  · simp
  · simp [Char.isDigit]

theorem stol_of_validNumber {number tail : Text} (hvalid : ValidNumber number)
    (hbound : readNumber number < 2 ^ 63) (htail : tail = [] ∨ tail = ['\n']) :
    stol (number ++ tail) = some (readNumber number : ℤ) := by
  have hdigits := takeWhile_isDigit_append hvalid htail
  obtain ⟨head, rest, heq, hdrop, hminus, hplus⟩ := hvalid.exists_cons
  have hblank : (number ++ tail).dropWhile isSpace = number ++ tail := by
    rw [heq] at hdrop ⊢
    have hhead : ¬isSpace head = true := by
      intro hspace
      rw [dropWhile_cons_of_pos hspace] at hdrop
      have hlength := congrArg length hdrop
      have hle := (dropWhile_suffix isSpace : rest.dropWhile isSpace <:+ rest).length_le
      rw [length_cons] at hlength
      omega
    rw [cons_append, dropWhile_cons_of_neg hhead]
  have hvalue : decimal (number ++ tail) = readNumber number := by
    rw [decimal, hdigits]
    rfl
  have hsome : ((number ++ tail).takeWhile Char.isDigit).isEmpty = false := by
    rw [hdigits, isEmpty_eq_false_iff]
    exact hvalid.1
  rw [stol, hblank]
  split
  rename_i sign digits hmatch
  split at hmatch
  · rename_i hsign
    rw [heq, cons_append] at hsign
    exact absurd (cons.inj hsign).1 hminus
  · rename_i hsign
    rw [heq, cons_append] at hsign
    exact absurd (cons.inj hsign).1 hplus
  · obtain ⟨rfl, rfl⟩ := Prod.mk.inj hmatch
    rw [hsome, hvalue, one_mul]
    simp only [Bool.false_eq_true, if_false]
    rw [if_pos ⟨by omega, by omega⟩]

theorem stol_toDigits {number : ℕ} (hbound : number < 2 ^ 63) :
    stol (Nat.toDigits 10 number) = some (number : ℤ) := by
  have hread := @stol_of_validNumber _ [] (validNumber_toDigits number)
    (by rwa [readNumber_toDigits]) (Or.inl rfl)
  rwa [append_nil, readNumber_toDigits] at hread

theorem toUint64_natCast {number : ℕ} (hbound : number < 2 ^ 63) :
    toUint64 (number : ℤ) = number := by
  rw [toUint64]
  omega

theorem MappingWritable.parseMappingStr_getMappingStr {mapping : Mapping}
    (hmapping : MappingWritable mapping) :
    parseMappingStr (getMappingStr mapping) = some mapping := by
  have hxid : ∀ char ∈ mapping.1, (fun char => decide (char ≠ '=')) char = true := by
    simpa using fun char hchar => (hmapping.xid char hchar).2
  rw [parseMappingStr, if_neg (by simp [getMappingStr]), if_pos (by simp [getMappingStr])]
  rw [getMappingStr, takeWhile_append_of_pos hxid, dropWhile_append_of_pos hxid]
  simp [stol_toDigits hmapping.number_lt, toUint64_natCast hmapping.number_lt]

namespace BinlogIndexRecord

variable {record : BinlogIndexRecord}

theorem indexChar_getMappingStr {mapping : Mapping} (hmapping : MappingWritable mapping) :
    ∀ char ∈ getMappingStr mapping, IndexChar char := by
  intro char hchar
  rw [getMappingStr, mem_append, mem_cons] at hchar
  rcases hchar with hxid | rfl | hdigit
  · exact (hmapping.xid char hxid).1
  · exact ⟨by decide, by decide, by decide⟩
  · exact indexChar_toDigits _ char hdigit

section Fields

variable (hreadable : record.Readable)

include hreadable

theorem Readable.headFields : ∀ field ∈ record.headFields, ∀ char ∈ field, IndexChar char := by
  simp only [BinlogIndexRecord.headFields, forall_mem_cons]
  exact ⟨hreadable.fileName, indexChar_toDigits _, indexChar_getMappingStr hreadable.current,
    indexChar_getMappingStr hreadable.before, indexChar_toDigits _, by simp⟩

theorem Readable.tab_not_mem : ∀ field ∈ record.headFields, '\t' ∉ field :=
  fun field hfield hchar => (hreadable.headFields field hfield _ hchar).1 rfl

theorem Readable.mem_front {char : Char} (hchar : char ∈ terminated '\t' record.headFields) :
    char ≠ '\n' ∧ char ≠ Char.ofNat 0 := by
  rcases mem_terminated hchar with rfl | ⟨field, hfield, hmem⟩
  · exact ⟨by decide, by decide⟩
  · exact (hreadable.headFields field hfield char hmem).2

/-- A line whose position is another number, with or without its newline. -/
theorem Readable.parse_line {position tail : Text} (hvalid : ValidNumber position)
    (hbound : readNumber position < 2 ^ 63) (htail : tail = [] ∨ tail = ['\n']) :
    parse {} (terminated '\t' record.headFields ++ (position ++ tail)) =
      some { record with position := readNumber position } := by
  have hposition : ∀ char ∈ position ++ tail, char ≠ '\t' ∧ char ≠ Char.ofNat 0 := by
    intro char hchar
    rcases mem_append.mp hchar with hdigit | hnewline
    · obtain ⟨htab, -, hnul⟩ := indexChar_of_isDigit (hvalid.2 char hdigit)
      exact ⟨htab, hnul⟩
    · rcases htail with rfl | rfl
      · cases hnewline
      · rw [mem_singleton.mp hnewline]
        decide
  have hsplit : split (terminated '\t' record.headFields ++ (position ++ tail)) '\t' =
      record.headFields ++ [position ++ tail] := by
    rw [split_eq_splitOn '\t', splitOn_terminated_append hreadable.tab_not_mem]
    · exact fun hchar => (hposition _ hchar).1 rfl
    · simp [hvalid.1]
    · intro hchar
      rcases mem_append.mp hchar with hfront | hback
      · exact (hreadable.mem_front hfront).2 rfl
      · exact (hposition _ hback).2 rfl
  rw [parse, hsplit]
  simp only [BinlogIndexRecord.headFields, cons_append, nil_append,
    stol_toDigits hreadable.index_lt, hreadable.current.parseMappingStr_getMappingStr,
    hreadable.before.parseMappingStr_getMappingStr, stol_toDigits hreadable.checkpoint_lt,
    stol_of_validNumber hvalid hbound htail, Option.bind_eq_bind, Option.bind_some,
    toUint64_natCast hreadable.index_lt, toUint64_natCast hreadable.checkpoint_lt,
    toUint64_natCast hbound]
  rfl

theorem Readable.parse_record {tail : Text} (htail : tail = [] ∨ tail = ['\n']) :
    parse {} (record.line ++ tail) = some record := by
  have hbound : readNumber (Nat.toDigits 10 record.position) < 2 ^ 63 := by
    rw [readNumber_toDigits]
    exact hreadable.position_lt
  have hparse := hreadable.parse_line (validNumber_toDigits record.position) hbound htail
  rw [readNumber_toDigits, ← append_assoc] at hparse
  exact hparse

/-- Without the position the record is not complete enough to be read. -/
theorem Readable.parse_front : parse {} (terminated '\t' record.headFields) = none := by
  have hsplit : split (terminated '\t' record.headFields) '\t' = record.headFields ++ [[]] := by
    have hpieces := splitOn_terminated_append hreadable.tab_not_mem (not_mem_nil (a := '\t'))
    rw [append_nil] at hpieces
    rw [split_eq_splitOn '\t', hpieces]
    · simp [BinlogIndexRecord.headFields]
    · exact fun hchar => (hreadable.mem_front hchar).2 rfl
  have hempty : stol [] = none := rfl
  rw [parse, hsplit]
  simp [BinlogIndexRecord.headFields, hempty]

end Fields

theorem parse_of_count_lt {text : Text} (hnul : Char.ofNat 0 ∉ text)
    (hcount : text.count '\t' < 5) : parse {} text = some {} := by
  rw [parse]
  split
  · rename_i hsplit
    have hne : text ≠ [] := by
      rintro rfl
      simp [split] at hsplit
    rw [split_eq_splitOn '\t' hne hnul] at hsplit
    have hlength := length_splitOn text '\t'
    rw [hsplit] at hlength
    simp only [length_cons, length_nil] at hlength
    omega
  · rfl

end BinlogIndexRecord

namespace IndexFile

section LastLine

variable {front line tail : Text}

section LastLine

variable (hline : '\n' ∉ line) (htail : tail = [] ∨ tail = ['\n'])

include hline htail

/-- The last line begins behind the newline before it, whether it is complete or
not. -/
theorem lastLineStart_eq (hfront : front = [] ∨ ∃ lines, front = lines ++ ['\n'] ∧ lines ≠ [])
    (hne : line ≠ []) : lastLineStart (front ++ (line ++ tail)) = front.length := by
  have hseek : ∀ more, more < line.length + tail.length →
      seekgLastLine (front ++ (line ++ tail)) (front.length + 1 + more) = front.length := by
    intro more hmore
    induction more with
    | zero =>
      rcases hfront with rfl | ⟨lines, rfl, hlines⟩
      · rfl
      · obtain ⟨count, hcount⟩ : ∃ count, lines.length = count + 1 :=
          Nat.exists_eq_succ_of_ne_zero (by simpa using hlines)
        have hnewline : (lines ++ ['\n'] ++ (line ++ tail))[count + 1]? = some '\n' := by
          simp [hcount]
        rw [length_append, length_singleton, hcount]
        rw [seekgLastLine, if_pos hnewline]
    | succ more ih =>
      have hmoreLine : more < line.length := by
        rcases htail with rfl | rfl
        · exact Nat.lt_of_succ_lt hmore
        · exact Nat.lt_of_succ_lt_succ hmore
      have hinside : (front ++ (line ++ tail))[front.length + more]? ≠ some '\n' := by
        rw [getElem?_append_right (Nat.le_add_right _ _), Nat.add_sub_cancel_left,
          getElem?_append_left hmoreLine]
        exact fun hchar => hline (mem_of_getElem? hchar)
      rcases Nat.eq_zero_or_pos (front.length + more) with hzero | hpos
      · have hstart : front.length + 1 + (more + 1) = 2 := by omega
        rw [hstart]
        exact (Nat.eq_zero_of_add_eq_zero_right hzero).symm
      · obtain ⟨position, hposition⟩ := Nat.exists_eq_succ_of_ne_zero hpos.ne'
        have hstart : front.length + 1 + (more + 1) = position + 3 := by omega
        have hnext : position + 2 = front.length + 1 + more := by omega
        rw [hposition] at hinside
        rw [hstart, seekgLastLine, if_neg hinside, hnext]
        exact ih (Nat.lt_of_succ_lt hmore)
  have hpos := length_pos_of_ne_nil hne
  have hall := hseek (line.length + tail.length - 1) (by omega)
  rw [lastLineStart, length_append, length_append]
  have hlength : front.length + 1 + (line.length + tail.length - 1) =
      front.length + (line.length + tail.length) := by
    omega
  rwa [hlength] at hall

theorem lineAt_append : lineAt (front ++ (line ++ tail)) front.length = line ++ tail := by
  have hchars : ∀ char ∈ line, (fun char => decide (char ≠ '\n')) char = true := by
    intro char hchar
    simpa using fun heq : char = '\n' => hline (heq ▸ hchar)
  rw [lineAt, drop_left, takeWhile_append_of_pos hchars, dropWhile_append_of_pos hchars]
  rcases htail with rfl | rfl
  · simp
  · simp

section Appended

variable (hfront : front = [] ∨ ∃ lines, front = lines ++ ['\n'] ∧ lines ≠ []) (hne : line ≠ [])

include hfront hne

/-- The latest record is what the last line says. -/
theorem getLatestIndex_append :
    getLatestIndex (front ++ (line ++ tail)) = parse {} (line ++ tail) := by
  rw [getLatestIndex, lastLineStart_eq hline htail hfront hne, lineAt_append hline htail]

theorem updateIndex_append (record : BinlogIndexRecord) :
    updateIndex (front ++ (line ++ tail)) record = front ++ record.toText := by
  rw [updateIndex, lastLineStart_eq hline htail hfront hne, take_left]

end Appended

end LastLine

end LastLine

section Records

variable {records : BinlogIndex} {record : BinlogIndexRecord}

theorem indexText_append (front back : BinlogIndex) :
    indexText (front ++ back) = indexText front ++ indexText back :=
  flatMap_append

theorem indexText_singleton (record : BinlogIndexRecord) : indexText [record] = record.toText := by
  simp [indexText]

theorem indexText_eq_terminated (records : BinlogIndex) :
    indexText records = terminated '\n' (records.map line) := by
  rw [terminated, flatMap_map]
  rfl

theorem line_ne_nil (record : BinlogIndexRecord) : record.line ≠ [] := by
  simp [line]

theorem newline_not_mem_line (hreadable : record.Readable) : '\n' ∉ record.line := by
  intro hchar
  rcases mem_append.mp hchar with hfront | hdigit
  · exact (hreadable.mem_front hfront).1 rfl
  · exact (indexChar_toDigits _ _ hdigit).2.1 rfl

theorem indexText_cases (records : BinlogIndex) :
    indexText records = [] ∨ ∃ lines, indexText records = lines ++ ['\n'] ∧ lines ≠ [] := by
  rcases eq_nil_or_concat records with rfl | ⟨front, last, rfl⟩
  · exact Or.inl rfl
  · refine Or.inr ⟨indexText front ++ last.line, ?_, ?_⟩
    · rw [concat_eq_append, indexText_append, indexText_singleton,
        toText, append_assoc]
    · exact append_ne_nil_of_right_ne_nil _ (line_ne_nil last)

theorem addIndex_indexText (records : BinlogIndex) (record : BinlogIndexRecord) :
    addIndex (indexText records) record = indexText (BinlogIndex.addIndex records record) := by
  rw [addIndex, BinlogIndex.addIndex, indexText_append, indexText_singleton]

section Readable

variable (hreadable : ∀ record ∈ records, record.Readable)

include hreadable

theorem getLatestIndex_indexText :
    getLatestIndex (indexText records) = some (BinlogIndex.getLatestIndex records) := by
  rcases eq_nil_or_concat records with rfl | ⟨front, last, rfl⟩
  · rfl
  · rw [concat_eq_append] at hreadable ⊢
    have hlast : last.Readable := hreadable last (by simp)
    rw [indexText_append, indexText_singleton, toText,
      getLatestIndex_append (newline_not_mem_line hlast) (Or.inr rfl) (indexText_cases front)
        (line_ne_nil last)]
    rw [hlast.parse_record (Or.inr rfl)]
    simp [BinlogIndex.getLatestIndex]

theorem mapM_parse_lines :
    (records.map line).mapM (parse {}) = some records := by
  induction records with
  | nil => rfl
  | cons record records ih =>
    rw [forall_mem_cons] at hreadable
    have hparse := hreadable.1.parse_record (Or.inl rfl)
    rw [append_nil] at hparse
    rw [map_cons, mapM_cons, ih hreadable.2, hparse]
    rfl

theorem mapM_parse_append {lines : List Text} :
    (records.map line ++ lines).mapM (parse {}) =
      (lines.mapM (parse {})).map (records ++ ·) := by
  rw [mapM_append, mapM_parse_lines hreadable]
  cases lines.mapM (parse {}) <;> rfl

theorem getLines_indexText_append (text : Text) :
    getLines '\n' (indexText records ++ text) =
      records.map line ++ getLines '\n' text := by
  rw [indexText_eq_terminated]
  refine getLines_terminated_append ?_ text
  intro line hline
  obtain ⟨record, hmem, rfl⟩ := mem_map.mp hline
  exact newline_not_mem_line (hreadable record hmem)

end Readable

theorem updateIndex_indexText (hreadable : ∀ record ∈ records, record.Readable)
    (record : BinlogIndexRecord) :
    updateIndex (indexText records) record =
      indexText (BinlogIndex.updateIndex records record) := by
  rcases eq_nil_or_concat records with rfl | ⟨front, last, rfl⟩
  · simp [updateIndex, BinlogIndex.updateIndex, indexText]
  · rw [concat_eq_append] at hreadable ⊢
    have hlast : last.Readable := hreadable last (by simp)
    rw [indexText_append, indexText_singleton, toText,
      updateIndex_append (newline_not_mem_line hlast) (Or.inr rfl) (indexText_cases front)
        (line_ne_nil last), BinlogIndex.updateIndex, dropLast_concat, indexText_append,
      indexText_singleton]

theorem removeBinlog_indexText (hreadable : ∀ record ∈ records, record.Readable)
    (record : BinlogIndexRecord) :
    removeBinlog (indexText records) record =
      some (if records.any fun line => line.equalTo record then
        some (indexText (BinlogIndex.removeBinlog records record)) else none) := by
  have hlines := getLines_indexText_append hreadable []
  rw [append_nil, getLines, append_nil] at hlines
  rw [removeBinlog, hlines, mapM_parse_lines hreadable]
  rfl

end Records

/-- The lines that C's `getline` reads, each with its newline. -/
def rawLines : Text → List Text
  | [] => []
  | char :: text =>
    if char = '\n' then [char] :: rawLines text
    else
      match rawLines text with
      | [] => [[char]]
      | line :: lines => (char :: line) :: lines

/-- `fetch_index_vector` of a file; `none` is an exception. -/
def fetchIndexVector (text : Text) : Option BinlogIndex := do
  let records ← (rawLines text).mapM (parse {})
  return records.filter fun record => 0 < record.index

def getFirstIndex (text : Text) : Option BinlogIndexRecord :=
  parse {} ((getLines '\n' text).headD [])

def applyStep (text : Text) : IndexStep → Text
  | .update record => updateIndex text record
  | .add record => addIndex text record

structure Reads (text : Text) (records : BinlogIndex) : Prop where
  all : fetchIndexVector text = some records
  latest : getLatestIndex text = records.getLast?
  first : getFirstIndex text = records.head?

/-- A record that is read back from its line and not skipped. -/
def Listed (record : BinlogIndexRecord) : Prop :=
  record.Readable ∧ 0 < record.index

variable {records : BinlogIndex}

theorem rawLines_line {line : Text} (hline : '\n' ∉ line) (text : Text) :
    rawLines (line ++ '\n' :: text) = (line ++ ['\n']) :: rawLines text := by
  induction line with
  | nil => simp [rawLines]
  | cons char line ih =>
    rw [mem_cons, not_or] at hline
    simp [rawLines, Ne.symm hline.1, ih hline.2]

theorem mapM_parse_rawLines (hreadable : ∀ record ∈ records, record.Readable) :
    (rawLines (indexText records)).mapM (parse {}) = some records := by
  induction records with
  | nil => rfl
  | cons record records ih =>
    rw [forall_mem_cons] at hreadable
    have htext : indexText (record :: records) = record.line ++ '\n' :: indexText records := by
      simp [indexText, toText]
    rw [htext, rawLines_line (newline_not_mem_line hreadable.1), mapM_cons, ih hreadable.2,
      hreadable.1.parse_record (.inr rfl)]
    rfl

theorem reads_indexText (hne : records ≠ []) (hlisted : ∀ record ∈ records, Listed record) :
    Reads (indexText records) records := by
  have hreadable : ∀ record ∈ records, record.Readable := fun record hmem =>
    (hlisted record hmem).1
  refine ⟨?_, ?_, ?_⟩
  · rw [fetchIndexVector, mapM_parse_rawLines hreadable]
    simpa using fun record hmem => (hlisted record hmem).2
  · rw [getLatestIndex_indexText hreadable, BinlogIndex.getLatestIndex,
      getLast?_eq_some_getLast hne, Option.getD_some]
  · obtain ⟨first, rest, rfl⟩ := exists_cons_of_ne_nil hne
    have hlines := getLines_indexText_append hreadable []
    have hparse := (hreadable first mem_cons_self).parse_record (.inl rfl)
    rw [append_nil] at hlines hparse
    rw [getFirstIndex, hlines, map_cons, cons_append, headD_cons, hparse, head?_cons]

theorem reads_foldl_applyStep (hne : records ≠ []) (hlisted : ∀ record ∈ records, Listed record)
    {steps : List IndexStep}
    (hsteps : ∀ record, .update record ∈ steps ∨ .add record ∈ steps → Listed record) :
    Reads (steps.foldl applyStep (indexText records)) (applySteps steps records) := by
  induction steps generalizing records with
  | nil => exact reads_indexText hne hlisted
  | cons step steps ih =>
    have hrest : ∀ record, .update record ∈ steps ∨ .add record ∈ steps → Listed record :=
      fun record hmem => hsteps record
        (hmem.imp (mem_cons_of_mem step) (mem_cons_of_mem step))
    rw [foldl_cons, applySteps_cons]
    cases step with
    | update record =>
      rw [applyStep, updateIndex_indexText fun record hmem => (hlisted record hmem).1]
      refine ih (by simp [BinlogIndex.updateIndex]) ?_ hrest
      refine forall_mem_append.mpr ⟨fun record hmem =>
        hlisted record (mem_of_mem_dropLast hmem), ?_⟩
      exact forall_mem_singleton.mpr (hsteps record (.inl mem_cons_self))
    | add record =>
      rw [applyStep, addIndex_indexText]
      refine ih (by simp [BinlogIndex.addIndex]) ?_ hrest
      refine forall_mem_append.mpr ⟨hlisted, ?_⟩
      exact forall_mem_singleton.mpr (hsteps record (.inr mem_cons_self))

/-- Records are added to an empty file, and then updates and additions follow. -/
theorem reads_written {added : BinlogIndex} {steps : List IndexStep} (hne : added ≠ [])
    (hadded : ∀ record ∈ added, Listed record)
    (hsteps : ∀ record, .update record ∈ steps ∨ .add record ∈ steps → Listed record) :
    Reads (steps.foldl applyStep (added.foldl addIndex [])) (applySteps steps added) := by
  have htext : indexText added = added.foldl addIndex [] := flatMap_eq_foldl
  rw [← htext]
  exact reads_foldl_applyStep hne hadded hsteps

theorem listed_default {number : ℕ} (hnumber : 0 < number ∧ number < 2 ^ 63) :
    Listed { index := number } :=
  have hmapping : MappingWritable ([], 0) := ⟨by simp, Nat.two_pow_pos 63⟩
  ⟨⟨by simp, hnumber.2, hmapping, hmapping, Nat.two_pow_pos 63, Nat.two_pow_pos 63⟩, hnumber.1⟩

theorem reads_written_two :
    Reads ([.update { index := 2 }, .add { index := 3 }].foldl applyStep
      ([{ index := 1 }].foldl addIndex [])) [{ index := 2 }, { index := 3 }] :=
  reads_written (by simp) (by simp [listed_default]) (by simp [or_imp, forall_and, listed_default])

/-- A line is read as a C string, which ends at a null character. -/
theorem not_reads_nul :
    ¬ Reads ([{ fileName := [Char.ofNat 0], index := 1 }].foldl addIndex [])
      [{ fileName := [Char.ofNat 0], index := 1 }] :=
  fun hreads => absurd hreads.all (by decide +kernel)

end IndexFile

end OblogProxy.Storage
