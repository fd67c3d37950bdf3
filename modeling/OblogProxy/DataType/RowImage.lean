import OblogProxy.DataType.ColumnValue

/-!
# Row images

`col_val_bytes` converts the values of a row before and after a change.  NULL values
are not converted but marked in a bitmap, and changes of JSON values that are given as
a difference are marked in another one.
-/

namespace OblogProxy.DataType

open Bytes Gtid Option List

/-- `fill_bitmap`: no bit is set but those behind the last column. -/
def fillBitmap (colCount colBytes : ℕ) : Bytes :=
  let last : Bytes :=
    if colCount / 8 + 1 = colBytes then [UInt8.ofNat (0xFF <<< (colCount % 8))] else []
  replicate (colCount / 8) 0 ++ last

def setBit (bitmap : Bytes) (index : ℕ) : Bytes :=
  bitmap.modify (index / 8) fun byte => byte ||| UInt8.ofNat (1 <<< (index % 8))

@[simp]
theorem length_fillBitmap (colCount : ℕ) :
    (fillBitmap colCount (fixedLen colCount)).length = fixedLen colCount := by
  rw [fillBitmap, length_append, length_replicate, fixedLen]
  split_ifs
  · omega
  · rw [length_nil]
    omega

@[simp]
theorem length_setBit (bitmap : Bytes) (index : ℕ) : (setBit bitmap index).length = bitmap.length :=
  length_modify _ _ _

/-- A value of the row; `data` is absent if it is NULL. -/
structure RowValue where
  data : Option Text
  isJsonDiff : Bool := false

/-- The image of a row: the converted values, the sum of what the conversions returned,
and the bitmap of the NULL values. -/
structure RowImage where
  row : Bytes := []
  pos : ℕ := 0
  bitmap : Bytes

def RowImage.push (image : RowImage) (pushed : Pushed) : RowImage :=
  { image with row := image.row ++ pushed.2, pos := image.pos + pushed.1 }

section Serialize

variable (runtime : Runtime)

/-- The loop of `serialize_before` from the column `index` on; `none` is an exception, or a
value that is missing. -/
def serializeBefore (index : ℕ) : List ColMeta → List RowValue → RowImage → Option RowImage
  | [], _, image => some image
  | _ :: _, [], _ => none
  | col :: cols, value :: values, image =>
    match value.data with
    | none =>
      serializeBefore (index + 1) cols values { image with bitmap := setBit image.bitmap index }
    | some data =>
      (getColumnValBytes runtime col data false).bind fun pushed =>
        serializeBefore (index + 1) cols values (image.push pushed)

/-- What the loop of `serialize_after` keeps besides the image. -/
structure AfterImage extends RowImage where
  jsonColIndex : ℕ := 0
  /-- There is none unless the row is updated and has JSON columns. -/
  partialColsBitmap : Option Bytes
  hasAnyJsonDiff : Bool := false

/-- A JSON column was passed. -/
def AfterImage.passJson (image : AfterImage) (isJsonDiff : Bool) : AfterImage :=
  match image.partialColsBitmap with
  | some bitmap =>
    if isJsonDiff then
      { image with
        hasAnyJsonDiff := true
        partialColsBitmap := some (setBit bitmap image.jsonColIndex)
        jsonColIndex := image.jsonColIndex + 1 }
    else { image with jsonColIndex := image.jsonColIndex + 1 }
  | none => { image with jsonColIndex := image.jsonColIndex + 1 }

def serializeAfter (isUpdate : Bool) (index : ℕ) :
    List ColMeta → List RowValue → AfterImage → Option AfterImage
  | [], _, image => some image
  | _ :: _, [], _ => none
  | col :: cols, value :: values, image =>
    let isJsonDiff := isUpdate && value.data.isSome && value.isJsonDiff
    let converted :=
      match value.data with
      | none => some { image with bitmap := setBit image.bitmap index }
      | some data =>
        (getColumnValBytes runtime col data isJsonDiff).map fun pushed =>
          { image with toRowImage := image.toRowImage.push pushed }
    converted.bind fun image =>
      serializeAfter isUpdate (index + 1) cols values
        (if col.type = .json then image.passJson isJsonDiff else image)

inductive RowsEventType where
  | insert
  | delete
  | update
deriving DecidableEq

/-- What `col_val_bytes` leaves. -/
structure ColValBytes where
  before : RowImage
  after : RowImage
  /-- The bitmap of the differences and its size, if there is any difference. -/
  partialCols : Option (Bytes × ℕ)
  /-- What it returns. -/
  colBytes : ℕ

section ColVal

variable (rowsEventType : RowsEventType) (cols : List ColMeta) (oldCols newCols : List RowValue)

def emptyImage : RowImage where
  bitmap := fillBitmap cols.length (fixedLen cols.length)

def jsonColCount : ℕ :=
  cols.countP fun col => col.type = .json

/-- The bitmap of the differences, before any of them is known. -/
def emptyPartialCols : Option Bytes :=
  if rowsEventType = .update ∧ jsonColCount cols ≠ 0 then
    some (fillBitmap (jsonColCount cols) (fixedLen (jsonColCount cols)))
  else none

def beforeImage : Option RowImage :=
  if rowsEventType = .insert then some (emptyImage cols)
  else serializeBefore runtime 0 cols oldCols (emptyImage cols)

def afterImage : Option AfterImage :=
  let image : AfterImage :=
    { emptyImage cols with partialColsBitmap := emptyPartialCols rowsEventType cols }
  if rowsEventType = .delete then some image
  else serializeAfter runtime (rowsEventType = .update) 0 cols newCols image

/-- `col_val_bytes`.  Without any difference the bitmap of the differences is freed. -/
def colValBytes : Option ColValBytes :=
  (beforeImage runtime rowsEventType cols oldCols).bind fun before =>
    (afterImage runtime rowsEventType cols newCols).map fun after =>
      { before
        after := after.toRowImage
        partialCols :=
          if after.hasAnyJsonDiff then
            after.partialColsBitmap.map (·, fixedLen (jsonColCount cols))
          else none
        colBytes := before.pos + after.pos }

end ColVal

end Serialize

/-- The bytes of the row are as many as were counted, and the bitmap has a bit for every
column. -/
structure RowImage.Sized (image : RowImage) (colCount : ℕ) : Prop where
  row : image.row.length = image.pos
  bitmap : image.bitmap.length = fixedLen colCount

/-- The columns whose conversions return what they push. -/
def ColMeta.Convertible (col : ColMeta) : Prop :=
  col.type ≠ .null ∧ col.type ≠ .geometry

/-- Every value that is converted reports the number of bytes it takes. -/
def RowReports (runtime : Runtime) (cols : List ColMeta) (values : List RowValue) : Prop :=
  ∀ pair ∈ cols.zip values, ∀ data, pair.2.data = some data → pair.1.Reports runtime data

section Sized

variable {runtime : Runtime} {cols : List ColMeta} {values oldCols newCols : List RowValue}
  {colCount : ℕ}

theorem RowReports.of_convertible (hcols : ∀ col ∈ cols, col.Convertible)
    (values : List RowValue) : RowReports runtime cols values := by
  intro pair hpair data _
  obtain ⟨hnull, hgeometry⟩ := hcols pair.1 (of_mem_zip hpair).1
  exact ⟨hnull, fun heq => absurd heq hgeometry⟩

theorem rowReports_cons {col : ColMeta} {value : RowValue} :
    RowReports runtime (col :: cols) (value :: values) ↔
      (∀ data, value.data = some data → col.Reports runtime data) ∧
        RowReports runtime cols values := by
  rw [RowReports, zip_cons_cons, forall_mem_cons]
  rfl

theorem RowImage.Sized.push {image : RowImage} (himage : image.Sized colCount) {pushed : Pushed}
    (hreal : pushed.Real) : (image.push pushed).Sized colCount := by
  refine ⟨?_, himage.bitmap⟩
  rw [RowImage.push, length_append, himage.row, hreal]

theorem RowImage.Sized.setBit {image : RowImage} (himage : image.Sized colCount) (index : ℕ) :
    RowImage.Sized { image with bitmap := DataType.setBit image.bitmap index } colCount :=
  ⟨himage.row, by rw [length_setBit, himage.bitmap]⟩

/-- The size of the bitmap of the differences does not change either. -/
structure AfterImage.Sized (image : AfterImage) (colCount jsonColCount : ℕ) : Prop where
  rowImage : image.toRowImage.Sized colCount
  partialCols : ∀ bitmap, image.partialColsBitmap = some bitmap →
    bitmap.length = fixedLen jsonColCount

theorem AfterImage.toRowImage_passJson (image : AfterImage) (isJsonDiff : Bool) :
    (image.passJson isJsonDiff).toRowImage = image.toRowImage := by
  rw [passJson]
  split
  · split_ifs <;> rfl
  · rfl

theorem AfterImage.toRowImage_passed (image : AfterImage) (col : ColMeta) (isJsonDiff : Bool) :
    (if col.type = .json then image.passJson isJsonDiff else image).toRowImage =
      image.toRowImage := by
  split_ifs
  · exact toRowImage_passJson _ _
  · rfl

theorem AfterImage.Sized.passJson {image : AfterImage} {jsonColCount : ℕ}
    (himage : image.Sized colCount jsonColCount) (isJsonDiff : Bool) :
    (image.passJson isJsonDiff).Sized colCount jsonColCount := by
  refine ⟨by rw [toRowImage_passJson]; exact himage.rowImage, ?_⟩
  intro bitmap hbitmap
  rw [AfterImage.passJson] at hbitmap
  split at hbitmap
  · rename_i found hfound
    split_ifs at hbitmap
    · cases hbitmap
      rw [length_setBit, himage.partialCols found hfound]
    · exact himage.partialCols bitmap hbitmap
  · exact himage.partialCols bitmap hbitmap

theorem serializeAfter_sized (hvalues : RowReports runtime cols values) {isUpdate : Bool}
    {index jsonColCount : ℕ} {image final : AfterImage} (himage : image.Sized colCount jsonColCount)
    (hserialize : serializeAfter runtime isUpdate index cols values image = some final) :
    final.Sized colCount jsonColCount := by
  induction cols generalizing index values image with
  | nil =>
    cases hserialize
    exact himage
  | cons col cols ih =>
    cases values with
    | nil => cases hserialize
    | cons value values =>
      rw [rowReports_cons] at hvalues
      obtain ⟨converted, hconverted, hrest⟩ := bind_eq_some_iff.mp hserialize
      have hsized : converted.Sized colCount jsonColCount := by
        cases hdata : value.data with
        | none =>
          rw [hdata] at hconverted
          cases hconverted
          exact ⟨himage.rowImage.setBit index, himage.partialCols⟩
        | some data =>
          rw [hdata] at hconverted
          obtain ⟨pushed, hbytes, rfl⟩ := map_eq_some_iff.mp hconverted
          have hreal := (getColumnValBytes_real_iff hbytes).mpr (hvalues.1 data hdata)
          exact ⟨himage.rowImage.push hreal, himage.partialCols⟩
      refine ih hvalues.2 ?_ hrest
      split_ifs
      · exact hsized.passJson _
      · exact hsized

/-- The two loops make the same image of a row without differences. -/
theorem serializeBefore_eq (index : ℕ) (image : AfterImage) :
    serializeBefore runtime index cols values image.toRowImage =
      (serializeAfter runtime false index cols values image).map AfterImage.toRowImage := by
  induction cols generalizing index values image with
  | nil => rfl
  | cons col cols ih =>
    cases values with
    | nil => rfl
    | cons value values =>
      rw [serializeBefore, serializeAfter]
      cases value.data with
      | none => rw [bind_some, ← ih, AfterImage.toRowImage_passed]
      | some data =>
        simp only [Bool.false_and]
        cases getColumnValBytes runtime col data false with
        | none => rfl
        | some pushed => rw [map_some, bind_some, bind_some, ← ih, AfterImage.toRowImage_passed]

theorem exists_serializeAfter {index : ℕ} {image final : RowImage}
    (hserialize : serializeBefore runtime index cols values image = some final) :
    ∃ after, serializeAfter runtime false index cols values
        { image with partialColsBitmap := none } = some after ∧ after.toRowImage = final :=
  map_eq_some_iff.mp ((serializeBefore_eq index _).symm.trans hserialize)

structure ColValBytes.Sized (bytes : ColValBytes) (colCount : ℕ) : Prop where
  before : bytes.before.Sized colCount
  after : bytes.after.Sized colCount
  partialCols : ∀ bitmap partialColsBytes, bytes.partialCols = some (bitmap, partialColsBytes) →
    bitmap.length = partialColsBytes
  colBytes : bytes.colBytes = bytes.before.pos + bytes.after.pos

theorem sized_emptyImage (cols : List ColMeta) : (emptyImage cols).Sized cols.length :=
  ⟨rfl, length_fillBitmap _⟩

theorem beforeImage_sized (hvalues : RowReports runtime cols oldCols) {rowsEventType : RowsEventType}
    {before : RowImage} (hbefore : beforeImage runtime rowsEventType cols oldCols = some before) :
    before.Sized cols.length := by
  rw [beforeImage] at hbefore
  split_ifs at hbefore
  · cases hbefore
    exact sized_emptyImage cols
  · obtain ⟨after, hafter, rfl⟩ := exists_serializeAfter hbefore
    have hstart : AfterImage.Sized { emptyImage cols with partialColsBitmap := none } cols.length 0 :=
      ⟨sized_emptyImage cols, nofun⟩
    exact (serializeAfter_sized hvalues hstart hafter).rowImage

theorem afterImage_sized (hvalues : RowReports runtime cols newCols) {rowsEventType : RowsEventType}
    {after : AfterImage} (hafter : afterImage runtime rowsEventType cols newCols = some after) :
    after.Sized cols.length (jsonColCount cols) := by
  have hstart : AfterImage.Sized
      { emptyImage cols with partialColsBitmap := emptyPartialCols rowsEventType cols }
      cols.length (jsonColCount cols) := by
    refine ⟨sized_emptyImage cols, ?_⟩
    intro bitmap hbitmap
    obtain ⟨-, hfilled⟩ := ite_none_right_eq_some.mp hbitmap
    cases hfilled
    exact length_fillBitmap _
  rw [afterImage] at hafter
  split_ifs at hafter
  · cases hafter
    exact hstart
  · exact serializeAfter_sized hvalues hstart hafter

section Sized

variable {rowsEventType : RowsEventType} {bytes : ColValBytes}
  (hbytes : colValBytes runtime rowsEventType cols oldCols newCols = some bytes)

include hbytes

theorem ColValBytes.sized_of_reports (hold : RowReports runtime cols oldCols)
    (hnew : RowReports runtime cols newCols) : bytes.Sized cols.length := by
  obtain ⟨before, hbefore, hrest⟩ := bind_eq_some_iff.mp hbytes
  obtain ⟨after, hafter, rfl⟩ := map_eq_some_iff.mp hrest
  have hafterSized := afterImage_sized hnew hafter
  refine ⟨beforeImage_sized hold hbefore, hafterSized.rowImage, ?_, rfl⟩
  intro bitmap partialColsBytes hpartial
  obtain ⟨-, hkept⟩ := ite_none_right_eq_some.mp hpartial
  obtain ⟨found, hfound, heq⟩ := map_eq_some_iff.mp hkept
  obtain ⟨rfl, rfl⟩ := Prod.mk.inj heq
  exact hafterSized.partialCols found hfound

theorem colValBytes_sized (hcols : ∀ col ∈ cols, col.Convertible) : bytes.Sized cols.length :=
  ColValBytes.sized_of_reports hbytes (.of_convertible hcols oldCols)
    (.of_convertible hcols newCols)

end Sized

theorem colValBytes_insert {bytes : ColValBytes}
    (hbytes : colValBytes runtime .insert cols oldCols newCols = some bytes) :
    bytes.before.pos = 0 := by
  obtain ⟨before, hbefore, hrest⟩ := bind_eq_some_iff.mp hbytes
  obtain ⟨after, -, rfl⟩ := map_eq_some_iff.mp hrest
  cases hbefore
  rfl

theorem colValBytes_delete {bytes : ColValBytes}
    (hbytes : colValBytes runtime .delete cols oldCols newCols = some bytes) :
    bytes.after.pos = 0 := by
  obtain ⟨before, -, hrest⟩ := bind_eq_some_iff.mp hbytes
  obtain ⟨after, hafter, rfl⟩ := map_eq_some_iff.mp hrest
  cases hafter
  rfl

/-- The number that a conversion returns is the number of bytes it pushes for exactly the
values that report it, and a row of such values is as long as the images say. -/
theorem reportedSizes_real (runtime : Runtime) :
    (∀ col data isJsonDiff pushed, getColumnValBytes runtime col data isJsonDiff = some pushed →
        (pushed.Real ↔ col.Reports runtime data)) ∧
    ∀ rowsEventType cols oldCols newCols bytes,
      colValBytes runtime rowsEventType cols oldCols newCols = some bytes →
        RowReports runtime cols oldCols → RowReports runtime cols newCols →
          bytes.before.row.length = bytes.before.pos ∧
            bytes.after.row.length = bytes.after.pos := by
  refine ⟨fun col data isJsonDiff pushed => getColumnValBytes_real_iff, ?_⟩
  intro rowsEventType cols oldCols newCols bytes hbytes hold hnew
  have hsized := ColValBytes.sized_of_reports hbytes hold hnew
  exact ⟨hsized.before.row, hsized.after.row⟩

end Sized

def sampleCols : List ColMeta :=
  [{ type := .tiny }, { type := .geometry }]

def sampleValues : List RowValue :=
  [⟨some ['7'], false⟩, ⟨some ['S', 'R', 'I', 'D', '=', '4', ';', 'P'], false⟩]

theorem rowReports_sample : RowReports sampleRuntime sampleCols sampleValues := by
  intro pair hpair data hdata
  have hpairs : pair = (⟨.tiny, 0, 0, 0, [], [], false⟩, ⟨some ['7'], false⟩) ∨
      pair = (⟨.geometry, 0, 0, 0, [], [], false⟩,
        ⟨some ['S', 'R', 'I', 'D', '=', '4', ';', 'P'], false⟩) := by
    simpa [sampleCols, sampleValues] using hpair
  rcases hpairs with rfl | rfl
  · exact ⟨by decide, fun heq => by cases heq⟩
  · cases hdata
    exact ⟨by decide, fun _ => ⟨(4, [1]), by decide⟩⟩

/-- The number takes a byte, and the geometry nine. -/
theorem reportedSizes_sample :
    Pushed.Real (1, [7]) ∧ ∃ bytes,
      colValBytes sampleRuntime .insert sampleCols [] sampleValues = some bytes ∧
        bytes.after.pos = 10 ∧ bytes.after.row.length = bytes.after.pos := by
  have hreal := ((reportedSizes_real sampleRuntime).1 { type := .tiny } ['7'] false (1, [7])
    (by decide)).mpr ⟨by decide, fun heq => by cases heq⟩
  refine ⟨hreal, _, rfl, by decide, ?_⟩
  exact ((reportedSizes_real sampleRuntime).2 .insert sampleCols [] sampleValues _ rfl
    (fun pair hpair => by simp at hpair) rowReports_sample).2

/-- A column of the type NULL returns one, and a geometry whose number cannot be read
returns the largest number; neither pushes anything. -/
theorem not_reportedSizes_null :
    getColumnValBytes sampleRuntime { type := .null } [] false = some (1, []) ∧
      getColumnValBytes sampleRuntime { type := .geometry } ['S', 'R', 'I', 'D', '=', ';'] false =
        some (2 ^ 64 - 1, []) ∧
      ∃ bytes, colValBytes sampleRuntime .insert [{ type := .null }] [] [⟨some [], false⟩] =
        some bytes ∧ bytes.after.pos = 1 ∧ bytes.after.row = [] := by
  refine ⟨rfl, by decide, _, rfl, rfl, rfl⟩

end OblogProxy.DataType
