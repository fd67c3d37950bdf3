import OblogProxy.DataType.JsonParser

/-!
# Binary JSON round trip

What a document may hold and where its values are placed.  The documented reader finds
every value that `JsonParser` encodes, scalars and containers, behind the entries and
inlined, and the sizes and offsets in its containers are those of the bytes.
-/

namespace OblogProxy.DataType

open Bytes Event JsonParser JsonFormat List Option

/-- Documents of at most `levels` nested containers, with 64-bit numbers and keys
that fit their entries. -/
def JsonValue.Encodable : ℕ → JsonValue → Prop
  | _, .int number => -2 ^ 63 ≤ number ∧ number < 2 ^ 64
  | 0, .array _ => False
  | 0, .object _ => False
  | levels + 1, .array elements => ∀ value ∈ elements, value.Encodable levels
  | levels + 1, .object members =>
    ∀ member ∈ members, member.1.length ≤ 65535 ∧ 0 ∉ member.1 ∧ member.2.Encodable levels
  | _, .null => True
  | _, .bool _ => True
  | _, .double _ => True
  | _, .string _ => True

/-- The values of a document with the depth at which they are encoded. -/
inductive JsonValue.Nested (document : JsonValue) : ℕ → JsonValue → Prop where
  | root : Nested document 1 document
  | element {depth : ℕ} {elements : List JsonValue} {value : JsonValue}
      (hparent : Nested document depth (.array elements)) (hmem : value ∈ elements) :
      Nested document (depth + 1) value
  | member {depth : ℕ} {members : List (Bytes × JsonValue)} {member : Bytes × JsonValue}
      (hparent : Nested document depth (.object members)) (hmem : member ∈ members) :
      Nested document (depth + 1) member.2

/-- The bytes of a value at a depth, without its type. -/
def content (depth : ℕ) (value : JsonValue) : Bytes :=
  (parseNestedObject depth value).content

/-- The offset in an entry is that of the bytes of the value, all inside the
container. -/
def EntryPlaced (depth : ℕ) (container : Bytes) (pos : ℕ) (value : JsonValue) : Prop :=
  shouldInlineValue true value = none →
    let offset := loadLE (slice container (pos + 1) 4)
    let part := content (depth + 1) value
    offset + part.length ≤ container.length ∧ slice container offset part.length = part

/-- The key of an entry is at its offset, inside the container. -/
def KeyPlaced (container : Bytes) (pos : ℕ) (key : Bytes) : Prop :=
  let offset := loadLE (slice container pos 4)
  let length := loadLE (slice container (pos + 4) 2)
  offset + length ≤ container.length ∧ slice container offset length = key

/-- The size field of a container is its length, and its entries are placed. -/
def ContainerPlaced (depth : ℕ) : JsonValue → Prop
  | .array elements =>
    let container := content depth (.array elements)
    loadLE (slice container 4 4) = container.length ∧
      ∀ index (hindex : index < elements.length),
        EntryPlaced depth container (8 + 5 * index) elements[index]
  | .object members =>
    let container := content depth (.object members)
    loadLE (slice container 4 4) = container.length ∧
      ∀ index (hindex : index < members.length),
        KeyPlaced container (8 + 6 * index) members[index].1 ∧
        EntryPlaced depth container (8 + 6 * members.length + 5 * index) members[index].2
  | _ => True

@[simp]
theorem length_storeInt (width : ℕ) (number : ℤ) : (storeInt width number).length = width :=
  length_storeLE _ _

theorem loadLE_storeInt (width : ℕ) (number : ℤ) :
    (loadLE (storeInt width number) : ℤ) = number % 256 ^ width := by
  have hpos : (0 : ℤ) < 256 ^ width := by positivity
  have hnonneg := Int.emod_nonneg number hpos.ne'
  have hlt := Int.emod_lt_of_pos number hpos
  rw [storeInt, loadLE_storeLE_of_lt, Int.toNat_of_nonneg hnonneg]
  zify
  rwa [Int.toNat_of_nonneg hnonneg]

variable {width : ℕ} {number : ℤ}

theorem loadInt_storeInt (hlow : -256 ^ width ≤ 2 * number) (hhigh : 2 * number < 256 ^ width) :
    loadInt (storeInt width number) = number := by
  have hload := loadLE_storeInt width number
  have hmod : number % 256 ^ width = number ∨ number % 256 ^ width = number + 256 ^ width := by
    rcases lt_or_ge number 0 with hneg | hnonneg
    · right
      rw [← Int.add_emod_right, Int.emod_eq_of_lt (by omega) (by omega)]
    · left
      exact Int.emod_eq_of_lt hnonneg (by omega)
  have hsize : ((256 ^ width : ℕ) : ℤ) = 256 ^ width := by rfl
  rw [loadInt, length_storeInt]
  split_ifs with hsmall <;> rcases hmod with hmod | hmod <;> omega

theorem fillValue_natCast {value : ℕ} (hvalue : value < 2 ^ 32) :
    fillValue true value = storeLE 4 value := by
  rw [fillValue, if_pos rfl, storeInt, Int.emod_eq_of_lt (by omega) (by omega), Int.toNat_natCast]

theorem fillValue_short {value : ℕ} (hvalue : value < 2 ^ 16) :
    fillValue false value = storeLE 2 value := by
  rw [fillValue, if_neg (by decide), storeInt, Int.emod_eq_of_lt (by omega) (by omega),
    Int.toNat_natCast]

@[simp]
theorem length_fillValue_true (value : ℤ) : (fillValue true value).length = 4 := rfl

@[simp]
theorem length_fillValue_false (value : ℤ) : (fillValue false value).length = 2 := rfl

theorem readField_append {bytes : Bytes} (read : Bytes → Option JsonValue) (rest : Bytes)
    (hlength : bytes.length = width) : readField width read (bytes ++ rest) = read bytes := by
  rw [readField, readAt_of_drop (drop_zero) hlength, bind_some]

theorem readVariableLength_append (length : ℕ) (rest : Bytes) :
    readVariableLength (appendVariableLength length ++ rest) = some (length, rest) := by
  induction length using Nat.strong_induction_on with
  | _ length ih =>
    rw [appendVariableLength]
    split_ifs with hshort
    · have hbyte : (UInt8.ofNat length).toNat = length := by
        rw [UInt8.toNat_ofNat', Nat.mod_eq_of_lt (by omega)]
      simp [readVariableLength, hbyte, hshort]
    · have hbyte : (UInt8.ofNat (length % 128 + 128)).toNat = length % 128 + 128 := by
        rw [UInt8.toNat_ofNat', Nat.mod_eq_of_lt (by omega)]
      have hsum : (length % 128 + 128) % 128 + 128 * (length / 128) = length := by omega
      rw [cons_append, readVariableLength, hbyte, if_neg (by omega),
        ih (length / 128) (by omega), map_some, hsum]

theorem appendVariableLength_ne_nil (length : ℕ) : appendVariableLength length ≠ [] := by
  rw [appendVariableLength]
  split_ifs <;> simp

theorem exists_storeInt_add (low high : ℕ) (number : ℤ) :
    ∃ rest, storeInt (low + high) number = storeInt low number ++ rest := by
  have hpos : (0 : ℤ) < 256 ^ (low + high) := by positivity
  have hmod : (number % 256 ^ (low + high)).toNat % 256 ^ low = (number % 256 ^ low).toNat := by
    zify
    rw [Int.toNat_of_nonneg (Int.emod_nonneg _ hpos.ne'),
      Int.toNat_of_nonneg (Int.emod_nonneg _ (by positivity)),
      Int.emod_emod_of_dvd _ (pow_dvd_pow 256 (Nat.le_add_right low high))]
  exact ⟨_, by rw [storeInt, storeLE_add, ← storeLE_mod low, hmod, storeInt]⟩

variable {type : UInt8}

theorem decodeScalar_signed (rest : Bytes)
    (htype : (type, width) ∈ [(jsonbTypeInt16, 2), (jsonbTypeInt32, 4), (jsonbTypeInt64, 8)])
    (hlow : -256 ^ width ≤ 2 * number) (hhigh : 2 * number < 256 ^ width) :
    decodeScalar type (storeInt width number ++ rest) = some (.int number) := by
  have hdecode : decodeScalar type (storeInt width number ++ rest) =
      readField width (fun bytes => some (.int (loadInt bytes)))
        (storeInt width number ++ rest) := by
    simp only [mem_cons, Prod.mk.injEq, not_mem_nil, or_false] at htype
    rcases htype with ⟨rfl, rfl⟩ | ⟨rfl, rfl⟩ | ⟨rfl, rfl⟩ <;> rfl
  rw [hdecode, readField_append _ rest (length_storeInt _ _), loadInt_storeInt hlow hhigh]

theorem decodeScalar_unsigned (rest : Bytes) (hlow : 0 ≤ number) (hhigh : number < 2 ^ 64) :
    decodeScalar jsonbTypeUint64 (storeInt 8 number ++ rest) = some (.int number) := by
  have hdecode : decodeScalar jsonbTypeUint64 (storeInt 8 number ++ rest) =
      readField 8 (fun bytes => some (.int (loadLE bytes))) (storeInt 8 number ++ rest) := rfl
  rw [hdecode, readField_append _ rest (length_storeInt _ _),
    loadLE_storeInt, Int.emod_eq_of_lt hlow (by omega)]

/-- A scalar is read back from its bytes, with the offset that was returned for it. -/
structure ScalarRead (element : Element) (value : JsonValue) : Prop where
  read : ∀ rest, decodeScalar element.type (element.content ++ rest) = some value
  offset : element.offset = element.content.length
  scalar : element.type ≠ jsonbTypeLargeArray ∧ element.type ≠ jsonbTypeLargeObject

variable {value : JsonValue}

theorem scalarRead_mk {bytes : Bytes} {offset : ℕ}
    (hscalar : type ≠ jsonbTypeLargeArray ∧ type ≠ jsonbTypeLargeObject)
    (hoffset : bytes.length = offset)
    (hread : ∀ rest, decodeScalar type (bytes ++ rest) = some value) :
    ScalarRead ⟨type, bytes, offset⟩ value :=
  ⟨hread, hoffset.symm, hscalar⟩

theorem scalarRead_parseNumber (hlow : -2 ^ 63 ≤ number) (hhigh : number < 2 ^ 64) :
    ScalarRead (parseNumber number) (.int number) := by
  rw [parseNumber]
  split_ifs with hint hint16 hint64 huint huint16 huint64
  all_goals
    simp only [isInt, isInt16, isInt64, isUint, isUint64, decide_eq_true_eq] at *
  · exact scalarRead_mk (by decide) (length_storeInt _ _) fun rest =>
      decodeScalar_signed rest (by simp) (by omega) (by omega)
  · exact scalarRead_mk (by decide) (length_storeInt _ _) fun rest =>
      decodeScalar_signed rest (by simp) (by omega) (by omega)
  · exact scalarRead_mk (by decide) (length_storeInt _ _) fun rest =>
      decodeScalar_signed rest (by simp) (by omega) (by omega)
  -- an unsigned number of 32 bits is an `int64_t` before it is tried as unsigned
  · omega
  · omega
  · exact scalarRead_mk (by decide) (length_storeInt _ _) fun rest =>
      decodeScalar_unsigned rest (by omega) hhigh
  · omega

theorem scalarRead_parseString (text : Bytes) :
    ScalarRead (parseString text) (.string text) := by
  refine scalarRead_mk (by decide) length_append fun rest => ?_
  have hdecode : ∀ data, decodeScalar jsonbTypeString data =
      (readVariableLength data).bind fun read =>
        readField read.1 (fun bytes => some (.string bytes)) read.2 := fun _ => rfl
  rw [hdecode, append_assoc, readVariableLength_append, bind_some]
  exact readField_append _ rest rfl

theorem scalarRead_double (word : UInt64) :
    ScalarRead ⟨jsonbTypeDouble, storeLE 8 word.toNat, 8⟩ (.double word) := by
  refine scalarRead_mk (by decide) (length_storeLE _ _) fun rest => ?_
  have hdecode : ∀ data, decodeScalar jsonbTypeDouble data =
      readField 8 (fun bytes => some (.double (UInt64.ofNat (loadLE bytes)))) data := fun _ => rfl
  rw [hdecode, readField_append _ rest (length_storeLE _ _),
    loadLE_storeLE_of_lt (word.toNat_lt.trans_le (by decide)), UInt64.ofNat_toNat]

theorem scalarRead_literal {code : ℕ} (hcode : code < 256)
    (hvalue : decodeLiteral code = some value) :
    ScalarRead ⟨jsonbTypeLiteral, storeLE 1 code, 1⟩ value := by
  refine scalarRead_mk (by decide) (length_storeLE _ _) fun rest => ?_
  have hdecode : ∀ data, decodeScalar jsonbTypeLiteral data =
      readField 1 (fun bytes => decodeLiteral (loadLE bytes)) data := fun _ => rfl
  rw [hdecode, readField_append _ rest (length_storeLE _ _),
    loadLE_storeLE_of_lt (by omega), hvalue]

/-- The numbers that are inlined are those of an `int`. -/
theorem shouldInlineValue_int (number : ℤ) :
    shouldInlineValue true (.int number) =
      if isInt number then some (if isInt16 number then jsonbTypeInt16 else jsonbTypeInt32, number)
      else none := by
  rw [shouldInlineValue]
  by_cases hint : isInt number = true
  · have hfits : (isInt16 number || (true && isInt32 number)) = true := by
      simp only [isInt, isInt32, Bool.true_and, Bool.or_eq_true] at hint ⊢
      exact Or.inr hint
    simp only [hint, hfits, if_true]
  · rw [if_neg hint, if_neg hint]
    by_cases huint : isUint number = true
    · have hwide : (isUint16 (number.bmod (2 ^ 32) % 2 ^ 64) ||
          (true && isUint32 (number.bmod (2 ^ 32) % 2 ^ 64))) = false := by
        simp only [isInt, isUint, isUint16, isUint32, decide_eq_true_eq, Bool.true_and,
          Bool.or_eq_false_iff, decide_eq_false_iff_not] at *
        rw [Int.bmod_def]
        split_ifs <;> omega
      simp only [huint, hwide, Bool.false_eq_true, if_false, if_true]
    · rw [if_neg huint]

theorem decodeScalar_inlined {inlinedValue : ℤ}
    (hinline : shouldInlineValue true value = some (type, inlinedValue)) :
    isInlined type = true ∧ decodeScalar type (fillValue true inlinedValue) = some value := by
  cases value with
  | null =>
    obtain ⟨rfl, rfl⟩ := Prod.mk.inj (some.inj hinline)
    exact ⟨by decide, rfl⟩
  | bool value =>
    obtain ⟨rfl, rfl⟩ := Prod.mk.inj (some.inj hinline)
    cases value <;> exact ⟨by decide, rfl⟩
  | int number =>
    rw [shouldInlineValue_int] at hinline
    split_ifs at hinline with hint hint16
    all_goals
      obtain ⟨rfl, rfl⟩ := Prod.mk.inj (some.inj hinline)
      simp only [isInt, isInt16, decide_eq_true_eq] at hint hint16
    · obtain ⟨rest, hrest⟩ := exists_storeInt_add 2 2 number
      refine ⟨by decide, ?_⟩
      rw [fillValue, if_pos rfl, hrest]
      exact decodeScalar_signed rest (by simp) (by omega) (by omega)
    · refine ⟨by decide, ?_⟩
      rw [fillValue, if_pos rfl, ← append_nil (storeInt 4 number)]
      exact decodeScalar_signed [] (by simp) (by omega) (by omega)
  | double word => simp [shouldInlineValue] at hinline
  | string text => simp [shouldInlineValue] at hinline
  | array elements => simp [shouldInlineValue] at hinline
  | object members => simp [shouldInlineValue] at hinline

variable {levels : ℕ}

/-- A value that is not inlined has bytes, under a type that is not inlined. -/
theorem parseNestedObject_of_not_inlined (depth : ℕ) (hencodable : value.Encodable levels)
    (hinline : shouldInlineValue true value = none) :
    isInlined (parseNestedObject depth value).type = false ∧ content depth value ≠ [] := by
  rw [content]
  cases value with
  | null => simp [shouldInlineValue] at hinline
  | bool value => simp [shouldInlineValue] at hinline
  | int number =>
    rw [shouldInlineValue_int] at hinline
    have hwide : isInt number = false := by
      by_contra hint
      simp [hint] at hinline
    have hrange : -2 ^ 63 ≤ number ∧ number < 2 ^ 64 := by
      cases levels <;> exact hencodable
    rw [parseNestedObject, parseNumber, hwide]
    by_cases hint64 : isInt64 number = true
    · simp only [hint64, if_true, Bool.false_eq_true, if_false]
      exact ⟨rfl, cons_ne_nil _ _⟩
    · simp only [isInt64, isUint, isUint64, decide_eq_true_eq] at hint64 ⊢
      rw [if_neg (by decide), if_neg hint64, if_neg (by omega), if_pos (by omega)]
      exact ⟨rfl, cons_ne_nil _ _⟩
  | double word =>
    exact ⟨rfl, cons_ne_nil _ _⟩
  | string text =>
    refine ⟨rfl, append_ne_nil_of_left_ne_nil (appendVariableLength_ne_nil _) _⟩
  | array elements =>
    rw [parseNestedObject]
    split_ifs
    · exact ⟨rfl, cons_ne_nil _ _⟩
    · exact ⟨rfl, cons_ne_nil _ _⟩
  | object members =>
    exact ⟨rfl, cons_ne_nil _ _⟩

theorem appendMembers_eq (depth offset : ℕ) (members : List (Bytes × JsonValue)) :
    appendMembers depth offset members = appendElements depth offset (members.map Prod.snd) := by
  induction members generalizing offset with
  | nil => rw [appendMembers, map_nil, appendElements]
  | cons member members ih =>
    obtain ⟨key, value⟩ := member
    rw [appendMembers, map_cons, appendElements]
    cases shouldInlineValue true value with
    | none => simp only [ih]
    | some inlined => simp only [ih]

theorem length_entries (depth offset : ℕ) (values : List JsonValue) :
    (appendElements depth offset values).entries.length = 5 * values.length := by
  induction values generalizing offset with
  | nil => rfl
  | cons value values ih =>
    rw [appendElements]
    cases shouldInlineValue true value <;>
      · simp only [length_cons, length_append, length_fillValue_true, ih]
        omega

/-- The returned offset is the number of bytes. -/
def OffsetExact (depth : ℕ) (value : JsonValue) : Prop :=
  (parseNestedObject depth value).offset = (content depth value).length

theorem offset_appendElements {depth : ℕ} {values : List JsonValue} (offset : ℕ)
    (hexact : ∀ value ∈ values, OffsetExact (depth + 1) value) :
    (appendElements depth offset values).offset =
      offset + (appendElements depth offset values).data.length := by
  induction values generalizing offset with
  | nil => rfl
  | cons value values ih =>
    obtain ⟨hvalue, hrest⟩ := forall_mem_cons.mp hexact
    rw [appendElements]
    cases shouldInlineValue true value with
    | none =>
      simp only [ih _ hrest, length_append]
      rw [hvalue, content]
      omega
    | some inlined => exact ih _ hrest

/-- The entries of the values stand at `pos` and their bytes at `offset`. -/
def Located (depth : ℕ) (container : Bytes) (pos offset : ℕ) (values : List JsonValue) : Prop :=
  (∃ rest, container.drop pos = (appendElements depth offset values).entries ++ rest) ∧
    ∃ rest, container.drop offset = (appendElements depth offset values).data ++ rest

section Entries

variable {depth pos offset : ℕ} {container : Bytes} {value : JsonValue} {values : List JsonValue}

theorem drop_entry {field rest : Bytes} (hfield : field.length = 4)
    (hdrop : container.drop pos = type :: field ++ rest) :
    readAt container pos 1 = some [type] ∧ readAt container (pos + 1) 4 = some field ∧
      container.drop (pos + 5) = rest := by
  have hentry : container.drop pos = [type] ++ (field ++ rest) := hdrop
  have hbehind := drop_add_of_drop hentry rfl
  refine ⟨readAt_of_drop hentry rfl, readAt_of_drop hbehind hfield, ?_⟩
  have hrest := drop_add_of_drop hbehind hfield
  rwa [Nat.add_assoc] at hrest

theorem Located.inlined {inlinedValue : ℤ}
    (hlocated : Located depth container pos offset (value :: values))
    (hinline : shouldInlineValue true value = some (type, inlinedValue)) :
    readAt container pos 1 = some [type] ∧
      readAt container (pos + 1) 4 = some (fillValue true inlinedValue) ∧
      Located depth container (pos + 5) offset values := by
  obtain ⟨⟨entriesRest, hentries⟩, hdata⟩ := hlocated
  rw [appendElements, hinline] at hentries hdata
  simp only [append_assoc] at hentries
  obtain ⟨htype, hfield, hbehind⟩ := drop_entry rfl hentries
  exact ⟨htype, hfield, ⟨_, hbehind⟩, hdata⟩

theorem Located.outlined (hlocated : Located depth container pos offset (value :: values))
    (hinline : shouldInlineValue true value = none) (hexact : OffsetExact (depth + 1) value) :
    readAt container pos 1 = some [(parseNestedObject (depth + 1) value).type] ∧
      readAt container (pos + 1) 4 = some (fillValue true offset) ∧
      (∃ rest, container.drop offset = content (depth + 1) value ++ rest) ∧
      Located depth container (pos + 5) (offset + (content (depth + 1) value).length) values := by
  obtain ⟨⟨entriesRest, hentries⟩, dataRest, hdata⟩ := hlocated
  rw [appendElements, hinline] at hentries hdata
  simp only [append_assoc] at hentries hdata
  rw [hexact] at hentries hdata
  obtain ⟨htype, hfield, hbehind⟩ := drop_entry rfl hentries
  refine ⟨htype, hfield, ⟨_, hdata⟩, ⟨_, hbehind⟩, ?_⟩
  exact ⟨_, drop_add_of_drop hdata rfl⟩

theorem add_length_le_of_drop {part rest : Bytes} (hpart : part ≠ [])
    (hdrop : container.drop offset = part ++ rest) : offset + part.length ≤ container.length := by
  have hlength := congrArg length hdrop
  have hpos := length_pos_iff_ne_nil.mpr hpart
  rw [length_drop, length_append] at hlength
  omega

section Located

variable (hlocated : Located depth container pos offset values)
  (hsize : container.length < 2 ^ 32) (hencodable : ∀ value ∈ values, value.Encodable levels)
  (hexact : ∀ value ∈ values, OffsetExact (depth + 1) value)

include hlocated hsize hencodable hexact

/-- The reader finds all values of a container whose values it can read. -/
theorem decodeEntries_of_located {decode : UInt8 → Bytes → Option JsonValue}
    (hdecode : ∀ value ∈ values, (content (depth + 1) value).length < 2 ^ 32 →
      ∀ rest, decode (parseNestedObject (depth + 1) value).type (content (depth + 1) value ++
      rest) = some value) : decodeEntries decode container values.length pos = some values := by
  induction values generalizing pos offset with
  | nil => rfl
  | cons value values ih =>
    obtain ⟨hvalue, hothers⟩ := forall_mem_cons.mp hencodable
    obtain ⟨hexactValue, hexactRest⟩ := forall_mem_cons.mp hexact
    obtain ⟨hdecodeValue, hdecodeRest⟩ := forall_mem_cons.mp hdecode
    have hbyte : ∀ type : UInt8, UInt8.ofNat (loadLE [type]) = type := by
      simp [loadLE]
    cases hinline : shouldInlineValue true value with
    | some inlined =>
      obtain ⟨htype, hfield, hrest⟩ := hlocated.inlined hinline
      obtain ⟨hisInlined, hscalar⟩ := decodeScalar_inlined hinline
      have hentry : decodeEntry decode container pos = some value := by
        simp [decodeEntry, htype, hfield, hbyte, hisInlined, hscalar]
      rw [length_cons, decodeEntries, hentry, valueEntrySizeLarge,
        ih hrest hothers hexactRest hdecodeRest]
      rfl
    | none =>
      obtain ⟨htype, hfield, ⟨rest, hpart⟩, hrest⟩ := hlocated.outlined hinline hexactValue
      obtain ⟨hnotInlined, hne⟩ := parseNestedObject_of_not_inlined (depth + 1) hvalue hinline
      have hinside := add_length_le_of_drop hne hpart
      have hpos := length_pos_iff_ne_nil.mpr hne
      have hoffset : loadLE (fillValue true offset) = offset := by
        rw [fillValue_natCast (by omega), loadLE_storeLE_of_lt (by omega)]
      have hentry : decodeEntry decode container pos = some value := by
        simp only [decodeEntry, htype, hfield, bind_eq_bind, bind_some, hbyte,
          hnotInlined, Bool.false_eq_true, if_false, hoffset]
        rw [if_pos (by omega), hpart, hdecodeValue (by omega) rest]
      rw [length_cons, decodeEntries, hentry, valueEntrySizeLarge,
        ih hrest hothers hexactRest hdecodeRest]
      rfl

/-- Every entry of the values gives the place of its bytes. -/
theorem entryPlaced_of_located {index : ℕ} (hindex : index < values.length) :
    EntryPlaced depth container (pos + 5 * index) values[index] := by
  induction values generalizing pos offset index with
  | nil => exact absurd hindex (Nat.not_lt_zero _)
  | cons value values ih =>
    obtain ⟨hvalue, hothers⟩ := forall_mem_cons.mp hencodable
    obtain ⟨hexactValue, hexactRest⟩ := forall_mem_cons.mp hexact
    have hlater : ∀ {offset : ℕ}, Located depth container (pos + 5) offset values →
        ∀ later (hlater : later < values.length),
          EntryPlaced depth container (pos + 5 * (later + 1)) values[later] := by
      intro offset hrest later hlater
      have hpos : pos + 5 * (later + 1) = pos + 5 + 5 * later := by omega
      rw [hpos]
      exact ih hrest hothers hexactRest hlater
    cases hinline : shouldInlineValue true value with
    | some inlined =>
      obtain ⟨-, -, hrest⟩ := hlocated.inlined hinline
      cases index with
      | zero =>
        intro hnone
        simp [hinline] at hnone
      | succ later => exact hlater hrest later (Nat.lt_of_succ_lt_succ hindex)
    | none =>
      obtain ⟨-, hfield, ⟨rest, hpart⟩, hrest⟩ := hlocated.outlined hinline hexactValue
      cases index with
      | zero =>
        intro _
        have hne := (parseNestedObject_of_not_inlined (depth + 1) hvalue hinline).2
        have hinside := add_length_le_of_drop hne hpart
        have hoffset : loadLE (slice container (pos + 5 * 0 + 1) 4) = offset := by
          rw [Nat.mul_zero, Nat.add_zero, slice_of_readAt hfield,
            fillValue_natCast (by omega), loadLE_storeLE_of_lt (by omega)]
        simp only [getElem_cons_zero, hoffset]
        exact ⟨hinside, slice_of_drop hpart⟩
      | succ later => exact hlater hrest later (Nat.lt_of_succ_lt_succ hindex)

end Located

end Entries

theorem keyBytes_eq {key : Bytes} (hnul : 0 ∉ key) : keyBytes key = key := by
  rw [keyBytes, QueryEvent.cString, takeWhile_eq_self_iff]
  intro byte hbyte
  simpa using fun heq : byte = 0 => hnul (heq ▸ hbyte)

theorem length_keyEntries (offset : ℕ) (keys : List Bytes) :
    (keyEntries offset keys).length = 6 * keys.length := by
  induction keys generalizing offset with
  | nil => rfl
  | cons key keys ih =>
    rw [keyEntries, length_append, length_append, ih, length_cons,
      length_fillValue_true, length_fillValue_false]
    omega

/-- The entries of the keys stand at `pos` and their bytes at `offset`. -/
structure KeysLocated (container : Bytes) (pos offset : ℕ) (keys : List Bytes) : Prop where
  entries : ∃ rest, container.drop pos = keyEntries offset keys ++ rest
  bytes : ∃ rest, container.drop offset = keys.flatMap keyBytes ++ rest
  inside : offset + (keys.flatMap keyBytes).length ≤ container.length

def KeyFits (key : Bytes) : Prop :=
  key.length ≤ 65535 ∧ 0 ∉ key

section Keys

variable {pos offset : ℕ} {container key : Bytes} {keys : List Bytes}

theorem KeysLocated.cons (hlocated : KeysLocated container pos offset (key :: keys))
    (hkey : KeyFits key) (hsize : container.length < 2 ^ 32) :
    (∃ field, readAt container pos 4 = some field ∧ loadLE field = offset) ∧
      (∃ field, readAt container (pos + 4) 2 = some field ∧ loadLE field = key.length) ∧
      readAt container offset key.length = some key ∧
      offset + key.length ≤ container.length ∧
      KeysLocated container (pos + 6) (offset + key.length) keys := by
  obtain ⟨⟨entriesRest, hentries⟩, ⟨bytesRest, hbytes⟩, hinside⟩ := hlocated
  have hshort : key.length < 2 ^ 16 := by
    have hlength := hkey.1
    omega
  rw [keyEntries, keyBytes_eq hkey.2, append_assoc, append_assoc] at hentries
  rw [flatMap_cons, keyBytes_eq hkey.2, append_assoc] at hbytes
  rw [flatMap_cons, keyBytes_eq hkey.2, length_append] at hinside
  have hlengthField := drop_add_of_drop hentries (length_fillValue_true _)
  have hlater := drop_add_of_drop hlengthField (length_fillValue_false _)
  refine ⟨⟨_, readAt_of_drop hentries (length_fillValue_true _), ?_⟩,
    ⟨_, readAt_of_drop hlengthField (length_fillValue_false _), ?_⟩,
    readAt_of_drop hbytes rfl, by omega, ⟨_, hlater⟩,
    ⟨_, drop_add_of_drop hbytes rfl⟩, by omega⟩
  · rw [fillValue_natCast (by omega), loadLE_storeLE_of_lt (by omega)]
  · rw [fillValue_short hshort, loadLE_storeLE_of_lt (by omega)]

section KeysLocated

variable (hlocated : KeysLocated container pos offset keys) (hsize : container.length < 2 ^ 32)
  (hkeys : ∀ key ∈ keys, KeyFits key)

include hlocated hsize hkeys

theorem readKeys_of_located : readKeys container keys.length pos = some keys := by
  induction keys generalizing pos offset with
  | nil => rfl
  | cons key keys ih =>
    obtain ⟨hkey, hothers⟩ := forall_mem_cons.mp hkeys
    obtain ⟨⟨offsetField, hoffset, hoffsetValue⟩, ⟨lengthField, hlength, hlengthValue⟩, hread, -,
      hrest⟩ := hlocated.cons hkey hsize
    rw [length_cons, readKeys, keyEntrySizeLarge, ih hrest hothers]
    simp [hoffset, hlength, hoffsetValue, hlengthValue, hread]

theorem keyPlaced_of_located {index : ℕ} (hindex : index < keys.length) :
    KeyPlaced container (pos + 6 * index) keys[index] := by
  induction keys generalizing pos offset index with
  | nil => exact absurd hindex (Nat.not_lt_zero _)
  | cons key keys ih =>
    obtain ⟨hkey, hothers⟩ := forall_mem_cons.mp hkeys
    obtain ⟨⟨offsetField, hoffset, hoffsetValue⟩, ⟨lengthField, hlength, hlengthValue⟩, hread,
      hinside, hrest⟩ := hlocated.cons hkey hsize
    cases index with
    | zero =>
      simp only [KeyPlaced, Nat.mul_zero, Nat.add_zero, slice_of_readAt hoffset,
        slice_of_readAt hlength, hoffsetValue, hlengthValue, getElem_cons_zero]
      exact ⟨hinside, slice_of_readAt hread⟩
    | succ later =>
      have hpos : pos + 6 * (later + 1) = pos + 6 + 6 * later := by omega
      rw [hpos]
      exact ih hrest hothers (Nat.lt_of_succ_lt_succ hindex)

end KeysLocated

end Keys

theorem length_container (count : ℕ) (body : Bytes) :
    (container count body).length = 8 + body.length := by
  rw [container, length_append, length_append, length_fillValue_true, length_fillValue_true]

theorem openContainer_container {count : ℕ} {body : Bytes} (rest : Bytes)
    (hcount : count < 2 ^ 32) (hsize : (container count body).length < 2 ^ 32) :
    openContainer (container count body ++ rest) = some (count, container count body) ∧
      loadLE (slice (container count body) 4 4) = (container count body).length := by
  have hlength := length_container count body
  have hfront : ∀ rest, (container count body ++ rest).drop 0 =
      storeLE 4 count ++ (storeLE 4 (8 + body.length) ++ (body ++ rest)) := by
    intro rest
    have hcast : (8 + (body.length : ℤ)) = ((8 + body.length : ℕ) : ℤ) := by
      rfl
    rw [drop_zero, container, hcast, fillValue_natCast hcount, fillValue_natCast (by omega)]
    simp
  have hsizeField : ∀ rest, (container count body ++ rest).drop 4 =
      storeLE 4 (8 + body.length) ++ (body ++ rest) := fun rest =>
    drop_add_of_drop (hfront rest) (length_storeLE 4 _)
  have hload : loadLE (storeLE 4 (8 + body.length)) = (container count body).length := by
    rw [loadLE_storeLE_of_lt (by omega), hlength]
  constructor
  · rw [openContainer, readAt_of_drop (hfront rest) (length_storeLE 4 _),
      readAt_of_drop (hsizeField rest) (length_storeLE 4 _)]
    simp only [bind_eq_bind, bind_some, hload]
    rw [readAt_of_drop drop_zero rfl, loadLE_storeLE_of_lt (by omega)]
    rfl
  · have hslice := slice_of_drop (hsizeField [])
    rw [append_nil, length_storeLE] at hslice
    rw [hslice, hload]

/-- A value is read back from its bytes, and they are as many as was returned. -/
structure ValueRead (levels depth : ℕ) (value : JsonValue) : Prop where
  exact : OffsetExact depth value
  read : (content depth value).length < 2 ^ 32 → ∀ rest,
    decodeValue (levels + 1) (parseNestedObject depth value).type
      (content depth value ++ rest) = some value

variable {levels depth : ℕ} {value : JsonValue}

theorem valueRead_of_scalarRead (hread : ScalarRead (parseNestedObject depth value) value) :
    ValueRead levels depth value where
  exact := hread.offset
  read := fun _ rest => by
    rw [decodeValue, if_neg hread.scalar.1, if_neg hread.scalar.2]
    exact hread.read rest

theorem drop_container (count : ℕ) (body : Bytes) : (container count body).drop 8 = body := by
  exact drop_left' rfl

section Array

variable {depth : ℕ} {elements : List JsonValue}

section Nested

variable (hdepth : depth < jsonDocumentMaxDepth)

include hdepth

theorem content_array :
    content depth (.array elements) = container elements.length
      ((appendElements depth (8 + elements.length * 5) elements).entries ++
        (appendElements depth (8 + elements.length * 5) elements).data) := by
  rw [content, parseNestedObject, if_neg (by omega), valueEntrySizeLarge]

theorem located_array :
    Located depth (content depth (.array elements)) 8 (8 + elements.length * 5) elements := by
  have hbody : (content depth (.array elements)).drop 8 =
      (appendElements depth (8 + elements.length * 5) elements).entries ++
        (appendElements depth (8 + elements.length * 5) elements).data := by
    rw [content_array hdepth, drop_container]
  refine ⟨⟨_, hbody⟩, [], ?_⟩
  rw [append_nil]
  exact drop_add_of_drop hbody ((length_entries _ _ _).trans (Nat.mul_comm _ _))

theorem offsetExact_array (hexact : ∀ value ∈ elements, OffsetExact (depth + 1) value) :
    OffsetExact depth (.array elements) := by
  rw [OffsetExact, content_array hdepth, length_container, parseNestedObject,
    if_neg (by omega), valueEntrySizeLarge]
  simp only [length_append, length_entries]
  rw [offset_appendElements _ hexact]
  omega

/-- The count is small because its entries are in the container. -/
theorem length_elements_lt (hsize : (content depth (.array elements)).length < 2 ^ 32) :
    elements.length < 2 ^ 32 := by
  rw [content_array hdepth, length_container, length_append, length_entries] at hsize
  omega

theorem valueRead_array (hencodable : ∀ value ∈ elements, value.Encodable levels)
    (hread : ∀ value ∈ elements, ValueRead levels (depth + 1) value) :
    ValueRead (levels + 1) depth (.array elements) where
  exact := offsetExact_array hdepth fun value hvalue => (hread value hvalue).exact
  read := by
    intro hsize rest
    have htype : (parseNestedObject depth (.array elements)).type = jsonbTypeLargeArray := by
      rw [parseNestedObject, if_neg (by omega)]
    have hcount := length_elements_lt hdepth hsize
    have hopen : openContainer (content depth (.array elements) ++ rest) =
        some (elements.length, content depth (.array elements)) := by
      rw [content_array hdepth] at hsize ⊢
      exact (openContainer_container rest hcount hsize).1
    have hvalues := decodeEntries_of_located (located_array hdepth) hsize hencodable
      (fun value hvalue => (hread value hvalue).exact) fun value hvalue => (hread value hvalue).read
    rw [decodeValue, htype, if_pos rfl, hopen]
    simp [hvalues]

end Nested

end Array

section Object

variable (depth : ℕ) (members : List (Bytes × JsonValue))

/-- Where the values of an object start, behind its keys. -/
def valuesPos : ℕ :=
  8 + members.length * 11 + ((members.map Prod.fst).flatMap keyBytes).length

def objectValues : Appended :=
  appendElements depth (valuesPos members) (members.map Prod.snd)

/-- The keys stand behind all entries, the values behind the keys. -/
theorem content_object :
    content depth (.object members) = container members.length
      (keyEntries (8 + members.length * 11) (members.map Prod.fst) ++
        ((objectValues depth members).entries ++
          ((members.map Prod.fst).flatMap keyBytes ++ (objectValues depth members).data))) := by
  rw [content, parseNestedObject, keyEntrySizeLarge, valueEntrySizeLarge, objectValues, valuesPos]
  simp [appendMembers_eq]

theorem length_content_object :
    (content depth (.object members)).length =
      valuesPos members + (objectValues depth members).data.length := by
  rw [content_object, length_container, objectValues, valuesPos]
  simp only [length_append, length_keyEntries, length_entries, length_map]
  omega

theorem located_object :
    KeysLocated (content depth (.object members)) 8 (8 + members.length * 11)
        (members.map Prod.fst) ∧
      Located depth (content depth (.object members)) (8 + members.length * 6)
        (valuesPos members) (members.map Prod.snd) := by
  have hbody := congrArg (drop 8) (content_object depth members)
  rw [drop_container] at hbody
  have hkeyEntries : (keyEntries (8 + members.length * 11) (members.map Prod.fst)).length =
      members.length * 6 := by
    rw [length_keyEntries, length_map, Nat.mul_comm]
  have hvalueEntries := drop_add_of_drop hbody hkeyEntries
  have hkeys := drop_add_of_drop hvalueEntries (length_entries _ _ _)
  have hstart : 8 + members.length * 6 + 5 * (members.map Prod.snd).length =
      8 + members.length * 11 := by
    rw [length_map]
    omega
  rw [hstart] at hkeys
  have hlength := length_content_object depth members
  rw [valuesPos] at hlength
  refine ⟨⟨⟨_, hbody⟩, ⟨_, hkeys⟩, by omega⟩, ⟨_, hvalueEntries⟩, [], ?_⟩
  rw [append_nil]
  exact drop_add_of_drop hkeys rfl

variable {depth members}

theorem offsetExact_object
    (hexact : ∀ value ∈ members.map Prod.snd, OffsetExact (depth + 1) value) :
    OffsetExact depth (.object members) := by
  rw [OffsetExact, length_content_object, objectValues, valuesPos, parseNestedObject,
    keyEntrySizeLarge, valueEntrySizeLarge]
  simp only [appendMembers_eq]
  exact offset_appendElements _ hexact

theorem length_members_lt (hsize : (content depth (.object members)).length < 2 ^ 32) :
    members.length < 2 ^ 32 := by
  rw [length_content_object, valuesPos] at hsize
  omega

theorem valueRead_object (hkeys : ∀ key ∈ members.map Prod.fst, KeyFits key)
    (hencodable : ∀ value ∈ members.map Prod.snd, value.Encodable levels)
    (hread : ∀ value ∈ members.map Prod.snd, ValueRead levels (depth + 1) value) :
    ValueRead (levels + 1) depth (.object members) where
  exact := offsetExact_object fun value hvalue => (hread value hvalue).exact
  read := by
    intro hsize rest
    have htype : (parseNestedObject depth (.object members)).type = jsonbTypeLargeObject := by
      rw [parseNestedObject]
    have hcount := length_members_lt hsize
    have hopen : openContainer (content depth (.object members) ++ rest) =
        some (members.length, content depth (.object members)) := by
      exact (openContainer_container rest hcount hsize).1
    obtain ⟨hkeysLocated, hlocated⟩ := located_object depth members
    have hkeysRead := readKeys_of_located hkeysLocated hsize hkeys
    have hvalues := decodeEntries_of_located hlocated hsize hencodable
      (fun value hvalue => (hread value hvalue).exact) fun value hvalue => (hread value hvalue).read
    rw [length_map] at hkeysRead hvalues
    have hzip : (members.map Prod.fst).zip (members.map Prod.snd) = members := by
      rw [← unzip_fst, ← unzip_snd, zip_unzip]
    rw [decodeValue, htype, if_neg (by decide), if_pos rfl, hopen]
    simp [hkeysRead, keyEntrySizeLarge, hvalues, hzip]

end Object

/-- Every value that is no container is read back, at any depth. -/
theorem scalarRead_of_encodable (depth : ℕ) (hencodable : value.Encodable levels)
    (harray : ∀ elements, value ≠ .array elements) (hobject : ∀ members, value ≠ .object members) :
    ScalarRead (parseNestedObject depth value) value := by
  cases value with
  | null =>
    exact scalarRead_literal (by decide) rfl
  | bool value =>
    cases value <;> exact scalarRead_literal (by decide) rfl
  | int number =>
    have hrange : -2 ^ 63 ≤ number ∧ number < 2 ^ 64 := by
      cases levels <;> exact hencodable
    exact scalarRead_parseNumber hrange.1 hrange.2
  | double word =>
    exact scalarRead_double word
  | string text =>
    exact scalarRead_parseString text
  | array elements => exact absurd rfl (harray elements)
  | object members => exact absurd rfl (hobject members)

theorem JsonValue.Encodable.members {members : List (Bytes × JsonValue)}
    (hencodable : (JsonValue.object members).Encodable (levels + 1)) :
    (∀ key ∈ members.map Prod.fst, KeyFits key) ∧
      ∀ value ∈ members.map Prod.snd, value.Encodable levels := by
  constructor
  · intro key hkey
    obtain ⟨member, hmember, rfl⟩ := mem_map.mp hkey
    exact ⟨(hencodable member hmember).1, (hencodable member hmember).2.1⟩
  · intro value hvalue
    obtain ⟨member, hmember, rfl⟩ := mem_map.mp hvalue
    exact (hencodable member hmember).2.2

-- the levels of the document are the fuel of the reader
theorem valueRead_of_encodable (hencodable : value.Encodable levels)
    (hdepth : depth + levels ≤ jsonDocumentMaxDepth) : ValueRead levels depth value := by
  induction levels generalizing depth value with
  | zero =>
    apply valueRead_of_scalarRead (scalarRead_of_encodable depth hencodable ?_ ?_)
    · rintro elements rfl
      exact hencodable
    · rintro members rfl
      exact hencodable
  | succ levels ih =>
    have hbelow : ∀ {value : JsonValue}, value.Encodable levels →
        ValueRead levels (depth + 1) value := fun hvalue => ih hvalue (by omega)
    by_cases harray : ∃ elements, value = .array elements
    · obtain ⟨elements, rfl⟩ := harray
      exact valueRead_array (by omega) hencodable fun value hvalue =>
        hbelow (hencodable value hvalue)
    · by_cases hobject : ∃ members, value = .object members
      · obtain ⟨members, rfl⟩ := hobject
        obtain ⟨hkeys, hvalues⟩ := hencodable.members
        exact valueRead_object hkeys hvalues fun value hvalue => hbelow (hvalues value hvalue)
      · exact valueRead_of_scalarRead (scalarRead_of_encodable depth hencodable
          (not_exists.mp harray) (not_exists.mp hobject))

/-- What holds of every value inside a document that is encoded. -/
structure JsonValue.NestedFits (levels depth : ℕ) (value : JsonValue) : Prop where
  encodable : value.Encodable levels
  levels : depth + levels ≤ jsonDocumentMaxDepth
  size : shouldInlineValue true value = none → (content depth value).length < 2 ^ 32

/-- A value in a container is no longer than the container. -/
theorem size_of_entryPlaced {pos : ℕ} {container : Bytes}
    (hplaced : EntryPlaced depth container pos value) (hsize : container.length < 2 ^ 32)
    (hinline : shouldInlineValue true value = none) :
    (content (depth + 1) value).length < 2 ^ 32 := by
  obtain ⟨hinside, -⟩ := hplaced hinline
  omega

theorem containerPlaced_of_fits (hfits : value.NestedFits levels depth) :
    ContainerPlaced depth value := by
  obtain ⟨hencodable, hdepth, hsize⟩ := hfits
  cases value with
  | array elements =>
    cases levels with
    | zero => exact absurd hencodable id
    | succ levels =>
      have hbelow : depth < jsonDocumentMaxDepth := by omega
      have hlong := hsize rfl
      refine ⟨?_, fun index hindex => ?_⟩
      · have hcount := length_elements_lt hbelow hlong
        rw [content_array hbelow] at hlong ⊢
        exact (openContainer_container [] hcount hlong).2
      · exact entryPlaced_of_located (located_array hbelow) hlong hencodable
          (fun value hvalue =>
            (valueRead_of_encodable (hencodable value hvalue) (by omega)).exact) hindex
  | object members =>
    cases levels with
    | zero => exact absurd hencodable id
    | succ levels =>
      have hlong := hsize rfl
      obtain ⟨hkeys, hvalues⟩ := hencodable.members
      obtain ⟨hkeysLocated, hlocated⟩ := located_object depth members
      refine ⟨?_, fun index hindex => ⟨?_, ?_⟩⟩
      · have hcount := length_members_lt hlong
        exact (openContainer_container [] hcount hlong).2
      · have hkeyIndex : index < (members.map Prod.fst).length := by rwa [length_map]
        have hplaced := keyPlaced_of_located hkeysLocated hlong hkeys hkeyIndex
        rwa [getElem_map] at hplaced
      · have hvalueIndex : index < (members.map Prod.snd).length := by rwa [length_map]
        have hplaced := entryPlaced_of_located hlocated hlong hvalues
          (fun value hvalue =>
            (valueRead_of_encodable (hvalues value hvalue) (by omega)).exact) hvalueIndex
        rwa [getElem_map, Nat.mul_comm members.length 6] at hplaced
  | null => trivial
  | bool value => trivial
  | int number => trivial
  | double word => trivial
  | string text => trivial

theorem nestedFits_of_nested {document : JsonValue} (hencodable : document.Encodable 99)
    (hsize : (parser document).length < 2 ^ 32) (hnested : document.Nested depth value) :
    ∃ levels, value.NestedFits levels depth := by
  induction hnested with
  | root =>
    refine ⟨99, hencodable, by decide, fun _ => ?_⟩
    rw [parser, length_cons] at hsize
    rw [content]
    omega
  | @element depth elements value hparent hmem ih =>
    obtain ⟨levels, hfits⟩ := ih
    have hplaced := containerPlaced_of_fits hfits
    obtain ⟨hparentEncodable, hdepth, hlong⟩ := hfits
    cases levels with
    | zero => exact absurd hparentEncodable id
    | succ levels =>
      obtain ⟨index, hindex, rfl⟩ := mem_iff_getElem.mp hmem
      exact ⟨levels, hparentEncodable _ hmem, by omega,
        size_of_entryPlaced (hplaced.2 index hindex) (hlong rfl)⟩
  | @member depth members member hparent hmem ih =>
    obtain ⟨levels, hfits⟩ := ih
    have hplaced := containerPlaced_of_fits hfits
    obtain ⟨hparentEncodable, hdepth, hlong⟩ := hfits
    cases levels with
    | zero => exact absurd hparentEncodable id
    | succ levels =>
      obtain ⟨index, hindex, rfl⟩ := mem_iff_getElem.mp hmem
      exact ⟨levels, (hparentEncodable _ hmem).2.2, by omega,
        size_of_entryPlaced (hplaced.2 index hindex).2 (hlong rfl)⟩

/-- A document is read back from its encoding, in which every container has its
true size and every offset leads to the bytes of its value. -/
theorem decode_encodedDocument {document : JsonValue} (hencodable : document.Encodable 99)
    (hsize : (parser document).length < 2 ^ 32) :
    decode (parser document) = some document ∧
      ∀ depth value, document.Nested depth value → ContainerPlaced depth value := by
  constructor
  · have hread := (valueRead_of_encodable hencodable (by decide : 1 + 99 ≤ _)).read
    rw [parser, length_cons] at hsize
    have hdecoded := hread (by rw [content]; omega) []
    rwa [append_nil] at hdecoded
  · intro depth value hnested
    obtain ⟨levels, hfits⟩ := nestedFits_of_nested hencodable hsize hnested
    exact containerPlaced_of_fits hfits

def sampleDocument : JsonValue :=
  .object [([97], .array [.int (-5), .null]), ([], .int 3000000000)]

theorem encodable_sampleDocument : sampleDocument.Encodable 99 := by
  simp [sampleDocument, JsonValue.Encodable]

theorem decode_sampleDocument :
    sampleDocument.Encodable 99 ∧ (parser sampleDocument).length < 2 ^ 32 ∧
      decode (parser sampleDocument) = some sampleDocument ∧
      ∀ depth value, sampleDocument.Nested depth value → ContainerPlaced depth value :=
  ⟨encodable_sampleDocument, by decide, decode_encodedDocument encodable_sampleDocument (by decide)⟩

end OblogProxy.DataType
