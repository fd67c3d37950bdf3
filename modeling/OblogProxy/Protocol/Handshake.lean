import OblogProxy.Core.SortedMap
import OblogProxy.Protocol.PacketBufSafety

/-!
# The handshake response

The parser reads the fields of the response one after the other and ignores whether
a read succeeds.  The connection attributes are read in a loop over an unsigned
length from which the number of bytes of each string is subtracted; a string that
cannot be read returns `-1`, so the length grows, and since the read index stays
where it is, every later turn fails in the same way.
-/

namespace OblogProxy.Protocol

open Bytes Gtid Option

def clientConnectWithDb : ℕ := 2 ^ 3

def clientProtocol41 : ℕ := 2 ^ 9

def clientPluginAuth : ℕ := 2 ^ 19

def clientConnectAttrs : ℕ := 2 ^ 20

def clientPluginAuthLenencClientData : ℕ := 2 ^ 21

def hasCapability (capabilities expectedCapability : ℕ) : Bool :=
  capabilities &&& expectedCapability ≠ 0

structure HandshakeResponse where
  user : Bytes
  authResponse : Bytes
  database : Bytes
  clientPluginName : Bytes
  /-- Zero if there are no attributes. -/
  attrsLen : UInt64

namespace PacketBuf

/-- What a variable holds behind a read: its first value if the read fails. -/
def readOr {Value : Type} (default : Value) (read : PacketM (Option (ℕ × Value))) :
    PacketM Value := do
  let taken ← read
  return (taken.map Prod.snd).getD default

def readAuthResponse (clientFlags : ℕ) : PacketM Bytes :=
  if hasCapability clientFlags clientPluginAuthLenencClientData then
    readOr [] readLengthEncodedString
  else do
    let authResponseLength ← readOr 0 readUint1
    readOr [] (readFixedLengthString authResponseLength)

/-- A NUL-terminated field that is there only with its capability. -/
def readOptionalString (clientFlags capability : ℕ) : PacketM Bytes :=
  if hasCapability clientFlags capability then do
    let read ← readNullTerminatedString
    return read.2
  else return []

def readAttrsLen (clientFlags : ℕ) : PacketM UInt64 :=
  if hasCapability clientFlags clientConnectAttrs then do
    let attrsLen ← readOr 0 readUint
    return UInt64.ofNat attrsLen
  else return 0

def readFields (clientFlags : ℕ) : PacketM HandshakeResponse := do
  let _ ← readUint4
  let _ ← readUint1
  let _ ← readSkip 23
  let user ← readNullTerminatedString
  let authResponse ← readAuthResponse clientFlags
  let database ← readOptionalString clientFlags clientConnectWithDb
  let clientPluginName ← readOptionalString clientFlags clientPluginAuth
  let attrsLen ← readAttrsLen clientFlags
  return { user := user.2, authResponse, database, clientPluginName, attrsLen }

/-- The parser gives up, with `none`, only without `client_protocol_41`. -/
def readHandshakeResponse : PacketM (Option HandshakeResponse) := do
  let clientFlags ← readOr 0 readUint4
  if hasCapability clientFlags clientProtocol41 then
    let fields ← readFields clientFlags
    return some fields
  else return none

end PacketBuf

open PacketBuf

/-- The return value of a read, as it is subtracted from an unsigned length. -/
def returned (read : Option (ℕ × Bytes)) : UInt64 :=
  match read with
  | none => -1
  | some (size, _) => UInt64.ofNat size

/-- `strcasecmp(key.c_str(), name) == 0`. -/
def sameIgnoringCase (key : Bytes) (name : Text) : Bool :=
  (key.takeWhile (· ≠ 0)).map (fun byte => (Char.ofNat byte.toNat).toLower) = name

structure AttrsState where
  attrsLen : UInt64
  buf : PacketBuf
  connectAttrs : SortedMap (List ℕ) Bytes := SortedMap.empty
  realHost : Bytes := []
  realPort : Bytes := []

namespace AttrsState

/-- One turn of the loop: a key and a value. -/
def step (state : AttrsState) : AttrsState :=
  let readKey := readLengthEncodedString state.buf
  let readValue := readLengthEncodedString readKey.buf
  let key := (readKey.value.map Prod.snd).getD []
  let value := (readValue.value.map Prod.snd).getD []
  { attrsLen := state.attrsLen - returned readKey.value - returned readValue.value
    buf := readValue.buf
    connectAttrs := state.connectAttrs.emplace (key.map UInt8.toNat) value
    realHost := if sameIgnoringCase key "__client_ip".toList then value else state.realHost
    realPort := if sameIgnoringCase key "__client_addr_port".toList then value else state.realPort }

/-- The loop, `none` when it needs more turns than are given. -/
def loop : ℕ → AttrsState → Option AttrsState
  | 0, state => if state.attrsLen = 0 then some state else none
  | turns + 1, state => if state.attrsLen = 0 then some state else loop turns state.step

end AttrsState

inductive HandshakeOutcome where
  | fail
  | unsupportedPlugin (clientPluginName : Bytes)
  | auth (response : HandshakeResponse) (attrs : AttrsState)
  | ok (response : HandshakeResponse) (attrs : AttrsState)

def mysqlNativePassword : Bytes :=
  "mysql_native_password".toList.map fun char => UInt8.ofNat char.toNat

/-- The response is parsed from the buffer that holds it; `none` when the attribute
loop needs more turns than are given. -/
def processHandshakeResponse (authRequired : Bool) (turns : ℕ) (buf : PacketBuf) :
    Option HandshakeOutcome :=
  let read := readHandshakeResponse buf
  match read.value with
  | none => some .fail
  | some response => do
      let attrs ← AttrsState.loop turns { attrsLen := response.attrsLen, buf := read.buf }
      if authRequired then
        if response.clientPluginName.takeWhile (· ≠ 0) ≠ mysqlNativePassword then
          return .unsupportedPlugin response.clientPluginName
        else return .auth response attrs
      else return .ok response attrs

namespace PacketBuf

/-- A key and a value can both be read. -/
def wholePair (buf : PacketBuf) : Bool :=
  let readKey := readLengthEncodedString buf
  readKey.value.isSome && (readLengthEncodedString readKey.buf).value.isSome

/-- What one turn of the loop takes from the length. -/
def pairReturned (buf : PacketBuf) : UInt64 :=
  let readKey := readLengthEncodedString buf
  returned readKey.value + returned (readLengthEncodedString readKey.buf).value

def afterPair (buf : PacketBuf) : PacketBuf :=
  (readLengthEncodedString (readLengthEncodedString buf).buf).buf

def wholePairs : ℕ → PacketBuf → Bool
  | 0, _ => true
  | count + 1, buf => wholePair buf && wholePairs count buf.afterPair

def pairsReturned : ℕ → PacketBuf → UInt64
  | 0, _ => 0
  | count + 1, buf => pairReturned buf + pairsReturned count buf.afterPair

/-- Within the turns, the announced length is used up by whole attributes, or it is
reached, behind the first attribute that is not whole, by adding two in every
turn. -/
def AttrsEnd (turns : ℕ) (announced : UInt64) (buf : PacketBuf) : Prop :=
  (∃ count ≤ turns, wholePairs count buf ∧ announced = pairsReturned count buf) ∨
    ∃ count more, count + 1 + more ≤ turns ∧ wholePairs count buf ∧ ¬ wholePairs (count + 1) buf ∧
      announced + 2 * UInt64.ofNat more = pairsReturned (count + 1) buf

variable {buf : PacketBuf}

section ErrorMsg

variable (buf : PacketBuf) (errorMsg : Text)

theorem value_readBytes_setErrorMsg (len : ℕ) :
    (readBytes len (buf.setErrorMsg errorMsg)).value = (readBytes len buf).value := by
  rcases buf.readBytes_cases len with ⟨hshort, hread⟩ | ⟨hlen, hread⟩
  · rcases (buf.setErrorMsg errorMsg).readBytes_cases len with ⟨-, hother⟩ | ⟨hlen, -⟩
    · rw [hread, hother]
    · exact absurd hlen (Nat.not_le.mpr hshort)
  · rcases (buf.setErrorMsg errorMsg).readBytes_cases len with ⟨hshort, -⟩ | ⟨-, hother⟩
    · exact absurd hlen (Nat.not_le.mpr hshort)
    · rw [hread, hother]
      rfl

theorem value_readEncoded_setErrorMsg (width : ℕ) :
    (readEncoded width (buf.setErrorMsg errorMsg)).value = (readEncoded width buf).value :=
  congrArg (Option.map _) (value_readBytes_setErrorMsg buf errorMsg (1 + width))

theorem value_readUint_setErrorMsg :
    (readUint (buf.setErrorMsg errorMsg)).value = (readUint buf).value := by
  rcases Nat.lt_or_ge buf.readableBytes 1 with hshort | hreadable
  · rw [readUint, PacketM.bind_apply, PacketM.bind_apply, ensureReadable_short hshort,
      @ensureReadable_short (buf.setErrorMsg errorMsg) _ hshort]
    rfl
  · rw [readUint, PacketM.bind_apply, PacketM.bind_apply, ensureReadable_of_le hreadable,
      @ensureReadable_of_le (buf.setErrorMsg errorMsg) _ hreadable]
    change (readUintFrom (loadLE (slice buf.memory buf.readIndex 1)) _).value =
      (readUintFrom (loadLE (slice buf.memory buf.readIndex 1)) _).value
    rw [readUintFrom]
    split_ifs
    · rfl
    · exact value_readEncoded_setErrorMsg buf errorMsg 2
    · exact value_readEncoded_setErrorMsg buf errorMsg 3
    · exact value_readEncoded_setErrorMsg buf errorMsg 8
    · rfl

theorem value_readLengthEncodedString_setErrorMsg :
    (readLengthEncodedString (buf.setErrorMsg errorMsg)).value =
      (readLengthEncodedString buf).value := by
  have hmoved := buf.moved_readUint
  have hmovedOther := (buf.setErrorMsg errorMsg).moved_readUint
  have hvalue := buf.value_readUint_setErrorMsg errorMsg
  rw [readLengthEncodedString, PacketM.bind_apply, PacketM.bind_apply, hvalue]
  rcases hread : (readUint buf).value with - | ⟨lenReadSz, len⟩
  · rfl
  · rw [hread] at hvalue
    obtain ⟨-, hafter⟩ := hmoved.read _ _ hread
    obtain ⟨-, hafterOther⟩ := hmovedOther.read _ _ hvalue
    rw [hafter, hafterOther]
    have hstring := (buf.advance lenReadSz).value_readBytes_setErrorMsg errorMsg (len % 2 ^ 32)
    change (readFixedLengthString (len % 2 ^ 32)
      ((buf.setErrorMsg errorMsg).advance lenReadSz)).value = _ at hstring
    dsimp only
    rw [PacketM.bind_apply, PacketM.bind_apply, hstring, readFixedLengthString]
    rcases (readBytes (len % 2 ^ 32) (buf.advance lenReadSz)).value with - | ⟨strReadSz, str⟩
    · rfl
    · rfl

end ErrorMsg

/-- The operation keeps both indexes in range. -/
def KeepsBounded {Value : Type} (operation : PacketM Value) : Prop :=
  ∀ buf : PacketBuf, buf.Bounded → (operation buf).buf.Bounded

section KeepsBounded

variable {Value Next : Type}

theorem bounded_advance (hbounded : buf.Bounded) (count : ℕ) : (buf.advance count).Bounded :=
  ⟨Nat.mod_lt _ (by decide), hbounded.2⟩

theorem Moved.bounded {value : Option (ℕ × Value)} {after : PacketBuf}
    (hmoved : Moved buf value after) (hbounded : buf.Bounded) : after.Bounded := by
  rcases hvalue : value with - | ⟨size, taken⟩
  · obtain ⟨errorMsg, rfl⟩ := hmoved.failed hvalue
    exact hbounded
  · obtain ⟨-, rfl⟩ := hmoved.read _ _ hvalue
    exact bounded_advance hbounded size

theorem keepsBounded_pure (value : Value) : KeepsBounded (pure value : PacketM Value) :=
  fun _ hbounded => hbounded

theorem keepsBounded_bind {first : PacketM Value} {next : Value → PacketM Next}
    (hfirst : KeepsBounded first) (hnext : ∀ value, KeepsBounded (next value)) :
    KeepsBounded (first >>= next) :=
  fun buf hbounded => hnext _ _ (hfirst buf hbounded)

theorem keepsBounded_advance (count : ℕ) :
    KeepsBounded (PacketM.update fun buf => buf.advance count) :=
  fun _ hbounded => bounded_advance hbounded count

theorem keepsBounded_readBytes (len : ℕ) : KeepsBounded (readBytes len) :=
  fun buf hbounded => (buf.moved_readBytes len).bounded hbounded

theorem keepsBounded_readFixed (width : ℕ) : KeepsBounded (readFixed width) :=
  keepsBounded_bind (keepsBounded_readBytes width) fun _ => keepsBounded_pure _

theorem keepsBounded_readUint : KeepsBounded readUint :=
  fun buf hbounded => buf.moved_readUint.bounded hbounded

theorem keepsBounded_readLengthEncodedString : KeepsBounded readLengthEncodedString := by
  refine keepsBounded_bind keepsBounded_readUint fun read => ?_
  rcases read with - | ⟨lenReadSz, len⟩
  · exact keepsBounded_pure _
  · refine keepsBounded_bind (keepsBounded_readBytes _) fun string => ?_
    rcases string with - | ⟨strReadSz, str⟩
    · exact keepsBounded_bind (keepsBounded_advance _) fun _ => keepsBounded_pure _
    · exact keepsBounded_pure _

theorem keepsBounded_readSkip (len : ℕ) : KeepsBounded (readSkip len) := by
  intro buf hbounded
  rcases Nat.lt_or_ge buf.readableBytes len with hshort | hlen
  · rw [readSkip, PacketM.bind_apply, ensureReadable_short hshort]
    exact hbounded
  · rw [readSkip, PacketM.bind_apply, ensureReadable_of_le hlen]
    exact bounded_advance hbounded len

theorem keepsBounded_readNullTerminatedString : KeepsBounded readNullTerminatedString :=
  fun _ hbounded => bounded_advance hbounded _

theorem keepsBounded_readOr (default : Value) {read : PacketM (Option (ℕ × Value))}
    (hread : KeepsBounded read) : KeepsBounded (readOr default read) :=
  keepsBounded_bind hread fun _ => keepsBounded_pure _

theorem keepsBounded_readAuthResponse (clientFlags : ℕ) :
    KeepsBounded (readAuthResponse clientFlags) := by
  rw [readAuthResponse]
  split_ifs
  · exact keepsBounded_readOr _ keepsBounded_readLengthEncodedString
  · exact keepsBounded_bind (keepsBounded_readOr _ (keepsBounded_readFixed 1)) fun _ =>
      keepsBounded_readOr _ (keepsBounded_readBytes _)

theorem keepsBounded_readOptionalString (clientFlags capability : ℕ) :
    KeepsBounded (readOptionalString clientFlags capability) := by
  rw [readOptionalString]
  split_ifs
  · exact keepsBounded_bind keepsBounded_readNullTerminatedString fun _ => keepsBounded_pure _
  · exact keepsBounded_pure _

theorem keepsBounded_readAttrsLen (clientFlags : ℕ) : KeepsBounded (readAttrsLen clientFlags) := by
  rw [readAttrsLen]
  split_ifs
  · exact keepsBounded_bind (keepsBounded_readOr _ keepsBounded_readUint) fun _ =>
      keepsBounded_pure _
  · exact keepsBounded_pure _

theorem keepsBounded_readHandshakeResponse : KeepsBounded readHandshakeResponse := by
  refine keepsBounded_bind (keepsBounded_readOr _ (keepsBounded_readFixed 4)) fun clientFlags => ?_
  split_ifs
  · refine keepsBounded_bind ?_ fun _ => keepsBounded_pure _
    refine keepsBounded_bind (keepsBounded_readFixed 4) fun _ => ?_
    refine keepsBounded_bind (keepsBounded_readFixed 1) fun _ => ?_
    refine keepsBounded_bind (keepsBounded_readSkip 23) fun _ => ?_
    refine keepsBounded_bind keepsBounded_readNullTerminatedString fun _ => ?_
    refine keepsBounded_bind (keepsBounded_readAuthResponse clientFlags) fun _ => ?_
    refine keepsBounded_bind (keepsBounded_readOptionalString clientFlags _) fun _ => ?_
    refine keepsBounded_bind (keepsBounded_readOptionalString clientFlags _) fun _ => ?_
    exact keepsBounded_bind (keepsBounded_readAttrsLen clientFlags) fun _ => keepsBounded_pure _
  · exact keepsBounded_pure _

end KeepsBounded

def Stuck (buf : PacketBuf) : Prop :=
  buf.Bounded ∧ (readLengthEncodedString buf).value = none

theorem stuck_setErrorMsg (hstuck : buf.Stuck) (errorMsg : Text) :
    (buf.setErrorMsg errorMsg).Stuck :=
  ⟨hstuck.1, (buf.value_readLengthEncodedString_setErrorMsg errorMsg).trans hstuck.2⟩

theorem Stuck.after (hstuck : buf.Stuck) : (readLengthEncodedString buf).buf.Stuck := by
  obtain ⟨errorMsg, hafter⟩ := failed_readLengthEncodedString hstuck.1 hstuck.2
  rw [hafter]
  exact stuck_setErrorMsg hstuck errorMsg

theorem stuck_afterPair (hbounded : buf.Bounded) (hbroken : ¬ wholePair buf) :
    buf.afterPair.Stuck := by
  rcases hkey : (readLengthEncodedString buf).value with - | key
  · exact Stuck.after (Stuck.after ⟨hbounded, hkey⟩)
  · refine Stuck.after ⟨keepsBounded_readLengthEncodedString buf hbounded, ?_⟩
    simpa [wholePair, hkey] using hbroken

open scoped UInt64.CommRing in
theorem Stuck.pairsReturned (hstuck : buf.Stuck) (count : ℕ) :
    pairsReturned count buf + 2 * UInt64.ofNat count = 0 := by
  induction count generalizing buf with
  | zero => simp [pairsReturned]
  | succ count ih =>
    have hpair : pairReturned buf = -1 + -1 := by
      rw [pairReturned, hstuck.2, hstuck.after.2]
      rfl
    have hrest := ih hstuck.after.after
    change pairsReturned count buf.afterPair + _ = 0 at hrest
    have hcount : UInt64.ofNat (count + 1) = UInt64.ofNat count + 1 := UInt64.ofNat_add _ _
    rw [pairsReturned, hpair, hcount]
    linear_combination hrest

/-- Behind the first attribute that is not whole, every turn adds two. -/
theorem pairsReturned_broken (hbounded : buf.Bounded) {count : ℕ} (hwhole : wholePairs count buf)
    (hbroken : ¬ wholePairs (count + 1) buf) (more : ℕ) :
    pairsReturned (count + 1 + more) buf + 2 * UInt64.ofNat more =
      pairsReturned (count + 1) buf := by
  induction count generalizing buf with
  | zero =>
    have hpair : ¬ wholePair buf := by simpa [wholePairs] using hbroken
    have hstuck := (stuck_afterPair hbounded hpair).pairsReturned more
    rw [Nat.add_right_comm, pairsReturned, pairsReturned, Nat.zero_add]
    rw [add_assoc, hstuck, pairsReturned]
  | succ count ih =>
    have hafter : buf.afterPair.Bounded := keepsBounded_readLengthEncodedString _
      (keepsBounded_readLengthEncodedString _ hbounded)
    rw [wholePairs, Bool.and_eq_true] at hwhole
    rw [wholePairs, hwhole.1, Bool.true_and] at hbroken
    rw [Nat.add_right_comm (count + 1), pairsReturned, pairsReturned, add_assoc,
      ih hafter hwhole.2 hbroken]

theorem exists_broken {count : ℕ} (hbroken : ¬ wholePairs count buf) :
    ∃ first < count, wholePairs first buf ∧ ¬ wholePairs (first + 1) buf := by
  induction count with
  | zero => exact absurd rfl hbroken
  | succ count ih =>
    by_cases hwhole : wholePairs count buf
    · exact ⟨count, Nat.lt_succ_self _, hwhole, hbroken⟩
    · obtain ⟨first, hlt, hfirst⟩ := ih hwhole
      exact ⟨first, hlt.trans (Nat.lt_succ_self _), hfirst⟩

theorem exists_pairsReturned_iff (hbounded : buf.Bounded) (turns : ℕ) (announced : UInt64) :
    (∃ count ≤ turns, announced = pairsReturned count buf) ↔ AttrsEnd turns announced buf := by
  constructor
  · rintro ⟨count, hle, rfl⟩
    by_cases hwhole : wholePairs count buf
    · exact .inl ⟨count, hle, hwhole, rfl⟩
    · obtain ⟨first, hlt, hfirst, hbroken⟩ := exists_broken hwhole
      obtain ⟨more, rfl⟩ := Nat.exists_eq_add_of_le (Nat.succ_le_of_lt hlt)
      exact .inr ⟨first, more, hle, hfirst, hbroken,
        pairsReturned_broken hbounded hfirst hbroken more⟩
  · rintro (⟨count, hle, -, rfl⟩ | ⟨count, more, hle, hwhole, hbroken, hsum⟩)
    · exact ⟨count, hle, rfl⟩
    · refine ⟨count + 1 + more, hle, ?_⟩
      rw [← pairsReturned_broken hbounded hwhole hbroken more] at hsum
      exact add_right_cancel hsum

end PacketBuf

theorem AttrsState.loop_isSome_iff (turns : ℕ) (state : AttrsState) :
    (state.loop turns).isSome ↔
      ∃ count ≤ turns, state.attrsLen = pairsReturned count state.buf := by
  induction turns generalizing state with
  | zero =>
    rw [loop]
    split_ifs with hdone
    · exact iff_of_true rfl ⟨0, le_rfl, hdone⟩
    · refine iff_of_false Bool.false_ne_true ?_
      rintro ⟨count, hle, hlen⟩
      obtain rfl := Nat.le_zero.mp hle
      exact hdone hlen
  | succ turns ih =>
    rw [loop]
    split_ifs with hdone
    · exact iff_of_true rfl ⟨0, Nat.zero_le _, hdone⟩
    · have hstep : state.step.attrsLen = state.attrsLen - state.buf.pairReturned :=
        sub_sub _ _ _
      rw [ih, hstep]
      constructor
      · rintro ⟨count, hle, hlen⟩
        refine ⟨count + 1, Nat.succ_le_succ hle, ?_⟩
        rw [pairsReturned, ← sub_eq_iff_eq_add']
        exact hlen
      · rintro ⟨- | count, hle, hlen⟩
        · exact absurd hlen hdone
        · refine ⟨count, Nat.le_of_succ_le_succ hle, ?_⟩
          rw [pairsReturned, ← sub_eq_iff_eq_add'] at hlen
          exact hlen

/-- When no string can be read, an odd length stays odd. -/
theorem AttrsState.loop_stuck {state : AttrsState} (hstuck : state.buf.Stuck)
    (hodd : state.attrsLen.toNat % 2 = 1) (turns : ℕ) : state.loop turns = none := by
  rw [← not_isSome_iff_eq_none, loop_isSome_iff]
  rintro ⟨count, -, hlen⟩
  have hsum := hstuck.pairsReturned count
  rw [← hlen] at hsum
  have hnat := congrArg UInt64.toNat hsum
  rw [UInt64.toNat_add, UInt64.toNat_mul] at hnat
  simp only [UInt64.reduceToNat, UInt64.toNat_zero] at hnat
  omega

/-- The parser finishes a response within as many turns of its loop as the response has
bytes exactly when it stops before the attributes or their announced length ends. -/
theorem processHandshakeResponse_isSome_iff (authRequired : Bool) (buf : PacketBuf)
    (hinv : buf.Invariant) :
    (processHandshakeResponse authRequired buf.readableBytes buf).isSome ↔
      ∀ response, (readHandshakeResponse buf).value = some response →
        PacketBuf.AttrsEnd buf.readableBytes response.attrsLen
          (readHandshakeResponse buf).buf := by
  have hbounded := keepsBounded_readHandshakeResponse buf hinv.bounded
  rw [processHandshakeResponse]
  rcases hread : (readHandshakeResponse buf).value with - | response
  · simp
  · have hends := (AttrsState.loop_isSome_iff buf.readableBytes
        { attrsLen := response.attrsLen, buf := (readHandshakeResponse buf).buf }).trans
      (exists_pairsReturned_iff hbounded buf.readableBytes response.attrsLen)
    simp only [some.injEq, forall_eq']
    rw [← hends]
    rcases AttrsState.loop buf.readableBytes _ with - | attrs
    · rfl
    · split_ifs <;> rfl

def responseWith (tail : Bytes) : PacketBuf :=
  let response := [0, 2, 0x10, 0] ++ List.replicate 28 0 ++ [0, 0] ++ tail
  { memory := response
    minCapacity := response.length
    maxCapacity := response.length
    writeIndex := response.length }

/-- A response whose announced length is that of its one attribute. -/
theorem processHandshakeResponse_one_attribute :
    (responseWith [4, 1, 97, 1, 98]).Invariant ∧
      (processHandshakeResponse true (responseWith [4, 1, 97, 1, 98]).readableBytes
        (responseWith [4, 1, 97, 1, 98])).isSome := by
  have hinv : (responseWith [4, 1, 97, 1, 98]).Invariant := by decide
  refine ⟨hinv, (processHandshakeResponse_isSome_iff true _ hinv).mpr ?_⟩
  intro response hresponse
  have hattrs := congrArg (Option.map HandshakeResponse.attrsLen) hresponse
  have hfour : (readHandshakeResponse (responseWith [4, 1, 97, 1, 98])).value.map
      HandshakeResponse.attrsLen = some 4 := by decide +kernel
  obtain hlen : (4 : UInt64) = response.attrsLen := some.inj (hfour.symm.trans hattrs)
  rw [← hlen]
  exact .inl ⟨1, by decide +kernel, by decide +kernel, by decide +kernel⟩

/-- Five bytes of attributes are announced and none follows: the length stays odd and
the loop never ends. -/
theorem processHandshakeResponse_never_ends :
    (responseWith [5]).Invariant ∧
      ∀ turns, processHandshakeResponse true turns (responseWith [5]) = none := by
  refine ⟨by decide, fun turns => ?_⟩
  have hfive : (readHandshakeResponse (responseWith [5])).value.map
      HandshakeResponse.attrsLen = some 5 := by decide +kernel
  have hstuck : (readHandshakeResponse (responseWith [5])).buf.Stuck :=
    ⟨⟨by decide +kernel, by decide +kernel⟩, by decide +kernel⟩
  rw [processHandshakeResponse]
  rcases hread : (readHandshakeResponse (responseWith [5])).value with - | response
  · rw [hread] at hfive
    exact absurd hfive nofun
  · rw [hread] at hfive
    have hattrs : response.attrsLen = 5 := some.inj hfive
    dsimp only
    rw [AttrsState.loop_stuck hstuck (by rw [hattrs]; rfl)]
    rfl

end OblogProxy.Protocol
