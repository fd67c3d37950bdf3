import OblogProxy.Protocol.Framing
import OblogProxy.Protocol.Handshake
import OblogProxy.Protocol.Password

/-!
# The phases of a connection

A connection is driven by the callback that is registered for it: the handshake is
sent, then the response of the client is processed, then every packet is a command.
A callback registers the next one when it returns `SUCCESS`.  The response of the
client is answered with one packet, and what is returned is whether that packet could
be sent, whether it says `OK` or not.

On the port of the manager, `auth` takes the stored password from the table of users with a
statement put together from a fixed text and the name that the client sends.
-/

namespace OblogProxy.Protocol

open Bytes List Option

def ascii (text : String) : Bytes :=
  text.toList.map fun char => UInt8.ofNat char.toNat

def doubleQuote : UInt8 := 34

def backslash : UInt8 := 92

/-- What a backslash and the byte behind it denote: `\n` and its like a control
character, `\%` and `\_` themselves, any other the byte alone. -/
def unescape (escaped : UInt8) : Bytes :=
  if escaped = 110 then [10]
  else if escaped = 116 then [9]
  else if escaped = 114 then [13]
  else if escaped = 98 then [8]
  else if escaped = 48 then [0]
  else if escaped = 90 then [26]
  else if escaped = 37 ∨ escaped = 95 then [backslash, escaped]
  else [escaped]

def prepend (front : Bytes) (read : Option (Bytes × Bytes)) : Option (Bytes × Bytes) :=
  read.map fun read => (front ++ read.1, read.2)

/-- The value of the literal whose opening quote has been read, and the text behind
its closing quote; `none` when there is no closing quote. -/
def readLiteral : Bytes → Option (Bytes × Bytes)
  | [] => none
  | byte :: text =>
    if byte = backslash then
      match text with
      | [] => none
      | escaped :: text => prepend (unescape escaped) (readLiteral text)
    else if byte = doubleQuote then
      match text with
      | [] => some ([], [])
      | next :: rest =>
        -- a doubled quote is a quote
        if next = doubleQuote then prepend [doubleQuote] (readLiteral rest)
        else some ([], next :: rest)
    else prepend [byte] (readLiteral text)

def userQueryFront : Bytes :=
  ascii "SELECT * FROM user WHERE username = " ++ [doubleQuote]

def userQuerySql (name : Bytes) : Bytes :=
  userQueryFront ++ name ++ [doubleQuote]

def readUserQuery (sql : Bytes) : Option (Bytes × Bytes) :=
  if sql.take userQueryFront.length = userQueryFront then
    readLiteral (sql.drop userQueryFront.length)
  else none

/-- The statement is one `SELECT` whose only literal denotes the name. -/
def DenotesName (name : Bytes) : Prop :=
  readUserQuery (userQuerySql name) = some (name, [])

instance (name : Bytes) : Decidable (DenotesName name) :=
  inferInstanceAs (Decidable (_ = _))

/-- There is no quote in the name, and every backslash stands before a `%` or a
`_`. -/
def isPlain : Bytes → Bool
  | [] => true
  | byte :: name =>
    if byte = doubleQuote then false
    else if byte = backslash then
      match name with
      | [] => false
      | escaped :: name => (escaped = 37 || escaped = 95) && isPlain name
    else isPlain name

structure User where
  username : Bytes := []
  password : Bytes := []
deriving DecidableEq

/-- The database as the manager sees it: the rows that a statement returns, `none`
when it fails. -/
abbrev MetaDb : Type := Bytes → Option (List User)

/-- The database holds the table: a statement with one literal and nothing behind it
returns the rows with that name, in some order. -/
def MetaDb.Holds (db : MetaDb) (table : List User) : Prop :=
  ∀ sql value, readUserQuery sql = some (value, []) →
    ∃ rows, db sql = some rows ∧
      rows.Perm (table.filter fun user => user.username = value)

/-- A database with one table, in which every other statement fails. -/
def tableDb (table : List User) : MetaDb := fun sql =>
  match readUserQuery sql with
  | some (value, []) => some (table.filter fun user => user.username = value)
  | _ => none

/-- Every row is converted into the same object, so the last one stays. -/
def queryUserByName (db : MetaDb) (name : Bytes) : Option User :=
  (db (userQuerySql name)).map fun rows => rows.getLast?.getD {}

inductive ConnectionType where
  | obm
  | obi
deriving DecidableEq, Repr

/-- What `auth` reads besides the answer of the client. -/
structure Accounts where
  db : MetaDb
  instanceUser : Bytes
  instancePassword : Bytes

inductive Reply where
  | ok
  | err (errMsg : Bytes)
deriving DecidableEq

/-- The stored password of the account, or the message of the error packet. -/
def passwordHex (accounts : Accounts) (connType : ConnectionType) (name : Bytes) :
    Except Bytes Bytes :=
  match connType with
  | .obm =>
    match queryUserByName accounts.db name with
    | none => .error (ascii "Internal error, please try again")
    | some user =>
      if user.username = [] then .error (ascii "Invalid user") else .ok user.password
  | .obi =>
    if cString accounts.instanceUser ≠ cString name then .error (ascii "Invalid user")
    else .ok accounts.instancePassword

def hexDigit (byte : UInt8) : Option UInt8 :=
  if 48 ≤ byte ∧ byte ≤ 57 then some (byte - 48)
  else if 65 ≤ byte ∧ byte ≤ 70 then some (byte - 65 + 10)
  else if 97 ≤ byte ∧ byte ≤ 102 then some (byte - 97 + 10)
  else none

def pairDigits : List UInt8 → Bytes
  | high :: low :: digits => (high <<< 4 ||| low) :: pairDigits digits
  | _ => []

/-- Other characters are skipped; the result stays empty for an odd size. -/
def hex2bin (data : Bytes) : Bytes :=
  if data.length % 2 ≠ 0 then [] else pairDigits (data.filterMap hexDigit)

def passwordUsed (password : Bytes) : Bytes :=
  if password = [] then ascii "NO" else ascii "YES"

def accessDenied (name password : Bytes) : Bytes :=
  ascii "Access denied for user " ++ name ++ ascii " (using password: " ++
    passwordUsed password ++ ascii ")"

/-- The packet with which `auth` answers; `none` is a read beyond the answer of the
client. -/
def auth (sha1 : Bytes → Bytes) (accounts : Accounts) (connType : ConnectionType)
    (scramble name password : Bytes) : Option Reply :=
  match passwordHex accounts connType name with
  | .error errMsg => some (.err errMsg)
  | .ok hex =>
    (checkPassword sha1 password scramble (hex2bin hex)).map fun accepted =>
      if accepted then .ok else .err (accessDenied name password)

/-- On the port of the manager, the account that is checked is a row with the name,
and without such a row the login fails. -/
structure ChecksOwnAccount (accounts : Accounts) (table : List User) (name : Bytes) :
    Prop where
  own : ∀ user, queryUserByName accounts.db name = some user → user.username ≠ [] →
    user ∈ table ∧ user.username = name
  unknown : (∀ user ∈ table, user.username ≠ name) → ∀ sha1 scramble password,
    auth sha1 accounts .obm scramble name password = some (.err (ascii "Invalid user"))

theorem unescape_cases (escaped : UInt8) :
    (escaped = 37 ∨ escaped = 95) ∧ unescape escaped = [backslash, escaped] ∨
      ¬(escaped = 37 ∨ escaped = 95) ∧ (unescape escaped).length = 1 := by
  by_cases hself : escaped = 37 ∨ escaped = 95
  · refine Or.inl ⟨hself, ?_⟩
    rcases hself with rfl | rfl
    · rfl
    · rfl
  · refine Or.inr ⟨hself, ?_⟩
    rw [unescape, if_neg hself]
    split_ifs <;> rfl

theorem length_unescape_le (escaped : UInt8) : (unescape escaped).length ≤ 2 := by
  rcases unescape_cases escaped with ⟨-, heq⟩ | ⟨-, hlength⟩
  · rw [heq]
    rfl
  · omega

theorem prepend_eq_some {front value rest : Bytes} {read : Option (Bytes × Bytes)}
    (hread : prepend front read = some (value, rest)) :
    ∃ tail, read = some (tail, rest) ∧ value = front ++ tail := by
  obtain ⟨⟨tail, left⟩, hinner, heq⟩ := Option.map_eq_some_iff.mp hread
  obtain ⟨rfl, rfl⟩ := Prod.mk.inj heq
  exact ⟨tail, hinner, rfl⟩

theorem length_prepend_lt {front text value rest : Bytes}
    (hinner : ∀ {value rest}, readLiteral text = some (value, rest) →
      value.length + rest.length < text.length)
    (hread : prepend front (readLiteral text) = some (value, rest)) :
    value.length + rest.length < front.length + text.length := by
  obtain ⟨tail, htail, rfl⟩ := prepend_eq_some hread
  have hlength := hinner htail
  rw [length_append]
  omega

/-- The closing quote is part of the text, and no escape is shorter than what it
denotes. -/
theorem length_readLiteral {text : Bytes} :
    ∀ {value rest}, readLiteral text = some (value, rest) →
      value.length + rest.length < text.length := by
  fun_induction readLiteral text with
  | case1 => simp
  | case2 => simp
  | case3 escaped text ih =>
    intro value rest hread
    have hlength := length_prepend_lt ih hread
    have hescape := length_unescape_le escaped
    simp only [length_cons]
    omega
  | case4 =>
    simp
  | case5 text _ ih =>
    intro value rest hread
    have hlength := length_prepend_lt ih hread
    simp only [length_cons, length_nil] at hlength ⊢
    omega
  | case6 =>
    simp
  | case7 byte text _ _ ih =>
    intro value rest hread
    have hlength := length_prepend_lt ih hread
    simp only [length_cons, length_nil] at hlength ⊢
    omega

/-- A quote in the name ends the literal or is lost with the one behind it. -/
theorem readLiteral_quote (name : Bytes) :
    readLiteral (doubleQuote :: name ++ [doubleQuote]) ≠ some (doubleQuote :: name, []) := by
  intro hread
  cases name with
  | nil => exact absurd hread (by decide)
  | cons next name =>
    rw [cons_append, cons_append, readLiteral, if_neg (by decide), if_pos rfl] at hread
    split_ifs at hread
    · obtain ⟨tail, htail, heq⟩ := prepend_eq_some hread
      have hlength := length_readLiteral htail
      obtain ⟨-, rfl⟩ := cons.inj heq
      simp at hlength
    · simp at hread

theorem readLiteral_iff (name : Bytes) :
    readLiteral (name ++ [doubleQuote]) = some (name, []) ↔ isPlain name := by
  fun_induction isPlain name with
  | case1 => decide
  | case2 name =>
    simpa using readLiteral_quote name
  | case3 => decide
  | case4 escaped name _ ih =>
    rw [cons_append, cons_append, readLiteral, if_pos rfl]
    rcases unescape_cases escaped with ⟨hself, heq⟩ | ⟨hself, hone⟩
    · rw [heq]
      simp [prepend, hself, ih]
    · refine iff_of_false ?_ (by simpa [not_or] using fun h => absurd h hself)
      intro hread
      obtain ⟨tail, htail, heq⟩ := prepend_eq_some hread
      have hlength := length_readLiteral htail
      have hwhole := congrArg List.length heq
      simp only [length_append, length_cons, length_nil, hone] at hlength hwhole
      omega
  | case5 byte name hquote hbackslash ih =>
    rw [cons_append, readLiteral.eq_def]
    dsimp only
    rw [if_neg hbackslash, if_neg hquote, ← ih]
    simp [prepend]

theorem readUserQuery_userQuerySql (name : Bytes) :
    readUserQuery (userQuerySql name) = readLiteral (name ++ [doubleQuote]) := by
  rw [readUserQuery, userQuerySql, append_assoc, take_left, if_pos rfl, drop_left]

section Login

variable {db : MetaDb} {table : List User} {name : Bytes}

/-- The object holds one of the rows with the name, or nothing at all. -/
theorem queryUserByName_of_denotesName (hdb : db.Holds table) (hname : DenotesName name) :
    ∃ user, queryUserByName db name = some user ∧
      (user ∈ table ∧ user.username = name ∨
        user = {} ∧ ∀ row ∈ table, row.username ≠ name) := by
  obtain ⟨rows, hrows, hperm⟩ := hdb _ _ hname
  rw [queryUserByName, hrows]
  refine ⟨_, rfl, ?_⟩
  rcases hlast : rows.getLast? with - | user
  · right
    obtain rfl := getLast?_eq_none_iff.mp hlast
    have hempty := nil_perm.mp hperm
    simpa [filter_eq_nil_iff] using hempty
  · left
    have hmem := hperm.mem_iff.mp (mem_of_getLast? hlast)
    simpa [hlast] using mem_filter.mp hmem

theorem checksOwnAccount_of_denotesName {accounts : Accounts}
    (hdb : accounts.db.Holds table) (hname : DenotesName name) :
    ChecksOwnAccount accounts table name := by
  obtain ⟨user, hquery, hcases⟩ := queryUserByName_of_denotesName hdb hname
  refine ⟨?_, ?_⟩
  · intro checked hchecked hnonempty
    obtain rfl := Option.some.inj (hquery.symm.trans hchecked)
    rcases hcases with hrow | ⟨rfl, -⟩
    · exact hrow
    · exact absurd rfl hnonempty
  · intro hunknown sha1 scramble password
    rcases hcases with ⟨hmem, hrow⟩ | ⟨rfl, -⟩
    · exact absurd hrow (hunknown user hmem)
    · simp [auth, passwordHex, hquery]

end Login

inductive KilledState where
  | notKilled
  | killBadData
  | killConnection
  | killQuery
  | killTimeout
  | killedNoValue
deriving DecidableEq, Repr

/-- `Connection::IoResult`; a killed command leaves its state in the connection. -/
inductive IoResult where
  | success
  | fail
  | binlogDump
  | quit
  | kill (killed : KilledState)
deriving DecidableEq, Repr

inductive Entry where
  | reply (reply : Reply)
  | command (payload : Bytes)
deriving DecidableEq

/-- The callback for the next event of the socket. -/
inductive Callback where
  | handshake
  | handshakeResponse
  | cmd
  | unregistered
deriving DecidableEq, Repr

/-- A listener and what its connections depend on. -/
structure Server where
  sha1 : Bytes → Bytes
  accounts : Accounts
  connType : ConnectionType
  afLocal : Bool
  enableAuth : Bool
  scramble : Bytes
  /-- The answer if the password check reads beyond the response. -/
  beyondResponse : Reply
  /-- The turns that the loop over the attributes may take. -/
  turns : ℕ
  /-- What the processor of a command returns. -/
  process : List Entry → Bytes → IoResult

structure Session where
  conn : Connection
  callback : Callback := .handshake
  log : List Entry := []

namespace Server

variable (server : Server)

def authRequired : Bool :=
  server.enableAuth && (server.connType ≠ .obi || !server.afLocal)

def unsupportedPluginMsg (clientPluginName : Bytes) : Bytes :=
  ascii "Unsupported client plugin: " ++ clientPluginName

/-- `Connection::auth`, with every send delivered. -/
def authReply (response : HandshakeResponse) : Reply :=
  (auth server.sha1 server.accounts server.connType server.scramble response.user
    response.authResponse).getD server.beyondResponse

/-- The packet that answers a response, `none` if there is none. -/
def reply : HandshakeOutcome → Option Reply
  | .fail => none
  | .unsupportedPlugin clientPluginName => some (.err (unsupportedPluginMsg clientPluginName))
  | .auth response _ => some (server.authReply response)
  | .ok _ _ => some .ok

/-- `Connection::process_handshake_response`: the response is read, parsed and
answered. -/
def answer (conn : Connection) : Option (Connection × Reply) := do
  let conn ← conn.readDataPacket
  let outcome ← processHandshakeResponse server.authRequired server.turns conn.pktBuf
  let reply ← server.reply outcome
  return (conn, reply)

/-- `Connection::do_cmd` up to the processor: the packet is read with the sequence
number zero. -/
def readCmd (conn : Connection) : Option Connection :=
  { conn with seqNo := 0 }.readDataPacket

def afterCmd : IoResult → Callback
  | .success => .cmd
  | .fail => .unregistered
  | .binlogDump => .unregistered
  | .quit => .unregistered
  | .kill killed => if killed = .killQuery then .cmd else .unregistered

/-- The connection after the handshake packet has been sent. -/
def sendHandshakePacket (conn : Connection) : Connection :=
  { conn with seqNo := conn.seqNo + 1 }

def step (session : Session) : Session :=
  match session.callback with
  | .handshake =>
    { session with
      conn := sendHandshakePacket session.conn
      callback := .handshakeResponse }
  | .handshakeResponse =>
    match server.answer session.conn with
    | none => { session with callback := .unregistered }
    | some (conn, reply) =>
      -- the reply was delivered, which is all that is looked at
      { conn, callback := .cmd, log := session.log ++ [.reply reply] }
  | .cmd =>
    match readCmd session.conn with
    | none => { session with callback := .unregistered }
    | some conn =>
      let payload := conn.pktBuf.readable
      { conn
        callback := afterCmd (server.process session.log payload)
        log := session.log ++ [.command payload] }
  | .unregistered => session

def run : ℕ → Session → Session
  | 0, session => session
  | events + 1, session => run events (server.step session)

def accept (input : Bytes) : Session where
  conn := { incoming := input }

/-- The response of a client that sends these bytes, and the answer to it. -/
def answered (input : Bytes) : Option (Connection × Reply) :=
  server.answer (sendHandshakePacket (accept input).conn)

def PassesAuth (input : Bytes) : Prop :=
  ∃ conn response attrs,
    (sendHandshakePacket (accept input).conn).readDataPacket = some conn ∧
    processHandshakeResponse server.authRequired server.turns conn.pktBuf =
      some (.auth response attrs) ∧
    server.authReply response = .ok

/-- However many events there are, a packet is taken as a command only if the response
has passed `auth`. -/
def GuardsCommands (input : Bytes) : Prop :=
  ∀ events payload, .command payload ∈ (server.run events (accept input)).log →
    server.PassesAuth input

variable {server} {session : Session} {input : Bytes}

theorem processHandshakeResponse_required {turns : ℕ} {buf : PacketBuf} {outcome : HandshakeOutcome}
    (houtcome : processHandshakeResponse true turns buf = some outcome) :
    ∀ response attrs, outcome ≠ .ok response attrs := by
  rintro response attrs rfl
  rw [processHandshakeResponse] at houtcome
  split at houtcome
  · simp at houtcome
  · simp only [if_true, bind_eq_bind, bind_eq_some_iff] at houtcome
    split_ifs at houtcome
    · simp at houtcome
    · simp at houtcome

theorem answered_ok_iff (hrequired : server.authRequired = true) :
    (∃ conn, server.answered input = some (conn, .ok)) ↔ server.PassesAuth input := by
  constructor
  · rintro ⟨conn, hanswered⟩
    simp only [answered, answer, bind_eq_bind, bind_eq_some_iff] at hanswered
    obtain ⟨read, hread, outcome, houtcome, reply, hreply, heq⟩ := hanswered
    obtain ⟨rfl, rfl⟩ := Prod.mk.inj (some.inj heq)
    cases outcome with
    | fail => cases hreply
    | unsupportedPlugin clientPluginName => cases hreply
    | auth response attrs => exact ⟨_, response, attrs, hread, houtcome, some.inj hreply⟩
    | ok response attrs =>
      rw [hrequired] at houtcome
      exact absurd rfl (processHandshakeResponse_required houtcome response attrs)
  · rintro ⟨conn, response, attrs, hread, houtcome, hauth⟩
    simp [answered, answer, hread, houtcome, reply, hauth]

/-- A packet behind the answered response is read as a command. -/
def ReadsCommand (server : Server) (input : Bytes) : Prop :=
  ∃ conn reply, server.answered input = some (conn, reply) ∧ (readCmd conn).isSome

/-- Until a command has been read, the connection is where its callback says. -/
def OnTrack (server : Server) (input : Bytes) (session : Session) : Prop :=
  (∀ payload, .command payload ∉ session.log) ∧
    match session.callback with
    | .handshake => session.conn = (accept input).conn
    | .handshakeResponse => session.conn = sendHandshakePacket (accept input).conn
    | .cmd => ∃ reply, server.answered input = some (session.conn, reply)
    | .unregistered => True

theorem onTrack_accept : OnTrack server input (accept input) :=
  ⟨by simp [accept], rfl⟩

theorem onTrack_step (htrack : OnTrack server input session) :
    OnTrack server input (server.step session) ∨ ReadsCommand server input := by
  obtain ⟨conn, callback, log⟩ := session
  obtain ⟨hlog, hcallback⟩ := htrack
  cases callback with
  | handshake =>
    exact Or.inl ⟨hlog, congrArg sendHandshakePacket hcallback⟩
  | handshakeResponse =>
    obtain rfl : conn = _ := hcallback
    rw [step]
    dsimp only
    split
    · exact Or.inl ⟨hlog, trivial⟩
    · rename_i after reply hanswer
      refine Or.inl ⟨?_, reply, hanswer⟩
      intro payload hmem
      simp only [List.mem_append, List.mem_singleton, reduceCtorEq, or_false] at hmem
      exact hlog payload hmem
  | cmd =>
    obtain ⟨reply, hanswered⟩ := hcallback
    rw [step]
    dsimp only
    split
    · exact Or.inl ⟨hlog, trivial⟩
    · rename_i after hread
      exact Or.inr ⟨conn, reply, hanswered, isSome_of_mem hread⟩
  | unregistered => exact Or.inl ⟨hlog, trivial⟩

theorem onTrack_run (htrack : OnTrack server input session) (events : ℕ) :
    OnTrack server input (server.run events session) ∨ ReadsCommand server input := by
  induction events generalizing session with
  | zero => exact Or.inl htrack
  | succ events ih =>
    rcases onTrack_step htrack with hnext | hreads
    · exact ih hnext
    · exact Or.inr hreads

/-- Some run takes a packet as a command exactly if one can be read behind the
response, whatever the answer to the response was. -/
theorem exists_command_iff :
    (∃ events payload, .command payload ∈ (server.run events (accept input)).log) ↔
      ReadsCommand server input := by
  constructor
  · rintro ⟨events, payload, hmem⟩
    rcases onTrack_run onTrack_accept events with htrack | hreads
    · exact absurd hmem (htrack.1 payload)
    · exact hreads
  · rintro ⟨conn, reply, hanswered, hread⟩
    obtain ⟨after, hread⟩ := isSome_iff_exists.mp hread
    refine ⟨3, after.pktBuf.readable, ?_⟩
    have hanswer : server.answer (sendHandshakePacket { incoming := input }) =
        some (conn, reply) := hanswered
    simp [run, step, accept, hanswer, hread]

end Server

open Server

/-- On a connection that needs authentication, commands are guarded exactly if the
response passes `auth`, or is not answered, or no packet can be read behind it. -/
theorem guardsCommands_iff (server : Server) (input : Bytes)
    (henable : server.enableAuth = true) (htcp : server.afLocal = false) :
    server.GuardsCommands input ↔
      ∀ conn errMsg, server.answered input = some (conn, .err errMsg) → readCmd conn = none := by
  have hrequired : server.authRequired = true := by
    rw [authRequired, henable, htcp]
    simp
  constructor
  · intro hguards conn errMsg hanswered
    by_contra hread
    obtain ⟨events, payload, hmem⟩ :=
      exists_command_iff.mpr ⟨conn, .err errMsg, hanswered, isSome_iff_ne_none.mpr hread⟩
    obtain ⟨other, hok⟩ := (answered_ok_iff hrequired).mpr (hguards events payload hmem)
    rw [hanswered] at hok
    cases hok
  · intro hcondition events payload hmem
    obtain ⟨conn, reply, hanswered, hread⟩ := exists_command_iff.mp ⟨events, payload, hmem⟩
    cases reply with
    | ok => exact (answered_ok_iff hrequired).mp ⟨conn, hanswered⟩
    | err errMsg =>
      rw [hcondition conn errMsg hanswered] at hread
      cases hread

def rootServer : Server where
  sha1 := id
  accounts := { db := fun _ => none, instanceUser := [114, 111, 111, 116], instancePassword := [] }
  connType := .obi
  afLocal := false
  enableAuth := true
  scramble := List.replicate 20 1
  beyondResponse := .err []
  turns := 10
  process := fun _ _ => .success

/-- A response with `client_protocol_41` and `client_plugin_auth`, without a password. -/
def loginPayload (user : Bytes) : Bytes :=
  [0, 2, 8, 0] ++ List.replicate 28 0 ++ user ++ [0, 0] ++ mysqlNativePassword ++ [0]

/-- The user `root` logs in and sends a query. -/
theorem guardsCommands_rootUser :
    rootServer.GuardsCommands
      (packet 1 (loginPayload [114, 111, 111, 116]) ++ packet 0 [3, 120]) := by
  refine (guardsCommands_iff rootServer _ rfl rfl).mpr ?_
  intro conn errMsg hanswered
  have hreply : (rootServer.answered
      (packet 1 (loginPayload [114, 111, 111, 116]) ++ packet 0 [3, 120])).map Prod.snd =
        some .ok := by
    decide +kernel
  rw [hanswered] at hreply
  cases hreply

/-- The user `x` is unknown, and the packet that follows is taken as a query all the
same. -/
theorem guardsCommands_unknownUser :
    (rootServer.run 3 (accept (packet 1 (loginPayload [120]) ++ packet 0 [3, 120]))).log =
        [.reply (.err (ascii "Invalid user")), .command [3, 120]] ∧
      ¬rootServer.GuardsCommands (packet 1 (loginPayload [120]) ++ packet 0 [3, 120]) := by
  have hlog : (rootServer.run 3
      (accept (packet 1 (loginPayload [120]) ++ packet 0 [3, 120]))).log =
        [.reply (.err (ascii "Invalid user")), .command [3, 120]] := by
    decide +kernel
  have hreply : (rootServer.answered
      (packet 1 (loginPayload [120]) ++ packet 0 [3, 120])).map Prod.snd =
        some (.err (ascii "Invalid user")) := by
    decide +kernel
  refine ⟨hlog, ?_⟩
  intro hguards
  have hpasses := hguards 3 [3, 120] (by simp [hlog])
  obtain ⟨conn, hok⟩ := (answered_ok_iff (by rfl)).mpr hpasses
  rw [hok] at hreply
  cases hreply

end OblogProxy.Protocol
