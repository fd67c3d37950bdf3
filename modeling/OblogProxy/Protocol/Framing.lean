import OblogProxy.Core.Packing
import OblogProxy.Protocol.PacketBufSafety

/-!
# MySQL packets on a connection

A payload is sent as packets of at most `0xFFFFFF` bytes, each with its length and a
sequence number in front; a packet of exactly that many bytes is followed by another
one, so a payload whose length is a multiple ends with an empty packet.  The reader
puts the packets together again in the packet buffer of its connection.
-/

namespace OblogProxy.Protocol

open Bytes Fragments List

def mysqlPktMaxLength : ℕ := 0xFFFFFF

def mysqlPktHeaderLength : ℕ := 4

def netBufferLength : ℕ := 4096

def maxAllowedPacket : ℕ := 64 * 2 ^ 20

/-- A connection with the bytes that its socket still holds and those it was given. -/
structure Connection where
  pktBuf : PacketBuf := PacketBuf.new netBufferLength maxAllowedPacket
  seqNo : UInt8 := 0
  incoming : Bytes := []
  outgoing : Bytes := []

def packet (seqNo : UInt8) (payload : Bytes) : Bytes :=
  storeLE 3 payload.length ++ [seqNo] ++ payload

namespace Connection

def sendMysqlPacket (conn : Connection) (payload : Bytes) : Connection :=
  { conn with seqNo := conn.seqNo + 1, outgoing := conn.outgoing ++ packet conn.seqNo payload }

def sendDataPacketLoop : ℕ → Connection → Option Connection
  | 0, _ => none
  | fuel + 1, conn =>
    if mysqlPktMaxLength ≤ conn.pktBuf.readableBytes then
      let read := PacketBuf.readBytes mysqlPktMaxLength conn.pktBuf
      match read.value with
      | none => none
      | some (_, payload) =>
        sendDataPacketLoop fuel (sendMysqlPacket { conn with pktBuf := read.buf } payload)
    else
      let read := PacketBuf.readRemainingBytes conn.pktBuf
      some (sendMysqlPacket { conn with pktBuf := read.buf } read.value.2)

/-- Every turn of the loop takes bytes from the buffer. -/
def sendDataPacket (conn : Connection) : Option Connection :=
  sendDataPacketLoop (conn.pktBuf.readableBytes + 1) conn

def sendBinlogEventLoop : ℕ → Bytes → Connection → Option Connection
  | 0, _, _ => none
  | fuel + 1, event, conn =>
    if mysqlPktMaxLength ≤ event.length then
      sendBinlogEventLoop fuel (event.drop mysqlPktMaxLength)
        (conn.sendMysqlPacket (event.take mysqlPktMaxLength))
    else some (conn.sendMysqlPacket event)

def sendBinlogEvent (event : Bytes) (conn : Connection) : Option Connection :=
  sendBinlogEventLoop (event.length + 1) event conn

/-- One packet is taken from the socket and its payload put behind the write index. -/
def readMysqlPacket (conn : Connection) : Option (ℕ × Connection) := do
  let header ← readAt conn.incoming 0 mysqlPktHeaderLength
  let payloadLength := loadLE (header.take 3)
  if header.drop 3 = [conn.seqNo] then
    let writable := PacketBuf.ensureWritable payloadLength conn.pktBuf
    if writable.value then
      let payload ← readAt conn.incoming mysqlPktHeaderLength payloadLength
      return (payloadLength, { conn with
          pktBuf := (PacketBuf.append payload writable.buf).buf
          seqNo := conn.seqNo + 1
          incoming := conn.incoming.drop (mysqlPktHeaderLength + payloadLength) })
    else none
  else none

def readDataPacketLoop : ℕ → Connection → Option Connection
  | 0, _ => none
  | fuel + 1, conn => do
      let (payloadLength, after) ← conn.readMysqlPacket
      if payloadLength = mysqlPktMaxLength then readDataPacketLoop fuel after else return after

/-- Every turn of the loop takes bytes from the socket. -/
def readDataPacket (conn : Connection) : Option Connection :=
  readDataPacketLoop (conn.incoming.length + 1) { conn with pktBuf := conn.pktBuf.clear }

end Connection

namespace PacketBuf

variable {buf : PacketBuf}

def readable (buf : PacketBuf) : Bytes :=
  slice buf.memory buf.readIndex buf.readableBytes

theorem Invariant.length_readable (hinv : buf.Invariant) :
    buf.readable.length = buf.readableBytes := by
  have hwrite := hinv.write_le
  rw [capacity] at hwrite
  rw [readable, slice, length_take, length_drop, hinv.readableBytes_eq]
  omega

theorem Invariant.readable_advance (hinv : buf.Invariant) {count : ℕ}
    (hcount : count ≤ buf.readableBytes) :
    (buf.advance count).readable = buf.readable.drop count := by
  have hafter := (hinv.advance hcount).readableBytes_eq
  rw [hinv.readableBytes_eq] at hcount
  obtain ⟨hread, hwrite, -, hcapacity, hmax⟩ := hinv
  have hindex : (buf.readIndex + count) % 2 ^ 32 = buf.readIndex + count := by omega
  rw [readable, readable, hafter, readableBytes, if_pos hread]
  simp only [PacketBuf.advance, hindex, slice, drop_take, drop_drop]
  congr 1
  omega

theorem slice_eq_take_readable {count : ℕ} (hcount : count ≤ buf.readableBytes) :
    slice buf.memory buf.readIndex count = buf.readable.take count := by
  rw [readable, slice, slice, take_take, Nat.min_eq_left hcount]

theorem readable_append (hinv : buf.Invariant) {value : Bytes}
    (hroom : buf.writeIndex + value.length ≤ buf.capacity) :
    (append value buf).buf.readable = buf.readable ++ value := by
  have hafter := (safe_append hinv hroom).1.readableBytes_eq
  obtain ⟨hread, hwrite, -, hcapacity, hmax⟩ := hinv
  have hindex : (buf.writeIndex + value.length) % 2 ^ 32 = buf.writeIndex + value.length := by
    omega
  have hcount : buf.writeIndex + value.length - buf.readIndex =
      buf.writeIndex - buf.readIndex + value.length := by omega
  rw [readable, readable, hafter, readableBytes, if_pos hread]
  simp only [append, hindex, hcount, storeAt]
  rw [capacity] at hroom
  rw [if_pos hroom, slice_overwrite hread hroom]

theorem readable_extend (hinv : buf.Invariant) {newCapacity : ℕ}
    (hroom : buf.writeIndex ≤ newCapacity) :
    (extend newCapacity buf).buf.readable = buf.readable := by
  have hlength := hinv.length_readable
  have hcount := hinv.readableBytes_eq
  have hread := hinv.read_le
  have hfits : buf.readIndex + buf.readable.length ≤ (replicate newCapacity (0 : UInt8)).length := by
    rw [length_replicate]
    omega
  change slice (storeAt (replicate newCapacity 0) buf.readIndex buf.readable) buf.readIndex
    buf.readableBytes = buf.readable
  rw [storeAt, if_pos hfits, ← hlength]
  simpa [slice] using @slice_overwrite _ _ buf.readIndex _ le_rfl hfits

/-- A payload has been put behind what can be read. -/
structure Received (before after : PacketBuf) (payload : Bytes) : Prop where
  invariant : after.Invariant
  maxCapacity_eq : after.maxCapacity = before.maxCapacity
  writeIndex_eq : after.writeIndex = before.writeIndex + payload.length
  readable_eq : after.readable = before.readable ++ payload

theorem Received.trans {before middle after : PacketBuf} {front back : Bytes}
    (hfirst : Received before middle front) (hsecond : Received middle after back) :
    Received before after (front ++ back) :=
  ⟨hsecond.invariant, hsecond.maxCapacity_eq.trans hfirst.maxCapacity_eq,
    by rw [hsecond.writeIndex_eq, hfirst.writeIndex_eq, length_append, Nat.add_assoc],
    by rw [hsecond.readable_eq, hfirst.readable_eq, append_assoc]⟩

theorem received_append (hinv : buf.Invariant) (hround : buf.maxCapacity + ioSize ≤ 2 ^ 32)
    {payload : Bytes} (hroom : buf.writeIndex + payload.length ≤ buf.maxCapacity) :
    (ensureWritable payload.length buf).value = true ∧
      Received buf (append payload (ensureWritable payload.length buf).buf).buf payload := by
  have hmaxLt := hinv.max_lt
  have hfits : buf.Fits payload.length := .inr (.inr ⟨hroom, by omega⟩)
  have hindex : (buf.writeIndex + payload.length) % 2 ^ 32 = buf.writeIndex + payload.length := by
    omega
  rcases ensureWritable_of_fits hinv hfits with
    ⟨hmax, -⟩ | ⟨after, spans, heq, hafter, -, hspace, hsame⟩
  · omega
  · rw [heq]
    have hreadable := readable_append hafter hspace
    have hinvariant := (safe_append hafter hspace).1
    rcases hsame with rfl | ⟨newCapacity, hle, rfl⟩
    · exact ⟨rfl, hinvariant, rfl, hindex, hreadable⟩
    · rw [readable_extend hinv hle] at hreadable
      exact ⟨rfl, hinvariant, rfl, hindex, hreadable⟩

end PacketBuf

open PacketBuf

/-- The packets of some fragments, with consecutive sequence numbers. -/
def packets : UInt8 → List Bytes → Bytes
  | _, [] => []
  | seqNo, fragment :: rest => packet seqNo fragment ++ packets (seqNo + 1) rest

def nextSeqNo : UInt8 → List Bytes → UInt8
  | seqNo, [] => seqNo
  | seqNo, _ :: rest => nextSeqNo (seqNo + 1) rest

namespace Connection

theorem mysqlPktMaxLength_pos : 0 < mysqlPktMaxLength := by decide

theorem sendBinlogEventLoop_eq (event : Bytes) (fuel : ℕ) (hfuel : event.length < fuel)
    (conn : Connection) :
    sendBinlogEventLoop fuel event conn =
      some { conn with
        seqNo := nextSeqNo conn.seqNo (fragments mysqlPktMaxLength event)
        outgoing := conn.outgoing ++
          packets conn.seqNo (fragments mysqlPktMaxLength event) } := by
  induction event using fragment_induction mysqlPktMaxLength_pos generalizing fuel conn with
  | short payload hshort =>
    obtain ⟨fuel, rfl⟩ := Nat.exists_eq_succ_of_ne_zero (Nat.ne_zero_of_lt hfuel)
    rw [sendBinlogEventLoop, if_neg (Nat.not_le.mpr hshort), fragments_of_lt hshort]
    simp [sendMysqlPacket, nextSeqNo, packets]
  | full payload hfull ih =>
    obtain ⟨fuel, rfl⟩ := Nat.exists_eq_succ_of_ne_zero (Nat.ne_zero_of_lt hfuel)
    have hpos := mysqlPktMaxLength_pos
    have hrest : (payload.drop mysqlPktMaxLength).length < fuel := by
      rw [length_drop]
      omega
    rw [sendBinlogEventLoop, if_pos hfull, ih fuel hrest, fragments_of_le hpos hfull]
    simp [sendMysqlPacket, nextSeqNo, packets]

theorem sendDataPacketLoop_eq (payload : Bytes) (fuel : ℕ) (hfuel : payload.length < fuel)
    (conn : Connection) (hinv : conn.pktBuf.Invariant) (hpayload : conn.pktBuf.readable = payload) :
    ∃ sent, sendDataPacketLoop fuel conn = some sent ∧
      sent.seqNo = nextSeqNo conn.seqNo (fragments mysqlPktMaxLength payload) ∧
      sent.outgoing = conn.outgoing ++
        packets conn.seqNo (fragments mysqlPktMaxLength payload) := by
  have hlength := hinv.length_readable
  induction payload using fragment_induction mysqlPktMaxLength_pos generalizing fuel conn with
  | short payload hshort =>
    obtain ⟨fuel, rfl⟩ := Nat.exists_eq_succ_of_ne_zero (Nat.ne_zero_of_lt hfuel)
    subst hpayload
    rw [hlength] at hshort
    rw [sendDataPacketLoop, if_neg (Nat.not_le.mpr hshort), fragments_of_lt (hlength ▸ hshort)]
    exact ⟨_, rfl, rfl, by simp [sendMysqlPacket, packets]; rfl⟩
  | full payload hfull ih =>
    obtain ⟨fuel, rfl⟩ := Nat.exists_eq_succ_of_ne_zero (Nat.ne_zero_of_lt hfuel)
    subst hpayload
    have hpos := mysqlPktMaxLength_pos
    have hrest : (conn.pktBuf.readable.drop mysqlPktMaxLength).length < fuel := by
      rw [length_drop]
      omega
    have hcount : mysqlPktMaxLength ≤ conn.pktBuf.readableBytes := hlength ▸ hfull
    rcases conn.pktBuf.readBytes_cases mysqlPktMaxLength with ⟨hshort, -⟩ | ⟨-, hread⟩
    · omega
    rw [sendDataPacketLoop, if_pos hcount, hread, fragments_of_le hpos hfull]
    have hafter := hinv.advance hcount
    obtain ⟨sent, hsent, hseq, hout⟩ := ih fuel hrest
      (sendMysqlPacket { conn with pktBuf := conn.pktBuf.advance mysqlPktMaxLength }
        (slice conn.pktBuf.memory conn.pktBuf.readIndex mysqlPktMaxLength))
      hafter (hinv.readable_advance hcount) hafter.length_readable
    refine ⟨sent, hsent, ?_, ?_⟩
    · rw [hseq, nextSeqNo, sendMysqlPacket]
    · rw [hout, slice_eq_take_readable hcount]
      simp [sendMysqlPacket, packets]

theorem readMysqlPacket_packet {conn : Connection} {payload rest : Bytes}
    (hinv : conn.pktBuf.Invariant) (hround : conn.pktBuf.maxCapacity + ioSize ≤ 2 ^ 32)
    (hroom : conn.pktBuf.writeIndex + payload.length ≤ conn.pktBuf.maxCapacity)
    (hlength : payload.length ≤ mysqlPktMaxLength)
    (hincoming : conn.incoming = packet conn.seqNo payload ++ rest) :
    ∃ pktBuf, conn.readMysqlPacket = some (payload.length,
        { conn with pktBuf, seqNo := conn.seqNo + 1, incoming := rest }) ∧
      PacketBuf.Received conn.pktBuf pktBuf payload := by
  obtain ⟨hwritable, hreceived⟩ := received_append hinv hround hroom
  have hheader : readAt conn.incoming 0 mysqlPktHeaderLength =
      some (storeLE 3 payload.length ++ [conn.seqNo]) := by
    refine @readAt_of_drop _ _ (payload ++ rest) _ _ ?_ (by simp [mysqlPktHeaderLength])
    rw [hincoming, packet, drop_zero, append_assoc]
  have hpayload : conn.incoming.drop mysqlPktHeaderLength = payload ++ rest := by
    rw [hincoming, packet, append_assoc]
    exact drop_left' (by simp [mysqlPktHeaderLength])
  have hstored : loadLE ((storeLE 3 payload.length ++ [conn.seqNo]).take 3) = payload.length := by
    rw [take_left' (length_storeLE 3 _), loadLE_storeLE_of_lt]
    rw [mysqlPktMaxLength] at hlength
    omega
  have hseq : (storeLE 3 payload.length ++ [conn.seqNo]).drop 3 = [conn.seqNo] :=
    drop_left' (length_storeLE 3 _)
  refine ⟨_, ?_, hreceived⟩
  rw [readMysqlPacket, hheader]
  simp only [Option.bind_eq_bind, Option.bind_some, hstored, hseq, if_true, hwritable,
    readAt_of_drop hpayload rfl, drop_add_of_drop hpayload rfl]
  rfl

theorem readDataPacketLoop_packets (payload : Bytes) (fuel : ℕ) (hfuel : payload.length < fuel)
    {rest : Bytes} (conn : Connection) (hinv : conn.pktBuf.Invariant)
    (hround : conn.pktBuf.maxCapacity + ioSize ≤ 2 ^ 32)
    (hroom : conn.pktBuf.writeIndex + payload.length ≤ conn.pktBuf.maxCapacity)
    (hincoming : conn.incoming =
      packets conn.seqNo (fragments mysqlPktMaxLength payload) ++ rest) :
    ∃ pktBuf, readDataPacketLoop fuel conn = some { conn with
        pktBuf
        seqNo := nextSeqNo conn.seqNo (fragments mysqlPktMaxLength payload)
        incoming := rest } ∧
      PacketBuf.Received conn.pktBuf pktBuf payload := by
  induction payload using fragment_induction mysqlPktMaxLength_pos generalizing fuel conn with
  | short payload hshort =>
    obtain ⟨fuel, rfl⟩ := Nat.exists_eq_succ_of_ne_zero (Nat.ne_zero_of_lt hfuel)
    rw [fragments_of_lt hshort, packets, packets, append_nil] at hincoming
    obtain ⟨pktBuf, hread, hreceived⟩ :=
      readMysqlPacket_packet hinv hround hroom hshort.le hincoming
    refine ⟨pktBuf, ?_, hreceived⟩
    rw [readDataPacketLoop, hread, fragments_of_lt hshort]
    simp [nextSeqNo, hshort.ne]
  | full payload hfull ih =>
    obtain ⟨fuel, rfl⟩ := Nat.exists_eq_succ_of_ne_zero (Nat.ne_zero_of_lt hfuel)
    have hpos := mysqlPktMaxLength_pos
    have hfirst : (payload.take mysqlPktMaxLength).length = mysqlPktMaxLength := by
      rw [length_take, Nat.min_eq_left hfull]
    have hrest : (payload.drop mysqlPktMaxLength).length = payload.length - mysqlPktMaxLength :=
      length_drop
    rw [fragments_of_le hpos hfull, packets, append_assoc] at hincoming
    obtain ⟨first, hread, hreceived⟩ :=
      readMysqlPacket_packet hinv hround (by omega) hfirst.le hincoming
    obtain ⟨pktBuf, hloop, hreceivedRest⟩ := ih fuel (by omega)
      { conn with
        pktBuf := first
        seqNo := conn.seqNo + 1
        incoming := packets (conn.seqNo + 1)
          (fragments mysqlPktMaxLength (payload.drop mysqlPktMaxLength)) ++ rest }
      hreceived.invariant (hreceived.maxCapacity_eq ▸ hround)
      (by
        rw [hreceived.maxCapacity_eq, hreceived.writeIndex_eq, hfirst]
        omega)
      rfl
    have hwhole := hreceived.trans hreceivedRest
    rw [take_append_drop] at hwhole
    refine ⟨pktBuf, ?_, hwhole⟩
    rw [readDataPacketLoop, hread, fragments_of_le hpos hfull, nextSeqNo]
    simpa [hfirst] using hloop

theorem length_le_packets (payload : Bytes) (seqNo : UInt8) :
    payload.length ≤ (packets seqNo (fragments mysqlPktMaxLength payload)).length := by
  induction payload using fragment_induction mysqlPktMaxLength_pos generalizing seqNo with
  | short payload hshort =>
    rw [fragments_of_lt hshort, packets, packet]
    simp only [length_append]
    omega
  | full payload hfull ih =>
    have hrest := ih (seqNo + 1)
    rw [length_drop] at hrest
    rw [fragments_of_le mysqlPktMaxLength_pos hfull, packets, length_append, packet,
      length_append, length_take, Nat.min_eq_left hfull]
    omega

/-- A payload that fits the receiver's limit, sent from the packet buffer or as a
binlog event, is put on the wire as the same bytes, and a receiver that expects the
same sequence number accepts exactly these bytes and ends with the payload and the
same next sequence number. -/
theorem readDataPacket_sendDataPacket (sender dumper receiver : Connection)
    (payload rest : Bytes) (hsender : sender.pktBuf.Invariant)
    (hpayload : sender.pktBuf.readable = payload) (hreceiver : receiver.pktBuf.clear.Invariant)
    (hmax : receiver.pktBuf.maxCapacity = maxAllowedPacket)
    (hlimit : payload.length ≤ maxAllowedPacket)
    (hdumper : dumper.seqNo = sender.seqNo) (hseqNo : receiver.seqNo = sender.seqNo) :
    ∃ wire sent dumped received,
      sender.sendDataPacket = some sent ∧ sent.outgoing = sender.outgoing ++ wire ∧
      dumper.sendBinlogEvent payload = some dumped ∧ dumped.outgoing = dumper.outgoing ++ wire ∧
      readDataPacket { receiver with incoming := wire ++ rest } = some received ∧
      received.pktBuf.Invariant ∧ received.pktBuf.readable = payload ∧
      received.incoming = rest ∧ received.seqNo = sent.seqNo ∧
      received.seqNo = dumped.seqNo := by
  have hfuel : payload.length < sender.pktBuf.readableBytes + 1 := by
    rw [← hsender.length_readable, hpayload]
    exact Nat.lt_succ_self _
  obtain ⟨sent, hsent, hsentSeqNo, hwire⟩ :=
    sendDataPacketLoop_eq payload _ hfuel sender hsender hpayload
  have hdumped := sendBinlogEventLoop_eq payload _ (Nat.lt_succ_self _) dumper
  rw [hdumper] at hdumped
  set wire := packets sender.seqNo (fragments mysqlPktMaxLength payload) with hwireDef
  have hlength : payload.length < (wire ++ rest).length + 1 := by
    have hpackets := length_le_packets payload sender.seqNo
    rw [← hwireDef] at hpackets
    rw [length_append]
    omega
  obtain ⟨pktBuf, hread, hreceived⟩ := readDataPacketLoop_packets payload _ hlength
    { receiver with pktBuf := receiver.pktBuf.clear, incoming := wire ++ rest } hreceiver
    (by
      change receiver.pktBuf.maxCapacity + _ ≤ _
      rw [hmax]
      decide)
    (by
      change 0 + _ ≤ receiver.pktBuf.maxCapacity
      rw [hmax, Nat.zero_add]
      exact hlimit)
    (by rw [hseqNo])
  refine ⟨wire, sent, _, _, hsent, hwire, hdumped, rfl, hread, hreceived.invariant, ?_, rfl, ?_, ?_⟩
  · rw [hreceived.readable_eq]
    simp [readable, readableBytes, clear, slice]
  · rw [hsentSeqNo, hseqNo]
  · rw [hseqNo]

def sampleSender : Connection :=
  { pktBuf := { memory := [7, 8, 0], minCapacity := 3, maxCapacity := 8, writeIndex := 2 }
    seqNo := 255 }

theorem readDataPacket_sample :
    ∃ wire sent dumped received,
      sampleSender.sendDataPacket = some sent ∧ sent.outgoing = [] ++ wire ∧
      sendBinlogEvent [7, 8] { seqNo := 255 } = some dumped ∧ dumped.outgoing = [] ++ wire ∧
      readDataPacket { seqNo := 255, incoming := wire ++ [9] } = some received ∧
      received.pktBuf.Invariant ∧ received.pktBuf.readable = [7, 8] ∧
      received.incoming = [9] ∧ received.seqNo = sent.seqNo ∧ received.seqNo = dumped.seqNo :=
  readDataPacket_sendDataPacket sampleSender { seqNo := 255 } { seqNo := 255 } [7, 8] [9]
    (by decide) (by decide) (invariant_new (by decide) (by decide)) rfl (by decide) rfl rfl

theorem readDataPacket_packets {receiver : Connection} (hinv : receiver.pktBuf.clear.Invariant)
    (hmax : receiver.pktBuf.maxCapacity = maxAllowedPacket) {payload : Bytes}
    (hlimit : payload.length ≤ maxAllowedPacket) (rest : Bytes) :
    ∃ pktBuf, readDataPacket { receiver with
          incoming := packets receiver.seqNo (fragments mysqlPktMaxLength payload) ++ rest } =
        some { receiver with
          pktBuf
          seqNo := nextSeqNo receiver.seqNo (fragments mysqlPktMaxLength payload)
          incoming := rest } ∧
      Received receiver.pktBuf.clear pktBuf payload := by
  have hlength := length_le_packets payload receiver.seqNo
  refine readDataPacketLoop_packets payload _ ?_ { receiver with pktBuf := _, incoming := _ } hinv
    ?_ ?_ rfl
  · rw [length_append]
    omega
  · change receiver.pktBuf.maxCapacity + _ ≤ _
    rw [hmax]
    decide
  · change 0 + _ ≤ receiver.pktBuf.maxCapacity
    rwa [hmax, Nat.zero_add]

/-- `BinlogDumper::send_packet`, on the chunks of the packet. -/
def sendPacket (chunks : List Bytes) (conn : Connection) : Option Connection :=
  chunks.foldlM (fun conn chunk => conn.sendBinlogEvent chunk) conn

/-- What so many calls of `read_data_packet` leave in the packet buffer. -/
def readPackets : ℕ → Connection → Option (List Bytes × Connection)
  | 0, conn => some ([], conn)
  | count + 1, conn => do
      let after ← conn.readDataPacket
      let (payloads, last) ← readPackets count after
      return (after.pktBuf.readable :: payloads, last)

/-- However many chunks are sent, a receiver that expects the same sequence number reads each of
them once, in order, and stops where they end. -/
theorem readPackets_sendPacket (chunks : List Bytes)
    (hlimit : ∀ chunk ∈ chunks, chunk.length ≤ maxAllowedPacket) (sender : Connection) :
    ∃ wire sent, sender.sendPacket chunks = some sent ∧ sent.outgoing = sender.outgoing ++ wire ∧
      ∀ (receiver : Connection) (rest : Bytes), receiver.pktBuf.clear.Invariant →
        receiver.pktBuf.maxCapacity = maxAllowedPacket → receiver.seqNo = sender.seqNo →
        ∃ received, readPackets chunks.length { receiver with incoming := wire ++ rest } =
            some (chunks, received) ∧ received.incoming = rest ∧ received.seqNo = sent.seqNo := by
  induction chunks generalizing sender with
  | nil => exact ⟨[], sender, rfl, (append_nil _).symm, fun _ _ _ _ hseqNo => ⟨_, rfl, rfl, hseqNo⟩⟩
  | cons chunk chunks ih =>
    obtain ⟨hfirst, hothers⟩ := forall_mem_cons.mp hlimit
    obtain ⟨wire, sent, hsent, hwire, hread⟩ := ih hothers _
    refine ⟨packets sender.seqNo (fragments mysqlPktMaxLength chunk) ++ wire, sent, ?_, ?_, ?_⟩
    · rw [sendPacket, foldlM_cons, sendBinlogEvent,
        sendBinlogEventLoop_eq chunk _ (Nat.lt_succ_self _) sender]
      exact hsent
    · rw [hwire, append_assoc]
    · intro receiver rest hinv hmax hseqNo
      obtain ⟨pktBuf, hpacket, hreceived⟩ :=
        readDataPacket_packets hinv hmax hfirst (wire ++ rest)
      obtain ⟨-, -, hmin, hcapacity, hlt⟩ := hreceived.invariant
      obtain ⟨received, hrest, hincoming, hlast⟩ := hread { receiver with
        pktBuf, seqNo := nextSeqNo receiver.seqNo (fragments mysqlPktMaxLength chunk) } rest
        ⟨le_rfl, Nat.zero_le _, hmin, hcapacity, hlt⟩ (hreceived.maxCapacity_eq.trans hmax)
        (by rw [hseqNo])
      refine ⟨received, ?_, hincoming, hlast⟩
      rw [length_cons, readPackets, append_assoc, ← hseqNo, hpacket, Option.bind_eq_bind,
        Option.bind_some, hrest, hreceived.readable_eq]
      rfl

theorem readPackets_sendPacket_sample :
    ∃ wire sent received, sendPacket [[7, 8], [9]] { seqNo := 255 } = some sent ∧
      readPackets 2 { seqNo := 255, incoming := wire } = some ([[7, 8], [9]], received) := by
  obtain ⟨wire, sent, hsent, -, hread⟩ :=
    readPackets_sendPacket [[7, 8], [9]] (by decide) { seqNo := 255 }
  obtain ⟨received, hreceived, -⟩ :=
    hread { seqNo := 255 } [] (invariant_new (by decide) (by decide)) rfl rfl
  rw [append_nil] at hreceived
  exact ⟨wire, sent, received, hsent, hreceived⟩

end Connection

end OblogProxy.Protocol

namespace OblogProxy.Protocol.PacketBuf

open Bytes Option

variable {buf : PacketBuf}

/-- The number behind a first byte that announces its width. -/
def behindFirst (width : ℕ) (rest : Bytes) : Option (ℕ × ℕ) :=
  (readAt rest 0 width).map fun number => (1 + width, loadLE number)

/-- The length-encoded integer at the start of some bytes: its size and its value. -/
def leadingUint : Bytes → Option (ℕ × ℕ)
  | [] => none
  | first :: rest =>
    if first.toNat < 0xFB then some (1, first.toNat)
    else if first.toNat = 0xFC then behindFirst 2 rest
    else if first.toNat = 0xFD then behindFirst 3 rest
    else if first.toNat = 0xFE then behindFirst 8 rest
    else none

/-- The bytes that the integer at the start announces, if they are all there. -/
def leadingString (bytes : Bytes) : Option (ℕ × Bytes) :=
  (leadingUint bytes).bind fun announced =>
    (readAt bytes announced.1 announced.2).map fun str => (announced.1 + announced.2, str)

theorem value_readBytes (hinv : buf.Invariant) (len : ℕ) :
    (readBytes len buf).value = (readAt buf.readable 0 len).map fun bytes => (len, bytes) := by
  have hlength := hinv.length_readable
  rcases buf.readBytes_cases len with ⟨hshort, hread⟩ | ⟨hlen, hread⟩
  · rw [hread, readAt_eq_none (by rwa [List.drop_zero, hlength])]
    rfl
  · have htake : readAt buf.readable 0 len = some (buf.readable.take len) := by
      refine readAt_of_drop (List.take_append_drop len buf.readable).symm ?_
      rw [List.length_take, hlength, Nat.min_eq_left hlen]
    rw [hread, htake, slice_eq_take_readable hlen]
    rfl

theorem value_readEncoded (hinv : buf.Invariant) {first : UInt8} {rest : Bytes}
    (hreadable : buf.readable = first :: rest) (width : ℕ) :
    (readEncoded width buf).value = behindFirst width rest := by
  change (readBytes (1 + width) buf).value.map _ = _
  rw [value_readBytes hinv, hreadable, behindFirst, readAt, readAt, map_map]
  simp only [slice, List.drop_zero, Nat.add_comm 1 width, List.take_succ_cons, List.length_cons,
    Nat.add_right_cancel_iff]
  split_ifs
  · simp
  · rfl

theorem value_readUint (hinv : buf.Invariant) :
    (readUint buf).value = leadingUint buf.readable := by
  have hlength := hinv.length_readable
  rcases hreadable : buf.readable with - | ⟨first, rest⟩
  · rw [hreadable, List.length_nil] at hlength
    rw [readUint, PacketM.bind_apply, ensureReadable_short (by omega)]
    rfl
  · rw [hreadable, List.length_cons] at hlength
    have hone : 1 ≤ buf.readableBytes := by omega
    have hfirst : loadLE (slice buf.memory buf.readIndex 1) = first.toNat := by
      rw [slice_eq_take_readable hone, hreadable]
      simp [loadLE]
    rw [readUint, PacketM.bind_apply, ensureReadable_of_le hone]
    change (readUintFrom (loadLE (slice buf.memory buf.readIndex 1)) buf).value = _
    rw [hfirst, readUintFrom, leadingUint]
    split_ifs
    · rfl
    · exact value_readEncoded hinv hreadable 2
    · exact value_readEncoded hinv hreadable 3
    · exact value_readEncoded hinv hreadable 8
    · rfl

/-- Of the announced length the lower 32 bits are used. -/
theorem value_readLengthEncodedString (hinv : buf.Invariant) :
    (readLengthEncodedString buf).value = (leadingUint buf.readable).bind fun announced =>
      (readAt buf.readable announced.1 (announced.2 % 2 ^ 32)).map fun str =>
        (announced.1 + announced.2 % 2 ^ 32, str) := by
  have hmoved := buf.moved_readUint
  have hvalue := value_readUint hinv
  rw [readLengthEncodedString, PacketM.bind_apply, ← hvalue]
  rcases hread : (readUint buf).value with - | ⟨size, len⟩
  · rfl
  · obtain ⟨hsize, hafter⟩ := hmoved.read _ _ hread
    have hstring := value_readBytes (hinv.advance hsize) (len % 2 ^ 32)
    rw [hinv.readable_advance hsize] at hstring
    rw [hafter, bind_some]
    dsimp only
    rw [PacketM.bind_apply, readFixedLengthString, hstring]
    have hsame : readAt (buf.readable.drop size) 0 (len % 2 ^ 32) =
        readAt buf.readable size (len % 2 ^ 32) := rfl
    rw [hsame]
    rcases readAt buf.readable size (len % 2 ^ 32) with - | str
    · rfl
    · rfl

/-- The reader succeeds exactly when the integer and the bytes that it announces are there;
it returns these bytes and moves behind them, or it stays where it is. -/
def AllOrNothing (buf : PacketBuf) : Prop :=
  (readLengthEncodedString buf).value = leadingString buf.readable ∧
    (readLengthEncodedString buf).buf.readIndex =
      buf.readIndex + ((leadingString buf.readable).map Prod.fst).getD 0

theorem readIndex_readLengthEncodedString (hinv : buf.Invariant) :
    (readLengthEncodedString buf).buf.readIndex =
      buf.readIndex + ((readLengthEncodedString buf).value.map Prod.fst).getD 0 := by
  have hmoved := moved_readLengthEncodedString hinv
  rcases hvalue : (readLengthEncodedString buf).value with - | ⟨size, str⟩
  · obtain ⟨errorMsg, hafter⟩ := hmoved.failed hvalue
    rw [hafter]
    rfl
  · obtain ⟨hsize, hafter⟩ := hmoved.read _ _ hvalue
    rw [hinv.readableBytes_eq] at hsize
    obtain ⟨hread, hwrite, -, hcapacity, hmax⟩ := hinv
    rw [hafter]
    exact Nat.mod_eq_of_lt (by omega)

/-- A length of more than 32 bits is harmless only if even what is left of it is longer than
the buffer. -/
theorem allOrNothing_iff (hinv : buf.Invariant) :
    AllOrNothing buf ↔ ∀ size len, leadingUint buf.readable = some (size, len) →
      len < 2 ^ 32 ∨ buf.readable.length < size + len % 2 ^ 32 := by
  have hindex := readIndex_readLengthEncodedString hinv
  have hvalue := value_readLengthEncodedString hinv
  have hbound : buf.readable.length < 2 ^ 32 := by
    rw [hinv.length_readable]
    exact hinv.bounded.readableBytes_lt
  have hiff : AllOrNothing buf ↔
      (readLengthEncodedString buf).value = leadingString buf.readable := by
    refine and_iff_left_of_imp fun hsame => ?_
    rw [hindex, hsame]
  rw [hiff, hvalue, leadingString]
  rcases hlead : leadingUint buf.readable with - | ⟨size, len⟩
  · simp
  have hsize : size ≤ buf.readable.length := by
    rw [hinv.length_readable]
    exact (buf.moved_readUint.read _ _ ((value_readUint hinv).trans hlead)).1
  simp only [bind_some, some.injEq, Prod.mk.injEq, and_imp]
  rcases Nat.lt_or_ge len (2 ^ 32) with hlen | hlen
  · rw [Nat.mod_eq_of_lt hlen]
    refine iff_of_true rfl ?_
    rintro _ _ rfl rfl
    exact Or.inl hlen
  · have hnone : readAt buf.readable size len = none := by
      apply readAt_eq_none
      rw [List.length_drop]
      omega
    rw [hnone, map_none, map_eq_none_iff]
    constructor
    · rintro hshort _ _ rfl rfl
      by_contra hfits
      rw [readAt, if_pos] at hshort
      · cases hshort
      · rw [slice, List.length_take, List.length_drop]
        omega
    · intro hshort
      apply readAt_eq_none
      have := hshort size len rfl rfl
      rw [List.length_drop]
      omega

def ofBytes (bytes : Bytes) : PacketBuf :=
  { memory := bytes, minCapacity := 0, maxCapacity := bytes.length, writeIndex := bytes.length }

theorem allOrNothing_sample :
    (ofBytes [2, 97, 98, 99]).Invariant ∧ AllOrNothing (ofBytes [2, 97, 98, 99]) := by
  have hinv : (ofBytes [2, 97, 98, 99]).Invariant := by decide
  refine ⟨hinv, (allOrNothing_iff hinv).mpr ?_⟩
  intro size len hlead
  obtain ⟨rfl, rfl⟩ : 1 = size ∧ 2 = len := by
    simpa [leadingUint, readable, readableBytes, ofBytes, slice] using hlead
  exact Or.inl (by decide)

/-- Of `2 ^ 32` announced bytes none is there, and the empty string is read. -/
theorem not_allOrNothing_long :
    (ofBytes [0xFE, 0, 0, 0, 0, 1, 0, 0, 0]).Invariant ∧
      ¬AllOrNothing (ofBytes [0xFE, 0, 0, 0, 0, 1, 0, 0, 0]) ∧
      (readLengthEncodedString (ofBytes [0xFE, 0, 0, 0, 0, 1, 0, 0, 0])).value = some (9, []) := by
  refine ⟨by decide, ?_, by decide⟩
  rintro ⟨hvalue, -⟩
  revert hvalue
  decide

end OblogProxy.Protocol.PacketBuf
