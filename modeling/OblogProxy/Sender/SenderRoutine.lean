import OblogProxy.Core.Packing

/-!
# The record sender

`SenderRoutine::run` takes a batch of records from the queue, groups them into
packets of at most `max_packet_bytes` and hands each group to `do_send` as a
range of the batch.  The loop keeps the start of the pending range (`offset`)
and a separate running size (`packet_size`).

The running size is reset, but the record that overflowed the pending packet is
not counted into the next one.  The packing of `OblogProxy.Packing` is what the
loop is compared with: the batch is delivered as intended exactly when that
missing count never matters.
-/

namespace OblogProxy.Sender

open Packing List

def sizeT (value : ℕ) : ℕ := value % 2 ^ 64

/-- One call of `do_send`: the range of the batch and the `idx` of its message. -/
structure Send where
  offset : ℕ
  count : ℕ
  idx : ℕ
  deriving DecidableEq, Repr

open Send

structure SenderState where
  packetSize : ℕ := 0
  offset : ℕ := 0
  /-- `_msg_seq`, a `uint32_t`. -/
  msgSeq : ℕ
  running : Bool := true
  sends : List Send := []
  deriving DecidableEq, Repr

/-- `do_send`.  The sequence number advances whether or not the message was
sent; `sendMessage` tells the outcome of the successive `send_message` calls. -/
def doSend (sendMessage : ℕ → Bool) (offset count : ℕ) (state : SenderState) :
    SenderState × Bool :=
  ({ state with
      sends := state.sends ++ [⟨offset, count, state.msgSeq⟩]
      msgSeq := (state.msgSeq + count) % 2 ^ 32 },
    sendMessage state.sends.length)

/-- The loop over one batch, from record `i` on.  A record is given by the size
of its serialized form, `none` when `toString` returns a null pointer.  The
result carries the value of `i` when the loop is left. -/
def sendLoop (maxPacketBytes : ℕ) (sendMessage : ℕ → Bool) :
    ℕ → List (Option ℕ) → SenderState → SenderState × ℕ
  | i, [], state => (state, i)
  | i, none :: _, state => ({ state with running := false }, i)
  | i, some size :: rest, state =>
    if maxPacketBytes < sizeT (state.packetSize + size) then
      if state.packetSize = 0 then
        match doSend sendMessage i 1 state with
        | (next, true) =>
          sendLoop maxPacketBytes sendMessage (i + 1) rest
            { next with offset := i + 1, packetSize := 0 }
        | (next, false) => ({ next with running := false }, i)
      else
        match doSend sendMessage state.offset (i - state.offset) state with
        | (next, true) =>
          sendLoop maxPacketBytes sendMessage (i + 1) rest
            { next with offset := i, packetSize := 0 }
        | (next, false) => ({ next with running := false }, i)
    else
      sendLoop maxPacketBytes sendMessage (i + 1) rest
        { state with packetSize := sizeT (state.packetSize + size) }

/-- What happens after the loop: the pending range is sent unless the thread was
stopped or nothing is counted as pending. -/
def sendRest (sendMessage : ℕ → Bool) (result : SenderState × ℕ) : SenderState :=
  if result.1.running ∧ 0 < result.1.packetSize then
    match doSend sendMessage result.1.offset (result.2 - result.1.offset) result.1 with
    | (next, true) => next
    | (next, false) => { next with running := false }
  else result.1

/-- One iteration of `SenderRoutine::run` on a batch, entered with sequence
number `msgSeq`. -/
def runBatch (maxPacketBytes : ℕ) (sendMessage : ℕ → Bool)
    (records : List (Option ℕ)) (msgSeq : ℕ) : SenderState :=
  sendRest sendMessage
    (sendLoop maxPacketBytes sendMessage 0 records { msgSeq := msgSeq })

def Send.packet (sizes : List ℕ) (send : Send) : List ℕ :=
  (sizes.drop send.offset).take send.count

/-- A packet is either one oversized record or within the packet limit. -/
def Bounded (maxPacketBytes : ℕ) (packet : List ℕ) : Prop :=
  (∃ size, packet = [size] ∧ maxPacketBytes < size) ∨ packet.sum ≤ maxPacketBytes

/-- Every record of the batch is sent exactly once, in order, in bounded
packets. -/
def Delivered (maxPacketBytes : ℕ) (sizes : List ℕ) (sends : List Send) : Prop :=
  (sends.flatMap fun send => range' send.offset send.count) =
      range sizes.length ∧
    ∀ send ∈ sends, Bounded maxPacketBytes (send.packet sizes)

/-- The `idx` of each message is the number of records sent before it, `before`
of them in earlier iterations. -/
def Numbered (before : ℕ) (sends : List Send) : Prop :=
  ∀ front send back, sends = front ++ send :: back →
    send.idx = before + (front.map count).sum

/-- What the loop counts of a packet: the record that overflowed the packet
before it is not in the running size. -/
def counted (carried : Bool) (packet : List ℕ) : ℕ :=
  if carried then packet.tail.sum else packet.sum

/-- The packets, in the order of the reference packing, survive the missing
count.  `carried` says that the first record of the first packet overflowed the
packet before it. -/
def Survives (maxPacketBytes : ℕ) : Bool → List (List ℕ) → Prop
  | _, [] => True
  | carried, packet :: rest =>
    (carried = true → packet.sum ≤ maxPacketBytes ∧ 2 ≤ packet.length) ∧
    (packet.sum ≤ maxPacketBytes → ∀ next ∈ rest.head?,
      maxPacketBytes < sizeT (counted carried packet + next.headI)) ∧
    Survives maxPacketBytes (decide (packet.sum ≤ maxPacketBytes)) rest

/-- The message numbers of the batch fit into 32 bits: fewer than `2^32` records
precede its last packet. -/
def SeqFits (maxPacketBytes : ℕ) (sizes : List ℕ) (before : ℕ) : Prop :=
  ∀ front last, pack maxPacketBytes sizes = front ++ [last] →
    before + front.flatten.length < 2 ^ 32

/-- The state after the batch when no record fails to serialize and no send
fails, from record `i` on. -/
def outcome (maxPacketBytes i : ℕ) (rest : List ℕ) (state : SenderState) :
    SenderState :=
  sendRest (fun _ => true)
    (sendLoop maxPacketBytes (fun _ => true) i (rest.map some) state)

theorem runBatch_eq_outcome (maxPacketBytes : ℕ) (sizes : List ℕ) (msgSeq : ℕ) :
    runBatch maxPacketBytes (fun _ => true) (sizes.map some) msgSeq =
      outcome maxPacketBytes 0 sizes { msgSeq := msgSeq } := rfl

/-- The state after a successful `do_send`, with the pending range restarted at
`next`. -/
def sent (offset count next : ℕ) (state : SenderState) : SenderState :=
  { state with
    sends := state.sends ++ [⟨offset, count, state.msgSeq⟩]
    msgSeq := (state.msgSeq + count) % 2 ^ 32
    offset := next
    packetSize := 0 }

section Outcome

variable {maxPacketBytes i size : ℕ} {rest : List ℕ} {state : SenderState}

theorem outcome_counted (hfits : sizeT (state.packetSize + size) ≤ maxPacketBytes) :
    outcome maxPacketBytes i (size :: rest) state =
      outcome maxPacketBytes (i + 1) rest
        { state with packetSize := sizeT (state.packetSize + size) } := by
  simp [outcome, sendLoop, Nat.not_lt.mpr hfits]

theorem outcome_huge (hzero : state.packetSize = 0)
    (hover : maxPacketBytes < sizeT (state.packetSize + size)) :
    outcome maxPacketBytes i (size :: rest) state =
      outcome maxPacketBytes (i + 1) rest (sent i 1 (i + 1) state) := by
  rw [hzero, Nat.zero_add] at hover
  simp [outcome, sendLoop, doSend, sent, hover, hzero]

theorem outcome_flush (hcounted : state.packetSize ≠ 0)
    (hover : maxPacketBytes < sizeT (state.packetSize + size)) :
    outcome maxPacketBytes i (size :: rest) state =
      outcome maxPacketBytes (i + 1) rest
        (sent state.offset (i - state.offset) i state) := by
  simp [outcome, sendLoop, doSend, sent, hover, hcounted]

end Outcome

section Running

variable (maxPacketBytes i : ℕ) (state : SenderState) (hrunning : state.running = true)

include hrunning

theorem sends_outcome_nil :
    (outcome maxPacketBytes i [] state).sends =
      if state.packetSize = 0 then state.sends
      else state.sends ++ [⟨state.offset, i - state.offset, state.msgSeq⟩] := by
  by_cases hzero : state.packetSize = 0
  · simp [outcome, sendLoop, sendRest, hzero]
  · simp [outcome, sendLoop, sendRest, doSend, hzero, hrunning, Nat.pos_of_ne_zero hzero]

theorem sends_outcome_append (rest : List ℕ) :
    ∃ more, (outcome maxPacketBytes i rest state).sends = state.sends ++ more := by
  induction rest generalizing i state with
  | nil =>
    rw [sends_outcome_nil _ _ _ hrunning]
    split
    · exact ⟨[], by simp⟩
    · exact ⟨_, rfl⟩
  | cons size rest ih =>
    by_cases hover : maxPacketBytes < sizeT (state.packetSize + size)
    · by_cases hzero : state.packetSize = 0
      · obtain ⟨more, heq⟩ := ih (i + 1) (sent i 1 (i + 1) state) hrunning
        rw [outcome_huge hzero hover, heq]
        exact ⟨_, append_assoc _ _ _⟩
      · obtain ⟨more, heq⟩ :=
          ih (i + 1) (sent state.offset (i - state.offset) i state) hrunning
        rw [outcome_flush hzero hover, heq]
        exact ⟨_, append_assoc _ _ _⟩
    · rw [outcome_counted (Nat.not_lt.mp hover)]
      exact ih (i + 1) _ hrunning

/-- While records are pending, the next send either takes the whole pending
range, with at least one more record if nothing of it is counted, or jumps over
it. -/
theorem next_send_outcome (rest : List ℕ) (hpending : state.offset < i) :
    (outcome maxPacketBytes i rest state).sends = state.sends ∨
      ∃ send more,
        (outcome maxPacketBytes i rest state).sends = state.sends ++ send :: more ∧
        (send.offset = state.offset ∧ i ≤ state.offset + send.count ∧
            (state.packetSize = 0 → i < state.offset + send.count) ∧
            state.offset + send.count ≤ i + rest.length ∨
          i ≤ send.offset ∧ send.count = 1) := by
  induction rest generalizing i state with
  | nil =>
    rw [sends_outcome_nil _ _ _ hrunning]
    by_cases hzero : state.packetSize = 0
    · exact Or.inl (by simp [hzero])
    · refine Or.inr ⟨⟨state.offset, i - state.offset, state.msgSeq⟩, [],
        by simp [hzero], Or.inl ⟨rfl, ?_, fun h => absurd h hzero, ?_⟩⟩
      · simp only
        omega
      · simp only [length_nil]
        omega
  | cons size rest ih =>
    by_cases hover : maxPacketBytes < sizeT (state.packetSize + size)
    · by_cases hzero : state.packetSize = 0
      · obtain ⟨more, heq⟩ := sends_outcome_append maxPacketBytes (i + 1)
          (sent i 1 (i + 1) state) hrunning rest
        rw [outcome_huge hzero hover, heq]
        exact Or.inr ⟨⟨i, 1, state.msgSeq⟩, more, append_assoc _ _ _, Or.inr ⟨le_refl i, rfl⟩⟩
      · obtain ⟨more, heq⟩ := sends_outcome_append maxPacketBytes (i + 1)
          (sent state.offset (i - state.offset) i state) hrunning rest
        rw [outcome_flush hzero hover, heq]
        refine Or.inr ⟨⟨state.offset, i - state.offset, state.msgSeq⟩, more,
          append_assoc _ _ _, Or.inl ⟨rfl, ?_, fun h => absurd h hzero, ?_⟩⟩
        · simp only
          omega
        · simp only [length_cons]
          omega
    · rw [outcome_counted (Nat.not_lt.mp hover)]
      rcases ih (i + 1) { state with packetSize := sizeT (state.packetSize + size) }
          hrunning (Nat.lt_succ_of_lt hpending) with hsame | ⟨send, more, heq, hsend⟩
      · exact Or.inl hsame
      · refine Or.inr ⟨send, more, heq, ?_⟩
        simp only [length_cons] at hsend ⊢
        rcases hsend with ⟨hoffset, hlow, -, hhigh⟩ | ⟨hlow, hcount⟩
        · exact Or.inl ⟨hoffset, by omega, fun _ => by omega, by omega⟩
        · exact Or.inr ⟨by omega, hcount⟩

end Running

/-- The indices covered by a list of sends, in the order of the calls. -/
def coverage (sends : List Send) : List ℕ :=
  sends.flatMap fun send => range' send.offset send.count

theorem coverage_append (left right : List Send) :
    coverage (left ++ right) = coverage left ++ coverage right := by
  simp [coverage]

theorem range_append_range' (front more : ℕ) :
    range front ++ range' front more = range (front + more) := by
  have happend : range' 0 front ++ range' (0 + front) more =
      range' 0 (front + more) := range'_append_1
  rwa [Nat.zero_add, ← range_eq_range', ← range_eq_range'] at happend

/-- Covering the batch from `front` on means continuing at index `front`. -/
theorem coverage_tail {front total : ℕ} {left right : List Send}
    (hleft : coverage left = range front) (hle : front ≤ total)
    (hall : coverage (left ++ right) = range total) :
    coverage right = range' front (total - front) := by
  rw [coverage_append, hleft, ← Nat.add_sub_cancel' hle, ← range_append_range'] at hall
  exact append_cancel_left hall

/-- The loop between two records: `front` is sent and `pending` is what the
range `[offset, i)` of the batch holds. -/
structure LoopInvariant (maxPacketBytes : ℕ) (sizes front pending rest : List ℕ)
    (i : ℕ) (state : SenderState) : Prop where
  split : sizes = front ++ pending ++ rest
  index : i = front.length + pending.length
  offset : state.offset = front.length
  running : state.running = true
  covers : coverage state.sends = range front.length
  bounded : ∀ send ∈ state.sends, Bounded maxPacketBytes (send.packet sizes)

variable {sends : List Send}

namespace LoopInvariant

variable {maxPacketBytes i size : ℕ} {sizes front pending rest : List ℕ}
variable {state : SenderState}

section Invariant

variable (hinv : LoopInvariant maxPacketBytes sizes front pending rest i state)

include hinv

theorem total : sizes.length = i + rest.length := by
  rw [hinv.split, hinv.index]
  simp [Nat.add_assoc]

/-- A pending range that is never sent is lost. -/
theorem not_delivered_of_unsent (hpending : pending ≠ []) (hsame : sends = state.sends) :
    ¬ Delivered maxPacketBytes sizes sends := by
  rintro ⟨hcover, -⟩
  have hlen := congrArg length
    (hinv.covers.symm.trans ((congrArg coverage hsame).symm.trans hcover))
  have hpos := length_pos_iff.mpr hpending
  have htotal := hinv.total
  have hindex := hinv.index
  simp only [length_range] at hlen
  omega

/-- A pending range the next send jumps over is lost. -/
theorem not_delivered_of_skipped (hpending : pending ≠ []) {send : Send} {more : List Send}
    (hskip : i ≤ send.offset) (hone : send.count = 1) :
    ¬ Delivered maxPacketBytes sizes (state.sends ++ send :: more) := by
  rintro ⟨hcover, -⟩
  have hpos := length_pos_iff.mpr hpending
  have htotal := hinv.total
  have hindex := hinv.index
  have hhead := congrArg head? (coverage_tail hinv.covers (by omega) hcover)
  have hsome : sizes.length - front.length ≠ 0 := by omega
  rw [coverage, flatMap_cons, hone, head?_range', if_neg hsome] at hhead
  have hfront : send.offset = front.length := by simpa using hhead
  omega

/-- A pending range that is too large for one packet is never delivered: its
next send is either too large or leaves the range out. -/
theorem not_delivered_of_large (hlarge : maxPacketBytes < pending.sum)
    (hmany : 2 ≤ pending.length ∨ state.packetSize = 0 ∧ pending ≠ []) :
    ¬ Delivered maxPacketBytes sizes (outcome maxPacketBytes i rest state).sends := by
  have hne : pending ≠ [] := by
    rintro rfl
    simp at hmany
  have hpos := length_pos_iff.mpr hne
  have htotal := hinv.total
  have hoffset := hinv.offset
  have hindex := hinv.index
  rcases next_send_outcome maxPacketBytes i state hinv.running rest (by omega)
    with hsame | ⟨send, more, heq, ⟨hat, hlow, hstrict, hhigh⟩ | ⟨hskip, hone⟩⟩
  · exact hinv.not_delivered_of_unsent hne hsame
  · rintro ⟨-, hbounded⟩
    have hpacket : send.packet sizes =
        pending ++ rest.take (send.count - pending.length) := by
      rw [packet, hat, hoffset, hinv.split, append_assoc, drop_left,
        take_append, take_of_length_le (by omega)]
    rcases hbounded send (by simp [heq]) with ⟨size, hsingle, -⟩ | hle
    · have hlength := congrArg length hsingle
      simp only [packet, length_take, length_drop, length_singleton] at hlength
      rcases hmany with hmany | ⟨hzero, -⟩
      · omega
      · omega
    · rw [hpacket, sum_append] at hle
      omega
  · rw [heq]
    exact hinv.not_delivered_of_skipped hne hskip hone

end Invariant

theorem count
    (hinv : LoopInvariant maxPacketBytes sizes front pending (size :: rest) i state)
    (packetSize : ℕ) :
    LoopInvariant maxPacketBytes sizes front (pending ++ [size]) rest (i + 1)
      { state with packetSize := packetSize } where
  split := by rw [hinv.split]; simp
  index := by rw [hinv.index]; simp [Nat.add_assoc]
  offset := hinv.offset
  running := hinv.running
  covers := hinv.covers
  bounded := hinv.bounded

theorem coverage_pending
    (hinv : LoopInvariant maxPacketBytes sizes front pending rest i state) :
    coverage (state.sends ++ [⟨state.offset, i - state.offset, state.msgSeq⟩]) =
      range (front.length + pending.length) := by
  rw [coverage_append, hinv.covers]
  simp [coverage, hinv.offset, hinv.index, range_append_range']

theorem bounded_pending
    (hinv : LoopInvariant maxPacketBytes sizes front pending rest i state)
    (hfits : pending.sum ≤ maxPacketBytes) (send : Send)
    (hsend : send ∈ state.sends ++ [⟨state.offset, i - state.offset, state.msgSeq⟩]) :
    Bounded maxPacketBytes (send.packet sizes) := by
  rcases mem_append.mp hsend with hold | hnew
  · exact hinv.bounded send hold
  · right
    rw [mem_singleton.mp hnew, packet, hinv.offset, hinv.index, hinv.split]
    simpa using hfits

theorem flush
    (hinv : LoopInvariant maxPacketBytes sizes front pending (size :: rest) i state)
    (hfits : pending.sum ≤ maxPacketBytes) :
    LoopInvariant maxPacketBytes sizes (front ++ pending) [size] rest (i + 1)
      (sent state.offset (i - state.offset) i state) where
  split := by rw [hinv.split]; simp
  index := by rw [hinv.index]; simp
  offset := by simp [sent, hinv.index]
  running := hinv.running
  covers := by rw [sent, hinv.coverage_pending, length_append]
  bounded := hinv.bounded_pending hfits

theorem huge
    (hinv : LoopInvariant maxPacketBytes sizes front [] (size :: rest) i state)
    (hlarge : maxPacketBytes < size) :
    LoopInvariant maxPacketBytes sizes (front ++ [size]) [] rest (i + 1)
      (sent i 1 (i + 1) state) where
  split := by rw [hinv.split]; simp
  index := by rw [hinv.index]; simp
  offset := by simp [sent, hinv.index]
  running := hinv.running
  covers := by
    rw [sent, coverage_append, hinv.covers, hinv.index]
    simp [coverage, range_succ]
  bounded := by
    intro send hsend
    rcases mem_append.mp hsend with hold | hnew
    · exact hinv.bounded send hold
    · left
      refine ⟨size, ?_, hlarge⟩
      rw [mem_singleton.mp hnew, packet, hinv.index, hinv.split]
      simp

end LoopInvariant

variable {maxPacketBytes : ℕ} {carried : Bool} {packet : List ℕ}

theorem survives_cons_iff {next : List ℕ} {rest : List (List ℕ)}
    (hfits : packet.sum ≤ maxPacketBytes) :
    Survives maxPacketBytes carried (packet :: next :: rest) ↔
      (carried = true → 2 ≤ packet.length) ∧
      maxPacketBytes < sizeT (counted carried packet + next.headI) ∧
      Survives maxPacketBytes true (next :: rest) := by
  conv_lhs => rw [Survives]
  simp [hfits]

theorem survives_single_iff (hfits : packet.sum ≤ maxPacketBytes) :
    Survives maxPacketBytes carried [packet] ↔
      (carried = true → 2 ≤ packet.length) := by
  simp [Survives, hfits]

theorem survives_huge_iff {size : ℕ} {rest : List (List ℕ)} (hlarge : maxPacketBytes < size) :
    Survives maxPacketBytes false ([size] :: rest) ↔
      Survives maxPacketBytes false rest := by
  simp [Survives, Nat.not_le.mpr hlarge]

/-- Once a record overflows the pending packet, the packing goes on with a
packet that starts with it. -/
theorem packFrom_nil_cons_head (capacity size : ℕ) (rest : List ℕ) :
    ∃ more packets, packFrom capacity [] (size :: rest) = (size :: more) :: packets := by
  rw [packFrom_nil_cons]
  split
  · exact ⟨[], _, rfl⟩
  · exact packFrom_head [size] rest (by simp)

theorem counted_le_sum (carried : Bool) (packet : List ℕ) :
    counted carried packet ≤ packet.sum := by
  cases packet <;> cases carried <;> simp [counted]

theorem counted_append (size : ℕ) (hcarried : carried = true → packet ≠ []) :
    counted carried (packet ++ [size]) = counted carried packet + size := by
  cases packet with
  | nil => cases carried <;> simp_all [counted]
  | cons head tail => cases carried <;> simp [counted, Nat.add_assoc]

/-- Nothing of a nonempty packet of positive records is counted only when its
single record was carried over. -/
theorem counted_eq_zero_iff (hpos : ∀ size ∈ packet, 0 < size)
    (hcarried : carried = true → packet ≠ []) :
    counted carried packet = 0 ↔
      packet = [] ∨ carried = true ∧ packet.length = 1 := by
  rcases packet with _ | ⟨head, tail⟩
  · simp [counted]
  · have hhead : 0 < head := hpos head (by simp)
    rcases tail with _ | ⟨next, tail⟩
    · cases carried <;> simp [counted]
      omega
    · have hnext : 0 < next := hpos next (by simp)
      cases carried <;> simp [counted] <;> omega

theorem sizeT_eq {value : ℕ} (hlt : value < 2 ^ 64) : sizeT value = value :=
  Nat.mod_eq_of_lt hlt

/-- Either the packets survive and the batch is delivered along them, or they do
not and the batch is not delivered. -/
def Agrees (maxPacketBytes : ℕ) (sizes : List ℕ) (carried : Bool)
    (packets : List (List ℕ)) (old sends : List Send) : Prop :=
  Survives maxPacketBytes carried packets ∧ Delivered maxPacketBytes sizes sends ∧
      (∃ more, sends = old ++ more ∧ more.map count = packets.map length) ∨
    ¬ Survives maxPacketBytes carried packets ∧ ¬ Delivered maxPacketBytes sizes sends

section Agreement

variable {maxPacketBytes : ℕ} {sizes front pending rest : List ℕ}
variable {carried : Bool} {i size : ℕ} {state : SenderState}

theorem agrees_nil
    (hinv : LoopInvariant maxPacketBytes sizes front pending [] i state)
    (hsize : state.packetSize = counted carried pending)
    (hpos : ∀ size ∈ pending, 0 < size) (hfits : pending.sum ≤ maxPacketBytes)
    (hcarried : carried = true → pending ≠ []) :
    Agrees maxPacketBytes sizes carried (packFrom maxPacketBytes pending [])
      state.sends (outcome maxPacketBytes i [] state).sends := by
  have hzero := counted_eq_zero_iff hpos hcarried
  rw [← hsize] at hzero
  have htotal : sizes.length = front.length + pending.length := by
    rw [hinv.split]
    simp
  by_cases hempty : pending = []
  · subst hempty
    left
    rw [sends_outcome_nil _ _ _ hinv.running, if_pos (hzero.mpr (Or.inl rfl))]
    refine ⟨by simp [packFrom, Survives], ⟨?_, hinv.bounded⟩, [], by simp, by simp [packFrom]⟩
    simpa [htotal, coverage] using hinv.covers
  · rw [packFrom, if_neg hempty]
    by_cases hnone : state.packetSize = 0
    · right
      obtain ⟨hc, hlength⟩ := (hzero.mp hnone).resolve_left hempty
      refine ⟨?_, ?_⟩
      · rw [survives_single_iff hfits]
        intro htwo
        have := htwo hc
        omega
      · apply hinv.not_delivered_of_unsent hempty
        rw [sends_outcome_nil _ _ _ hinv.running, if_pos hnone]
    · left
      rw [sends_outcome_nil _ _ _ hinv.running, if_neg hnone, survives_single_iff hfits]
      refine ⟨fun hc => ?_, ⟨?_, hinv.bounded_pending hfits⟩, _, rfl, ?_⟩
      · have hone : ¬ pending.length = 1 := fun hlength => hnone (hzero.mpr (Or.inr ⟨hc, hlength⟩))
        have := length_pos_iff.mpr hempty
        omega
      · rw [htotal]
        exact hinv.coverage_pending
      · simp [hinv.offset, hinv.index]

section Overflow

variable (hinv : LoopInvariant maxPacketBytes sizes front pending (size :: rest) i state)
  (hsize : state.packetSize = counted carried pending) (hfits : pending.sum ≤ maxPacketBytes)
  (hpending : pending ≠ []) (hover : maxPacketBytes < pending.sum + size)

include hinv hsize hfits hpending hover

/-- A record overflows a packet of which nothing is counted: the loop sends the
record alone and forgets the packet. -/
theorem agrees_forgotten (hpos : ∀ size ∈ pending, 0 < size)
    (hcarried : carried = true → pending ≠ []) (hzero : state.packetSize = 0)
    (hcode : maxPacketBytes < sizeT (state.packetSize + size)) :
    Agrees maxPacketBytes sizes carried (packFrom maxPacketBytes pending (size :: rest))
      state.sends (outcome maxPacketBytes i (size :: rest) state).sends := by
  right
  have hcount := counted_eq_zero_iff hpos hcarried
  obtain ⟨hc, hlength⟩ := (hcount.mp (hsize.symm.trans hzero)).resolve_left hpending
  obtain ⟨more, packets, hpack⟩ := packFrom_nil_cons_head maxPacketBytes size rest
  refine ⟨?_, ?_⟩
  · rw [packFrom_overflow hpending hover, hpack, survives_cons_iff hfits]
    rintro ⟨htwo, -⟩
    have := htwo hc
    omega
  · rw [outcome_huge hzero hcode]
    obtain ⟨later, heq⟩ := sends_outcome_append maxPacketBytes (i + 1) (sent i 1 (i + 1) state)
      hinv.running rest
    rw [heq, sent, append_assoc, singleton_append]
    exact hinv.not_delivered_of_skipped hpending (le_refl i) rfl

/-- A record overflows the pending packet but not what is counted of it: the
loop keeps collecting into a packet that is too large. -/
theorem agrees_uncounted (hcode : sizeT (state.packetSize + size) ≤ maxPacketBytes) :
    Agrees maxPacketBytes sizes carried (packFrom maxPacketBytes pending (size :: rest))
      state.sends (outcome maxPacketBytes i (size :: rest) state).sends := by
  right
  obtain ⟨more, packets, hpack⟩ := packFrom_nil_cons_head maxPacketBytes size rest
  refine ⟨?_, ?_⟩
  · rw [packFrom_overflow hpending hover, hpack, survives_cons_iff hfits, ← hsize]
    rintro ⟨-, hlt, -⟩
    exact absurd hlt (Nat.not_lt.mpr hcode)
  · rw [outcome_counted hcode]
    apply (hinv.count _).not_delivered_of_large
    · simpa using hover
    · have := length_pos_iff.mpr hpending
      simp
      omega

/-- A record overflows the pending packet and the loop sends the packet. -/
theorem agrees_flush (hpos : ∀ size ∈ pending, 0 < size)
    (hcarried : carried = true → pending ≠ []) (hnonzero : state.packetSize ≠ 0)
    (hcode : maxPacketBytes < sizeT (state.packetSize + size)) (ih : size ≤ maxPacketBytes →
      Agrees maxPacketBytes sizes true (packFrom maxPacketBytes [size] rest)
        (sent state.offset (i - state.offset) i state).sends
        (outcome maxPacketBytes (i + 1) rest
          (sent state.offset (i - state.offset) i state)).sends) :
    Agrees maxPacketBytes sizes carried (packFrom maxPacketBytes pending (size :: rest))
      state.sends (outcome maxPacketBytes i (size :: rest) state).sends := by
  obtain ⟨more, packets, hpack⟩ := packFrom_nil_cons_head maxPacketBytes size rest
  have htwo : carried = true → 2 ≤ pending.length := by
    intro hc
    have hone : ¬ pending.length = 1 := fun hlength =>
      hnonzero (hsize.trans ((counted_eq_zero_iff hpos hcarried).mpr (Or.inr ⟨hc, hlength⟩)))
    have := length_pos_iff.mpr hpending
    omega
  have hsurvives : Survives maxPacketBytes carried
        (packFrom maxPacketBytes pending (size :: rest)) ↔
      Survives maxPacketBytes true (packFrom maxPacketBytes [] (size :: rest)) := by
    rw [packFrom_overflow hpending hover, hpack, survives_cons_iff hfits, ← hsize]
    exact ⟨fun h => h.2.2, fun h => ⟨htwo, hcode, h⟩⟩
  rw [Agrees, hsurvives, outcome_flush hnonzero hcode, packFrom_nil_cons]
  by_cases hlarge : maxPacketBytes < size
  · right
    rw [if_pos hlarge]
    refine ⟨fun h => ?_, ?_⟩
    · have := (h.1 rfl).1
      simp at this
      omega
    · apply (hinv.flush hfits).not_delivered_of_large
      · simpa using hlarge
      · exact Or.inr ⟨rfl, by simp⟩
  · rw [if_neg hlarge]
    rcases ih (Nat.not_lt.mp hlarge) with ⟨hs, hd, later, heq, hlengths⟩ | hnot
    · refine Or.inl ⟨hs, hd, ⟨state.offset, i - state.offset, state.msgSeq⟩ :: later, ?_, ?_⟩
      · rw [heq, sent, append_assoc, singleton_append]
      · rw [packFrom_overflow hpending hover, packFrom_nil_cons, if_neg hlarge]
        simp [hlengths, hinv.offset, hinv.index]
    · exact Or.inr hnot

end Overflow

end Agreement

/-- The loop agrees with the packing from every point of the batch on.  The
induction follows the remaining records; the cases are those of the packing,
and within an overflow those of the loop. -/
theorem outcome_agrees {sizes : List ℕ} (hmax : maxPacketBytes < 2 ^ 64)
    (hsizes : ∀ size ∈ sizes, 0 < size ∧ size < 2 ^ 64) (rest front pending : List ℕ)
    (carried : Bool) (i : ℕ) (state : SenderState)
    (hinv : LoopInvariant maxPacketBytes sizes front pending rest i state)
    (hsize : state.packetSize = counted carried pending) (hfits : pending.sum ≤ maxPacketBytes)
    (hcarried : carried = true → pending ≠ []) :
    Agrees maxPacketBytes sizes carried (packFrom maxPacketBytes pending rest)
      state.sends (outcome maxPacketBytes i rest state).sends := by
  induction rest generalizing front pending carried i state with
  | nil =>
    refine agrees_nil hinv hsize (fun size hmem => (hsizes size ?_).1) hfits hcarried
    rw [hinv.split]
    simp [hmem]
  | cons size rest ih =>
    have hpos : ∀ size ∈ pending, 0 < size := by
      intro other hmem
      exact (hsizes other (by rw [hinv.split]; simp [hmem])).1
    have hlt : size < 2 ^ 64 := (hsizes size (by rw [hinv.split]; simp)).2
    by_cases hempty : pending = []
    · subst hempty
      have hzero : state.packetSize = 0 := by simpa [counted] using hsize
      have hfresh : carried = false := by simpa using hcarried
      subst hfresh
      have hcode : sizeT (state.packetSize + size) = size := by
        rw [hzero, Nat.zero_add, sizeT_eq hlt]
      rw [packFrom_nil_cons]
      by_cases hlarge : maxPacketBytes < size
      · rw [if_pos hlarge, outcome_huge hzero (hcode.symm ▸ hlarge), Agrees,
          survives_huge_iff hlarge]
        rcases ih _ _ false _ _ (hinv.huge hlarge) (by simp [sent, counted]) (by simp)
            (by simp) with ⟨hs, hd, later, heq, hlengths⟩ | hnot
        · refine Or.inl ⟨hs, hd, ⟨i, 1, state.msgSeq⟩ :: later, ?_, by simp [hlengths]⟩
          rw [heq, sent, append_assoc, singleton_append]
        · exact Or.inr hnot
      · have hle := Nat.not_lt.mp hlarge
        rw [if_neg hlarge, outcome_counted (hcode.symm ▸ hle)]
        exact ih _ _ false _ _ (hinv.count _) (by simp [hcode, counted]) (by simpa using hle)
          (by simp)
    · by_cases hover : maxPacketBytes < pending.sum + size
      · by_cases hcode : maxPacketBytes < sizeT (state.packetSize + size)
        · by_cases hzero : state.packetSize = 0
          · exact agrees_forgotten hinv hsize hfits hempty hover hpos hcarried hzero hcode
          · apply agrees_flush hinv hsize hfits hempty hover hpos hcarried hzero hcode
            intro hle
            exact ih _ _ true _ _ (hinv.flush hfits) (by simp [sent, counted])
              (by simpa using hle) (by simp)
        · exact agrees_uncounted hinv hsize hfits hempty hover (Nat.not_lt.mp hcode)
      · have hsum := Nat.not_lt.mp hover
        have hle := counted_le_sum carried pending
        have hcode : sizeT (state.packetSize + size) = counted carried pending + size := by
          rw [hsize]
          exact sizeT_eq (by omega)
        rw [packFrom_fits hempty hsum, outcome_counted (by omega)]
        exact ih _ _ carried _ _ (hinv.count _)
          (by rw [counted_append size hcarried]; exact hcode) (by simpa using hsum)
          (by simp)

def NumberedMod (before : ℕ) (sends : List Send) : Prop :=
  ∀ front send back, sends = front ++ send :: back →
    send.idx = (before + (front.map count).sum) % 2 ^ 32

variable {before : ℕ}

theorem numberedMod_append (offset count : ℕ) (hnumbered : NumberedMod before sends) :
    NumberedMod before (sends ++
      [⟨offset, count, (before + (sends.map Send.count).sum) % 2 ^ 32⟩]) := by
  intro front send back heq
  rcases eq_nil_or_concat' back with rfl | ⟨body, last, rfl⟩
  · obtain ⟨rfl, hsend⟩ := append_inj' heq rfl
    rw [← singleton_injective hsend]
  · have hinit : sends = front ++ send :: body := by
      rw [← cons_append, ← append_assoc] at heq
      exact (append_inj' heq rfl).1
    exact hnumbered front send body hinit

/-- The counter agrees with the records sent so far. -/
structure SeqInvariant (before : ℕ) (state : SenderState) : Prop where
  running : state.running = true
  seq : state.msgSeq = (before + (state.sends.map count).sum) % 2 ^ 32
  numbered : NumberedMod before state.sends

theorem SeqInvariant.sent {state : SenderState} (hseq : SeqInvariant before state)
    (offset count next : ℕ) :
    SeqInvariant before (sent offset count next state) where
  running := hseq.running
  seq := by
    simp only [Sender.sent, hseq.seq, map_append, map_cons, map_nil, sum_append, sum_cons, sum_nil]
    omega
  numbered := by
    simp only [Sender.sent, hseq.seq]
    exact numberedMod_append offset count hseq.numbered

theorem numberedMod_outcome (maxPacketBytes before i : ℕ) (rest : List ℕ)
    (state : SenderState) (hseq : SeqInvariant before state) :
    NumberedMod before (outcome maxPacketBytes i rest state).sends := by
  induction rest generalizing i state with
  | nil =>
    rw [sends_outcome_nil _ _ _ hseq.running]
    split
    · exact hseq.numbered
    · exact (hseq.sent _ _ 0).numbered
  | cons size rest ih =>
    by_cases hover : maxPacketBytes < sizeT (state.packetSize + size)
    · by_cases hzero : state.packetSize = 0
      · rw [outcome_huge hzero hover]
        exact ih _ _ (hseq.sent _ _ _)
      · rw [outcome_flush hzero hover]
        exact ih _ _ (hseq.sent _ _ _)
    · rw [outcome_counted (Nat.not_lt.mp hover)]
      exact ih _ _ ⟨hseq.running, hseq.seq, hseq.numbered⟩

/-- The counter shows the true numbers as long as the last message starts below
`2^32`. -/
theorem numbered_iff_of_mod (hnumbered : NumberedMod before sends) :
    Numbered before sends ↔ ∀ front last, sends = front ++ [last] →
      before + (front.map count).sum < 2 ^ 32 := by
  constructor
  · intro htrue front last heq
    rw [← htrue front last [] heq, hnumbered front last [] heq]
    exact Nat.mod_lt _ (by norm_num)
  · intro hlast front send back heq
    rw [hnumbered front send back heq]
    apply Nat.mod_eq_of_lt
    rcases eq_nil_or_concat' back with rfl | ⟨body, last, rfl⟩
    · exact hlast front send heq
    · have hbound := hlast (front ++ send :: body) last (by rw [heq]; simp)
      simp only [map_append, sum_append] at hbound
      omega

theorem length_flatten_eq_sum_counts {packets : List (List ℕ)}
    (hlengths : sends.map count = packets.map length) :
    packets.flatten.length = (sends.map count).sum := by
  rw [length_flatten, hlengths]

/-- With the sends following the packing, the last message starts below `2^32`
exactly when few enough records precede the last packet. -/
theorem seqFits_iff {sizes : List ℕ}
    (hlengths : sends.map count = (pack maxPacketBytes sizes).map length) :
    SeqFits maxPacketBytes sizes before ↔ ∀ front last, sends = front ++ [last] →
      before + (front.map count).sum < 2 ^ 32 := by
  have hlength := congrArg length hlengths
  constructor
  · intro hfits front last heq
    rcases eq_nil_or_concat' (pack maxPacketBytes sizes) with hnil | ⟨body, packet, hpack⟩
    · simp [heq, hnil] at hlength
    · rw [heq, hpack, map_append, map_append] at hlengths
      have hfront := (append_inj' hlengths rfl).1
      rw [← length_flatten_eq_sum_counts hfront]
      exact hfits body packet hpack
  · intro hsends body packet hpack
    rcases eq_nil_or_concat' sends with hnil | ⟨front, last, heq⟩
    · simp [hpack, hnil] at hlength
    · rw [heq, hpack, map_append, map_append] at hlengths
      have hfront := (append_inj' hlengths rfl).1
      rw [length_flatten_eq_sum_counts hfront]
      exact hsends front last heq

/-- One iteration of the sender delivers every record of the batch exactly once,
in bounded and correctly numbered packets, if and only if the packets of the
reference packing survive the count the loop leaves out and the message numbers
fit into 32 bits. -/
theorem runBatch_delivers_iff (maxPacketBytes : ℕ) (sizes : List ℕ) (before : ℕ)
    (hmax : maxPacketBytes < 2 ^ 32) (hsizes : ∀ size ∈ sizes, 0 < size ∧ size < 2 ^ 64) :
    Delivered maxPacketBytes sizes
          (runBatch maxPacketBytes (fun _ => true) (sizes.map some)
            (before % 2 ^ 32)).sends ∧
        Numbered before
          (runBatch maxPacketBytes (fun _ => true) (sizes.map some)
            (before % 2 ^ 32)).sends ↔
      Survives maxPacketBytes false (pack maxPacketBytes sizes) ∧
        SeqFits maxPacketBytes sizes before := by
  rw [runBatch_eq_outcome]
  have hinv : LoopInvariant maxPacketBytes sizes [] [] sizes 0
      { msgSeq := before % 2 ^ 32 } := by
    constructor <;> simp [coverage]
  have hseq : SeqInvariant before { msgSeq := before % 2 ^ 32 } := by
    constructor <;> simp [NumberedMod]
  have hnumbered := numberedMod_outcome maxPacketBytes before 0 sizes _ hseq
  rw [numbered_iff_of_mod hnumbered]
  rcases outcome_agrees (by omega) hsizes sizes [] [] false 0 _ hinv (by simp [counted])
      (by simp) (by simp) with ⟨hs, hd, more, heq, hlengths⟩ | ⟨hs, hd⟩
  · rw [nil_append] at heq
    rw [← heq] at hlengths
    rw [seqFits_iff hlengths]
    exact ⟨fun h => ⟨hs, h.2⟩, fun h => ⟨hd, h.2⟩⟩
  · exact ⟨fun h => absurd h.1 hd, fun h => absurd h.1 hs⟩

/-- Two records within the limit: both travel in one packet. -/
theorem runBatch_delivers_pair :
    Delivered 10 [3, 4] (runBatch 10 (fun _ => true) ([3, 4].map some) 0).sends ∧
      Numbered 0 (runBatch 10 (fun _ => true) ([3, 4].map some) 0).sends := by
  refine (runBatch_delivers_iff 10 [3, 4] 0 (by decide) (by decide)).mpr ⟨?_, ?_⟩
  · simp [pack, packFrom, Survives]
  · intro front last heq
    have hlength := congrArg length heq
    simp [pack, packFrom] at hlength
    simp [hlength]

/-- The record that overflows the first packet is the last of the batch and is
never sent. -/
theorem runBatch_loses_last_record :
    ¬ (Delivered 4 [3, 2] (runBatch 4 (fun _ => true) ([3, 2].map some) 0).sends ∧
      Numbered 0 (runBatch 4 (fun _ => true) ([3, 2].map some) 0).sends) := by
  rintro ⟨⟨hcover, -⟩, -⟩
  revert hcover
  decide

end OblogProxy.Sender
