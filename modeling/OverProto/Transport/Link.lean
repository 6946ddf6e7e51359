import OverProto.Transport.Timeouts

/-!
# A sender and a receiver over a lossy network

One direction of a link between two reliable contexts of `transport/udp_mtu_linux.go`. The
sender calls `Send` and `ProcessTimeouts`, and hands the sequence number of each
acknowledgement it reads to `ProcessACK`; the receiver calls `Recv` on each datagram it reads.
The network keeps every datagram either end ever wrote and hands any of them over at any time,
as often as it likes: it loses, repeats and reorders datagrams at will (`Link.step`).

Two ghost records say what the link is for: `stamped`, the packet `Send` stamped with each
sequence number, and `delivered`, the reliable packets `Recv` returned, in order. While fewer
than 2^32 - 32 packets have been stamped, so that no sequence number within reach of either
window has wrapped, every run keeps `LinkInv`. The receiver then returns each sequence number at
most once, each time as `Recv` decodes a frame of the packet stamped with it. The sender
releases a packet, or holds it as ACKED, only once the receiver has returned it. The receive
window starts between the sender's `sendBase` and `nextSeq`.
-/

namespace OverProto

/-- One direction of a link: the two ends, every datagram written towards each end, and the
ghost records of the packets `Send` stamped (the one of sequence number `i` at index `i`) and
of the reliable packets `Recv` returned, in order. -/
structure Link where
  sender : ReliableContext
  receiver : ReliableContext
  toReceiver : List (List Byte)
  toSender : List (List Byte)
  stamped : List (PacketHeader × List Byte)
  delivered : List (PacketHeader × List Byte)

/-- A call of the sender, or the network handing the `i`-th datagram written towards an end to
that end. -/
inductive LinkEvent where
  | send (hdr : PacketHeader) (payload : List Byte) (now : Int) (writeErr : Option String)
  | processTimeouts (now : Int) (writeErr : Nat → Option String)
  | deliver (i : Nat) (now : Int)
  | acknowledge (i : Nat) (now : Int)

/-- The packet `Send` stamps with `nextSeq`, when the window admits one. -/
def ReliableContext.stamp (ctx : ReliableContext) (hdr : PacketHeader) (payload : List Byte) :
    List (PacketHeader × List Byte) :=
  if ctx.nextSeq - ctx.sendBase ≥ ctx.availableSlots then []
  else [({ hdr with seq := ctx.nextSeq, flags := hdr.flags ||| flagReliable }, payload)]

/-- The reliable packet `Recv` returned, if any. -/
def reliablePacket : Except String (PacketHeader × List Byte) → List (PacketHeader × List Byte)
  | .ok (hdr, payload) => if hdr.flags &&& flagReliable = 0 then [] else [(hdr, payload)]
  | .error _ => []

namespace Link

/-- Both ends new, with each other's address, and nothing written. -/
def init (senderAddr receiverAddr : String) : Link :=
  { sender := newReliableContext receiverAddr, receiver := newReliableContext senderAddr,
    toReceiver := [], toSender := [], stamped := [], delivered := [] }

/-- The link after the event. A datagram handed to the receiver comes from the sender's
address; the sender passes the sequence number of every datagram it decodes to `ProcessACK`. -/
def step : LinkEvent → Link → Link
  | .send hdr payload now writeErr, link =>
    let out := link.sender.send hdr payload now writeErr
    { link with
      sender := out.2.1, toReceiver := link.toReceiver ++ out.2.2,
      stamped := link.stamped ++ link.sender.stamp hdr payload }
  | .processTimeouts now writeErr, link =>
    let out := link.sender.processTimeouts now writeErr
    { link with sender := out.2.1, toReceiver := link.toReceiver ++ out.2.2 }
  | .deliver i now, link =>
    match link.toReceiver[i]? with
    | none => link
    | some datagram =>
      let out := link.receiver.recv (.ok (link.receiver.addr, datagram)) now
      { link with
        receiver := out.2.1, toSender := link.toSender ++ out.2.2,
        delivered := link.delivered ++ reliablePacket out.1 }
  | .acknowledge i now, link =>
    match link.toSender[i]? with
    | none => link
    | some datagram =>
      match deserialize datagram with
      | .error _ => link
      | .ok (hdr, _) =>
        let out := link.sender.processAck hdr.seq now
        { link with sender := out.1, toReceiver := link.toReceiver ++ out.2 }

/-- The link after the events, in order. -/
def run : List LinkEvent → Link → Link
  | [], link => link
  | event :: events, link => run events (step event link)

/-- The sequence numbers of the packets delivered, in order. -/
def deliveredSeqs (link : Link) : List Nat := link.delivered.map fun p => p.1.seq.toNat

end Link

/-! ## The log of stamped packets -/

section Log

variable {log : List (PacketHeader × List Byte)}

/-- The packet at index `i` of the log has sequence number `i` and `FlagReliable` set. -/
def LogInv (log : List (PacketHeader × List Byte)) : Prop :=
  ∀ i hdr payload, log[i]? = some (hdr, payload) →
    hdr.seq = BitVec.ofNat 32 i ∧ hdr.flags &&& flagReliable ≠ 0

/-- The datagram is the frame of a packet of the log. -/
def Framed (log : List (PacketHeader × List Byte)) (datagram : List Byte) : Prop :=
  ∃ (i : Nat) (hdr : PacketHeader) (payload : List Byte), log[i]? = some (hdr, payload) ∧
    serialize hdr payload = .ok datagram

/-- The packet is what `Recv` decodes from the first `UDPRecvBufferSize` bytes of the frame of a
packet of the log. -/
def Decoded (log : List (PacketHeader × List Byte)) (packet : PacketHeader × List Byte) : Prop :=
  ∃ (i : Nat) (hdr : PacketHeader) (payload datagram : List Byte), log[i]? = some (hdr, payload) ∧
    serialize hdr payload = .ok datagram ∧
    deserialize (datagram.take udpRecvBufferSize) = .ok packet

/-- The slot holds the packet the log records for `seq`. -/
def WindowSlot.Logged (slot : WindowSlot) (log : List (PacketHeader × List Byte))
    (seq : BitVec 32) : Prop :=
  ∃ hdr, slot.header = some hdr ∧ log[seq.toNat]? = some (hdr, slot.data)

theorem getElem?_append_of_some {more : List (PacketHeader × List Byte)} {i : Nat}
    {p : PacketHeader × List Byte} (found : log[i]? = some p) : (log ++ more)[i]? = some p := by
  rwa [List.getElem?_append_left (List.getElem?_eq_some_iff.mp found).1]

theorem Framed.append {datagram : List Byte} (framed : Framed log datagram)
    (more : List (PacketHeader × List Byte)) : Framed (log ++ more) datagram :=
  let ⟨i, hdr, payload, found, sent⟩ := framed
  ⟨i, hdr, payload, getElem?_append_of_some found, sent⟩

theorem Decoded.append {packet : PacketHeader × List Byte} (decoded : Decoded log packet)
    (more : List (PacketHeader × List Byte)) : Decoded (log ++ more) packet :=
  let ⟨i, hdr, payload, datagram, found, sent, read⟩ := decoded
  ⟨i, hdr, payload, datagram, getElem?_append_of_some found, sent, read⟩

/-- `Send` adds to the log the packet it stamps with `nextSeq`. -/
theorem LogInv.stamp (inv : LogInv log) (ctx : ReliableContext)
    (count : ctx.nextSeq.toNat = log.length) (hdr : PacketHeader) (payload : List Byte) :
    LogInv (log ++ ctx.stamp hdr payload) := by
  intro i h p found
  unfold ReliableContext.stamp at found
  split at found
  · exact inv i h p (by simpa using found)
  by_cases old : i < log.length
  · exact inv i h p (by rwa [List.getElem?_append_left old] at found)
  rw [List.getElem?_append_right (by omega), List.getElem?_eq_some_iff] at found
  obtain ⟨within, stamped⟩ := found
  simp only [List.length_singleton] at within
  obtain rfl : i = log.length := by omega
  simp only [Nat.sub_self, List.getElem_singleton, Prod.mk.injEq] at stamped
  obtain ⟨rfl, rfl⟩ := stamped
  refine ⟨?_, SendInv.reliable_flag hdr.flags⟩
  rw [← count, BitVec.ofNat_toNat, BitVec.setWidth_eq]

/-- `Recv` reads the header of a frame cut to at least 24 bytes. -/
theorem readHeader_take_frame (hdr : PacketHeader) (payload : List Byte) {n : Nat}
    (long : 24 ≤ n) : readHeader ((frame hdr payload).take n) = { hdr with timestamp := 0 } := by
  rw [frame, List.append_assoc, List.take_append_eq_append_take,
    List.take_of_length_le (by simpa using long), readHeader_headerBytes]

/-- A packet decoded from a cut frame has the frame's header, with the reserved word zero. -/
theorem header_of_deserialize_take {hdr : PacketHeader} {payload : List Byte} {n : Nat}
    {packet : PacketHeader × List Byte}
    (read : deserialize ((frame hdr payload).take n) = .ok packet) :
    packet.1 = { hdr with timestamp := 0 } := by
  obtain ⟨long, same, -⟩ := deserialize_eq_ok_iff.mp read
  rw [same, readHeader_take_frame hdr payload]
  simp only [List.length_take] at long
  omega

/-- A packet decoded from the frame of the packet at index `i` of the log has sequence number
`i` and `FlagReliable` set. -/
theorem LogInv.decoded (inv : LogInv log) (fits : log.length ≤ 2 ^ 32) {i : Nat}
    {hdr : PacketHeader} {payload datagram : List Byte} {packet : PacketHeader × List Byte}
    (found : log[i]? = some (hdr, payload)) (sent : serialize hdr payload = .ok datagram)
    (read : deserialize (datagram.take udpRecvBufferSize) = .ok packet) :
    i < log.length ∧ packet.1.seq.toNat = i ∧ packet.1.flags &&& flagReliable ≠ 0 := by
  obtain ⟨-, rfl⟩ := serialize_eq_ok_iff.mp sent
  obtain ⟨seq, reliable⟩ := inv i hdr payload found
  have within := (List.getElem?_eq_some_iff.mp found).1
  rw [header_of_deserialize_take read]
  refine ⟨within, ?_, reliable⟩
  rw [seq, BitVec.toNat_ofNat]
  exact Nat.mod_eq_of_lt (by omega)

end Log

/-! ## The sender -/

/-- A new state, not ACKED, for a busy slot that is not ACKED either. -/
theorem rescanned_restate (window : Fin 32 → WindowSlot) (j : Fin 32) (state : PacketState)
    (live : ¬ ((window j).state = .empty ∨ (window j).state = .acked)) (fresh : state ≠ .acked)
    (i : Fin 32) : (window i).Rescanned (Function.update window j { window j with state } i) := by
  by_cases here : i = j
  · subst here
    rw [Function.update_same]
    exact ⟨rfl, rfl, rfl, .inr ⟨live, fresh⟩⟩
  · rw [Function.update_noteq here]
    exact .refl _

section LogRing

variable {log : List (PacketHeader × List Byte)} {seqs : List Nat} {base next : BitVec 32}
  {window : Fin 32 → WindowSlot}

/-- One past a sequence number below another does not wrap. -/
theorem toNat_succ_of_lt {base next : BitVec 32} (ahead : base < next) :
    (base + 1).toNat = base.toNat + 1 := by
  have := next.isLt
  have := BitVec.lt_def.mp ahead
  rw [BitVec.toNat_add, show (1 : BitVec 32).toNat = 1 from rfl]
  exact Nat.mod_eq_of_lt (by omega)

/-- The ring from `base` to `next` read against the log of stamped packets and the sequence
numbers `seqs` the receiver returned: `next` counts the log and is not below `base` as a number,
every busy outstanding slot holds the packet logged for it, and every packet released (below
`base`) or held as ACKED was returned by the receiver. -/
structure LogRing (log : List (PacketHeader × List Byte)) (seqs : List Nat) (base next : BitVec 32)
    (window : Fin 32 → WindowSlot) : Prop where
  count : next.toNat = log.length
  order : base.toNat ≤ next.toNat
  logged : ∀ q, Outstanding base next q → (window (getWindowIndex q)).state ≠ .empty →
    (window (getWindowIndex q)).Logged log q
  released : ∀ n < base.toNat, n ∈ seqs
  acked : ∀ q, Outstanding base next q → (window (getWindowIndex q)).state = .acked →
    q.toNat ∈ seqs

namespace LogRing

theorem mono (ring : LogRing log seqs base next window) {seqs' : List Nat}
    (more : ∀ n ∈ seqs, n ∈ seqs') : LogRing log seqs' base next window :=
  { ring with
    released := fun n below => more n (ring.released n below)
    acked := fun q hq acked => more _ (ring.acked q hq acked) }

/-- A busy slot is the slot of an outstanding packet, and holds the frame of the packet the log
has at its sequence number. -/
theorem busy_framed (ring : LogRing log seqs base next window) (inv : RingInv base next window)
    {j : Fin 32} (busy : (window j).state ≠ .empty) :
    ∃ q, Outstanding base next q ∧ getWindowIndex q = j ∧ ∃ hdr payload,
      log[q.toNat]? = some (hdr, payload) ∧ serialize hdr payload = .ok (window j).serialized := by
  obtain ⟨q, hq, rfl⟩ : ∃ q, Outstanding base next q ∧ getWindowIndex q = j := by
    by_contra none
    push_neg at none
    exact busy (inv.outside j none)
  obtain ⟨hdr, header, -, -, sent⟩ := inv.inside q hq busy
  obtain ⟨hdr', header', found⟩ := ring.logged q hq busy
  obtain rfl : hdr = hdr' := Option.some.inj (header.symm.trans header')
  exact ⟨q, hq, rfl, hdr, _, found, sent⟩

/-- A busy slot holds the frame of a logged packet. -/
theorem framed (ring : LogRing log seqs base next window) (inv : RingInv base next window)
    {j : Fin 32} (busy : (window j).state ≠ .empty) : Framed log (window j).serialized :=
  have ⟨q, _, _, hdr, payload, found, sent⟩ := ring.busy_framed inv busy
  ⟨q.toNat, hdr, payload, found, sent⟩

/-- The changes of `ProcessTimeouts`, and of `ProcessACK` short of an acknowledgement. -/
theorem rescanned (ring : LogRing log seqs base next window) {window' : Fin 32 → WindowSlot}
    (slots : ∀ j, (window j).Rescanned (window' j)) : LogRing log seqs base next window' := by
  refine ⟨ring.count, ring.order, fun q hq busy => ?_, ring.released,
    fun q hq acked => ring.acked q hq ((slots _).acked acked)⟩
  obtain ⟨header, data, -⟩ := slots (getWindowIndex q)
  obtain ⟨hdr, logged, found⟩ := ring.logged q hq ((slots _).busy busy)
  exact ⟨hdr, header.trans logged, by rwa [data]⟩

/-- `Send` stores at `next` the packet it adds to the log, or leaves its slot EMPTY. -/
theorem push (ring : LogRing log seqs base next window) (inv : RingInv base next window)
    (room : (next - base).toNat < 32) (fits : log.length + 1 < 2 ^ 32)
    (pkt : PacketHeader × List Byte) (slot : WindowSlot) (fresh : slot.state ≠ .acked)
    (holds : slot.state ≠ .empty → slot.header = some pkt.1 ∧ slot.data = pkt.2) :
    LogRing (log ++ [pkt]) seqs base (next + 1)
      (Function.update window (getWindowIndex next) slot) := by
  have step : (next + 1).toNat = next.toNat + 1 := by
    rw [BitVec.toNat_add, ring.count, show (1 : BitVec 32).toNat = 1 from rfl]
    exact Nat.mod_eq_of_lt (by omega)
  refine ⟨by rw [step, ring.count, List.length_append, List.length_singleton],
    by have := ring.order; omega, fun q hq busy => ?_,
    ring.released, fun q hq acked => ?_⟩
  · rcases (outstanding_succ_iff room).mp hq with before | rfl
    · rw [Function.update_noteq (inv.index_ne_next room before)] at busy ⊢
      obtain ⟨hdr, header, found⟩ := ring.logged q before busy
      exact ⟨hdr, header, getElem?_append_of_some found⟩
    · rw [Function.update_same] at busy ⊢
      obtain ⟨header, data⟩ := holds busy
      refine ⟨pkt.1, header, ?_⟩
      rw [ring.count, data]
      exact List.getElem?_concat_length log pkt
  · rcases (outstanding_succ_iff room).mp hq with before | rfl
    · rw [Function.update_noteq (inv.index_ne_next room before)] at acked
      exact ring.acked q before acked
    · rw [Function.update_same] at acked
      exact absurd acked fresh

/-- The advance of `ProcessACK` releases the ACKED packet at `base`. -/
theorem pop (ring : LogRing log seqs base next window) (inv : RingInv base next window)
    (ahead : base < next) (acked : (window (getWindowIndex base)).state = .acked) :
    LogRing log seqs (base + 1) next (Function.update window (getWindowIndex base) .cleared) := by
  have apart : next ≠ base := (BitVec.ne_of_lt ahead).symm
  have lt := BitVec.lt_def.mp ahead
  have base_out : Outstanding base next base := (outstanding_iff_of_le ring.order).mpr ⟨le_rfl, lt⟩
  have step := toNat_succ_of_lt ahead
  have kept (q : BitVec 32) (hq : Outstanding (base + 1) next q) : Outstanding base next q ∧
      Function.update window (getWindowIndex base) .cleared (getWindowIndex q) =
        window (getWindowIndex q) := by
    obtain ⟨before, other⟩ := (outstanding_pop_iff apart).mp hq
    exact ⟨before, Function.update_noteq (inv.index_ne_of_ne before base_out other) _ _⟩
  refine ⟨ring.count, step ▸ lt, fun q hq busy => ?_, fun n below => ?_, fun q hq acked' => ?_⟩
  · obtain ⟨before, same⟩ := kept q hq
    rw [same] at busy ⊢
    exact ring.logged q before busy
  · rw [step] at below
    rcases Nat.lt_succ_iff_lt_or_eq.mp below with low | rfl
    · exact ring.released n low
    · exact ring.acked base base_out acked
  · obtain ⟨before, same⟩ := kept q hq
    rw [same] at acked'
    exact ring.acked q before acked'

/-- `ProcessACK` marks ACKED the busy slot of an outstanding packet the receiver returned. -/
theorem mark (ring : LogRing log seqs base next window) (inv : RingInv base next window)
    {q : BitVec 32} (hq : Outstanding base next q) (busy : (window (getWindowIndex q)).state ≠ .empty)
    (returned : q.toNat ∈ seqs) :
    LogRing log seqs base next (Function.update window (getWindowIndex q)
      { window (getWindowIndex q) with state := .acked }) := by
  refine ⟨ring.count, ring.order, fun q' hq' busy' => ?_, ring.released, fun q' hq' acked => ?_⟩
  · by_cases same : q' = q
    · subst same
      rw [Function.update_same]
      exact ring.logged q' hq' busy
    · rw [Function.update_noteq (inv.index_ne_of_ne hq' hq same)] at busy' ⊢
      exact ring.logged q' hq' busy'
  · by_cases same : q' = q
    · exact same ▸ returned
    · rw [Function.update_noteq (inv.index_ne_of_ne hq' hq same)] at acked
      exact ring.acked q' hq' acked

end LogRing

end LogRing

/-- The sender of a link whose log of stamped packets is `log` and whose receiver returned the
sequence numbers `seqs`. -/
structure SenderInv (log : List (PacketHeader × List Byte)) (seqs : List Nat)
    (ctx : ReliableContext) extends SendInv ctx : Prop where
  logRing : LogRing log seqs ctx.sendBase ctx.nextSeq ctx.sendWindow

theorem senderInv_newReliableContext (addr : String) (seqs : List Nat) :
    SenderInv [] seqs (newReliableContext addr) where
  toSendInv := sendInv_newReliableContext addr
  logRing :=
    { count := rfl
      order := le_rfl
      logged := fun _ none => absurd none (by simp [Outstanding, newReliableContext])
      released := fun _ none => absurd none (Nat.not_lt_zero _)
      acked := fun _ none => absurd none (by simp [Outstanding, newReliableContext]) }

namespace SenderInv

variable {log : List (PacketHeader × List Byte)} {seqs : List Nat} {ctx : ReliableContext}

theorem mono (inv : SenderInv log seqs ctx) {seqs' : List Nat} (more : ∀ n ∈ seqs, n ∈ seqs') :
    SenderInv log seqs' ctx :=
  ⟨inv.toSendInv, inv.logRing.mono more⟩

theorem updateCongestionWindow (inv : SenderInv log seqs ctx) :
    SenderInv log seqs ctx.updateCongestionWindow := by
  refine ⟨inv.toSendInv.updateCongestionWindow, ?_⟩
  rw [ReliableContext.updateCongestionWindow_eq_with]
  exact inv.logRing

theorem advanceSendBase (inv : SenderInv log seqs ctx) (fuel : Nat) :
    SenderInv log seqs (ctx.advanceSendBase fuel) := by
  induction fuel generalizing ctx with
  | zero => exact inv
  | succ fuel ih =>
    unfold ReliableContext.advanceSendBase
    split
    next ahead =>
      exact ih ⟨⟨inv.window, inv.cwnd_le, inv.ring.pop (BitVec.ne_of_lt ahead.1).symm⟩,
        inv.logRing.pop inv.ring ahead.1 ahead.2⟩
    next => exact inv

/-- `Send` keeps the invariant with its packet added to the log, and writes only frames of the
log. -/
theorem send (inv : SenderInv log seqs ctx) (fits : log.length + 1 < 2 ^ 32) (hdr : PacketHeader)
    (payload : List Byte) (now : Int) (writeErr : Option String) :
    let out := ctx.send hdr payload now writeErr
    SenderInv (log ++ ctx.stamp hdr payload) seqs out.2.1 ∧
      ∀ d ∈ out.2.2, Framed (log ++ ctx.stamp hdr payload) d := by
  dsimp only
  by_cases full : ctx.nextSeq - ctx.sendBase ≥ ctx.availableSlots
  · rw [ReliableContext.stamp, if_pos full, List.append_nil, ctx.send_of_full hdr payload now writeErr full]
    exact ⟨inv, fun _ none => absurd none (List.not_mem_nil _)⟩
  have room := ctx.outstanding_lt_of_admitted inv.window inv.cwnd_le inv.ring.bounded full
  have kept := inv.toSendInv.send hdr payload now writeErr
  rw [ReliableContext.stamp, if_neg full]
  rcases ctx.send_admitted hdr payload now writeErr full with ⟨-, sent, none⟩ | ⟨small, sent, written⟩
  · rw [sent] at kept ⊢
    rw [none]
    have pushed := inv.logRing.push inv.ring room fits
      ({ hdr with seq := ctx.nextSeq, flags := hdr.flags ||| flagReliable }, payload)
      (ctx.sendWindow (getWindowIndex ctx.nextSeq))
      (by rw [inv.ring.next_free room]; decide) fun busy => absurd (inv.ring.next_free room) busy
    rw [Function.update_eq_self] at pushed
    exact ⟨⟨kept, pushed⟩, fun _ none => absurd none (List.not_mem_nil _)⟩
  · rw [sent] at kept ⊢
    rw [written]
    refine ⟨⟨kept, inv.logRing.push inv.ring room fits _ _ (by simp) fun _ => ⟨rfl, rfl⟩⟩,
      fun d mem => ?_⟩
    rw [List.mem_singleton.mp mem]
    exact ⟨log.length, _, payload, List.getElem?_concat_length _ _, serialize_eq_ok _ small⟩

/-- `ProcessTimeouts` keeps the invariant and writes only frames of the log, whatever its writes
return. -/
theorem processTimeouts (inv : SenderInv log seqs ctx) (now : Int) (writeErr : Nat → Option String) :
    let out := ctx.processTimeouts now writeErr
    SenderInv log seqs out.2.1 ∧ ∀ d ∈ out.2.2, Framed log d := by
  obtain ⟨base, next, slots, sent, written, packets⟩ : ctx.Rescan []
      (ctx.processTimeouts now writeErr).2.1 (ctx.processTimeouts now writeErr).2.2 :=
    ReliableContext.timeoutLoop_rescans now writeErr _ ctx 0 []
  refine ⟨⟨inv.toSendInv.processTimeouts now writeErr, ?_⟩, fun d mem => ?_⟩
  · rw [base, next]
    exact inv.logRing.rescanned slots
  · rw [written, List.nil_append] at mem
    obtain ⟨j, busy, rfl⟩ := packets d mem
    exact inv.logRing.framed inv.ring busy

/-- `ProcessACK` of a sequence number the receiver returned keeps the invariant, and a fast
retransmission writes a frame of the log. -/
theorem processAck (inv : SenderInv log seqs ctx) (ackSeq : BitVec 32) (now : Int)
    (returned : ackSeq.toNat ∈ seqs) :
    let out := ctx.processAck ackSeq now
    SenderInv log seqs out.1 ∧ ∀ d ∈ out.2, Framed log d := by
  have nothing : ∀ d ∈ ([] : List (List Byte)), Framed log d :=
    fun _ none => absurd none (List.not_mem_nil _)
  suffices LogRing log seqs (ctx.processAck ackSeq now).1.sendBase (ctx.processAck ackSeq now).1.nextSeq
      (ctx.processAck ackSeq now).1.sendWindow ∧ ∀ d ∈ (ctx.processAck ackSeq now).2, Framed log d from
    ⟨⟨inv.toSendInv.processAck ackSeq now, this.1⟩, this.2⟩
  unfold ReliableContext.processAck
  dsimp only
  split
  · exact ⟨inv.logRing, nothing⟩
  next inw =>
  split
  · exact ⟨inv.logRing, nothing⟩
  next idle =>
  have busy : (ctx.sendWindow (getWindowIndex ackSeq)).state ≠ .empty := fun empty => idle (.inl empty)
  split
  · split
    · refine ⟨inv.logRing.rescanned (rescanned_restate _ _ _ idle (by decide)), fun d mem => ?_⟩
      rw [List.mem_singleton.mp mem]
      exact inv.logRing.framed inv.ring busy
    · exact ⟨inv.logRing, nothing⟩
  · rw [ReliableContext.isInSendWindow, inv.window, inWindow_iff] at inw
    have hq := (inv.ring.busy (not_not.mp inw) busy).1
    have marked := inv.logRing.mark inv.ring hq busy returned
    have fresh : SendInv { ctx with dupAckCount := 0, lastAckSeq := ackSeq } :=
      ⟨inv.window, inv.cwnd_le, inv.ring⟩
    refine ⟨?_, nothing⟩
    split
    · exact (SenderInv.advanceSendBase (SenderInv.updateCongestionWindow
        ⟨(fresh.updateRtt _).restate _ _ busy, marked⟩) 32).logRing
    · exact (SenderInv.advanceSendBase (SenderInv.updateCongestionWindow
        ⟨fresh.restate _ _ busy, marked⟩) 32).logRing

end SenderInv

/-! ## The receiver -/

section Recv

variable (ctx : ReliableContext) {datagram : List Byte} {hdr : PacketHeader} {payload : List Byte}
  (now : Int)

/-- The acknowledgement `sendACK` writes decodes to the acknowledged sequence number. -/
theorem seq_of_sendAck {ackSeq : BitVec 32} {now : Int} {ack : List Byte}
    (sent : ack ∈ ReliableContext.sendAck ackSeq now) {packet : PacketHeader × List Byte}
    (read : deserialize ack = .ok packet) : packet.1.seq = ackSeq := by
  obtain ⟨datagram, ackHdr, only, -, decoded, seq, -⟩ := deserialize_sendAck ackSeq now
  rw [only, List.mem_singleton] at sent
  subst sent
  rw [decoded] at read
  cases read
  exact seq

/-- `Recv` acknowledges every reliable packet it decodes from its peer. -/
theorem recv_acks_decoded
    (decoded : deserialize (datagram.take udpRecvBufferSize) = .ok (hdr, payload))
    (reliable : hdr.flags &&& flagReliable ≠ 0) :
    (ctx.recv (.ok (ctx.addr, datagram)) now).2.2 = ReliableContext.sendAck hdr.seq now := by
  simp only [ReliableContext.recv, udpRecv_ok decoded, ne_eq, not_true_eq_false, if_false, reliable]
  split_ifs <;> rfl

theorem recv_outside (decoded : deserialize (datagram.take udpRecvBufferSize) = .ok (hdr, payload))
    (reliable : hdr.flags &&& flagReliable ≠ 0) (outside : ctx.isInRecvWindow hdr.seq = false) :
    (ctx.recv (.ok (ctx.addr, datagram)) now).1 = .error "sequence number out of receive window" ∧
      (ctx.recv (.ok (ctx.addr, datagram)) now).2.1 = ctx := by
  simp only [ReliableContext.recv, udpRecv_ok decoded, ne_eq, not_true_eq_false, if_false,
    reliable, outside]
  simp

theorem recv_duplicate (decoded : deserialize (datagram.take udpRecvBufferSize) = .ok (hdr, payload))
    (reliable : hdr.flags &&& flagReliable ≠ 0) (inside : ctx.isInRecvWindow hdr.seq = true)
    (dup : ctx.recvWindow (getWindowIndex hdr.seq) = true) :
    (ctx.recv (.ok (ctx.addr, datagram)) now).1 = .error "duplicate packet" ∧
      (ctx.recv (.ok (ctx.addr, datagram)) now).2.1 = ctx := by
  simp only [ReliableContext.recv, udpRecv_ok decoded, ne_eq, not_true_eq_false, if_false,
    reliable, inside, dup]
  simp

theorem recv_fresh (decoded : deserialize (datagram.take udpRecvBufferSize) = .ok (hdr, payload))
    (reliable : hdr.flags &&& flagReliable ≠ 0) (inside : ctx.isInRecvWindow hdr.seq = true)
    (fresh : ctx.recvWindow (getWindowIndex hdr.seq) = false) :
    (ctx.recv (.ok (ctx.addr, datagram)) now).1 = .ok (hdr, payload) := by
  simp only [ReliableContext.recv, udpRecv_ok decoded, ne_eq, not_true_eq_false, if_false,
    reliable, inside, fresh]
  simp

end Recv

/-- Near a base that has not wrapped, a number is in the window of 32 exactly when it lies
within 32 past the base, and its offset is then the difference. -/
theorem offset_of_unwrapped {base : BitVec 32} {i : Nat} (low : i + 32 ≤ 2 ^ 32)
    (high : base.toNat + 32 ≤ 2 ^ 32) :
    ((BitVec.ofNat 32 i - base).toNat < 32 ↔ base.toNat ≤ i ∧ i < base.toNat + 32) ∧
      (base.toNat ≤ i → (BitVec.ofNat 32 i - base).toNat = i - base.toNat) := by
  rw [BitVec.toNat_sub, BitVec.toNat_ofNat, Nat.mod_eq_of_lt (show i < 2 ^ 32 by omega)]
  omega

/-- Read from an unbounded base below a bound under 2^32 on everything delivered, the receive
side is read from `recvBase` itself. -/
theorem RecvInv.rebase {b N : Nat} {ctx : ReliableContext} {seqs : List Nat}
    (inv : RecvInv 0 b ctx seqs) (below : ∀ n ∈ seqs, n < N) (fits : N < 2 ^ 32) :
    RecvInv 0 ctx.recvBase.toNat ctx seqs := by
  have le : b ≤ N := by
    by_contra past
    exact lt_irrefl N (below N ((inv.receiver.mem N).mpr (.inl ⟨Nat.zero_le _, show N < b by omega⟩)))
  have same : b = ctx.recvBase.toNat := by rw [← inv.lifted, Nat.mod_eq_of_lt (by omega)]
  exact same ▸ inv

section Receiver

variable {log : List (PacketHeader × List Byte)} {delivered : List (PacketHeader × List Byte)}
  {ctx : ReliableContext}

/-- The receiver of a link whose log of stamped packets is `log`, having returned `delivered`:
its window read from `recvBase` as the unbounded base, and every packet returned decoded from
the log. -/
structure ReceiverInv (log delivered : List (PacketHeader × List Byte)) (ctx : ReliableContext) :
    Prop where
  recvInv : RecvInv 0 ctx.recvBase.toNat ctx (delivered.map fun p => p.1.seq.toNat)
  decoded : ∀ p ∈ delivered, Decoded log p

theorem receiverInv_newReliableContext (addr : String) :
    ReceiverInv log [] (newReliableContext addr) :=
  ⟨recvInv_empty (newReliableContext addr) rfl fun _ => rfl,
    fun _ none => absurd none (List.not_mem_nil _)⟩

namespace ReceiverInv

/-- Every sequence number returned is that of a packet of the log. -/
theorem lt_length (inv : ReceiverInv log delivered ctx) (logInv : LogInv log)
    (fits : log.length ≤ 2 ^ 32) {n : Nat} (mem : n ∈ delivered.map fun p => p.1.seq.toNat) :
    n < log.length := by
  obtain ⟨p, hp, rfl⟩ := List.mem_map.mp mem
  obtain ⟨i, hdr, payload, datagram, found, sent, read⟩ := inv.decoded p hp
  obtain ⟨lt, seq, -⟩ := logInv.decoded fits found sent read
  rwa [seq]

/-- The receive window starts within the log. -/
theorem base_le (inv : ReceiverInv log delivered ctx) (logInv : LogInv log)
    (fits : log.length ≤ 2 ^ 32) : ctx.recvBase.toNat ≤ log.length := by
  by_contra past
  exact lt_irrefl _ (inv.lt_length logInv fits ((inv.recvInv.receiver.mem _).mpr
    (.inl ⟨Nat.zero_le _, show log.length < ctx.recvBase.toNat by omega⟩)))

/-- The number the receiver waits for was not returned. -/
theorem base_not_mem (inv : ReceiverInv log delivered ctx) :
    ctx.recvBase.toNat ∉ delivered.map fun p => p.1.seq.toNat := by
  intro mem
  rcases (inv.recvInv.receiver.mem _).mp mem with ⟨-, below⟩ | ⟨k, -, same, got⟩
  · exact lt_irrefl _ below
  · obtain rfl : k = 0 := by change _ = ctx.recvBase.toNat + k at same; omega
    rw [inv.recvInv.receiver.expecting] at got
    exact absurd got (by decide)

/-- A sequence number the receive window has passed, or marks as received, has been
returned. -/
theorem returned (inv : ReceiverInv log delivered ctx) {i : Nat}
    (passed : i < ctx.recvBase.toNat ∨ ∃ k < 32, i = ctx.recvBase.toNat + k ∧
      ctx.recvWindow (getWindowIndex (ctx.recvBase + BitVec.ofNat 32 k)) = true) :
    i ∈ delivered.map fun p => p.1.seq.toNat := by
  refine (inv.recvInv.receiver.mem i).mpr (passed.imp (fun below => ⟨Nat.zero_le _, below⟩) ?_)
  rintro ⟨k, small, rfl, got⟩
  exact ⟨k, small, rfl, by simpa [ReliableContext.view, viewOf, small] using got⟩

/-- `Recv` of a frame of the log keeps the invariant, and every acknowledgement it writes
decodes to a sequence number returned. -/
theorem recv (inv : ReceiverInv log delivered ctx) (logInv : LogInv log)
    (fits : log.length + 32 ≤ 2 ^ 32) (near : log.length ≤ ctx.recvBase.toNat + 32)
    {datagram : List Byte} (framed : Framed log datagram) (now : Int) :
    let out := ctx.recv (.ok (ctx.addr, datagram)) now
    ReceiverInv log (delivered ++ reliablePacket out.1) out.2.1 ∧
      ∀ a ∈ out.2.2, ∀ packet, deserialize a = .ok packet →
        packet.1.seq.toNat ∈ (delivered ++ reliablePacket out.1).map fun p => p.1.seq.toNat := by
  obtain ⟨i, h, p, found, sent⟩ := framed
  obtain ⟨-, rfl⟩ := serialize_eq_ok_iff.mp sent
  obtain ⟨seq_i, reliable_h⟩ := logInv i h p found
  have within := (List.getElem?_eq_some_iff.mp found).1
  have base_le := inv.base_le logInv (by omega)
  dsimp only
  cases decoded : deserialize ((frame h p).take udpRecvBufferSize) with
  | error err =>
    have quiet : ctx.recv (.ok (ctx.addr, frame h p)) now = (.error err, ctx, []) := by
      simp [ReliableContext.recv, udpRecv, decoded]
    rw [quiet]
    exact ⟨by simpa [reliablePacket] using inv, fun _ none => absurd none (List.not_mem_nil _)⟩
  | ok packet =>
  obtain ⟨hdr, payload⟩ := packet
  have header : hdr = { h with timestamp := 0 } := header_of_deserialize_take decoded
  have seq : hdr.seq = BitVec.ofNat 32 i := by rw [header]; exact seq_i
  have reliable : hdr.flags &&& flagReliable ≠ 0 := by rw [header]; exact reliable_h
  have seq_val : hdr.seq.toNat = i := by
    rw [seq, BitVec.toNat_ofNat]
    exact Nat.mod_eq_of_lt (by omega)
  obtain ⟨window_iff, offset⟩ := @offset_of_unwrapped ctx.recvBase i (by omega) (by omega)
  rw [recv_acks_decoded ctx now decoded reliable]
  have inside_iff : ctx.isInRecvWindow hdr.seq = true ↔ ctx.recvBase.toNat ≤ i := by
    rw [ReliableContext.isInRecvWindow, inv.recvInv.window, inWindow_iff, seq, window_iff]
    omega
  have acked (seqs : List Nat) (mem : i ∈ seqs) :
      ∀ a ∈ ReliableContext.sendAck hdr.seq now, ∀ packet, deserialize a = .ok packet →
        packet.1.seq.toNat ∈ seqs := fun a sent packet read => by
    rwa [seq_of_sendAck sent read, seq_val]
  by_cases inside : ctx.isInRecvWindow hdr.seq = true
  · have k_eq := offset (inside_iff.mp inside)
    have got : hdr.seq = ctx.recvBase + BitVec.ofNat 32 (i - ctx.recvBase.toNat) := by
      rw [seq, ← k_eq, BitVec.ofNat_toNat, BitVec.setWidth_eq, BitVec.add_comm, BitVec.sub_add_cancel]
    by_cases dup : ctx.recvWindow (getWindowIndex hdr.seq) = true
    · obtain ⟨result, same⟩ := recv_duplicate ctx now decoded reliable inside dup
      rw [result, same]
      refine ⟨by simpa [reliablePacket] using inv, acked _ ?_⟩
      simpa only [reliablePacket, List.append_nil] using
        inv.returned (.inr ⟨i - ctx.recvBase.toNat, by omega, by omega, by rwa [← got]⟩)
    · have result := recv_fresh ctx now decoded reliable inside (by simpa using dup)
      have next := inv.recvInv.recv (.ok (ctx.addr, frame h p)) now
      rw [result] at next ⊢
      simp only [deliveredSeq, if_neg reliable] at next
      have delivered_seqs : (delivered ++ reliablePacket (.ok (hdr, payload))).map
          (fun p => p.1.seq.toNat) = delivered.map (fun p => p.1.seq.toNat) ++ [i] := by
        rw [List.map_append, reliablePacket, if_neg reliable, List.map_singleton, seq_val]
      rw [show ctx.recvBase.toNat + (hdr.seq - ctx.recvBase).toNat = i by rw [seq, k_eq]; omega,
        ← delivered_seqs] at next
      have below : ∀ n ∈ (delivered ++ reliablePacket (.ok (hdr, payload))).map
          (fun p => p.1.seq.toNat), n < log.length := by
        rw [delivered_seqs]
        intro n mem
        rcases List.mem_append.mp mem with old | new
        · exact inv.lt_length logInv (by omega) old
        · rw [List.mem_singleton.mp new]
          exact within
      refine ⟨⟨next.rebase below (by omega), fun q mem => ?_⟩, acked _ (by rw [delivered_seqs]; simp)⟩
      simp only [reliablePacket, if_neg reliable, List.mem_append, List.mem_singleton] at mem
      rcases mem with old | rfl
      · exact inv.decoded q old
      · exact ⟨i, h, p, _, found, sent, decoded⟩
  · obtain ⟨result, same⟩ := recv_outside ctx now decoded reliable (by simpa using inside)
    rw [result, same]
    refine ⟨by simpa [reliablePacket] using inv, acked _ ?_⟩
    simpa only [reliablePacket, List.append_nil] using
      inv.returned (.inl (by rw [inside_iff] at inside; omega))

end ReceiverInv

end Receiver

/-! ## The link -/

namespace Link

theorem length_stamped_step (event : LinkEvent) (link : Link) :
    (step event link).stamped.length ≤ link.stamped.length + 1 ∧
      link.stamped.length ≤ (step event link).stamped.length := by
  have stamp (ctx : ReliableContext) (hdr : PacketHeader) (payload : List Byte) :
      (ctx.stamp hdr payload).length ≤ 1 := by
    unfold ReliableContext.stamp
    split <;> simp
  cases event with
  | send hdr payload now writeErr =>
    have := stamp link.sender hdr payload
    simp only [step, List.length_append]
    omega
  | processTimeouts now writeErr => simp [step]
  | deliver i now =>
    simp only [step]
    split <;> simp
  | acknowledge i now =>
    simp only [step]
    split
    · simp
    · split <;> simp

/-- Each event stamps at most one packet, and none is ever removed from the log. -/
theorem length_stamped_run (events : List LinkEvent) (link : Link) :
    (run events link).stamped.length ≤ link.stamped.length + events.length ∧
      link.stamped.length ≤ (run events link).stamped.length := by
  induction events generalizing link with
  | nil => simp [run]
  | cons event events ih =>
    have := length_stamped_step event link
    have := ih (step event link)
    simp only [run, List.length_cons]
    omega

end Link

/-- The invariant of a link: the log stamped as `Send` stamps, each end's invariant against the
log and what the receiver returned, every datagram towards the receiver a frame of the log, and
every datagram towards the sender decoding to a sequence number the receiver returned. -/
structure LinkInv (link : Link) : Prop where
  log : LogInv link.stamped
  sender : SenderInv link.stamped link.deliveredSeqs link.sender
  receiver : ReceiverInv link.stamped link.delivered link.receiver
  toReceiver : ∀ d ∈ link.toReceiver, Framed link.stamped d
  toSender : ∀ a ∈ link.toSender, ∀ packet, deserialize a = .ok packet →
    packet.1.seq.toNat ∈ link.deliveredSeqs

namespace LinkInv

variable {link : Link}

theorem init (senderAddr receiverAddr : String) : LinkInv (Link.init senderAddr receiverAddr) where
  log := fun _ _ _ none => absurd none (by simp [Link.init])
  sender := senderInv_newReliableContext receiverAddr []
  receiver := receiverInv_newReliableContext senderAddr
  toReceiver := fun _ none => absurd none (List.not_mem_nil _)
  toSender := fun _ none => absurd none (List.not_mem_nil _)

/-- The receive window starts at or after the sender's `sendBase` and at or before its
`nextSeq`, which counts the log. -/
theorem windows (inv : LinkInv link) (fits : link.stamped.length ≤ 2 ^ 32) :
    link.sender.sendBase.toNat ≤ link.receiver.recvBase.toNat ∧
      link.receiver.recvBase.toNat ≤ link.sender.nextSeq.toNat ∧
      link.sender.nextSeq.toNat = link.stamped.length := by
  have count := inv.sender.logRing.count
  refine ⟨?_, count ▸ inv.receiver.base_le inv.log fits, count⟩
  by_contra past
  exact inv.receiver.base_not_mem (inv.sender.logRing.released _ (by omega))

/-- The log reaches at most 32 past the receive window. -/
theorem near (inv : LinkInv link) (fits : link.stamped.length ≤ 2 ^ 32) :
    link.stamped.length ≤ link.receiver.recvBase.toNat + 32 := by
  obtain ⟨base, -, count⟩ := inv.windows fits
  have bounded := inv.sender.ring.bounded
  rw [BitVec.toNat_sub_of_le (BitVec.le_def.mpr inv.sender.logRing.order)] at bounded
  omega

theorem send (inv : LinkInv link) (fits : link.stamped.length + 32 ≤ 2 ^ 32) (hdr : PacketHeader)
    (payload : List Byte) (now : Int) (writeErr : Option String) :
    LinkInv (Link.step (.send hdr payload now writeErr) link) := by
  obtain ⟨sender, sent⟩ := inv.sender.send (by omega) hdr payload now writeErr
  refine ⟨inv.log.stamp _ inv.sender.logRing.count hdr payload, sender,
    ⟨inv.receiver.recvInv, fun p mem => (inv.receiver.decoded p mem).append _⟩,
    fun d mem => ?_, inv.toSender⟩
  rcases List.mem_append.mp mem with old | new
  · exact (inv.toReceiver d old).append _
  · exact sent d new

theorem processTimeouts (inv : LinkInv link) (now : Int) (writeErr : Nat → Option String) :
    LinkInv (Link.step (.processTimeouts now writeErr) link) := by
  obtain ⟨sender, sent⟩ := inv.sender.processTimeouts now writeErr
  refine ⟨inv.log, sender, inv.receiver, fun d mem => ?_, inv.toSender⟩
  rcases List.mem_append.mp mem with old | new
  · exact inv.toReceiver d old
  · exact sent d new

theorem deliver (inv : LinkInv link) (fits : link.stamped.length + 32 ≤ 2 ^ 32) (i : Nat)
    (now : Int) : LinkInv (Link.step (.deliver i now) link) := by
  simp only [Link.step]
  split
  · exact inv
  next datagram found =>
  obtain ⟨receiver, acks⟩ := inv.receiver.recv inv.log fits (inv.near (by omega))
    (inv.toReceiver datagram (List.getElem?_mem found)) now
  have more : ∀ n ∈ link.deliveredSeqs, n ∈ (link.delivered ++ reliablePacket
      (link.receiver.recv (.ok (link.receiver.addr, datagram)) now).1).map fun p => p.1.seq.toNat :=
    fun n mem => by rw [List.map_append]; exact List.mem_append_left _ mem
  refine ⟨inv.log, inv.sender.mono more, receiver, inv.toReceiver, fun a mem => ?_⟩
  rcases List.mem_append.mp mem with old | new
  · exact fun packet read => more _ (inv.toSender a old packet read)
  · exact acks a new

theorem acknowledge (inv : LinkInv link) (i : Nat) (now : Int) :
    LinkInv (Link.step (.acknowledge i now) link) := by
  simp only [Link.step]
  split
  · exact inv
  next ack found =>
  split
  · exact inv
  next hdr payload read =>
  obtain ⟨sender, sent⟩ := inv.sender.processAck hdr.seq now
    (inv.toSender ack (List.getElem?_mem found) (hdr, payload) read)
  refine ⟨inv.log, sender, inv.receiver, fun d mem => ?_, inv.toSender⟩
  rcases List.mem_append.mp mem with old | new
  · exact inv.toReceiver d old
  · exact sent d new

theorem step (inv : LinkInv link) (fits : link.stamped.length + 32 ≤ 2 ^ 32) :
    ∀ event, LinkInv (Link.step event link)
  | .send hdr payload now writeErr => inv.send fits hdr payload now writeErr
  | .processTimeouts now writeErr => inv.processTimeouts now writeErr
  | .deliver i now => inv.deliver fits i now
  | .acknowledge i now => inv.acknowledge i now

/-- Every run keeps the invariant while fewer than 2^32 - 32 packets have been stamped. -/
theorem run (inv : LinkInv link) (events : List LinkEvent)
    (fits : (Link.run events link).stamped.length + 32 ≤ 2 ^ 32) :
    LinkInv (Link.run events link) := by
  induction events generalizing link with
  | nil => exact inv
  | cons event events ih =>
    have grows := (Link.length_stamped_run events (Link.step event link)).2
    have := (Link.length_stamped_step event link).2
    exact ih (inv.step (by simp only [Link.run] at fits; omega) event) fits

end LinkInv

/-! ## Safety of every run -/

/-- Two packets sent; the network hands the receiver the second before the first, then the first
again, and hands the sender the first two acknowledgements. -/
def reordered : List LinkEvent :=
  [.send (newPacketHeader 0) [] 0 none, .send (newPacketHeader 0) [] 0 none, .deliver 1 1,
    .deliver 0 2, .deliver 0 3, .acknowledge 0 4, .acknowledge 1 5]

/-- Over every run of the link from two new ends in which fewer than 2^32 - 32 packets were
stamped, however the network loses, repeats and reorders datagrams and whatever the writes
return: every sequence number below the sender's `sendBase`, and every outstanding one whose slot
is ACKED, is one the receiver returned. -/
theorem link_acks_only_delivered (senderAddr receiverAddr : String) (events : List LinkEvent)
    (fits : (Link.run events (Link.init senderAddr receiverAddr)).stamped.length + 32 ≤ 2 ^ 32) :
    let link := Link.run events (Link.init senderAddr receiverAddr)
    (∀ n < link.sender.sendBase.toNat, n ∈ link.deliveredSeqs) ∧
      ∀ q, Outstanding link.sender.sendBase link.sender.nextSeq q →
        (link.sender.sendWindow (getWindowIndex q)).state = .acked → q.toNat ∈ link.deliveredSeqs :=
  have inv := (LinkInv.init senderAddr receiverAddr).run events fits
  ⟨inv.sender.logRing.released, inv.sender.logRing.acked⟩

theorem reordered_acks_only_delivered :
    let link := Link.run reordered (Link.init "sender" "receiver")
    link.stamped.length + 32 ≤ 2 ^ 32 ∧
      (∀ n < link.sender.sendBase.toNat, n ∈ link.deliveredSeqs) ∧
      ∀ q, Outstanding link.sender.sendBase link.sender.nextSeq q →
        (link.sender.sendWindow (getWindowIndex q)).state = .acked → q.toNat ∈ link.deliveredSeqs :=
  have fits := Nat.le_trans (Nat.add_le_add_right (Link.length_stamped_run reordered _).1 32)
    (by decide)
  ⟨fits, link_acks_only_delivered "sender" "receiver" reordered fits⟩

/-- On that run the receiver returns packet 1, then packet 0, and the sender releases both. -/
example :
    let link := Link.run reordered (Link.init "sender" "receiver")
    link.deliveredSeqs = [1, 0] ∧ link.sender.sendBase = 2 ∧ link.toSender.length = 3 := by
  set_option maxRecDepth 20000 in decide

/-- Over every such run the receiver returns each sequence number at most once, and every packet
it returns is what `Recv` decodes from the frame of the packet the sender stamped with that
sequence number. -/
theorem link_delivers_stamped_once (senderAddr receiverAddr : String) (events : List LinkEvent)
    (fits : (Link.run events (Link.init senderAddr receiverAddr)).stamped.length + 32 ≤ 2 ^ 32) :
    let link := Link.run events (Link.init senderAddr receiverAddr)
    link.deliveredSeqs.Nodup ∧
      ∀ p ∈ link.delivered, ∃ hdr payload datagram,
        link.stamped[p.1.seq.toNat]? = some (hdr, payload) ∧ serialize hdr payload = .ok datagram ∧
          deserialize (datagram.take udpRecvBufferSize) = .ok p := by
  have inv := (LinkInv.init senderAddr receiverAddr).run events fits
  refine ⟨inv.receiver.recvInv.receiver.nodup, fun p mem => ?_⟩
  obtain ⟨i, hdr, payload, datagram, found, sent, read⟩ := inv.receiver.decoded p mem
  obtain ⟨-, seq, -⟩ := inv.log.decoded (by omega) found sent read
  exact ⟨hdr, payload, datagram, seq ▸ found, sent, read⟩

theorem reordered_delivers_stamped_once :
    let link := Link.run reordered (Link.init "sender" "receiver")
    link.stamped.length + 32 ≤ 2 ^ 32 ∧ link.deliveredSeqs.Nodup ∧
      ∀ p ∈ link.delivered, ∃ hdr payload datagram,
        link.stamped[p.1.seq.toNat]? = some (hdr, payload) ∧ serialize hdr payload = .ok datagram ∧
          deserialize (datagram.take udpRecvBufferSize) = .ok p :=
  have fits := Nat.le_trans (Nat.add_le_add_right (Link.length_stamped_run reordered _).1 32)
    (by decide)
  ⟨fits, link_delivers_stamped_once "sender" "receiver" reordered fits⟩

/-- Over every such run the receive window starts at or after the sender's `sendBase` and at or
before its `nextSeq`, and `nextSeq` counts the packets stamped. -/
theorem link_windows_ordered (senderAddr receiverAddr : String) (events : List LinkEvent)
    (fits : (Link.run events (Link.init senderAddr receiverAddr)).stamped.length + 32 ≤ 2 ^ 32) :
    let link := Link.run events (Link.init senderAddr receiverAddr)
    link.sender.sendBase.toNat ≤ link.receiver.recvBase.toNat ∧
      link.receiver.recvBase.toNat ≤ link.sender.nextSeq.toNat ∧
      link.sender.nextSeq.toNat = link.stamped.length :=
  ((LinkInv.init senderAddr receiverAddr).run events fits).windows (by omega)

theorem reordered_windows_ordered :
    let link := Link.run reordered (Link.init "sender" "receiver")
    link.stamped.length + 32 ≤ 2 ^ 32 ∧
      link.sender.sendBase.toNat ≤ link.receiver.recvBase.toNat ∧
      link.receiver.recvBase.toNat ≤ link.sender.nextSeq.toNat ∧
      link.sender.nextSeq.toNat = link.stamped.length :=
  have fits := Nat.le_trans (Nat.add_le_add_right (Link.length_stamped_run reordered _).1 32)
    (by decide)
  ⟨fits, link_windows_ordered "sender" "receiver" reordered fits⟩

/-! ## Packets too large for the receive buffer -/

/-- `Recv` reads at most `udpRecvBufferSize` bytes of a datagram, so every packet it decodes
declares at most 65508 payload bytes, though `Send` admits up to 65535. -/
theorem payloadLen_of_deserialize_take {data : List Byte} {packet : PacketHeader × List Byte}
    (read : deserialize (data.take udpRecvBufferSize) = .ok packet) :
    packet.1.payloadLen.toNat ≤ 65508 := by
  obtain ⟨long, -, -, -, within, -⟩ := deserialize_eq_ok_iff.mp read
  have cut : (data.take udpRecvBufferSize).length ≤ 65536 := List.length_take_le _ data
  omega

/-- However the network behaves, a packet stamped with a header that declares more than 65508
payload bytes is never returned by the receiver, and the sender's `sendBase` never passes it: the
packets stamped after it wait in the window behind it. -/
theorem link_never_delivers_oversized (senderAddr receiverAddr : String) (events : List LinkEvent)
    (fits : (Link.run events (Link.init senderAddr receiverAddr)).stamped.length + 32 ≤ 2 ^ 32) :
    let link := Link.run events (Link.init senderAddr receiverAddr)
    ∀ i hdr payload, link.stamped[i]? = some (hdr, payload) → 65508 < hdr.payloadLen.toNat →
      i ∉ link.deliveredSeqs ∧ link.sender.sendBase.toNat ≤ i := by
  intro link i hdr payload found long
  have inv := (LinkInv.init senderAddr receiverAddr).run events fits
  have never : i ∉ link.deliveredSeqs := by
    intro returned
    obtain ⟨p, mem, rfl⟩ := List.mem_map.mp returned
    obtain ⟨j, hdr', payload', datagram, found', sent, read⟩ := inv.receiver.decoded p mem
    have same : p.1.seq.toNat = j := (inv.log.decoded (by omega) found' sent read).2.1
    rw [same, found'] at found
    obtain ⟨rfl, rfl⟩ := Prod.mk.inj (Option.some.inj found)
    obtain ⟨-, rfl⟩ := serialize_eq_ok_iff.mp sent
    have short := payloadLen_of_deserialize_take read
    rw [header_of_deserialize_take read] at short
    exact absurd long (Nat.not_lt.mpr short)
  exact ⟨never, Nat.not_lt.mp fun below => never (inv.sender.logRing.released i below)⟩

/-- A packet of 65509 payload bytes, sent, handed over twice, and timed out. -/
def oversized : List LinkEvent :=
  [.send { newPacketHeader 0 with payloadLen := 65509 } (List.replicate 65509 0) 0 none,
    .deliver 0 1, .deliver 0 2, .processTimeouts 301 fun _ => none]

theorem oversized_never_delivered :
    let link := Link.run oversized (Link.init "sender" "receiver")
    link.stamped.length + 32 ≤ 2 ^ 32 ∧
      ∀ i hdr payload, link.stamped[i]? = some (hdr, payload) → 65508 < hdr.payloadLen.toNat →
        i ∉ link.deliveredSeqs ∧ link.sender.sendBase.toNat ≤ i :=
  have fits := Nat.le_trans (Nat.add_le_add_right (Link.length_stamped_run oversized _).1 32)
    (by decide)
  ⟨fits, link_never_delivers_oversized "sender" "receiver" oversized fits⟩

end OverProto
