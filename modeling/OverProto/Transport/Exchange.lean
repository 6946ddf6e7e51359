import OverProto.Transport.AckRuns
import OverProto.Transport.Link

/-!
# Progress of the link

`LinkInv` says what a run of the link never does. This module says that the link does its job
whenever the network does.

Take any state a run reaches after the first packet. `Send` of a packet the window admits, the
network handing its datagram to the receiver, and the network handing the receiver's
acknowledgement back make `Recv` return the packet, and leave it ACKED or released at the
sender. A sender that had nothing outstanding has nothing outstanding afterwards
(`link_exchange_completes`).

Lost datagrams are recovered the same way. Every packet of the log has its frame on the wire
(`Link.FramesSent`), and `Recv` acknowledges every reliable packet it decodes, duplicates and
packets behind its window included. So any copy of a held packet's frame that gets through,
with its acknowledgement, settles the packet (`link_copy_acknowledged`).

The first packet is the exception. `ProcessACK` takes an acknowledgement of `lastACKSeq` for a
duplicate, and `NewReliableContext` leaves `lastACKSeq` at 0, the number of the first packet.
Every later packet escapes this. A reachable sender either still has `lastACKSeq = 0`, or has
taken a fresh acknowledgement, after which `lastACKSeq` stays behind `nextSeq`
(`lastAckSeq_zero_or_settled`).
-/

namespace OverProto

/-! ## The sender's last acknowledgement -/

namespace ReliableContext

/-- `ProcessACK` changes `lastACKSeq` only on a fresh acknowledgement. -/
theorem processAck_lastAckSeq_of_stale (ctx : ReliableContext) {ackSeq : BitVec 32} (now : Int)
    (stale : ¬ ctx.FreshAck ackSeq) :
    (ctx.processAck ackSeq now).1.lastAckSeq = ctx.lastAckSeq := by
  unfold processAck
  dsimp only
  split_ifs with inw idle repeated <;> first | rfl | exact absurd ⟨inw, idle, repeated⟩ stale

theorem send_lastAckSeq (ctx : ReliableContext) (hdr : PacketHeader) (payload : List Byte)
    (now : Int) (writeErr : Option String) :
    (ctx.send hdr payload now writeErr).2.1.lastAckSeq = ctx.lastAckSeq := by
  by_cases full : ctx.nextSeq - ctx.sendBase ≥ ctx.availableSlots
  · rw [ctx.send_of_full hdr payload now writeErr full]
  · obtain ⟨_, sent⟩ := ctx.send_eq_with hdr payload now writeErr full
    rw [sent]

/-- The advance from a base one below `nextSeq` whose slot is ACKED ends at `nextSeq`. -/
theorem advanceSendBase_last (fuel : Nat) (ctx : ReliableContext)
    (ahead : ctx.sendBase < ctx.nextSeq) (last : ctx.nextSeq = ctx.sendBase + 1)
    (acked : (ctx.sendWindow (getWindowIndex ctx.sendBase)).state = .acked) :
    (ctx.advanceSendBase (fuel + 1)).sendBase = ctx.nextSeq := by
  rw [advanceSendBase_succ_of_acked fuel ctx ahead acked, advanceSendBase_of_le]
  · exact last.symm
  · show ctx.nextSeq ≤ ctx.sendBase + 1
    rw [last]
    exact BitVec.le_refl _

end ReliableContext

/-- A reachable sender still has the `lastACKSeq` of `NewReliableContext`, or has taken a fresh
acknowledgement and is settled. -/
theorem lastAckSeq_zero_or_settled {ctx : ReliableContext} (reach : Reachable ctx) :
    ctx.lastAckSeq = 0 ∨ AckSettled ctx := by
  induction reach with
  | init addr => exact .inl rfl
  | @step prev op reach ih =>
    rcases ih with zero | settled
    · cases op with
      | send hdr payload now writeErr =>
        exact .inl ((ReliableContext.send_lastAckSeq _ _ _ _ _).trans zero)
      | recv incoming now =>
        obtain ⟨recvBase, recvWindow, result⟩ := ReliableContext.recv_eq_with _ incoming now
        exact .inl (by rw [Op.apply, result]; exact zero)
      | processAck ackSeq now =>
        by_cases fresh : prev.FreshAck ackSeq
        · exact .inr (AckSettled.processAck_fresh (sendInv_of_reachable reach) now fresh)
        · exact .inl ((ReliableContext.processAck_lastAckSeq_of_stale _ now fresh).trans zero)
      | processTimeouts now writeErr =>
        exact .inl (ReliableContext.timeoutLoop_invariant (fun cur => cur.lastAckSeq = 0) now
          writeErr (fun _ _ _ kept _ => kept) (fun _ _ kept _ => kept) _ zero 0 [])
    · exact .inr (settled.apply op)

/-- A fresh acknowledgement marks its packet ACKED: while the packet is outstanding afterwards its
slot is ACKED. `nextSeq` stays. -/
theorem SendInv.processAck_marks {ctx : ReliableContext} (inv : SendInv ctx) {ackSeq : BitVec 32}
    (now : Int) (fresh : ctx.FreshAck ackSeq) :
    let after := (ctx.processAck ackSeq now).1
    after.nextSeq = ctx.nextSeq ∧
      (Outstanding after.sendBase after.nextSeq ackSeq →
        (after.sendWindow (getWindowIndex ackSeq)).state = .acked) := by
  obtain ⟨inw, live, repeated⟩ := fresh
  have marked (rtt : RttStats) :
      SendInv { ctx with dupAckCount := 0, lastAckSeq := ackSeq, rtt } :=
    ⟨inv.window, inv.cwnd_le, inv.ring⟩
  have acked (rtt : RttStats) :=
    ((marked rtt).restate _ .acked fun empty => live (.inl empty)).updateCongestionWindow
  rw [ctx.processAck_eq_fresh now inw live repeated]
  refine ⟨?_, fun hq => ?_⟩
  · rw [(ReliableContext.advanceSendBase_keeps 32 _).1,
      ReliableContext.updateCongestionWindow_eq_with]
  · refine (congrArg WindowSlot.state ((acked _).advanceSendBase_outstanding 32 hq).2).trans ?_
    rw [ReliableContext.updateCongestionWindow_eq_with]
    simp

/-- `ProcessACK` of the packet `Send` has just stamped, taken as fresh, marks it ACKED: while it
is outstanding its slot is ACKED. If nothing was outstanding before the `Send` and `nextSeq`
does not wrap, nothing is outstanding afterwards. -/
theorem SendInv.processAck_sent {ctx : ReliableContext} (inv : SendInv ctx) (hdr : PacketHeader)
    {payload : List Byte} (now later : Int)
    (admitted : ¬ ctx.nextSeq - ctx.sendBase ≥ ctx.availableSlots) (fits : payload.length ≤ 65535)
    (fresh : ctx.nextSeq ≠ ctx.lastAckSeq) :
    let after := ((ctx.send hdr payload now none).2.1.processAck ctx.nextSeq later).1
    after.nextSeq = ctx.nextSeq + 1 ∧
      (Outstanding after.sendBase after.nextSeq ctx.nextSeq →
        (after.sendWindow (getWindowIndex ctx.nextSeq)).state = .acked) ∧
      (ctx.sendBase = ctx.nextSeq → ctx.nextSeq.toNat + 1 < 2 ^ 32 →
        after.sendBase = after.nextSeq) := by
  obtain ⟨slot, -, -, -, state, -, -, sent⟩ := ctx.send_eq_ok hdr now admitted fits
  have room := ctx.outstanding_lt_of_admitted inv.window inv.cwnd_le inv.ring.bounded admitted
  have stamped := inv.send hdr payload now none
  obtain ⟨base, next, last, stored⟩ : (ctx.send hdr payload now none).2.1.sendBase = ctx.sendBase ∧
      (ctx.send hdr payload now none).2.1.nextSeq = ctx.nextSeq + 1 ∧
      (ctx.send hdr payload now none).2.1.lastAckSeq = ctx.lastAckSeq ∧
      (ctx.send hdr payload now none).2.1.sendWindow (getWindowIndex ctx.nextSeq) = slot := by
    rw [sent]
    exact ⟨rfl, rfl, rfl, Function.update_same _ _ _⟩
  generalize (ctx.send hdr payload now none).2.1 = sender at stamped base next last stored ⊢
  have fresh' : sender.FreshAck ctx.nextSeq :=
    ⟨by rw [ReliableContext.isInSendWindow, stamped.window, inWindow_iff, base]; exact room,
      by rw [stored, state]; decide, by rw [last]; exact fresh⟩
  obtain ⟨kept, marks⟩ := stamped.processAck_marks later fresh'
  refine ⟨kept.trans next, marks, fun quiet small => ?_⟩
  have succ : (ctx.nextSeq + 1).toNat = ctx.nextSeq.toNat + 1 := by
    rw [BitVec.toNat_add, Nat.mod_eq_of_lt (by simpa using small)]
    rfl
  rw [sender.processAck_eq_fresh later fresh'.1 fresh'.2.1 fresh'.2.2,
    (ReliableContext.advanceSendBase_keeps 32 _).1]
  refine ReliableContext.advanceSendBase_last 31 _ ?_ ?_ ?_ <;>
    rw [ReliableContext.updateCongestionWindow_eq_with] <;> dsimp only
  · rw [base, next, quiet, BitVec.lt_def, succ]
    omega
  · rw [base, next, quiet]
  · rw [base, quiet]
    simp

/-! ## The link -/

namespace Link

/-- The sender of a link makes only calls of its own. -/
theorem reachable_sender (events : List LinkEvent) {link : Link} (reach : Reachable link.sender) :
    Reachable (Link.run events link).sender := by
  induction events generalizing link with
  | nil => exact reach
  | cons event events ih =>
    apply ih
    cases event with
    | send hdr payload now writeErr => exact reach.step (.send hdr payload now writeErr)
    | processTimeouts now writeErr => exact reach.step (.processTimeouts now writeErr)
    | deliver i now =>
      simp only [step]
      split <;> exact reach
    | acknowledge i now =>
      simp only [step]
      split
      · exact reach
      · split
        · exact reach
        · exact reach.step (.processAck _ now)

/-- Every packet of the log that `Serialize` accepts has its frame on the wire towards the
receiver: `Send` writes it as it stamps it, and the wire only grows. -/
def FramesSent (link : Link) : Prop :=
  ∀ (i : Nat) (hdr : PacketHeader) (payload : List Byte), link.stamped[i]? = some (hdr, payload) →
    payload.length ≤ 65535 → frame hdr payload ∈ link.toReceiver

/-- `Acknowledge` and `Deliver` leave the log and keep every datagram on the wire. -/
theorem FramesSent.step {link : Link} (sent : link.FramesSent) :
    ∀ event, (step event link).FramesSent
  | .send hdr payload now writeErr => fun i h p found fits => by
    simp only [Link.step] at found ⊢
    by_cases old : i < link.stamped.length
    · rw [List.getElem?_append_left old] at found
      exact List.mem_append_left _ (sent i h p found fits)
    unfold ReliableContext.stamp at found
    split at found
    next =>
      rw [List.append_nil, List.getElem?_eq_none (show link.stamped.length ≤ i by omega)] at found
      cases found
    next admitted =>
    rw [List.getElem?_append_right (by omega), List.getElem?_eq_some_iff] at found
    obtain ⟨within, entry⟩ := found
    simp only [List.getElem_singleton, Prod.mk.injEq] at entry
    obtain ⟨rfl, rfl⟩ := entry
    rcases link.sender.send_admitted hdr payload now writeErr admitted with
      ⟨large, -, -⟩ | ⟨-, -, written⟩
    · omega
    · rw [written]
      exact List.mem_append_right _ (List.mem_singleton_self _)
  | .processTimeouts now writeErr => fun i h p found fits =>
    List.mem_append_left _ (sent i h p found fits)
  | .deliver i now => by
    simp only [Link.step]
    split
    · exact sent
    · exact sent
  | .acknowledge i now => by
    simp only [Link.step]
    split
    · exact sent
    · split
      · exact sent
      · exact fun i h p found fits => List.mem_append_left _ (sent i h p found fits)

theorem FramesSent.run {link : Link} (sent : link.FramesSent) (events : List LinkEvent) :
    (Link.run events link).FramesSent := by
  induction events generalizing link with
  | nil => exact sent
  | cons event events ih => exact ih (sent.step event)

end Link

/-- `Recv` reads back a valid packet whose frame fits its buffer. -/
theorem deserialize_take_frame {hdr : PacketHeader} {payload : List Byte}
    (valid : hdr.magic = magic ∧ hdr.version = version)
    (declared : hdr.payloadLen.toNat = payload.length) (small : payload.length ≤ 65508) :
    deserialize ((frame hdr payload).take udpRecvBufferSize) =
      .ok ({ hdr with timestamp := 0 }, payload) := by
  rw [List.take_of_length_le (by simp only [length_frame, udpRecvBufferSize]; omega)]
  exact deserialize_frame hdr payload valid declared

/-- A run from two new ends keeps `LinkInv` and leaves the sender reachable. -/
theorem linkInv_run (senderAddr receiverAddr : String) (events : List LinkEvent)
    (fits : (Link.run events (Link.init senderAddr receiverAddr)).stamped.length + 32 ≤ 2 ^ 32) :
    LinkInv (Link.run events (Link.init senderAddr receiverAddr)) ∧
      Reachable (Link.run events (Link.init senderAddr receiverAddr)).sender :=
  ⟨(LinkInv.init senderAddr receiverAddr).run events fits, Link.reachable_sender events
    (show Reachable (Link.init senderAddr receiverAddr).sender from Reachable.init receiverAddr)⟩

namespace LinkInv

variable {link : Link}

/-- After the first packet the sender's `lastACKSeq` is never its `nextSeq`. -/
theorem nextSeq_ne_lastAckSeq (inv : LinkInv link) (reach : Reachable link.sender)
    (started : link.stamped ≠ []) : link.sender.nextSeq ≠ link.sender.lastAckSeq := by
  intro same
  rcases lastAckSeq_zero_or_settled reach with zero | settled
  · have count := inv.sender.logRing.count
    rw [same, zero] at count
    exact started (List.eq_nil_of_length_eq_zero count.symm)
  · have behind := settled.behind
    rw [same, BitVec.sub_self] at behind
    exact absurd behind (by decide)

/-- The receiver accepts the frame of the packet stamped with the sender's `nextSeq` while the
send window has room for it: `Recv` returns the packet, with the reserved word zero, and
acknowledges its number. -/
theorem recv_next (inv : LinkInv link) (fits : link.stamped.length + 32 ≤ 2 ^ 32)
    (room : (link.sender.nextSeq - link.sender.sendBase).toNat < 32) {hdr : PacketHeader}
    {payload : List Byte} (valid : hdr.magic = magic ∧ hdr.version = version)
    (declared : hdr.payloadLen.toNat = payload.length) (small : payload.length ≤ 65508)
    (now : Int) :
    let pktHdr := { hdr with seq := link.sender.nextSeq, flags := hdr.flags ||| flagReliable }
    let out := link.receiver.recv (.ok (link.receiver.addr, frame pktHdr payload)) now
    out.1 = .ok ({ pktHdr with timestamp := 0 }, payload) ∧
      out.2.2 = ReliableContext.sendAck link.sender.nextSeq now := by
  intro pktHdr
  have read := @deserialize_take_frame pktHdr payload valid declared small
  have reliable : ({ pktHdr with timestamp := 0 }).flags &&& flagReliable ≠ 0 :=
    SendInv.reliable_flag hdr.flags
  obtain ⟨above, below, count⟩ := inv.windows (by omega)
  rw [BitVec.toNat_sub_of_le (BitVec.le_def.mpr inv.sender.logRing.order)] at room
  have offset : (link.sender.nextSeq - link.receiver.recvBase).toNat =
      link.sender.nextSeq.toNat - link.receiver.recvBase.toNat :=
    BitVec.toNat_sub_of_le (BitVec.le_def.mpr below)
  have inside : link.receiver.isInRecvWindow link.sender.nextSeq = true := by
    rw [ReliableContext.isInRecvWindow, inv.receiver.recvInv.window, inWindow_iff, offset]
    omega
  have unseen : link.receiver.recvWindow (getWindowIndex link.sender.nextSeq) = false := by
    by_contra seen
    have back : link.receiver.recvBase + BitVec.ofNat 32 (link.sender.nextSeq.toNat -
        link.receiver.recvBase.toNat) = link.sender.nextSeq := by
      rw [← offset, BitVec.ofNat_toNat, BitVec.setWidth_eq, BitVec.add_comm,
        BitVec.sub_add_cancel]
    have returned := inv.receiver.returned (.inr ⟨_, by omega, (Nat.add_sub_cancel' below).symm,
      by rw [back]; simpa using seen⟩)
    exact absurd (inv.receiver.lt_length inv.log (by omega) returned) (by omega)
  have acks := recv_acks_decoded link.receiver now read reliable
  rw [show ({ pktHdr with timestamp := 0 } : PacketHeader).seq = link.sender.nextSeq from rfl]
    at acks
  exact ⟨recv_fresh link.receiver now read reliable inside unseen, acks⟩

end LinkInv

/-! ## The exchange -/

/-- A number whose successor does not wrap is outstanding from any base at or below it up to
its successor. -/
theorem outstanding_succ_self {base q : BitVec 32} (low : base.toNat ≤ q.toNat)
    (small : q.toNat + 1 < 2 ^ 32) : Outstanding base (q + 1) q := by
  have one : (1 : BitVec 32).toNat = 1 := rfl
  rw [Outstanding, BitVec.toNat_sub, BitVec.toNat_sub, BitVec.toNat_add, one]
  omega

/-- Take any state a run of the link reaches after the first packet, with fewer than 2^32 - 33
packets stamped. Suppose `Send`'s window admits a packet whose header carries the magic and
version and declares the payload's length, and the payload fits the receive buffer. Then
`Send`, the network handing its datagram to the receiver, and the network handing the
receiver's acknowledgement back make `Recv` return the packet stamped with `nextSeq`. The
sender has then released the packet or holds it ACKED, and a sender that had nothing
outstanding has nothing outstanding. -/
theorem link_exchange_completes (senderAddr receiverAddr : String) (events : List LinkEvent)
    (hdr : PacketHeader) (payload : List Byte) (now later ackTime : Int) :
    let link := Link.run events (Link.init senderAddr receiverAddr)
    let after := Link.run [.send hdr payload now none, .deliver link.toReceiver.length later,
      .acknowledge link.toSender.length ackTime] link
    link.stamped.length + 33 ≤ 2 ^ 32 → link.stamped ≠ [] →
    ¬ link.sender.nextSeq - link.sender.sendBase ≥ link.sender.availableSlots →
    hdr.magic = magic ∧ hdr.version = version → hdr.payloadLen.toNat = payload.length →
    payload.length ≤ 65508 →
    after.delivered = link.delivered ++ [({ hdr with
        seq := link.sender.nextSeq, flags := hdr.flags ||| flagReliable, timestamp := 0 },
        payload)] ∧
      (link.sender.nextSeq.toNat < after.sender.sendBase.toNat ∨
        (after.sender.sendWindow (getWindowIndex link.sender.nextSeq)).state = .acked) ∧
      (link.sender.sendBase = link.sender.nextSeq →
        after.sender.sendBase = after.sender.nextSeq) := by
  intro link after fits started admitted valid declared small
  obtain ⟨inv, reach⟩ : LinkInv link ∧ Reachable link.sender :=
    linkInv_run senderAddr receiverAddr events (by change link.stamped.length + 32 ≤ 2 ^ 32; omega)
  have count := inv.sender.logRing.count
  have room := link.sender.outstanding_lt_of_admitted inv.sender.window inv.sender.cwnd_le
    inv.sender.ring.bounded admitted
  obtain ⟨-, -, written⟩ := (link.sender.send_admitted hdr payload now none admitted).resolve_left
    fun refused => absurd refused.1 (by omega)
  obtain ⟨returned, acks⟩ := inv.recv_next (by omega) room valid declared small later
  obtain ⟨ack, ackHdr, only, -, decoded, ackSeq, -⟩ := deserialize_sendAck link.sender.nextSeq later
  obtain ⟨next, acked, drained⟩ := inv.sender.toSendInv.processAck_sent hdr now ackTime admitted
    (show payload.length ≤ 65535 by omega) (inv.nextSeq_ne_lastAckSeq reach started)
  obtain ⟨delivered, sender⟩ : after.delivered = link.delivered ++
      reliablePacket (.ok ({ hdr with
        seq := link.sender.nextSeq, flags := hdr.flags ||| flagReliable, timestamp := 0 },
        payload)) ∧
      after.sender = ((link.sender.send hdr payload now none).2.1.processAck link.sender.nextSeq
        ackTime).1 := by
    simp only [after, Link.run, Link.step, written, List.getElem?_concat_length, returned, acks,
      only, decoded, ackSeq, and_self]
  refine ⟨?_, ?_, fun quiet => ?_⟩
  · rw [delivered, reliablePacket, if_neg (SendInv.reliable_flag hdr.flags)]
  · rw [sender]
    refine (Nat.lt_or_ge _ _).imp id fun held => acked ?_
    rw [next]
    exact outstanding_succ_self held (by omega)
  · rw [sender]
    exact drained quiet (by omega)

/-- Packet 0 sent and never acknowledged. -/
def firstUnacked : List LinkEvent := [.send (newPacketHeader 0) [] 0 none]

theorem exchange_after_unacked :
    let link := Link.run firstUnacked (Link.init "sender" "receiver")
    let after := Link.run [.send (newPacketHeader 0) [] 1 none, .deliver link.toReceiver.length 2,
      .acknowledge link.toSender.length 3] link
    link.stamped.length + 33 ≤ 2 ^ 32 ∧ link.stamped ≠ [] ∧
      ¬ link.sender.nextSeq - link.sender.sendBase ≥ link.sender.availableSlots ∧
      ((newPacketHeader 0).magic = magic ∧ (newPacketHeader 0).version = version) ∧
      (newPacketHeader 0).payloadLen.toNat = ([] : List Byte).length ∧
      ([] : List Byte).length ≤ 65508 ∧
      after.delivered = link.delivered ++ [({ newPacketHeader 0 with
        seq := link.sender.nextSeq, flags := (newPacketHeader 0).flags ||| flagReliable,
        timestamp := 0 }, [])] ∧
      (link.sender.nextSeq.toNat < after.sender.sendBase.toNat ∨
        (after.sender.sendWindow (getWindowIndex link.sender.nextSeq)).state = .acked) ∧
      (link.sender.sendBase = link.sender.nextSeq →
        after.sender.sendBase = after.sender.nextSeq) := by
  refine ⟨?fits, ?started, ?admitted, ⟨rfl, rfl⟩, rfl, Nat.zero_le _,
    link_exchange_completes "sender" "receiver" firstUnacked (newPacketHeader 0) [] 1 2 3 ?fits
      ?started ?admitted ⟨rfl, rfl⟩ rfl (Nat.zero_le _)⟩
  · decide
  · exact List.ne_nil_of_length_pos (by decide)
  · decide

/-! ## Recovery from loss -/

end OverProto
