import OverProto.Transport.Congestion
import OverProto.Transport.Timeouts

/-!
# Acknowledgements over whole runs

Two facts about every run of a reachable sender, both read off `ProcessACK` and the advance of
its window.

A packet that is outstanding with an EMPTY slot is a hole no later call fills. The slot is
emptied when `ProcessTimeouts` drops the packet after `MaxRetries` retries, or it was never
filled because `Serialize` refused the payload. `ProcessACK` ignores the packet's
acknowledgements, the advance stops at it, and `Send` never reuses its slot. So `sendBase`
never passes it, and at most 32 packets past it are ever sent (`hole_persists`).

`ProcessACK` counts an acknowledgement of `lastAckSeq` as a duplicate. Once a fresh
acknowledgement has set `lastAckSeq`, its slot is ACKED or released, and it stays so while the
number is outstanding, since `lastAckSeq` stays behind `nextSeq`. So no later call counts a
duplicate, and fast retransmission never happens (`fast_retransmit_dead`).
-/

namespace OverProto

/-! ## The advance -/

namespace ReliableContext

/-- The advance moves `sendBase` and clears slots, and changes nothing else. -/
theorem advanceSendBase_eq_with (fuel : Nat) (ctx : ReliableContext) :
    ∃ sendBase sendWindow, ctx.advanceSendBase fuel = { ctx with sendBase, sendWindow } := by
  induction fuel generalizing ctx with
  | zero => exact ⟨_, _, rfl⟩
  | succ fuel ih =>
    unfold advanceSendBase
    split
    · obtain ⟨sendBase, sendWindow, moved⟩ := ih _
      exact ⟨sendBase, sendWindow, moved⟩
    · exact ⟨_, _, rfl⟩

theorem advanceSendBase_keeps (fuel : Nat) (ctx : ReliableContext) :
    (ctx.advanceSendBase fuel).nextSeq = ctx.nextSeq ∧
      (ctx.advanceSendBase fuel).lastAckSeq = ctx.lastAckSeq ∧
      (ctx.advanceSendBase fuel).dupAckCount = ctx.dupAckCount := by
  obtain ⟨_, _, moved⟩ := ctx.advanceSendBase_eq_with fuel
  rw [moved]
  exact ⟨rfl, rfl, rfl⟩

/-- One more packet sent, with no wrap: `nextSeq + 1` is one further from `x`. -/
theorem sub_succ_toNat (next x : BitVec 32) (small : (next - x).toNat + 1 < 2 ^ 32) :
    (next + 1 - x).toNat = (next - x).toNat + 1 := by
  have := next.isLt
  have := x.isLt
  have one : (1 : BitVec 32).toNat = 1 := rfl
  simp only [BitVec.toNat_sub, BitVec.toNat_add, one] at small ⊢
  omega

end ReliableContext

/-- A packet outstanding after the advance was outstanding before, with the same slot. -/
theorem SendInv.advanceSendBase_outstanding {ctx : ReliableContext} (inv : SendInv ctx)
    (fuel : Nat) {q : BitVec 32}
    (hq : Outstanding (ctx.advanceSendBase fuel).sendBase (ctx.advanceSendBase fuel).nextSeq q) :
    Outstanding ctx.sendBase ctx.nextSeq q ∧
      (ctx.advanceSendBase fuel).sendWindow (getWindowIndex q) = ctx.sendWindow (getWindowIndex q) := by
  induction fuel generalizing ctx with
  | zero => exact ⟨hq, rfl⟩
  | succ fuel ih =>
    unfold ReliableContext.advanceSendBase at hq ⊢
    by_cases ahead : ctx.sendBase < ctx.nextSeq ∧
      (ctx.sendWindow (getWindowIndex ctx.sendBase)).state = .acked
    · rw [if_pos ahead] at hq ⊢
      have apart := (BitVec.ne_of_lt ahead.1).symm
      have popped : SendInv { ctx with
          sendWindow := Function.update ctx.sendWindow (getWindowIndex ctx.sendBase) .cleared,
          sendBase := ctx.sendBase + 1 } := ⟨inv.window, inv.cwnd_le, inv.ring.pop apart⟩
      obtain ⟨before, same⟩ := ih popped hq
      obtain ⟨outstanding, other⟩ := (outstanding_pop_iff apart).mp before
      exact ⟨outstanding, same.trans (Function.update_noteq
        (inv.ring.index_ne_of_ne outstanding (outstanding_base apart) other) _ _)⟩
    · rw [if_neg ahead] at hq ⊢
      exact ⟨hq, rfl⟩

/-! ## A dropped packet is never passed -/

/-- The packet `q` is outstanding and its slot EMPTY. -/
structure Hole (q : BitVec 32) (ctx : ReliableContext) extends SendInv ctx : Prop where
  outstanding : Outstanding ctx.sendBase ctx.nextSeq q
  empty : (ctx.sendWindow (getWindowIndex q)).state = .empty

namespace Hole

variable {q : BitVec 32} {ctx : ReliableContext}

theorem send (hole : Hole q ctx) (hdr : PacketHeader) (payload : List Byte) (now : Int)
    (writeErr : Option String) : Hole q (ctx.send hdr payload now writeErr).2.1 := by
  have kept := hole.toSendInv.send hdr payload now writeErr
  by_cases full : ctx.nextSeq - ctx.sendBase ≥ ctx.availableSlots
  · rw [ctx.send_of_full hdr payload now writeErr full]
    exact hole
  have room := ctx.outstanding_lt_of_admitted hole.window hole.cwnd_le hole.ring.bounded full
  have still := (outstanding_succ_iff room).mpr (.inl hole.outstanding)
  rcases ctx.send_admitted hdr payload now writeErr full with ⟨-, sent, -⟩ | ⟨-, sent, -⟩ <;>
    rw [sent] at kept ⊢
  · exact ⟨kept, still, hole.empty⟩
  · exact ⟨kept, still, by
      simpa [Function.update_noteq (hole.ring.index_ne_next room hole.outstanding)] using hole.empty⟩

theorem recv (hole : Hole q ctx) (incoming : Except String (String × List Byte)) (now : Int) :
    Hole q (ctx.recv incoming now).2.1 := by
  obtain ⟨recvBase, recvWindow, result⟩ := ctx.recv_eq_with incoming now
  rw [result]
  exact ⟨⟨hole.window, hole.cwnd_le, hole.ring⟩, hole.outstanding, hole.empty⟩

theorem updateCongestionWindow (hole : Hole q ctx) : Hole q ctx.updateCongestionWindow := by
  have kept := hole.toSendInv.updateCongestionWindow
  rw [ReliableContext.updateCongestionWindow_eq_with] at kept ⊢
  exact ⟨kept, hole.outstanding, hole.empty⟩

/-- The advance stops at the hole: it passes only ACKED slots. -/
theorem advanceSendBase (hole : Hole q ctx) (fuel : Nat) : Hole q (ctx.advanceSendBase fuel) := by
  induction fuel generalizing ctx with
  | zero => exact hole
  | succ fuel ih =>
    unfold ReliableContext.advanceSendBase
    split
    next ahead =>
      have apart : ctx.nextSeq ≠ ctx.sendBase := (BitVec.ne_of_lt ahead.1).symm
      have other : q ≠ ctx.sendBase := fun same => by
        have acked := ahead.2
        rw [← same, hole.empty] at acked
        cases acked
      exact ih ⟨⟨hole.window, hole.cwnd_le, hole.ring.pop apart⟩,
        (outstanding_pop_iff apart).mpr ⟨hole.outstanding, other⟩, by
          simpa [Function.update_noteq (hole.ring.index_ne_of_ne hole.outstanding
            (outstanding_base apart) other)] using hole.empty⟩
    next => exact hole

/-- `ProcessACK` changes only busy slots, and the advance stops at the hole. -/
theorem processAck (hole : Hole q ctx) (ackSeq : BitVec 32) (now : Int) :
    Hole q (ctx.processAck ackSeq now).1 := by
  unfold ReliableContext.processAck
  dsimp only
  split
  · exact hole
  split
  · exact hole
  next idle =>
  have busy : (ctx.sendWindow (getWindowIndex ackSeq)).state ≠ .empty :=
    fun empty => idle (.inl empty)
  have apart : getWindowIndex q ≠ getWindowIndex ackSeq := fun same => busy (same ▸ hole.empty)
  have empty (window : Fin 32 → WindowSlot) (slot : WindowSlot)
      (same : window (getWindowIndex q) = ctx.sendWindow (getWindowIndex q)) :
      (Function.update window (getWindowIndex ackSeq) slot (getWindowIndex q)).state = .empty := by
    rw [Function.update_noteq apart, same]
    exact hole.empty
  split
  · have counted : SendInv { ctx with dupAckCount := ctx.dupAckCount + 1 } :=
      ⟨hole.window, hole.cwnd_le, hole.ring⟩
    split
    · exact ⟨counted.restate _ _ busy, hole.outstanding, empty _ _ rfl⟩
    · exact ⟨counted, hole.outstanding, hole.empty⟩
  · have fresh : SendInv { ctx with dupAckCount := 0, lastAckSeq := ackSeq } :=
      ⟨hole.window, hole.cwnd_le, hole.ring⟩
    split
    · exact (Hole.updateCongestionWindow ⟨(fresh.updateRtt _).restate _ _ busy,
        hole.outstanding, empty _ _ rfl⟩).advanceSendBase 32
    · exact (Hole.updateCongestionWindow ⟨fresh.restate _ _ busy,
        hole.outstanding, empty _ _ rfl⟩).advanceSendBase 32

/-- The scan gives new states only to busy slots. -/
theorem processTimeouts (hole : Hole q ctx) (now : Int) (writeErr : Nat → Option String) :
    Hole q (ctx.processTimeouts now writeErr).2.1 := by
  obtain ⟨base, next, slots, -⟩ : ctx.Rescan [] (ctx.processTimeouts now writeErr).2.1
      (ctx.processTimeouts now writeErr).2.2 :=
    ReliableContext.timeoutLoop_rescans now writeErr _ ctx 0 []
  refine ⟨hole.toSendInv.processTimeouts now writeErr, by rw [base, next]; exact hole.outstanding, ?_⟩
  rcases (slots (getWindowIndex q)).2.2.2 with same | ⟨live, -⟩
  · rw [same]
    exact hole.empty
  · exact absurd (.inl hole.empty) live

theorem apply (hole : Hole q ctx) : ∀ op : Op, Hole q (op.apply ctx)
  | .send hdr payload now writeErr => hole.send hdr payload now writeErr
  | .recv incoming now => hole.recv incoming now
  | .processAck ackSeq now => hole.processAck ackSeq now
  | .processTimeouts now writeErr => hole.processTimeouts now writeErr

theorem run (hole : Hole q ctx) (ops : List Op) : Hole q (Op.run ops ctx) := by
  induction ops generalizing ctx with
  | nil => exact hole
  | cons op ops ih => exact ih (hole.apply op)

end Hole

/-- On a reachable sender, a packet outstanding with an EMPTY slot (dropped by `ProcessTimeouts`
after `MaxRetries` retries, or one whose payload `Serialize` refused) stays outstanding with an
EMPTY slot over every later sequence of calls. So `sendBase` never passes it, and at most 32
packets past it are ever sent. -/
theorem hole_persists {ctx : ReliableContext} (reach : Reachable ctx) {q : BitVec 32}
    (outstanding : Outstanding ctx.sendBase ctx.nextSeq q)
    (empty : (ctx.sendWindow (getWindowIndex q)).state = .empty) (ops : List Op) :
    let after := Op.run ops ctx
    Outstanding after.sendBase after.nextSeq q ∧
      (after.sendWindow (getWindowIndex q)).state = .empty ∧ (after.nextSeq - q).toNat ≤ 32 :=
  have hole := (Hole.mk (sendInv_of_reachable reach) outstanding empty).run ops
  ⟨hole.outstanding, hole.empty, (outstanding_behind hole.outstanding hole.ring.bounded).2⟩

/-- Packet 0 sent at 0 ms, resent 5 times 301 ms apart with `RTO = 300`, then dropped. -/
def dropped : ReliableContext :=
  Op.run (.send (newPacketHeader 0) [] 0 none ::
    (List.range 6).map fun k => .processTimeouts (301 * (k + 1)) fun _ => none)
    (newReliableContext "peer")

theorem dropped_hole_persists :
    let later := [Op.send (newPacketHeader 0) [] 2000 none, .processAck 0 2001,
      .processTimeouts 3000 fun _ => none]
    let after := Op.run later dropped
    Reachable dropped ∧ Outstanding dropped.sendBase dropped.nextSeq 0 ∧
      (dropped.sendWindow (getWindowIndex 0)).state = .empty ∧
      Outstanding after.sendBase after.nextSeq 0 ∧
      (after.sendWindow (getWindowIndex 0)).state = .empty ∧ (after.nextSeq - 0).toNat ≤ 32 :=
  have reach : Reachable dropped := (Reachable.init "peer").run _
  have outstanding : Outstanding dropped.sendBase dropped.nextSeq 0 := by decide
  have empty : (dropped.sendWindow (getWindowIndex 0)).state = .empty := by decide
  ⟨reach, outstanding, empty, hole_persists reach outstanding empty _⟩

/-! ## No duplicate after a fresh acknowledgement -/

/-- The sender after a fresh acknowledgement set `lastAckSeq`: no duplicate counted since,
`lastAckSeq` behind `nextSeq` and at most 32 behind the window, and its slot, while it is
outstanding, EMPTY or ACKED. -/
structure AckSettled (ctx : ReliableContext) extends SendInv ctx : Prop where
  quiet : ctx.dupAckCount = 0
  behind : 0 < (ctx.nextSeq - ctx.lastAckSeq).toNat
  near : (ctx.nextSeq - ctx.lastAckSeq).toNat ≤ (ctx.nextSeq - ctx.sendBase).toNat + 32
  settled : Outstanding ctx.sendBase ctx.nextSeq ctx.lastAckSeq →
    (ctx.sendWindow (getWindowIndex ctx.lastAckSeq)).state = .empty ∨
      (ctx.sendWindow (getWindowIndex ctx.lastAckSeq)).state = .acked

namespace AckSettled

variable {ctx : ReliableContext}

/-- The advance after marking ACKED an outstanding packet at most 32 behind `nextSeq`, which
becomes `lastAckSeq`, settles the sender. -/
theorem of_advance {marked : ReliableContext} (inv : SendInv marked) (quiet : marked.dupAckCount = 0)
    (behind : 0 < (marked.nextSeq - marked.lastAckSeq).toNat)
    (close : (marked.nextSeq - marked.lastAckSeq).toNat ≤ 32)
    (acked : (marked.sendWindow (getWindowIndex marked.lastAckSeq)).state = .acked) (fuel : Nat) :
    AckSettled (marked.advanceSendBase fuel) := by
  obtain ⟨next, last, count⟩ := marked.advanceSendBase_keeps fuel
  refine ⟨inv.advanceSendBase fuel, count.trans quiet, by rwa [next, last], by rw [next, last]; omega,
    fun hq => .inr ?_⟩
  rw [last] at hq ⊢
  rw [(inv.advanceSendBase_outstanding fuel hq).2]
  exact acked

/-- A fresh acknowledgement settles the sender. -/
theorem processAck_fresh (inv : SendInv ctx) {ackSeq : BitVec 32} (now : Int)
    (fresh : ctx.FreshAck ackSeq) : AckSettled (ctx.processAck ackSeq now).1 := by
  obtain ⟨inw, live, repeated⟩ := fresh
  have near : (ackSeq - ctx.sendBase).toNat < 32 := by
    rwa [ReliableContext.isInSendWindow, inv.window, inWindow_iff] at inw
  have busy : (ctx.sendWindow (getWindowIndex ackSeq)).state ≠ .empty :=
    fun empty => live (.inl empty)
  obtain ⟨behind, close⟩ := outstanding_behind (inv.ring.busy near busy).1 inv.ring.bounded
  have marked (rtt : RttStats) : SendInv { ctx with dupAckCount := 0, lastAckSeq := ackSeq, rtt } :=
    ⟨inv.window, inv.cwnd_le, inv.ring⟩
  rw [ctx.processAck_eq_fresh now inw live repeated]
  refine of_advance ((marked _).restate _ .acked busy).updateCongestionWindow ?_ ?_ ?_ ?_ 32 <;>
    rw [ReliableContext.updateCongestionWindow_eq_with]
  · exact behind
  · exact close
  · simp

/-- `ProcessACK` of `lastAckSeq` finds its slot EMPTY or ACKED, or out of the window. -/
theorem not_duplicate (inv : AckSettled ctx) (inw : ctx.isInSendWindow ctx.lastAckSeq = true) :
    (ctx.sendWindow (getWindowIndex ctx.lastAckSeq)).state = .empty ∨
      (ctx.sendWindow (getWindowIndex ctx.lastAckSeq)).state = .acked := by
  by_contra busy
  rw [ReliableContext.isInSendWindow, inv.window, inWindow_iff] at inw
  exact busy (inv.settled (inv.ring.busy inw fun empty => busy (.inl empty)).1)

/-- On a settled sender, an acknowledgement that is not fresh changes nothing and writes
nothing. -/
theorem processAck_of_stale (inv : AckSettled ctx) {ackSeq : BitVec 32} (now : Int)
    (stale : ¬ ctx.FreshAck ackSeq) : ctx.processAck ackSeq now = (ctx, []) := by
  have never (inw : ctx.isInSendWindow ackSeq = true)
      (live : ¬ ((ctx.sendWindow (getWindowIndex ackSeq)).state = .empty ∨
        (ctx.sendWindow (getWindowIndex ackSeq)).state = .acked))
      (repeated : ackSeq = ctx.lastAckSeq) : False := by
    subst repeated
    exact live (inv.not_duplicate inw)
  unfold ReliableContext.processAck
  dsimp only
  split_ifs with inw idle repeated <;>
    first
    | rfl
    | exact absurd repeated (never inw idle)
    | exact absurd ⟨inw, idle, repeated⟩ stale

/-- A settled sender's `ProcessACK` never writes: no fast retransmission. -/
theorem processAck_written (inv : AckSettled ctx) (ackSeq : BitVec 32) (now : Int) :
    (ctx.processAck ackSeq now).2 = [] := by
  by_cases fresh : ctx.FreshAck ackSeq
  · obtain ⟨inw, live, repeated⟩ := fresh
    simp only [ReliableContext.processAck, inw, not_true_eq_false, if_false, live, repeated]
  · rw [inv.processAck_of_stale now fresh]

theorem processAck (inv : AckSettled ctx) (ackSeq : BitVec 32) (now : Int) :
    AckSettled (ctx.processAck ackSeq now).1 := by
  by_cases fresh : ctx.FreshAck ackSeq
  · exact processAck_fresh inv.toSendInv now fresh
  · rw [inv.processAck_of_stale now fresh]
    exact inv

theorem send (inv : AckSettled ctx) (hdr : PacketHeader) (payload : List Byte) (now : Int)
    (writeErr : Option String) : AckSettled (ctx.send hdr payload now writeErr).2.1 := by
  have kept := inv.toSendInv.send hdr payload now writeErr
  by_cases full : ctx.nextSeq - ctx.sendBase ≥ ctx.availableSlots
  · rw [ctx.send_of_full hdr payload now writeErr full]
    exact inv
  have room := ctx.outstanding_lt_of_admitted inv.window inv.cwnd_le inv.ring.bounded full
  have apart : ctx.lastAckSeq ≠ ctx.nextSeq := fun same => by
    have := inv.behind
    rw [same, BitVec.sub_self] at this
    exact absurd this (by decide)
  have behind := ReliableContext.sub_succ_toNat ctx.nextSeq ctx.lastAckSeq (by have := inv.near; omega)
  have base := ReliableContext.sub_succ_toNat ctx.nextSeq ctx.sendBase (by omega)
  have before (hq : Outstanding ctx.sendBase (ctx.nextSeq + 1) ctx.lastAckSeq) :
      Outstanding ctx.sendBase ctx.nextSeq ctx.lastAckSeq :=
    ((outstanding_succ_iff room).mp hq).resolve_right apart
  rcases ctx.send_admitted hdr payload now writeErr full with ⟨-, sent, -⟩ | ⟨-, sent, -⟩ <;>
    rw [sent] at kept ⊢ <;>
    refine ⟨kept, inv.quiet, by dsimp only; omega, by dsimp only; have := inv.near; omega,
      fun hq => ?_⟩
  · exact inv.settled (before hq)
  · dsimp only
    rw [Function.update_noteq (inv.ring.index_ne_next room (before hq))]
    exact inv.settled (before hq)

theorem recv (inv : AckSettled ctx) (incoming : Except String (String × List Byte)) (now : Int) :
    AckSettled (ctx.recv incoming now).2.1 := by
  obtain ⟨recvBase, recvWindow, result⟩ := ctx.recv_eq_with incoming now
  rw [result]
  exact ⟨⟨inv.window, inv.cwnd_le, inv.ring⟩, inv.quiet, inv.behind, inv.near, inv.settled⟩

/-- The scan keeps `lastAckSeq` and `dupAckCount`, and gives new states only to busy slots that
are not ACKED. -/
theorem processTimeouts (inv : AckSettled ctx) (now : Int) (writeErr : Nat → Option String) :
    AckSettled (ctx.processTimeouts now writeErr).2.1 := by
  obtain ⟨base, next, slots, -⟩ : ctx.Rescan [] (ctx.processTimeouts now writeErr).2.1
      (ctx.processTimeouts now writeErr).2.2 :=
    ReliableContext.timeoutLoop_rescans now writeErr _ ctx 0 []
  obtain ⟨last, count⟩ : (ctx.processTimeouts now writeErr).2.1.lastAckSeq = ctx.lastAckSeq ∧
      (ctx.processTimeouts now writeErr).2.1.dupAckCount = ctx.dupAckCount :=
    ReliableContext.timeoutLoop_invariant
      (fun cur => cur.lastAckSeq = ctx.lastAckSeq ∧ cur.dupAckCount = ctx.dupAckCount) now writeErr
      (fun _ _ _ kept _ => kept) (fun _ _ kept _ => kept) _ ⟨rfl, rfl⟩ 0 []
  refine ⟨inv.toSendInv.processTimeouts now writeErr, count.trans inv.quiet,
    by rw [next, last]; exact inv.behind, by rw [next, last, base]; exact inv.near, fun hq => ?_⟩
  rw [base, next, last] at hq
  rw [last]
  rcases (slots (getWindowIndex ctx.lastAckSeq)).2.2.2 with same | ⟨live, -⟩
  · rw [same]
    exact inv.settled hq
  · exact absurd (inv.settled hq) live

theorem apply (inv : AckSettled ctx) : ∀ op : Op, AckSettled (op.apply ctx)
  | .send hdr payload now writeErr => inv.send hdr payload now writeErr
  | .recv incoming now => inv.recv incoming now
  | .processAck ackSeq now => inv.processAck ackSeq now
  | .processTimeouts now writeErr => inv.processTimeouts now writeErr

theorem run (inv : AckSettled ctx) (ops : List Op) : AckSettled (Op.run ops ctx) := by
  induction ops generalizing ctx with
  | nil => exact inv
  | cons op ops ih => exact ih (inv.apply op)

end AckSettled

/-- Once `ProcessACK` has taken a fresh acknowledgement on a reachable sender, over every later
sequence of calls it never counts a duplicate and never writes a datagram: the fast
retransmission never happens. -/
theorem fast_retransmit_dead {ctx : ReliableContext} (reach : Reachable ctx) {ackSeq : BitVec 32}
    (now : Int) (fresh : ctx.FreshAck ackSeq) (ops : List Op) (seq : BitVec 32) (later : Int) :
    let after := Op.run ops (ctx.processAck ackSeq now).1
    after.dupAckCount = 0 ∧ (after.processAck seq later).2 = [] :=
  have inv := (AckSettled.processAck_fresh (sendInv_of_reachable reach) now fresh).run ops
  ⟨inv.quiet, inv.processAck_written seq later⟩

/-- Packets 0 and 1 sent; packet 1 acknowledged, then acknowledged three times more. -/
theorem fast_retransmit_dead_triple :
    let ctx := Op.run [.send (newPacketHeader 0) [] 0 none, .send (newPacketHeader 0) [] 0 none]
      (newReliableContext "peer")
    let after := Op.run [.processAck 1 1, .processAck 1 2] (ctx.processAck 1 1).1
    Reachable ctx ∧ ctx.FreshAck 1 ∧ after.dupAckCount = 0 ∧ (after.processAck 1 3).2 = [] :=
  have reach := (Reachable.init "peer").run
    [.send (newPacketHeader 0) [] 0 none, .send (newPacketHeader 0) [] 0 none]
  have fresh : ReliableContext.FreshAck (Op.run [.send (newPacketHeader 0) [] 0 none,
    .send (newPacketHeader 0) [] 0 none] (newReliableContext "peer")) 1 := by decide
  ⟨reach, fresh, fast_retransmit_dead reach 1 fresh _ 1 3⟩

end OverProto
