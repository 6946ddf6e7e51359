import OverProto.Transport.SendWindow

/-!
# Acknowledgements over a run

`ProcessACK` tells a fresh acknowledgement from a repeated one by comparing it with
`lastACKSeq` alone, and its cumulative advance, like the scan of `ProcessTimeouts`, compares
sequence numbers with plain `<` and `>=`. Two consequences for reachable senders.

`NewReliableContext` leaves `lastACKSeq` at 0, the sequence number of the first packet, so the
first acknowledgement of packet 0 counts as a duplicate and the packet stays unacknowledged
(`processAck_lastAckSeq_unacked`).

Once `nextSeq` has wrapped past `2^32 - 1` while `sendBase` has not, the advance stops at once
and the scan examines nothing (`wrapped_sender_stalls`). A sender gets there: `cycles n` is the
context after a short `opening` and `n` rounds of one `Send` and the acknowledgement of that
packet, each of which keeps the sender `Settled` one sequence number further on.
-/

namespace OverProto

/-! ## The first acknowledgement -/

/-- An acknowledgement equal to `lastACKSeq` never acknowledges: the window does not move and its
slot does not become ACKED. The first packet is one: after `Send` on a new context its
acknowledgement `ProcessACK(0)` leaves it SENT. -/
theorem processAck_lastAckSeq_unacked :
    (∀ (ctx : ReliableContext) (now : Int),
      let after := (ctx.processAck ctx.lastAckSeq now).1
      after.sendBase = ctx.sendBase ∧ after.nextSeq = ctx.nextSeq ∧
        ((ctx.sendWindow (getWindowIndex ctx.lastAckSeq)).state ≠ .acked →
          (after.sendWindow (getWindowIndex ctx.lastAckSeq)).state ≠ .acked)) ∧
    (let ctx := (Op.send (newPacketHeader 0) [] 0 none).apply (newReliableContext "peer")
     Reachable ctx ∧ Outstanding ctx.sendBase ctx.nextSeq 0 ∧
       (ctx.sendWindow (getWindowIndex 0)).state = .sent ∧
       let after := (ctx.processAck 0 0).1
       (after.sendWindow (getWindowIndex 0)).state = .sent ∧ after.sendBase = 0) := by
  refine ⟨fun ctx now => ?_, .step _ (.init "peer"), by decide, by decide, by decide, by decide⟩
  simp only [ReliableContext.processAck, if_pos (rfl : ctx.lastAckSeq = ctx.lastAckSeq)]
  split_ifs <;> first
    | exact ⟨rfl, rfl, id⟩
    | exact ⟨rfl, rfl, fun _ => by simp⟩

/-! ## Settled senders -/

/-- The sender has nothing outstanding at `s`, its next acknowledgement of `s` will be fresh,
and its RTT statistics are zero. -/
structure Settled (s : BitVec 32) (ctx : ReliableContext) : Prop where
  base : ctx.sendBase = s
  next : ctx.nextSeq = s
  fresh : ctx.lastAckSeq ≠ s
  window : ctx.windowSize = 32
  cwnd_ge : 2 ≤ ctx.cwnd.toNat
  cwnd_le : ctx.cwnd.toNat ≤ 32
  cleared : ∀ j, ctx.sendWindow j = .cleared
  srtt : ctx.rtt.srtt = 0
  rttVar : ctx.rtt.rttVar = 0
  rto : ctx.rtt.rto = 0

/-- One round: `Send` an empty packet at time 0, then acknowledge it at time 0. -/
def cycle (ctx : ReliableContext) : ReliableContext :=
  Op.run [.send (newPacketHeader 0) [] 0 none, .processAck ctx.sendBase 0] ctx

/-- A round from a settled sender: `Send` stores its packet SENT in the slot of `s`, and its
acknowledgement is fresh, so it is sampled, marked ACKED and grows `cwnd` before the advance. -/
theorem Settled.cycle_eq {s : BitVec 32} {ctx : ReliableContext} (settled : Settled s ctx) :
    ∃ slot : WindowSlot, slot.state = .sent ∧
      cycle ctx = ReliableContext.advanceSendBase 32 { ctx with
        nextSeq := s + 1, dupAckCount := 0, lastAckSeq := s, rtt := (ctx.updateRtt 0).rtt,
        sendWindow := Function.update ctx.sendWindow (getWindowIndex s)
          { slot with state := .acked } }.updateCongestionWindow := by
  obtain ⟨rfl, caught_up, fresh, window, cwnd_ge, -, -, -, -, -⟩ := settled
  have admitted := ctx.admits window (by simp [caught_up]) (by simp [caught_up]; omega)
  obtain ⟨slot, -, -, -, sent, at_zero, first, stored⟩ :=
    ctx.send_eq_ok (newPacketHeader 0) 0 admitted (show ([] : List Byte).length ≤ 65535 by simp)
  refine ⟨slot, sent, ?_⟩
  simp only [OverProto.cycle, Op.run, Op.apply, stored]
  rw [caught_up, ReliableContext.processAck_eq_fresh _ 0 ?inw ?live ?fresh]
  case inw => rw [ReliableContext.isInSendWindow, window, inWindow_iff]; simp
  case live => simp [sent]
  case fresh => exact fresh.symm
  simp only [Function.update_same, sent, at_zero, first, and_self, if_true, Function.update_idem]
  rfl

/-- A round moves a settled sender one sequence number on, short of the wrap. -/
theorem Settled.cycle {s : BitVec 32} {ctx : ReliableContext} (settled : Settled s ctx)
    (room : s.toNat + 1 < 2 ^ 32) : Settled (s + 1) (cycle ctx) := by
  obtain ⟨slot, -, cycled⟩ := settled.cycle_eq
  obtain ⟨rfl, -, fresh, window, cwnd_ge, cwnd_le, cleared, srtt, rttVar, -⟩ := settled
  rw [cycled, ReliableContext.updateCongestionWindow_eq_with,
    ReliableContext.advanceSendBase_succ_of_acked _ _ ?ahead (by simp),
    ReliableContext.advanceSendBase_succ_of_not_lt _ _ (BitVec.lt_irrefl _)]
  case ahead => show ctx.sendBase < ctx.sendBase + 1; bv_omega
  have quiet := ReliableContext.updateRtt_zero ctx srtt rttVar
  refine ⟨rfl, rfl, ?_, window, ReliableContext.updateCongestionWindow_cwnd_ge _ cwnd_ge cwnd_le,
    ReliableContext.updateCongestionWindow_cwnd_le _, fun j => ?_, quiet.1, quiet.2.1, quiet.2.2⟩
  · show ctx.sendBase ≠ ctx.sendBase + 1
    bv_omega
  · show Function.update (Function.update ctx.sendWindow _ _) _ _ j = _
    by_cases here : j = getWindowIndex ctx.sendBase
    · subst here
      simp
    · simp [Function.update_noteq here, cleared]

/-- A round changes the congestion state as one `updateCongestionWindow` does. -/
theorem Settled.cycle_congestion {s : BitVec 32} {ctx : ReliableContext}
    (settled : Settled s ctx) :
    (OverProto.cycle ctx).congestion = ctx.updateCongestionWindow.congestion := by
  obtain ⟨slot, -, cycled⟩ := settled.cycle_eq
  rw [cycled, ReliableContext.congestion_advanceSendBase]
  exact ReliableContext.congestion_updateCongestionWindow rfl

/-- Two packets, acknowledged in the reverse order so that neither acknowledgement is taken for a
duplicate of the initial `lastACKSeq`. -/
def opening : ReliableContext :=
  Op.run [.send (newPacketHeader 0) [] 0 none, .send (newPacketHeader 0) [] 0 none,
    .processAck 1 0, .processAck 0 0] (newReliableContext "peer")

theorem settled_opening : Settled 2 opening where
  base := by decide
  next := by decide
  fresh := by decide
  window := by decide
  cwnd_ge := by decide
  cwnd_le := by decide
  cleared := by decide
  srtt := by decide
  rttVar := by decide
  rto := by decide

/-- The opening followed by `n` rounds. -/
def cycles : Nat → ReliableContext
  | 0 => opening
  | n + 1 => cycle (cycles n)

theorem reachable_cycles (n : Nat) : Reachable (cycles n) := by
  induction n with
  | zero => exact (Reachable.init "peer").run _
  | succ n ih => exact ih.run _

theorem settled_cycles (n : Nat) (room : n + 2 < 2 ^ 32) :
    Settled (BitVec.ofNat 32 (n + 2)) (cycles n) := by
  induction n with
  | zero => exact settled_opening
  | succ n ih =>
    have next := (ih (by omega)).cycle (by simp; omega)
    rwa [show BitVec.ofNat 32 (n + 2) + 1 = BitVec.ofNat 32 (n + 1 + 2) by
      apply BitVec.eq_of_toNat_eq; simp [BitVec.toNat_add]] at next

/-- After `n` rounds the congestion state is that of `n` applications of
`updateCongestionWindow` to the opening's. -/
theorem cycles_congestion (n : Nat) (room : n + 2 < 2 ^ 32) :
    (cycles n).congestion = (ReliableContext.updateCongestionWindow^[n] opening).congestion := by
  induction n with
  | zero => rfl
  | succ n ih =>
    rw [Function.iterate_succ_apply']
    exact (settled_cycles n (by omega)).cycle_congestion.trans
      (ReliableContext.congestion_updateCongestionWindow (ih (by omega)))

/-! ## The wrap -/

/-- Two sends from a settled sender. -/
theorem Settled.two_sends {s : BitVec 32} {ctx : ReliableContext} (settled : Settled s ctx) :
    let sent := Op.run [.send (newPacketHeader 0) [] 0 none, .send (newPacketHeader 0) [] 0 none] ctx
    sent.sendBase = s ∧ sent.nextSeq = s + 1 + 1 ∧ sent.lastAckSeq = ctx.lastAckSeq ∧
      sent.windowSize = 32 ∧ sent.rtt = ctx.rtt ∧
      (sent.sendWindow (getWindowIndex s)).state = .sent ∧
      (sent.sendWindow (getWindowIndex (s + 1))).state = .sent ∧
      (sent.sendWindow (getWindowIndex (s + 1))).sentAt = 0 := by
  obtain ⟨rfl, caught_up, -, window, cwnd_ge, -, -, -, -, -⟩ := settled
  have first := ctx.admits window (by simp [caught_up]) (by simp [caught_up]; omega)
  have empty : ([] : List Byte).length ≤ 65535 := Nat.zero_le _
  obtain ⟨slot, -, -, -, sent, -, -, stored⟩ := ctx.send_eq_ok (newPacketHeader 0) 0 first empty
  simp only [Op.run, Op.apply, stored]
  rw [caught_up]
  have second := ReliableContext.admits
    { ctx with nextSeq := ctx.sendBase + 1,
               sendWindow := Function.update ctx.sendWindow (getWindowIndex ctx.sendBase) slot }
    window (by simp) (by simp; omega)
  obtain ⟨slot', -, -, -, sent', at_zero', -, stored'⟩ :=
    ReliableContext.send_eq_ok _ (newPacketHeader 0) 0 second empty
  rw [stored']
  exact ⟨rfl, rfl, rfl, window, rfl,
    by simp only [Function.update_noteq (getWindowIndex_succ_ne ctx.sendBase).symm,
      Function.update_same, sent],
    by simp [sent'], by simp [at_zero']⟩

/-- Two sends from a sender settled at `2^32 - 1` wrap `nextSeq` past `sendBase`; then the
acknowledgement of `sendBase` leaves its slot ACKED without moving the window, and an expired
packet is not examined by `ProcessTimeouts`. -/
theorem Settled.wrapped {s : BitVec 32} {ctx : ReliableContext} (settled : Settled s ctx)
    (top : s + 1 = 0) :
    let ctx := Op.run [.send (newPacketHeader 0) [] 0 none, .send (newPacketHeader 0) [] 0 none] ctx
    ctx.nextSeq < ctx.sendBase ∧
      (let after := (ctx.processAck ctx.sendBase 0).1
       after.sendBase ≠ after.nextSeq ∧
         (after.sendWindow (getWindowIndex after.sendBase)).state = .acked) ∧
      Outstanding ctx.sendBase ctx.nextSeq 0 ∧ (ctx.sendWindow (getWindowIndex 0)).state = .sent ∧
      BitVec.ofInt 32 (1 - (ctx.sendWindow (getWindowIndex 0)).sentAt) > ctx.rtt.rto ∧
      ∀ writeErr, ctx.processTimeouts 1 writeErr = ((0, none), ctx, []) := by
  obtain ⟨base, next, last, window, rtt, sent, sent', at_zero⟩ := settled.two_sends
  have top' : s = -1 := eq_neg_of_add_eq_zero_left top
  rw [top] at next sent' at_zero
  generalize Op.run _ ctx = wrapped at base next last window rtt sent sent' at_zero ⊢
  subst top'
  refine ⟨by rw [base, next]; decide, ?_, by rw [base, next]; decide, sent', ?_, fun writeErr =>
    ReliableContext.processTimeouts_of_le _ 1 writeErr window (by rw [base, next]; decide)⟩
  · rw [ReliableContext.processAck_eq_fresh _ 0 ?inw ?live ?fresh,
      ReliableContext.updateCongestionWindow_eq_with,
      ReliableContext.advanceSendBase_of_le _ _ ?wrapped]
    · exact ⟨by rw [base, next]; decide, by simp⟩
    case inw => rw [ReliableContext.isInSendWindow, window, inWindow_iff]; simp
    case live => rw [base, sent]; decide
    case fresh => rw [base, last]; exact settled.fresh.symm
    case wrapped =>
      show wrapped.nextSeq ≤ wrapped.sendBase
      rw [base, next]
      decide
  · rw [at_zero, rtt, settled.rto]
    decide

/-- With plain comparisons the advance of `ProcessACK` and the scan of `ProcessTimeouts` stop at
once when `nextSeq` is not above `sendBase` as numbers, and a reachable sender gets there: after
`nextSeq` wraps to 1 with `sendBase` at `2^32 - 1`, the acknowledgement of `sendBase` leaves the
window unmoved with an ACKED slot at its base, and the expired packet 0 is neither retransmitted
nor dropped. -/
theorem wrapped_sender_stalls :
    (∀ (ctx : ReliableContext) (fuel : Nat), ctx.nextSeq ≤ ctx.sendBase →
      ctx.advanceSendBase fuel = ctx) ∧
    (∀ (ctx : ReliableContext) (now : Int) (writeErr : Nat → Option String),
      ctx.windowSize = 32 → ctx.nextSeq ≤ ctx.sendBase →
      ctx.processTimeouts now writeErr = ((0, none), ctx, [])) ∧
    ∃ ctx, Reachable ctx ∧ ctx.nextSeq < ctx.sendBase ∧
      (let after := (ctx.processAck ctx.sendBase 0).1
       after.sendBase ≠ after.nextSeq ∧
         (after.sendWindow (getWindowIndex after.sendBase)).state = .acked) ∧
      Outstanding ctx.sendBase ctx.nextSeq 0 ∧ (ctx.sendWindow (getWindowIndex 0)).state = .sent ∧
      BitVec.ofInt 32 (1 - (ctx.sendWindow (getWindowIndex 0)).sentAt) > ctx.rtt.rto ∧
      ∀ writeErr, ctx.processTimeouts 1 writeErr = ((0, none), ctx, []) :=
  ⟨fun ctx fuel => ReliableContext.advanceSendBase_of_le fuel ctx,
    ReliableContext.processTimeouts_of_le, _, (reachable_cycles _).run _,
    (settled_cycles (2 ^ 32 - 3) (by decide)).wrapped (by decide)⟩

end OverProto
