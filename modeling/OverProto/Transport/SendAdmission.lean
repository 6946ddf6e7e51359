import OverProto.Transport.AckProcessing

/-!
# What `Send` admits, and what a failed `Send` leaves

`Send` compares the outstanding count `nextSeq - sendBase` with `availableSlots`: the room left
in the window of 32, replaced by `cwnd` when it is 0 or above `cwnd`. Comparing the count with
the room left rather than with the window refuses a count `o` once `o ≥ 32 - o`, so on every
reachable context the limit is `min cwnd 16` (`send_window_full_iff`). After 26 rounds of slow
start `cwnd` is 32 (`cycles_congestion`), and from there sixteen sends are admitted and the
seventeenth is refused.

`Send` takes its sequence number before it serializes and stores its slot before it writes. So
the window check is the only failure that leaves the context as it was
(`send_unchanged_iff_full`): a payload `Serialize` refuses still moves `nextSeq`, and a failed
write leaves the packet stored as SENT.
-/

namespace OverProto

namespace ReliableContext

/-- A `Send` leaves the context as it was exactly when the window check refuses it. -/
theorem send_eq_self_iff (ctx : ReliableContext) (hdr : PacketHeader) (payload : List Byte)
    (now : Int) (writeErr : Option String) :
    (ctx.send hdr payload now writeErr).2.1 = ctx ↔
      ctx.nextSeq - ctx.sendBase ≥ ctx.availableSlots := by
  by_cases full : ctx.nextSeq - ctx.sendBase ≥ ctx.availableSlots
  · simp [send_of_full ctx hdr payload now writeErr full, full]
  · obtain ⟨sendWindow, sent⟩ := ctx.send_eq_with hdr payload now writeErr full
    simp only [sent, full, iff_false]
    intro same
    have moved : ctx.nextSeq + 1 = ctx.nextSeq := congrArg nextSeq same
    bv_omega

end ReliableContext

/-- `k` sends in a row with room for all of them, in half the window and in `cwnd`, are each
admitted: `nextSeq` moves on by `k`, and `sendBase`, the window and `cwnd` stay. -/
theorem run_sends (hdr : PacketHeader) (payload : List Byte) (now : Int)
    (writeErr : Option String) (k : Nat) {ctx : ReliableContext} (window : ctx.windowSize = 32)
    (half : 2 * ((ctx.nextSeq - ctx.sendBase).toNat + k) ≤ 32)
    (below : (ctx.nextSeq - ctx.sendBase).toNat + k ≤ ctx.cwnd.toNat) :
    let sent := Op.run (List.replicate k (.send hdr payload now writeErr)) ctx
    sent.sendBase = ctx.sendBase ∧ sent.nextSeq = ctx.nextSeq + BitVec.ofNat 32 k ∧
      sent.windowSize = 32 ∧ sent.cwnd = ctx.cwnd := by
  induction k generalizing ctx with
  | zero => simp [Op.run, window]
  | succ k ih =>
    have admitted := ctx.admits window (by omega) (by omega)
    obtain ⟨sendWindow, sent⟩ := ctx.send_eq_with hdr payload now writeErr admitted
    have moved : (ctx.nextSeq + 1 - ctx.sendBase).toNat = (ctx.nextSeq - ctx.sendBase).toNat + 1 := by
      bv_omega
    obtain ⟨base, next, window', cwnd⟩ :=
      @ih { ctx with nextSeq := ctx.nextSeq + 1, sendWindow } window
        (by simp only [moved]; omega) (by simp only [moved]; omega)
    simp only [List.replicate_succ, Op.run, Op.apply, sent]
    refine ⟨base, ?_, window', cwnd⟩
    rw [next]
    bv_omega

/-- On every reachable context `Send` is refused with "send window full", changing nothing,
exactly when `min cwnd 16` packets are outstanding. After 26 rounds `cwnd` is 32, and with
nothing outstanding sixteen sends are admitted and the seventeenth is refused, whatever it
sends. -/
theorem send_window_full_iff :
    (∀ ctx : ReliableContext, Reachable ctx → ∀ hdr payload now writeErr,
      ctx.send hdr payload now writeErr = (.error "send window full", ctx, []) ↔
        min ctx.cwnd.toNat 16 ≤ (ctx.nextSeq - ctx.sendBase).toNat) ∧
    (Reachable (cycles 26) ∧ (cycles 26).cwnd = 32 ∧ (cycles 26).nextSeq = (cycles 26).sendBase ∧
      let sent := Op.run (List.replicate 16 (.send (newPacketHeader 0) [] 0 none)) (cycles 26)
      (sent.nextSeq - sent.sendBase).toNat = 16 ∧ ∀ hdr payload now writeErr,
        sent.send hdr payload now writeErr = (.error "send window full", sent, [])) := by
  refine ⟨fun ctx reach hdr payload now writeErr => ?_, ?_⟩
  · obtain ⟨window, cwnd_le, ring⟩ := sendInv_of_reachable reach
    rw [← ctx.availableSlots_le_iff window cwnd_le ring.bounded]
    exact ⟨fun refused => (ctx.send_eq_self_iff hdr payload now writeErr).mp
      (congrArg (·.2.1) refused), ctx.send_of_full hdr payload now writeErr⟩
  obtain ⟨base, next, -, window, -, -, -, -, -, -⟩ := settled_cycles 26 (by decide)
  have grown : (cycles 26).congestion = (32, 32, false) :=
    (cycles_congestion 26 (by decide)).trans (by decide)
  have cwnd : (cycles 26).cwnd = 32 := by
    simp only [ReliableContext.congestion, Prod.mk.injEq] at grown
    exact grown.1
  obtain ⟨sent_base, sent_next, sent_window, sent_cwnd⟩ :=
    run_sends (newPacketHeader 0) [] 0 none 16 window (by rw [next, base]; decide)
      (by rw [next, base, cwnd]; decide)
  dsimp only
  generalize Op.run (List.replicate 16 (.send (newPacketHeader 0) [] 0 none)) (cycles 26) = sent
    at sent_base sent_next sent_window sent_cwnd ⊢
  have outstanding : (sent.nextSeq - sent.sendBase).toNat = 16 := by
    rw [sent_next, sent_base, next, base]
    decide
  refine ⟨reachable_cycles 26, cwnd, next.trans base.symm, outstanding,
    fun hdr payload now writeErr => ReliableContext.send_of_full _ hdr payload now writeErr ?_⟩
  rw [ReliableContext.availableSlots_le_iff _ sent_window (by rw [sent_cwnd, cwnd]; decide)
    (by omega), outstanding]
  exact Nat.min_le_right _ _

/-- A `Send` leaves the context as it was exactly when the window check refuses it. Past the
check it fails on a payload over 65535 bytes after `nextSeq` has moved on, and on a failed write
after the packet has been stored as SENT; a new context admits its first `Send`. -/
theorem send_unchanged_iff_full :
    (∀ (ctx : ReliableContext) hdr payload now writeErr,
      (ctx.send hdr payload now writeErr).2.1 = ctx ↔
        ctx.nextSeq - ctx.sendBase ≥ ctx.availableSlots) ∧
    (∀ (ctx : ReliableContext) hdr payload now writeErr,
      ¬ ctx.nextSeq - ctx.sendBase ≥ ctx.availableSlots → 65535 < payload.length →
      ctx.send hdr payload now writeErr = (.error "payload too large (max 65535 bytes)",
        { ctx with nextSeq := ctx.nextSeq + 1 }, [])) ∧
    (∀ (ctx : ReliableContext) hdr payload now err,
      ¬ ctx.nextSeq - ctx.sendBase ≥ ctx.availableSlots → payload.length ≤ 65535 →
      let after := ctx.send hdr payload now (some err)
      after.1 = .error err ∧ after.2.1.nextSeq = ctx.nextSeq + 1 ∧
        (after.2.1.sendWindow (getWindowIndex ctx.nextSeq)).state = .sent) ∧
    (let ctx := newReliableContext "peer"
     Reachable ctx ∧ ¬ ctx.nextSeq - ctx.sendBase ≥ ctx.availableSlots) :=
  ⟨ReliableContext.send_eq_self_iff,
    fun ctx hdr payload now writeErr admitted large => by
      simp only [ReliableContext.send, if_neg admitted, serialize_eq_error _ large],
    fun ctx hdr payload now err admitted fits => by
      simp [ReliableContext.send, if_neg admitted, serialize_eq_ok _ fits],
    .init "peer", by decide⟩

end OverProto
