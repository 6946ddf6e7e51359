import OverProto.Transport.AckProcessing

/-!
# The congestion controller over a run

`cwnd`, `ssthresh` and `inSlowStart` change in two places only: `updateCongestionWindow`, which
`ProcessACK` calls on a fresh acknowledgement (`congestion_processAck`), and the collapse of
`ProcessTimeouts`, once for every slot it resends. `Send` and `Recv` leave them alone.

Slow start adds one to `cwnd` up to the cap of 32, a collapse sets `cwnd` to 4 and `ssthresh` to
half of `cwnd` but at least 2, and congestion avoidance adds `1 / cwnd`. So every reachable
context keeps `4 ≤ cwnd ≤ 32` and `2 ≤ ssthresh ≤ 32` (`CongestionInv`,
`reachable_congestion_bounds`). The `1 / cwnd` is a division of `uint32`s, which is 0 from
`cwnd = 2` on: outside slow start `cwnd` does not move again until a timeout
(`congestion_avoidance_stalls`).
-/

namespace OverProto

namespace ReliableContext

/-- The guards `ProcessACK` passes before it calls `updateCongestionWindow`: `ackSeq` in the send
window, its slot neither EMPTY nor ACKED, and `ackSeq` not `lastACKSeq`. -/
def FreshAck (ctx : ReliableContext) (ackSeq : BitVec 32) : Prop :=
  ctx.isInSendWindow ackSeq = true ∧
    ¬ ((ctx.sendWindow (getWindowIndex ackSeq)).state = .empty ∨
      (ctx.sendWindow (getWindowIndex ackSeq)).state = .acked) ∧
    ackSeq ≠ ctx.lastAckSeq

instance (ctx : ReliableContext) (ackSeq : BitVec 32) : Decidable (ctx.FreshAck ackSeq) :=
  inferInstanceAs (Decidable (_ ∧ _ ∧ _))

/-! ## What each call does to the congestion state -/

theorem congestion_send (ctx : ReliableContext) (hdr : PacketHeader) (payload : List Byte)
    (now : Int) (writeErr : Option String) :
    (ctx.send hdr payload now writeErr).2.1.congestion = ctx.congestion := by
  by_cases full : ctx.nextSeq - ctx.sendBase ≥ ctx.availableSlots
  · rw [ctx.send_of_full hdr payload now writeErr full]
  · obtain ⟨sendWindow, sent⟩ := ctx.send_eq_with hdr payload now writeErr full
    rw [sent]
    rfl

theorem congestion_recv (ctx : ReliableContext) (incoming : Except String (String × List Byte))
    (now : Int) : (ctx.recv incoming now).2.1.congestion = ctx.congestion := by
  obtain ⟨recvBase, recvWindow, result⟩ := ctx.recv_eq_with incoming now
  rw [result]
  rfl

/-- `ProcessACK` changes the congestion state as `updateCongestionWindow` does on a fresh
acknowledgement, and not at all otherwise. -/
theorem congestion_processAck (ctx : ReliableContext) (ackSeq : BitVec 32) (now : Int) :
    (ctx.processAck ackSeq now).1.congestion =
      if ctx.FreshAck ackSeq then ctx.updateCongestionWindow.congestion else ctx.congestion := by
  split
  next fresh =>
    obtain ⟨inw, live, new⟩ := fresh
    rw [ctx.processAck_eq_fresh now inw live new, congestion_advanceSendBase]
    exact congestion_updateCongestionWindow rfl
  next stale =>
    unfold processAck
    dsimp only
    split_ifs with inw idle repeated <;> first | rfl | exact absurd ⟨inw, idle, repeated⟩ stale

/-- With `cwnd ≤ 32`, `updateCongestionWindow` never lowers `cwnd`. -/
theorem cwnd_le_updateCongestionWindow (ctx : ReliableContext) (most : ctx.cwnd.toNat ≤ 32) :
    ctx.cwnd.toNat ≤ ctx.updateCongestionWindow.cwnd.toNat := by
  have one : (1 : BitVec 32).toNat = 1 := rfl
  have max : maxCwnd.toNat = 32 := rfl
  obtain ⟨step, quotient, small⟩ : ∃ step, 1 / ctx.cwnd.toNat = step ∧ step ≤ 1 :=
    ⟨_, rfl, Nat.div_le_self 1 _⟩
  unfold updateCongestionWindow
  split <;> dsimp only <;> split <;>
    simp only [BitVec.lt_def, BitVec.toNat_add, BitVec.toNat_udiv, one, max, quotient] at * <;>
    omega

/-- Outside slow start, with `2 ≤ cwnd ≤ 32`, `updateCongestionWindow` changes nothing: it adds
`1 / cwnd`, which is 0. -/
theorem congestion_updateCongestionWindow_of_avoidance (ctx : ReliableContext)
    (avoiding : ctx.inSlowStart = false) (least : 2 ≤ ctx.cwnd.toNat) (most : ctx.cwnd.toNat ≤ 32) :
    ctx.updateCongestionWindow.congestion = ctx.congestion := by
  have one : (1 : BitVec 32).toNat = 1 := rfl
  have whole : ctx.cwnd + 1 / ctx.cwnd = ctx.cwnd := by
    apply BitVec.eq_of_toNat_eq
    rw [BitVec.toNat_add, BitVec.toNat_udiv, one, Nat.div_eq_of_lt (by omega), Nat.add_zero,
      Nat.mod_eq_of_lt ctx.cwnd.isLt]
  have capped : ¬ ctx.cwnd > maxCwnd := by
    simp only [gt_iff_lt, BitVec.lt_def, not_lt]
    exact most
  simp only [updateCongestionWindow, congestion, avoiding, whole, capped, if_false,
    Bool.false_eq_true]

end ReliableContext

/-! ## The bounds every reachable context keeps -/

/-- `4 ≤ cwnd ≤ 32` and `2 ≤ ssthresh ≤ 32`. -/
structure CongestionInv (ctx : ReliableContext) : Prop where
  cwnd_ge : 4 ≤ ctx.cwnd.toNat
  cwnd_le : ctx.cwnd.toNat ≤ 32
  ssthresh_ge : 2 ≤ ctx.ssthresh.toNat
  ssthresh_le : ctx.ssthresh.toNat ≤ 32

theorem congestionInv_newReliableContext (addr : String) :
    CongestionInv (newReliableContext addr) :=
  ⟨show 4 ≤ initialCwnd.toNat by decide, show initialCwnd.toNat ≤ 32 by decide,
    show 2 ≤ maxCwnd.toNat by decide, show maxCwnd.toNat ≤ 32 by decide⟩

namespace CongestionInv

variable {ctx : ReliableContext}

/-- The bounds read the congestion state only. -/
theorem congr {other : ReliableContext} (inv : CongestionInv ctx)
    (same : other.congestion = ctx.congestion) : CongestionInv other := by
  simp only [ReliableContext.congestion, Prod.mk.injEq] at same
  obtain ⟨cwnd, ssthresh, -⟩ := same
  exact ⟨cwnd ▸ inv.cwnd_ge, cwnd ▸ inv.cwnd_le, ssthresh ▸ inv.ssthresh_ge,
    ssthresh ▸ inv.ssthresh_le⟩

theorem updateCongestionWindow (inv : CongestionInv ctx) :
    CongestionInv ctx.updateCongestionWindow := by
  rw [ReliableContext.updateCongestionWindow_eq_with]
  exact ⟨Nat.le_trans inv.cwnd_ge (ctx.cwnd_le_updateCongestionWindow inv.cwnd_le),
    ctx.updateCongestionWindow_cwnd_le, inv.ssthresh_ge, inv.ssthresh_le⟩

/-- A collapse sets `cwnd` to 4 and `ssthresh` to `cwnd / 2`, raised to 2, so at most 16. -/
theorem retransmitSlot (inv : CongestionInv ctx) (idx : Fin 32) (now : Int) :
    CongestionInv (ctx.retransmitSlot idx now) := by
  have two : (2 : BitVec 32).toNat = 2 := rfl
  have half : (ctx.cwnd / 2).toNat ≤ 16 := by
    rw [BitVec.toNat_udiv, two]
    have := inv.cwnd_le
    omega
  refine ⟨show 4 ≤ initialCwnd.toNat by decide, show initialCwnd.toNat ≤ 32 by decide, ?_, ?_⟩ <;>
    dsimp only [ReliableContext.retransmitSlot] <;>
      split <;> simp only [BitVec.lt_def, two] at * <;> omega

theorem processAck (inv : CongestionInv ctx) (ackSeq : BitVec 32) (now : Int) :
    CongestionInv (ctx.processAck ackSeq now).1 := by
  by_cases fresh : ctx.FreshAck ackSeq
  · exact inv.updateCongestionWindow.congr (by rw [ctx.congestion_processAck, if_pos fresh])
  · exact inv.congr (by rw [ctx.congestion_processAck, if_neg fresh])

end CongestionInv

theorem congestionInv_of_reachable {ctx : ReliableContext} (reach : Reachable ctx) :
    CongestionInv ctx := by
  induction reach with
  | init addr => exact congestionInv_newReliableContext addr
  | step op _ inv =>
    cases op with
    | send hdr payload now writeErr => exact inv.congr (ReliableContext.congestion_send ..)
    | recv incoming now => exact inv.congr (ReliableContext.congestion_recv ..)
    | processAck ackSeq now => exact inv.processAck ackSeq now
    | processTimeouts now writeErr =>
      exact ReliableContext.timeoutLoop_invariant CongestionInv now writeErr
        (fun _ _ _ inv _ => inv.congr rfl) (fun _ j inv _ => inv.retransmitSlot j now) _ inv 0 []

/-- A sender after six collapses in one `ProcessTimeouts`: the opening, six sends at time 0, and
the scan at time 1, when every one of them has timed out (`RTO` is 0 after the opening's zero
samples). The first collapse halves `cwnd = 6` and the later ones halve `cwnd = 4`, so
`ssthresh` is 2. -/
def collapsed : ReliableContext :=
  Op.run (List.replicate 6 (.send (newPacketHeader 0) [] 0 none) ++
    [.processTimeouts 1 fun _ => none]) opening

theorem reachable_collapsed : Reachable collapsed := (reachable_cycles 0).run _

/-- Every reachable context has `4 ≤ cwnd ≤ 32` and `2 ≤ ssthresh ≤ 32`. So the `1 / cwnd` of
`updateCongestionWindow` never divides by zero, and the `availableSlots` of `Send`, which falls
back to `cwnd`, is never 0. -/
theorem reachable_congestion_bounds {ctx : ReliableContext} (reach : Reachable ctx) :
    4 ≤ ctx.cwnd.toNat ∧ ctx.cwnd.toNat ≤ 32 ∧ 2 ≤ ctx.ssthresh.toNat ∧
      ctx.ssthresh.toNat ≤ 32 ∧ ctx.cwnd ≠ 0 ∧ ctx.availableSlots ≠ 0 := by
  obtain ⟨cwnd_ge, cwnd_le, ssthresh_ge, ssthresh_le⟩ := congestionInv_of_reachable reach
  have nonzero : ctx.cwnd ≠ 0 := fun zero => by
    rw [zero] at cwnd_ge
    exact absurd cwnd_ge (by decide)
  have fallback (available : BitVec 32) :
      (if available = 0 ∨ available > ctx.cwnd then ctx.cwnd else available) ≠ 0 := by
    split
    · exact nonzero
    · next kept => exact fun zero => kept (.inl zero)
  exact ⟨cwnd_ge, cwnd_le, ssthresh_ge, ssthresh_le, nonzero, fallback _⟩

theorem collapsed_congestion_bounds :
    4 ≤ collapsed.cwnd.toNat ∧ collapsed.cwnd.toNat ≤ 32 ∧ 2 ≤ collapsed.ssthresh.toNat ∧
      collapsed.ssthresh.toNat ≤ 32 ∧ collapsed.cwnd ≠ 0 ∧ collapsed.availableSlots ≠ 0 :=
  reachable_congestion_bounds reachable_collapsed

/-! ## Congestion avoidance -/

/-- Whether the call is `ProcessTimeouts`. -/
def Op.isProcessTimeouts : Op → Bool
  | .processTimeouts _ _ => true
  | _ => false

/-- A call other than `ProcessTimeouts` changes the congestion state as `updateCongestionWindow`
does, or not at all. -/
theorem Op.congestion_apply (op : Op) (ctx : ReliableContext) (quiet : op.isProcessTimeouts = false) :
    (op.apply ctx).congestion = ctx.congestion ∨
      (op.apply ctx).congestion = ctx.updateCongestionWindow.congestion := by
  cases op with
  | send hdr payload now writeErr => exact .inl (ctx.congestion_send hdr payload now writeErr)
  | recv incoming now => exact .inl (ctx.congestion_recv incoming now)
  | processAck ackSeq now =>
    rw [Op.apply, ctx.congestion_processAck]
    split
    · exact .inr rfl
    · exact .inl rfl
  | processTimeouts now writeErr => cases quiet

/-- From a reachable context outside slow start, calls other than `ProcessTimeouts` leave the
congestion state as it is. -/
theorem congestion_run_of_avoidance {ctx : ReliableContext} (reach : Reachable ctx)
    (avoiding : ctx.inSlowStart = false) (ops : List Op)
    (quiet : ∀ op ∈ ops, op.isProcessTimeouts = false) :
    (Op.run ops ctx).congestion = ctx.congestion := by
  induction ops generalizing ctx with
  | nil => rfl
  | cons op ops ih =>
    have inv := congestionInv_of_reachable reach
    have same : (op.apply ctx).congestion = ctx.congestion := by
      rcases op.congestion_apply ctx (quiet op (.head _)) with same | updated
      · exact same
      · exact updated.trans (ctx.congestion_updateCongestionWindow_of_avoidance avoiding
          (Nat.le_trans (by decide) inv.cwnd_ge) inv.cwnd_le)
    have still : (op.apply ctx).inSlowStart = false := by
      simp only [ReliableContext.congestion, Prod.mk.injEq] at same
      rw [same.2.2, avoiding]
    exact (ih (.step op reach) still fun op mem => quiet op (.tail _ mem)).trans same

set_option maxRecDepth 2000 in
/-- Outside slow start `cwnd` stays where it is over any run of calls without a
`ProcessTimeouts`, since `1 / cwnd` is 0. A reachable sender is there with `cwnd = 5`: after
`collapsed`, whose `ssthresh` is 2, one fresh acknowledgement ends slow start. Five more fresh
acknowledgements in a row, one for each unit of `cwnd`, leave it at 5. -/
theorem congestion_avoidance_stalls :
    (∀ ctx : ReliableContext, Reachable ctx → ctx.inSlowStart = false →
      ∀ ops : List Op, (∀ op ∈ ops, op.isProcessTimeouts = false) →
        (Op.run ops ctx).cwnd = ctx.cwnd ∧ (Op.run ops ctx).inSlowStart = false) ∧
    (let ctx := (collapsed.processAck 2 1).1
     let acks : List (BitVec 32) := [3, 4, 5, 6, 7]
     Reachable ctx ∧ ctx.inSlowStart = false ∧ ctx.cwnd = 5 ∧ acks.length = ctx.cwnd.toNat ∧
       (∀ k < acks.length,
         (Op.run ((acks.take k).map fun a => .processAck a 1) ctx).FreshAck (acks.getD k 0)) ∧
       (Op.run (acks.map fun a => .processAck a 1) ctx).cwnd = 5) := by
  refine ⟨fun ctx reach avoiding ops quiet => ?_, .step (.processAck 2 1) reachable_collapsed,
    by decide⟩
  have same := congestion_run_of_avoidance reach avoiding ops quiet
  simp only [ReliableContext.congestion, Prod.mk.injEq] at same
  exact ⟨same.1, same.2.2.trans avoiding⟩

end OverProto
