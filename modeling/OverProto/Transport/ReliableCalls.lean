import Mathlib.Data.Fintype.Card
import OverProto.Transport.Reliable

/-!
# What one call of the reliable context does

The arithmetic of the window (`getWindowIndex`, `inWindow`) and, for each operation, what one
call does to the context, stated once so that the proofs about runs (`SendWindow`,
`AckProcessing`, `RecvWindow`) cite these lemmas. The two advance loops are run with fuel 32;
`advanceSendBase_exit` and `advanceRecvBase_exit` show that this fuel leaves each loop at its
exit condition, as the unbounded loops of the code are.
-/

namespace OverProto

/-! ## Window arithmetic -/

theorem getWindowIndex_val (seq : BitVec 32) : (getWindowIndex seq).val = seq.toNat % 32 := rfl

/-- With the window of 32, both range checks together are the modular test. -/
theorem inWindow_iff (base seq : BitVec 32) :
    inWindow base 32 seq = true ↔ (seq - base).toNat < 32 := by
  have hb := base.isLt
  have hs := seq.isLt
  have size : (32 : BitVec 32).toNat = 32 := rfl
  unfold inWindow
  simp only [BitVec.le_def, BitVec.lt_def, BitVec.toNat_add, BitVec.toNat_sub, ge_iff_le, size]
  split_ifs <;> simp <;> omega

/-- Two sequence numbers less than 32 past the same base have different slots. -/
theorem getWindowIndex_inj {base q q' : BitVec 32} (hq : (q - base).toNat < 32)
    (hq' : (q' - base).toNat < 32) (same : getWindowIndex q = getWindowIndex q') : q = q' := by
  have := congrArg Fin.val same
  simp only [getWindowIndex] at this
  rw [BitVec.toNat_sub] at hq hq'
  have := q.isLt
  have := q'.isLt
  have := base.isLt
  exact BitVec.eq_of_toNat_eq (by omega)

theorem getWindowIndex_succ_ne (seq : BitVec 32) :
    getWindowIndex (seq + 1) ≠ getWindowIndex seq := by
  intro same
  have residues := congrArg Fin.val same
  have one : (1 : BitVec 32).toNat = 1 := rfl
  have := seq.isLt
  simp only [getWindowIndex_val, BitVec.toNat_add, one] at residues
  omega

theorem Reachable.run {ctx : ReliableContext} (reach : Reachable ctx) (ops : List Op) :
    Reachable (Op.run ops ctx) := by
  induction ops generalizing ctx with
  | nil => exact reach
  | cons op ops ih => exact ih (reach.step op)

namespace ReliableContext

/-! ## `Send` -/

/-- With the window of 32 and a `cwnd` of at most 32, the window check refuses exactly the
outstanding counts of at least `min cwnd 16`. -/
theorem availableSlots_le_iff (ctx : ReliableContext) (window : ctx.windowSize = 32)
    (cwnd_le : ctx.cwnd.toNat ≤ 32) (bounded : (ctx.nextSeq - ctx.sendBase).toNat ≤ 32) :
    ctx.nextSeq - ctx.sendBase ≥ ctx.availableSlots ↔
      min ctx.cwnd.toNat 16 ≤ (ctx.nextSeq - ctx.sendBase).toNat := by
  unfold availableSlots
  rw [window]
  generalize ctx.nextSeq - ctx.sendBase = o at *
  have size : (32 : BitVec 32).toNat = 32 := rfl
  have zero : (0 : BitVec 32).toNat = 0 := rfl
  dsimp only
  split_ifs <;>
    simp only [BitVec.le_def, BitVec.lt_def, ge_iff_le, BitVec.toNat_eq, BitVec.toNat_sub, size,
      zero, min_le_iff] at * <;>
    omega

/-- `Send` admits a packet only while fewer than 32 are outstanding, as long as `cwnd` is at most
32. -/
theorem outstanding_lt_of_admitted (ctx : ReliableContext) (window : ctx.windowSize = 32)
    (cwnd_le : ctx.cwnd.toNat ≤ 32) (bounded : (ctx.nextSeq - ctx.sendBase).toNat ≤ 32)
    (admitted : ¬ ctx.nextSeq - ctx.sendBase ≥ ctx.availableSlots) :
    (ctx.nextSeq - ctx.sendBase).toNat < 32 := by
  have := (ctx.availableSlots_le_iff window cwnd_le bounded).not.mp admitted
  omega

/-- `Send` admits a packet while twice the outstanding count is below 32 and the count is below
`cwnd`. -/
theorem admits (ctx : ReliableContext) (window : ctx.windowSize = 32)
    (half : 2 * (ctx.nextSeq - ctx.sendBase).toNat < 32)
    (below : (ctx.nextSeq - ctx.sendBase).toNat < ctx.cwnd.toNat) :
    ¬ ctx.nextSeq - ctx.sendBase ≥ ctx.availableSlots := by
  unfold availableSlots
  rw [window]
  generalize ctx.nextSeq - ctx.sendBase = o at *
  have size : (32 : BitVec 32).toNat = 32 := rfl
  have zero : (0 : BitVec 32).toNat = 0 := rfl
  dsimp only
  split_ifs <;>
    simp only [BitVec.le_def, BitVec.lt_def, ge_iff_le, BitVec.toNat_eq, BitVec.toNat_sub, size,
      zero] at * <;>
    omega

/-- An admitted `Send` of a payload that fits stores the packet, sent at `now`, in the slot of
`nextSeq`, and moves `nextSeq` on. -/
theorem send_eq_ok (ctx : ReliableContext) (hdr : PacketHeader) {payload : List Byte} (now : Int)
    (admitted : ¬ ctx.nextSeq - ctx.sendBase ≥ ctx.availableSlots) (fits : payload.length ≤ 65535) :
    let pktHdr := { hdr with seq := ctx.nextSeq, flags := hdr.flags ||| flagReliable }
    ∃ slot : WindowSlot, slot.header = some pktHdr ∧ slot.data = payload ∧
      slot.serialized = frame pktHdr payload ∧ slot.state = .sent ∧ slot.sentAt = now ∧
      slot.retryCount = 0 ∧
      ctx.send hdr payload now none = (.ok (), { ctx with
        nextSeq := ctx.nextSeq + 1,
        sendWindow := Function.update ctx.sendWindow (getWindowIndex ctx.nextSeq) slot },
        [slot.serialized]) :=
  ⟨{ header := some { hdr with seq := ctx.nextSeq, flags := hdr.flags ||| flagReliable },
     data := payload, serialized := frame _ payload, state := .sent, sentAt := now, retryCount := 0 },
    rfl, rfl, rfl, rfl, rfl, rfl, by simp only [send, if_neg admitted, serialize_eq_ok _ fits]⟩

/-- A `Send` refused for the window changes nothing and writes nothing. -/
theorem send_of_full (ctx : ReliableContext) (hdr : PacketHeader) (payload : List Byte) (now : Int)
    (writeErr : Option String) (full : ctx.nextSeq - ctx.sendBase ≥ ctx.availableSlots) :
    ctx.send hdr payload now writeErr = (.error "send window full", ctx, []) :=
  if_pos full

/-- A `Send` past the window check moves `nextSeq` on whatever follows, a payload `Serialize`
refuses or a failed write included, and changes nothing else but the send ring. -/
theorem send_eq_with (ctx : ReliableContext) (hdr : PacketHeader) (payload : List Byte)
    (now : Int) (writeErr : Option String)
    (admitted : ¬ ctx.nextSeq - ctx.sendBase ≥ ctx.availableSlots) :
    ∃ sendWindow, (ctx.send hdr payload now writeErr).2.1 =
      { ctx with nextSeq := ctx.nextSeq + 1, sendWindow } := by
  simp only [send, if_neg admitted]
  repeat' split
  all_goals exact ⟨_, rfl⟩

/-- Every datagram `Send` writes is the frame of the caller's header, stamped with the sequence
number and `FlagReliable`, and the payload. -/
theorem send_written (ctx : ReliableContext) (hdr : PacketHeader) (payload : List Byte)
    (now : Int) (writeErr : Option String) {datagram : List Byte}
    (written : datagram ∈ (ctx.send hdr payload now writeErr).2.2) :
    payload.length ≤ 65535 ∧
      datagram = frame { hdr with seq := ctx.nextSeq, flags := hdr.flags ||| flagReliable } payload := by
  unfold send at written
  split_ifs at written
  · simp at written
  cases serialized_ok : serialize { hdr with seq := ctx.nextSeq, flags := hdr.flags ||| flagReliable }
    payload with
  | error err => simp [serialized_ok] at written
  | ok serialized =>
    obtain ⟨fits, rfl⟩ := serialize_eq_ok_iff.mp serialized_ok
    refine ⟨fits, ?_⟩
    cases writeErr <;> simpa [serialized_ok] using written

/-- An admitted `Send` moves `nextSeq` on. When `Serialize` accepts the stamped packet it is
stored in the slot of the old `nextSeq` and its frame is the one datagram written; otherwise
nothing else changes and nothing is written. -/
theorem send_admitted (ctx : ReliableContext) (hdr : PacketHeader)
    (payload : List Byte) (now : Int) (writeErr : Option String)
    (admitted : ¬ ctx.nextSeq - ctx.sendBase ≥ ctx.availableSlots) :
    let pktHdr := { hdr with seq := ctx.nextSeq, flags := hdr.flags ||| flagReliable }
    let out := ctx.send hdr payload now writeErr
    (65535 < payload.length ∧ out.2.1 = { ctx with nextSeq := ctx.nextSeq + 1 } ∧ out.2.2 = []) ∨
    (payload.length ≤ 65535 ∧
      out.2.1 = { ctx with
        nextSeq := ctx.nextSeq + 1,
        sendWindow := Function.update ctx.sendWindow (getWindowIndex ctx.nextSeq)
          { header := some pktHdr, data := payload, serialized := frame pktHdr payload,
            state := .sent, sentAt := now, retryCount := 0 } } ∧
      out.2.2 = [frame pktHdr payload]) := by
  rcases Nat.lt_or_ge 65535 payload.length with large | small
  · exact .inl ⟨large, by simp [send, admitted, serialize_eq_error _ large]⟩
  · refine .inr ⟨small, ?_⟩
    cases writeErr <;> simp [send, admitted, serialize_eq_ok _ small]

/-! ## `Recv` -/

/-- `Recv` changes only the receive window. -/
theorem recv_eq_with (ctx : ReliableContext) (incoming : Except String (String × List Byte))
    (now : Int) :
    ∃ recvBase recvWindow, (ctx.recv incoming now).2.1 = { ctx with recvBase, recvWindow } := by
  unfold recv
  dsimp only
  repeat' split
  all_goals exact ⟨_, _, rfl⟩

/-! ## `ProcessACK` -/

/-- A zero sample on zero statistics leaves them zero. -/
theorem updateRtt_zero (ctx : ReliableContext) (srtt : ctx.rtt.srtt = 0)
    (rttVar : ctx.rtt.rttVar = 0) :
    (ctx.updateRtt 0).rtt.srtt = 0 ∧ (ctx.updateRtt 0).rtt.rttVar = 0 ∧
      (ctx.updateRtt 0).rtt.rto = 0 := by
  by_cases first : ctx.rtt.samplesCount = 0 <;> simp [updateRtt, first, srtt, rttVar]

/-- `updateCongestionWindow` sets `cwnd` and `inSlowStart` only. -/
theorem updateCongestionWindow_eq_with (ctx : ReliableContext) :
    ctx.updateCongestionWindow = { ctx with
      cwnd := ctx.updateCongestionWindow.cwnd,
      inSlowStart := ctx.updateCongestionWindow.inSlowStart } := by
  unfold updateCongestionWindow
  split <;> rfl

/-- `updateCongestionWindow` keeps `cwnd` at most `MaxCwnd`. -/
theorem updateCongestionWindow_cwnd_le (ctx : ReliableContext) :
    ctx.updateCongestionWindow.cwnd.toNat ≤ 32 := by
  have capped (c : BitVec 32) : (if c > maxCwnd then maxCwnd else c).toNat ≤ 32 := by
    split
    · rfl
    · next small => simpa [BitVec.lt_def, maxCwnd] using small
  unfold updateCongestionWindow
  split <;> exact capped _

/-- From 2 on, `updateCongestionWindow` never lowers `cwnd` below 2: `1 / cwnd` is then 0. -/
theorem updateCongestionWindow_cwnd_ge (ctx : ReliableContext) (least : 2 ≤ ctx.cwnd.toNat)
    (most : ctx.cwnd.toNat ≤ 32) : 2 ≤ ctx.updateCongestionWindow.cwnd.toNat := by
  have one : (1 : BitVec 32).toNat = 1 := rfl
  have max : maxCwnd.toNat = 32 := rfl
  have whole : 1 / ctx.cwnd.toNat = 0 := Nat.div_eq_of_lt (by omega)
  unfold updateCongestionWindow
  split <;> dsimp only <;> split <;>
    simp only [BitVec.lt_def, BitVec.toNat_add, BitVec.toNat_udiv, one, max] at * <;> omega

/-- The congestion state: `cwnd`, `ssthresh` and whether the sender is in slow start. -/
def congestion (ctx : ReliableContext) : BitVec 32 × BitVec 32 × Bool :=
  (ctx.cwnd, ctx.ssthresh, ctx.inSlowStart)

/-- `updateCongestionWindow` reads the congestion state only. -/
theorem congestion_updateCongestionWindow {a b : ReliableContext}
    (same : a.congestion = b.congestion) :
    a.updateCongestionWindow.congestion = b.updateCongestionWindow.congestion := by
  simp only [congestion, Prod.mk.injEq] at same
  obtain ⟨cwnd, ssthresh, slow⟩ := same
  unfold updateCongestionWindow congestion
  rw [cwnd, ssthresh, slow]
  split <;> rfl

/-- The advance over acknowledged packets leaves the congestion state alone. -/
theorem congestion_advanceSendBase (fuel : Nat) (ctx : ReliableContext) :
    (advanceSendBase fuel ctx).congestion = ctx.congestion := by
  induction fuel generalizing ctx with
  | zero => rfl
  | succ fuel ih =>
    rw [advanceSendBase]
    split
    · exact ih _
    · rfl

theorem advanceSendBase_succ_of_acked (fuel : Nat) (ctx : ReliableContext)
    (ahead : ctx.sendBase < ctx.nextSeq)
    (acked : (ctx.sendWindow (getWindowIndex ctx.sendBase)).state = .acked) :
    advanceSendBase (fuel + 1) ctx = advanceSendBase fuel { ctx with
      sendWindow := Function.update ctx.sendWindow (getWindowIndex ctx.sendBase) .cleared,
      sendBase := ctx.sendBase + 1 } := by
  rw [advanceSendBase, if_pos ⟨ahead, acked⟩]

theorem advanceSendBase_succ_of_not_lt (fuel : Nat) (ctx : ReliableContext)
    (caught : ¬ ctx.sendBase < ctx.nextSeq) : advanceSendBase (fuel + 1) ctx = ctx := by
  rw [advanceSendBase, if_neg fun go => caught go.1]

/-- The advance compares with a plain `<`, so it never moves once `nextSeq` is not above
`sendBase` as numbers. -/
theorem advanceSendBase_of_le (fuel : Nat) (ctx : ReliableContext)
    (wrapped : ctx.nextSeq ≤ ctx.sendBase) : advanceSendBase fuel ctx = ctx := by
  cases fuel with
  | zero => rfl
  | succ fuel => exact advanceSendBase_succ_of_not_lt _ _ (BitVec.not_lt.mpr wrapped)

/-- A fresh acknowledgement of a busy slot in the send window: marked ACKED, the RTT sampled if
it was never retransmitted, the congestion window grown, and the window advanced. -/
theorem processAck_eq_fresh (ctx : ReliableContext) {ackSeq : BitVec 32} (now : Int)
    (inw : ctx.isInSendWindow ackSeq = true)
    (live : ¬ ((ctx.sendWindow (getWindowIndex ackSeq)).state = .empty ∨
      (ctx.sendWindow (getWindowIndex ackSeq)).state = .acked))
    (fresh : ackSeq ≠ ctx.lastAckSeq) :
    let slot := ctx.sendWindow (getWindowIndex ackSeq)
    (ctx.processAck ackSeq now).1 = advanceSendBase 32 { ctx with
      dupAckCount := 0, lastAckSeq := ackSeq,
      rtt := if slot.retryCount = 0 ∧ slot.state = PacketState.sent then
        (ctx.updateRtt (BitVec.ofInt 32 (now - slot.sentAt))).rtt else ctx.rtt,
      sendWindow := Function.update ctx.sendWindow (getWindowIndex ackSeq)
        { slot with state := PacketState.acked } }.updateCongestionWindow := by
  simp only [processAck, inw, not_true, if_false, live, fresh]
  split <;> rfl

/-! ## `ProcessTimeouts` -/

/-- The scan breaks at its first offset once `nextSeq` is not above `sendBase` as numbers. -/
theorem processTimeouts_of_le (ctx : ReliableContext) (now : Int) (writeErr : Nat → Option String)
    (window : ctx.windowSize = 32) (wrapped : ctx.nextSeq ≤ ctx.sendBase) :
    ctx.processTimeouts now writeErr = ((0, none), ctx, []) := by
  rw [processTimeouts, window, show (32 : BitVec 32).toNat = 31 + 1 from rfl,
    List.range_succ_eq_map, timeoutLoop]
  simp [wrapped]

/-- Each turn of the scan leaves the context as it is, gives a busy slot a new state, or resends
a busy slot with `retransmitSlot`. So a property those two moves keep holds after the scan. -/
theorem timeoutLoop_invariant (P : ReliableContext → Prop) (now : Int)
    (writeErr : Nat → Option String)
    (restate : ∀ ctx j state, P ctx → (ctx.sendWindow j).state ≠ .empty →
      P { ctx with sendWindow := Function.update ctx.sendWindow j { ctx.sendWindow j with state } })
    (resend : ∀ ctx j, P ctx → (ctx.sendWindow j).state ≠ .empty → P (ctx.retransmitSlot j now))
    (offsets : List Nat) {ctx : ReliableContext} (holds : P ctx) (retransmitted : Nat)
    (written : List (List Byte)) :
    P (timeoutLoop now writeErr offsets ctx retransmitted written).2.1 := by
  induction offsets generalizing ctx retransmitted written with
  | nil => exact holds
  | cons i rest ih =>
    unfold timeoutLoop
    dsimp only
    split_ifs with stop idle expired exhausted
    · exact holds
    · exact ih holds _ _
    · exact ih (restate _ _ _ holds fun empty => idle (.inl empty)) _ _
    · have resent := resend _ _ holds fun empty => idle (.inl empty)
      split
      · exact resent
      · exact ih resent _ _
    · exact ih holds _ _

end ReliableContext

/-! ## The two loops end at their exit condition -/

/-- Fuel of at least the outstanding count runs the send-side advance to its exit. -/
theorem advanceSendBase_exit (fuel : Nat) (ctx : ReliableContext)
    (bounded : (ctx.nextSeq - ctx.sendBase).toNat ≤ fuel) :
    let last := ReliableContext.advanceSendBase fuel ctx
    ¬ (last.sendBase < last.nextSeq ∧
      (last.sendWindow (getWindowIndex last.sendBase)).state = .acked) := by
  induction fuel generalizing ctx with
  | zero =>
    rw [BitVec.toNat_sub] at bounded
    simp only [ReliableContext.advanceSendBase, BitVec.lt_def]
    omega
  | succ fuel ih =>
    simp only [ReliableContext.advanceSendBase]
    split
    next ahead =>
      apply ih
      have := BitVec.lt_def.mp ahead.1
      have := ctx.nextSeq.isLt
      have one : (1 : BitVec 32).toNat = 1 := rfl
      simp only [BitVec.toNat_sub, BitVec.toNat_add, one] at bounded ⊢
      omega
    next stop => exact stop

/-- Clearing a set bit of a receive bitmap lowers its count of set bits by one. -/
theorem card_update_false {w : Fin 32 → Bool} {j : Fin 32} (set : w j = true) :
    (Finset.univ.filter (fun i => Function.update w j false i = true)).card + 1 =
      (Finset.univ.filter (fun i => w i = true)).card := by
  have cleared : Finset.univ.filter (fun i => Function.update w j false i = true) =
      (Finset.univ.filter (fun i => w i = true)).erase j := by
    ext i
    by_cases same : i = j
    · subst same
      simp
    · simp [Function.update_noteq same, same]
  rw [cleared, Finset.card_erase_add_one (by simpa using set)]

/-- Each turn of the receive-side advance clears a set bit, so fuel of at least the number of
set bits (32 always is) runs it to its exit. -/
theorem advanceRecvBase_exit (fuel : Nat) (recvBase : BitVec 32) (recvWindow : Fin 32 → Bool)
    (enough : (Finset.univ.filter (fun i => recvWindow i = true)).card ≤ fuel) :
    let last := advanceRecvBase fuel recvBase recvWindow
    last.2 (getWindowIndex last.1) = false := by
  induction fuel generalizing recvBase recvWindow with
  | zero =>
    simp only [advanceRecvBase]
    by_contra set
    have : 0 < (Finset.univ.filter (fun i => recvWindow i = true)).card :=
      Finset.card_pos.mpr ⟨_, by simpa using set⟩
    omega
  | succ fuel ih =>
    simp only [advanceRecvBase]
    split
    next set =>
      apply ih
      have := card_update_false set
      omega
    next clear => simpa using clear

end OverProto
