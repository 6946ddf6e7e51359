import OverProto.Transport.ReliableCalls

/-!
# The send ring

What the 32 slots of `sendWindow` hold in every reachable context. The packets from `sendBase`
up to `nextSeq`, at most 32 of them, are the `Outstanding` ones; a slot that is not the slot of
an outstanding packet is EMPTY, and a non-EMPTY slot of an outstanding packet `q` `Carries` it:
it holds the packet serialized, with `Seq = q` and `FlagReliable` set. `RingInv` says this of a
ring, and its three moves (`push` a packet at `nextSeq`, `pop` the slot at `sendBase`, `retag`
a slot's state) are the only changes the operations make to a ring. `SendInv` adds the bounds on
`windowSize` and `cwnd` that `Send` needs to keep 32 as the bound, and every operation keeps it.
-/

namespace OverProto

/-- `seq` lies in the modular interval `[base, next)`. -/
def Outstanding (base next seq : BitVec 32) : Prop := (seq - base).toNat < (next - base).toNat

instance (base next seq : BitVec 32) : Decidable (Outstanding base next seq) :=
  inferInstanceAs (Decidable (_ < _))

/-- The slot holds the serialized packet of sequence number `seq`, sent reliably. -/
def WindowSlot.Carries (slot : WindowSlot) (seq : BitVec 32) : Prop :=
  ∃ hdr, slot.header = some hdr ∧ hdr.seq = seq ∧ hdr.flags &&& flagReliable ≠ 0 ∧
    serialize hdr slot.data = .ok slot.serialized

/-! ## The modular interval -/

section Interval

variable {base next q : BitVec 32}

theorem outstanding_succ_iff (room : (next - base).toNat < 32) :
    Outstanding base (next + 1) q ↔ Outstanding base next q ∨ q = next := by
  have := q.isLt
  have := next.isLt
  have := base.isLt
  have one : (1 : BitVec 32).toNat = 1 := rfl
  unfold Outstanding
  rw [BitVec.toNat_sub] at room
  simp only [BitVec.toNat_sub, BitVec.toNat_add, one]
  constructor
  · intro before
    by_cases same : q = next
    · exact .inr same
    · have : q.toNat ≠ next.toNat := fun e => same (BitVec.eq_of_toNat_eq e)
      omega
  · rintro (before | rfl) <;> omega

theorem outstanding_pop_iff (ahead : next ≠ base) :
    Outstanding (base + 1) next q ↔ Outstanding base next q ∧ q ≠ base := by
  have := q.isLt
  have := next.isLt
  have := base.isLt
  have one : (1 : BitVec 32).toNat = 1 := rfl
  have apart : next.toNat ≠ base.toNat := fun e => ahead (BitVec.eq_of_toNat_eq e)
  unfold Outstanding
  simp only [BitVec.toNat_sub, BitVec.toNat_add, one]
  constructor
  · intro after
    refine ⟨by omega, fun same => ?_⟩
    subst same
    omega
  · rintro ⟨before, other⟩
    have : q.toNat ≠ base.toNat := fun e => other (BitVec.eq_of_toNat_eq e)
    omega

theorem not_outstanding_self : ¬ Outstanding base next next := Nat.lt_irrefl _

/-- With `base` not above `next` as numbers, the outstanding packets lie between them. -/
theorem outstanding_iff_of_le (order : base.toNat ≤ next.toNat) :
    Outstanding base next q ↔ base.toNat ≤ q.toNat ∧ q.toNat < next.toNat := by
  have := q.isLt
  have := next.isLt
  have := base.isLt
  rw [Outstanding, BitVec.toNat_sub, BitVec.toNat_sub]
  omega

/-- `base` itself is outstanding as soon as `next` is past it. -/
theorem outstanding_base (ahead : next ≠ base) : Outstanding base next base := by
  have := next.isLt
  have := base.isLt
  have apart : next.toNat ≠ base.toNat := fun e => ahead (BitVec.eq_of_toNat_eq e)
  rw [Outstanding, BitVec.toNat_sub, BitVec.toNat_sub]
  omega

/-- An outstanding packet is at most 32 behind `next`, when at most 32 are outstanding. -/
theorem outstanding_behind (hq : Outstanding base next q) (bounded : (next - base).toNat ≤ 32) :
    0 < (next - q).toNat ∧ (next - q).toNat ≤ 32 := by
  have := q.isLt
  have := next.isLt
  have := base.isLt
  rw [Outstanding, BitVec.toNat_sub, BitVec.toNat_sub] at hq
  rw [BitVec.toNat_sub] at bounded ⊢
  omega

end Interval

/-! ## The ring invariant and its three moves -/

/-- The ring of the packets from `base` up to `next`. -/
structure RingInv (base next : BitVec 32) (window : Fin 32 → WindowSlot) : Prop where
  bounded : (next - base).toNat ≤ 32
  outside : ∀ j, (∀ q, Outstanding base next q → getWindowIndex q ≠ j) →
    (window j).state = .empty
  inside : ∀ q, Outstanding base next q → (window (getWindowIndex q)).state ≠ .empty →
    (window (getWindowIndex q)).Carries q

namespace RingInv

variable {base next : BitVec 32} {window : Fin 32 → WindowSlot}

theorem near (inv : RingInv base next window) {q : BitVec 32} (hq : Outstanding base next q) :
    (q - base).toNat < 32 :=
  Nat.lt_of_lt_of_le hq inv.bounded

/-- Within 32 of `base`, a busy slot is the slot of an outstanding packet, which it carries. -/
theorem busy (inv : RingInv base next window) {seq : BitVec 32} (near : (seq - base).toNat < 32)
    (busy : (window (getWindowIndex seq)).state ≠ .empty) :
    Outstanding base next seq ∧ (window (getWindowIndex seq)).Carries seq := by
  by_cases hs : Outstanding base next seq
  · exact ⟨hs, inv.inside seq hs busy⟩
  · refine absurd (inv.outside _ fun q hq same => hs ?_) busy
    rwa [getWindowIndex_inj (inv.near hq) near same] at hq

theorem index_ne_of_ne {q q' : BitVec 32} (inv : RingInv base next window)
    (hq : Outstanding base next q) (hq' : Outstanding base next q') (apart : q ≠ q') :
    getWindowIndex q ≠ getWindowIndex q' :=
  fun same => apart (getWindowIndex_inj (inv.near hq) (inv.near hq') same)

theorem index_ne_next {q : BitVec 32} (inv : RingInv base next window)
    (room : (next - base).toNat < 32) (hq : Outstanding base next q) :
    getWindowIndex q ≠ getWindowIndex next := fun same => by
  rw [getWindowIndex_inj (inv.near hq) room same] at hq
  exact not_outstanding_self hq

/-- The slot `Send` fills next is EMPTY. -/
theorem next_free (inv : RingInv base next window) (room : (next - base).toNat < 32) :
    (window (getWindowIndex next)).state = .empty :=
  inv.outside _ fun q hq same => by
    rw [getWindowIndex_inj (inv.near hq) room same] at hq
    exact not_outstanding_self hq

/-- `Send` stores the packet of `next` in its slot. -/
theorem push (inv : RingInv base next window) (room : (next - base).toNat < 32)
    (slot : WindowSlot) (fresh : slot.state ≠ .empty → slot.Carries next) :
    RingInv base (next + 1) (Function.update window (getWindowIndex next) slot) := by
  have other : ∀ q, Outstanding base next q → getWindowIndex q ≠ getWindowIndex next :=
    fun q hq same => by
      rw [getWindowIndex_inj (inv.near hq) room same] at hq
      exact not_outstanding_self hq
  refine ⟨?_, fun j free => ?_, fun q hq busy => ?_⟩
  · have := next.isLt
    have one : (1 : BitVec 32).toNat = 1 := rfl
    rw [BitVec.toNat_sub] at room
    simp only [BitVec.toNat_sub, BitVec.toNat_add, one]
    omega
  · have ne : j ≠ getWindowIndex next := fun same =>
      free next ((outstanding_succ_iff room).mpr (.inr rfl)) same.symm
    rw [Function.update_noteq ne]
    exact inv.outside j fun q hq => free q ((outstanding_succ_iff room).mpr (.inl hq))
  · rcases (outstanding_succ_iff room).mp hq with before | rfl
    · rw [Function.update_noteq (other q before)] at busy ⊢
      exact inv.inside q before busy
    · rw [Function.update_same] at busy ⊢
      exact fresh busy

/-- The advance of `ProcessACK` clears the slot at `base` and moves `base` past it. -/
theorem pop (inv : RingInv base next window) (ahead : next ≠ base) :
    RingInv (base + 1) next (Function.update window (getWindowIndex base) .cleared) := by
  have base_near : (base - base).toNat < 32 := by simp
  refine ⟨?_, fun j free => ?_, fun q hq busy => ?_⟩
  · have bounded := inv.bounded
    have := next.isLt
    have := base.isLt
    have one : (1 : BitVec 32).toNat = 1 := rfl
    have apart : next.toNat ≠ base.toNat := fun e => ahead (BitVec.eq_of_toNat_eq e)
    simp only [BitVec.toNat_sub, BitVec.toNat_add, one] at bounded ⊢
    omega
  · by_cases at_base : j = getWindowIndex base
    · rw [at_base, Function.update_same]
      rfl
    · rw [Function.update_noteq at_base]
      refine inv.outside j fun q hq same => ?_
      have other : q ≠ base := fun e => at_base (e ▸ same.symm)
      exact free q ((outstanding_pop_iff ahead).mpr ⟨hq, other⟩) same
  · obtain ⟨before, other⟩ := (outstanding_pop_iff ahead).mp hq
    have ne : getWindowIndex q ≠ getWindowIndex base :=
      fun same => other (getWindowIndex_inj (inv.near before) base_near same)
    rw [Function.update_noteq ne] at busy ⊢
    exact inv.inside q before busy

/-- `ProcessACK` and `ProcessTimeouts` change only the state, the retry count and the time of a
slot, and make busy only a slot that was busy. -/
theorem retag (inv : RingInv base next window) (j : Fin 32) (slot : WindowSlot)
    (was_busy : slot.state ≠ .empty → (window j).state ≠ .empty)
    (keeps : ∀ q, (window j).Carries q → slot.Carries q) :
    RingInv base next (Function.update window j slot) := by
  refine ⟨inv.bounded, fun i free => ?_, fun q hq busy => ?_⟩
  · by_cases here : i = j
    · subst here
      rw [Function.update_same]
      by_contra busy
      exact was_busy busy (inv.outside i free)
    · rw [Function.update_noteq here]
      exact inv.outside i free
  · by_cases here : getWindowIndex q = j
    · rw [here, Function.update_same] at busy ⊢
      exact keeps q (here ▸ inv.inside q hq (here ▸ was_busy busy))
    · rw [Function.update_noteq here] at busy ⊢
      exact inv.inside q hq busy

end RingInv

/-! ## The invariant of the context -/

/-- The send side of a reachable context. -/
structure SendInv (ctx : ReliableContext) : Prop where
  window : ctx.windowSize = 32
  cwnd_le : ctx.cwnd.toNat ≤ 32
  ring : RingInv ctx.sendBase ctx.nextSeq ctx.sendWindow

theorem sendInv_newReliableContext (addr : String) : SendInv (newReliableContext addr) where
  window := rfl
  cwnd_le := show initialCwnd.toNat ≤ 32 by decide
  ring := ⟨show ((0 : BitVec 32) - 0).toNat ≤ 32 by decide, fun _ _ => rfl,
    fun _ none => absurd none (by simp [Outstanding, newReliableContext])⟩

namespace SendInv

variable {ctx : ReliableContext}

/-- A change of a slot as `RingInv.retag` allows keeps the invariant. -/
theorem retag (inv : SendInv ctx) (j : Fin 32) (slot : WindowSlot)
    (was_busy : slot.state ≠ .empty → (ctx.sendWindow j).state ≠ .empty)
    (keeps : ∀ q, (ctx.sendWindow j).Carries q → slot.Carries q) :
    SendInv { ctx with sendWindow := Function.update ctx.sendWindow j slot } :=
  ⟨inv.window, inv.cwnd_le, inv.ring.retag j slot was_busy keeps⟩

/-- A new state for a busy slot keeps the invariant. -/
theorem restate (inv : SendInv ctx) (j : Fin 32) (state : PacketState)
    (busy : (ctx.sendWindow j).state ≠ .empty) :
    SendInv { ctx with sendWindow := Function.update ctx.sendWindow j { ctx.sendWindow j with state } } :=
  inv.retag j _ (fun _ => busy) fun _ carries => carries

theorem reliable_flag (flags : BitVec 8) : (flags ||| flagReliable) &&& flagReliable ≠ 0 := by
  have keep : (flags ||| flagReliable) &&& flagReliable = flagReliable := by
    ext i
    simp only [BitVec.getLsbD_and, BitVec.getLsbD_or]
    cases flags.getLsbD i <;> simp
  rw [keep]
  decide

theorem send (inv : SendInv ctx) (hdr : PacketHeader) (payload : List Byte) (now : Int)
    (writeErr : Option String) : SendInv (ctx.send hdr payload now writeErr).2.1 := by
  unfold ReliableContext.send
  split
  · exact inv
  next admitted =>
    have room := ctx.outstanding_lt_of_admitted inv.window inv.cwnd_le inv.ring.bounded admitted
    dsimp only
    split
    · have kept := inv.ring.push room _ fun busy => absurd (inv.ring.next_free room) busy
      rw [Function.update_eq_self] at kept
      exact ⟨inv.window, inv.cwnd_le, kept⟩
    next serialized stored =>
      cases writeErr <;>
        exact ⟨inv.window, inv.cwnd_le, inv.ring.push room _ fun _ =>
          ⟨_, rfl, rfl, reliable_flag hdr.flags, stored⟩⟩

theorem recv (inv : SendInv ctx) (incoming : Except String (String × List Byte)) (now : Int) :
    SendInv (ctx.recv incoming now).2.1 := by
  obtain ⟨recvBase, recvWindow, result⟩ := ctx.recv_eq_with incoming now
  rw [result]
  exact ⟨inv.window, inv.cwnd_le, inv.ring⟩

theorem updateRtt (inv : SendInv ctx) (rtt : BitVec 32) : SendInv (ctx.updateRtt rtt) :=
  ⟨inv.window, inv.cwnd_le, inv.ring⟩

theorem updateCongestionWindow (inv : SendInv ctx) : SendInv ctx.updateCongestionWindow := by
  rw [ReliableContext.updateCongestionWindow_eq_with]
  exact ⟨inv.window, ctx.updateCongestionWindow_cwnd_le, inv.ring⟩

theorem advanceSendBase (inv : SendInv ctx) (fuel : Nat) :
    SendInv (ctx.advanceSendBase fuel) := by
  induction fuel generalizing ctx with
  | zero => exact inv
  | succ fuel ih =>
    unfold ReliableContext.advanceSendBase
    split
    next ahead => exact ih ⟨inv.window, inv.cwnd_le, inv.ring.pop (BitVec.ne_of_lt ahead.1).symm⟩
    next => exact inv

theorem processAck (inv : SendInv ctx) (ackSeq : BitVec 32) (now : Int) :
    SendInv (ctx.processAck ackSeq now).1 := by
  unfold ReliableContext.processAck
  dsimp only
  split
  · exact inv
  split
  · exact inv
  next idle =>
  have busy : (ctx.sendWindow (getWindowIndex ackSeq)).state ≠ .empty := fun empty => idle (.inl empty)
  split
  · have counted : SendInv { ctx with dupAckCount := ctx.dupAckCount + 1 } :=
      ⟨inv.window, inv.cwnd_le, inv.ring⟩
    split
    · exact counted.restate _ _ busy
    · exact counted
  · refine (SendInv.updateCongestionWindow ?_).advanceSendBase 32
    have fresh : SendInv { ctx with dupAckCount := 0, lastAckSeq := ackSeq } :=
      ⟨inv.window, inv.cwnd_le, inv.ring⟩
    split
    · exact (fresh.updateRtt _).restate _ _ busy
    · exact fresh.restate _ _ busy

theorem retransmitSlot (inv : SendInv ctx) (idx : Fin 32) (now : Int)
    (busy : (ctx.sendWindow idx).state ≠ .empty) : SendInv (ctx.retransmitSlot idx now) :=
  ⟨inv.window, show initialCwnd.toNat ≤ 32 by decide,
    inv.ring.retag idx _ (fun _ => busy) fun _ carries => carries⟩

theorem timeoutLoop (now : Int) (writeErr : Nat → Option String) (offsets : List Nat)
    (inv : SendInv ctx) (retransmitted : Nat) (written : List (List Byte)) :
    SendInv (ReliableContext.timeoutLoop now writeErr offsets ctx retransmitted written).2.1 :=
  ReliableContext.timeoutLoop_invariant SendInv now writeErr
    (fun _ j state inv busy => inv.restate j state busy)
    (fun _ j inv busy => inv.retransmitSlot j now busy) offsets inv retransmitted written

theorem processTimeouts (inv : SendInv ctx) (now : Int) (writeErr : Nat → Option String) :
    SendInv (ctx.processTimeouts now writeErr).2.1 :=
  inv.timeoutLoop now writeErr _ 0 []

end SendInv

theorem sendInv_of_reachable {ctx : ReliableContext} (reach : Reachable ctx) : SendInv ctx := by
  induction reach with
  | init addr => exact sendInv_newReliableContext addr
  | step op _ inv =>
    cases op with
    | send hdr payload now writeErr => exact inv.send hdr payload now writeErr
    | recv incoming now => exact inv.recv incoming now
    | processAck ackSeq now => exact inv.processAck ackSeq now
    | processTimeouts now writeErr => exact inv.processTimeouts now writeErr

/-! ## The ring of a reachable context -/

/-- The send ring of every reachable context: at most 32 packets outstanding, every slot that is
not the slot of one of them EMPTY, and every busy slot of an outstanding packet carrying it. So
the slot `ProcessACK(ackSeq)` acts on (`ackSeq` in the send window, the slot busy) and the slot
the scan of `ProcessTimeouts` acts on at offset `i` carry that very sequence number. -/
theorem reachable_send_ring {ctx : ReliableContext} (reach : Reachable ctx) :
    (ctx.nextSeq - ctx.sendBase).toNat ≤ 32 ∧
    (∀ j, (∀ q, Outstanding ctx.sendBase ctx.nextSeq q → getWindowIndex q ≠ j) →
      (ctx.sendWindow j).state = .empty) ∧
    (∀ q, Outstanding ctx.sendBase ctx.nextSeq q →
      (ctx.sendWindow (getWindowIndex q)).state ≠ .empty →
      (ctx.sendWindow (getWindowIndex q)).Carries q) ∧
    (∀ ackSeq, ctx.isInSendWindow ackSeq = true →
      (ctx.sendWindow (getWindowIndex ackSeq)).state ≠ .empty →
      Outstanding ctx.sendBase ctx.nextSeq ackSeq ∧
        (ctx.sendWindow (getWindowIndex ackSeq)).Carries ackSeq) ∧
    (∀ i < ctx.windowSize.toNat, let seq := ctx.sendBase + BitVec.ofNat 32 i;
      (ctx.sendWindow (getWindowIndex seq)).state ≠ .empty →
      Outstanding ctx.sendBase ctx.nextSeq seq ∧ (ctx.sendWindow (getWindowIndex seq)).Carries seq) := by
  have inv := sendInv_of_reachable reach
  refine ⟨inv.ring.bounded, inv.ring.outside, inv.ring.inside, fun ackSeq inw busy => ?_,
    fun i lt busy => ?_⟩
  · rw [ReliableContext.isInSendWindow, inv.window, inWindow_iff] at inw
    exact inv.ring.busy inw busy
  · rw [inv.window] at lt
    have near : (ctx.sendBase + BitVec.ofNat 32 i - ctx.sendBase).toNat < 32 := by
      rw [BitVec.add_comm, BitVec.add_sub_cancel, BitVec.toNat_ofNat]
      exact Nat.lt_of_le_of_lt (Nat.mod_le _ _) lt
    exact inv.ring.busy near busy

/-- After the first `Send` the slot of sequence number 0 carries it. -/
theorem reachable_send_ring_first_send :
    let ctx := (Op.send (newPacketHeader 0) [] 0 none).apply (newReliableContext "peer")
    Reachable ctx ∧ (ctx.sendWindow (getWindowIndex 0)).Carries 0 :=
  have reach := Reachable.step (.send (newPacketHeader 0) [] 0 none) (.init "peer")
  ⟨reach, (reachable_send_ring reach).2.2.1 0 (by decide) (by decide)⟩

end OverProto
