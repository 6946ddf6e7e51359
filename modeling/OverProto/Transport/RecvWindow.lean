import OverProto.Core.Codec
import OverProto.Transport.ReliableCalls

/-!
# The receive window

`Recv` of `transport/udp_mtu_linux.go` keeps the receive side of a reliable context as a 32-bit
`recvBase` and a ring of 32 bits, `recvWindow`, one per sequence number of the window. Read
against an unbounded base, this is a `Receiver`: the next number it waits for and the set of
numbers past it already received. Delivering the awaited number slides the base over every
received number after it; `Receiver.Inv` says that the numbers delivered so far are, without
repetition, those below the base and those marked in the window.

`viewOf` reads a context as a `Receiver`. Marking a number in the ring, and advancing when it is
`recvBase`, is `Receiver.deliver` under that reading (`deliver_viewOf`), so every `Recv` call is a
step of the `Receiver` or no step at all (`recv_cases` lists what a call can do), and a whole run
of calls (`recvRun`) keeps `Receiver.Inv` (`RecvInv.run`).

The last section is about the acknowledgement `Recv` sends for each reliable packet. Since the
acknowledgement `sendACK` writes carries `FlagReliable` itself, `Recv` on the other side takes it
for data: it answers it with an acknowledgement of its own and advances its receive window past
the acknowledged number.
-/

namespace OverProto

/-- The receive side of a reliable peer, over unbounded sequence numbers: the number it waits
for, and which numbers past it (by their offset) it already received. -/
structure Receiver where
  base : Nat
  got : Nat → Bool

namespace Receiver

/-- Advance the base over received numbers, at most `fuel` of them. -/
def slide : Nat → Receiver → Receiver
  | 0, r => r
  | fuel + 1, r => if r.got 0 then slide fuel ⟨r.base + 1, fun k => r.got (k + 1)⟩ else r

/-- Receive the number at offset `k`, and slide the window when it is the awaited one. -/
def deliver (r : Receiver) (k : Nat) : Receiver :=
  let r := { r with got := Function.update r.got k true }
  if k = 0 then r.slide 32 else r

/-! ## The receiver delivers every number once -/

/-- The numbers `delivered` since `start` are, without repetition, those below the base and
those marked in the window of 32. -/
structure Holds (start : Nat) (r : Receiver) (delivered : List Nat) : Prop where
  nodup : delivered.Nodup
  mem : ∀ n, n ∈ delivered ↔ (start ≤ n ∧ n < r.base) ∨ ∃ k < 32, n = r.base + k ∧ r.got k = true
  beyond : ∀ k, 32 ≤ k → r.got k = false
  started : start ≤ r.base

variable {start : Nat} {r : Receiver} {delivered : List Nat}

theorem Holds.shift (holds : Holds start r delivered) (first : r.got 0 = true) :
    Holds start ⟨r.base + 1, fun k => r.got (k + 1)⟩ delivered := by
  refine ⟨holds.nodup, fun n => ?_, fun k far => holds.beyond _ (by omega), by
    have := holds.started; dsimp only; omega⟩
  rw [holds.mem]
  constructor
  · rintro (⟨low, high⟩ | ⟨k, small, rfl, set⟩)
    · exact .inl ⟨low, by dsimp only; omega⟩
    · rcases k with _ | k
      · exact .inl ⟨holds.started, by dsimp only; omega⟩
      · exact .inr ⟨k, by omega, by dsimp only; omega, set⟩
  · rintro (⟨low, high⟩ | ⟨k, small, rfl, set⟩)
    · by_cases at_base : n = r.base
      · exact .inr ⟨0, by omega, by omega, first⟩
      · exact .inl ⟨low, by dsimp only at high; omega⟩
    · by_cases last : k + 1 = 32
      · rw [holds.beyond _ (by omega)] at set
        exact absurd set (by decide)
      · exact .inr ⟨k + 1, by omega, by dsimp only; omega, set⟩

theorem Holds.slide (holds : Holds start r delivered) (fuel : Nat) :
    Holds start (r.slide fuel) delivered := by
  induction fuel generalizing r with
  | zero => exact holds
  | succ fuel ih =>
    unfold Receiver.slide
    split
    next first => exact ih (holds.shift first)
    next => exact holds

theorem slide_got_zero (r : Receiver) (fuel j : Nat) (within : j ≤ fuel) (gap : r.got j = false) :
    (r.slide fuel).got 0 = false := by
  induction fuel generalizing r j with
  | zero =>
    obtain rfl : j = 0 := by omega
    exact gap
  | succ fuel ih =>
    unfold Receiver.slide
    split
    next first =>
      rcases j with _ | j
      · rw [gap] at first; exact absurd first (by decide)
      · exact ih _ j (by omega) gap
    next stop => simpa using stop

/-- `Holds`, with the awaited number not yet received. -/
structure Inv (start : Nat) (r : Receiver) (delivered : List Nat) extends
    Holds start r delivered : Prop where
  expecting : r.got 0 = false

theorem Inv.deliver (inv : Inv start r delivered) {k : Nat} (small : k < 32)
    (fresh : r.got k = false) : Inv start (r.deliver k) (delivered ++ [r.base + k]) := by
  have added : Holds start { r with got := Function.update r.got k true }
      (delivered ++ [r.base + k]) := by
    refine ⟨?_, fun n => ?_, fun j far => ?_, inv.started⟩
    · refine List.nodup_append.mpr ⟨inv.nodup, List.nodup_singleton _, ?_⟩
      intro n hn same
      rw [List.mem_singleton] at same
      subst same
      rcases (inv.mem _).mp hn with ⟨_, high⟩ | ⟨j, _, same, set⟩
      · omega
      · obtain rfl : j = k := by omega
        rw [fresh] at set
        exact absurd set (by decide)
    · simp only [List.mem_append, List.mem_singleton, inv.mem]
      constructor
      · rintro ((low | ⟨j, small', rfl, set⟩) | rfl)
        · exact .inl low
        · refine .inr ⟨j, small', rfl, ?_⟩
          by_cases here : j = k
          · subst here; simp
          · simpa [Function.update_noteq here] using set
        · exact .inr ⟨k, small, rfl, by simp⟩
      · rintro (low | ⟨j, small', rfl, set⟩)
        · exact .inl (.inl low)
        · by_cases here : j = k
          · exact .inr (by rw [here])
          · exact .inl (.inr ⟨j, small', rfl, by simpa [Function.update_noteq here] using set⟩)
    · have : j ≠ k := by omega
      simpa [Function.update_noteq this] using inv.beyond j far
  unfold Receiver.deliver
  dsimp only
  split
  next first =>
    subst first
    exact ⟨added.slide 32, slide_got_zero _ 32 32 (le_refl _) (added.beyond 32 (le_refl _))⟩
  next later =>
    exact ⟨added, by simpa [Function.update_noteq (Ne.symm later)] using inv.expecting⟩

end Receiver

/-! ## The receive window as a receiver -/

/-- The receive window of `recvBase` and `recvWindow`, read from the unbounded `base`. -/
def viewOf (base : Nat) (recvBase : BitVec 32) (recvWindow : Fin 32 → Bool) : Receiver :=
  ⟨base, fun k => decide (k < 32) && recvWindow (getWindowIndex (recvBase + BitVec.ofNat 32 k))⟩

theorem offset_toNat (recvBase : BitVec 32) {k : Nat} (small : k ≤ 32) :
    (recvBase + BitVec.ofNat 32 k - recvBase).toNat = k := by
  rw [BitVec.add_comm, BitVec.add_sub_cancel, BitVec.toNat_ofNat]
  omega

theorem getWindowIndex_offset (recvBase : BitVec 32) (k : Nat) :
    (getWindowIndex (recvBase + BitVec.ofNat 32 k)).val = (recvBase.toNat + k) % 32 := by
  simp only [getWindowIndex_val, BitVec.toNat_add, BitVec.toNat_ofNat]
  omega

theorem viewOf_shift (base : Nat) (recvBase : BitVec 32) (recvWindow : Fin 32 → Bool) :
    (⟨base + 1, fun k => (viewOf base recvBase recvWindow).got (k + 1)⟩ : Receiver) =
      viewOf (base + 1) (recvBase + 1)
        (Function.update recvWindow (getWindowIndex recvBase) false) := by
  simp only [viewOf, Receiver.mk.injEq, true_and]
  funext k
  have shifted : recvBase + 1 + BitVec.ofNat 32 k = recvBase + BitVec.ofNat 32 (k + 1) := by
    apply BitVec.eq_of_toNat_eq
    simp [BitVec.toNat_add]
    omega
  rw [shifted]
  by_cases small : k + 1 < 32
  · have ne : getWindowIndex (recvBase + BitVec.ofNat 32 (k + 1)) ≠ getWindowIndex recvBase := by
      intro same
      have := congrArg Fin.val same
      rw [getWindowIndex_offset, getWindowIndex_val] at this
      omega
    simp [Function.update_noteq ne, small, show k < 32 by omega]
  · by_cases last : k = 31
    · subst last
      have round : getWindowIndex (recvBase + BitVec.ofNat 32 (31 + 1)) = getWindowIndex recvBase :=
        Fin.ext (by rw [getWindowIndex_offset, getWindowIndex_val]; omega)
      rw [round, Function.update_same]
      simp
    · simp [show ¬ k < 32 by omega, small]

theorem getWindowIndex_offset_inj (recvBase : BitVec 32) {j k : Nat} (hj : j < 32) (hk : k < 32)
    (same : getWindowIndex (recvBase + BitVec.ofNat 32 j) =
      getWindowIndex (recvBase + BitVec.ofNat 32 k)) : j = k := by
  have := congrArg Fin.val same
  rw [getWindowIndex_offset, getWindowIndex_offset] at this
  omega

theorem viewOf_update (base : Nat) (recvBase : BitVec 32) (recvWindow : Fin 32 → Bool) {k : Nat}
    (small : k < 32) :
    viewOf base recvBase
        (Function.update recvWindow (getWindowIndex (recvBase + BitVec.ofNat 32 k)) true) =
      { viewOf base recvBase recvWindow with
        got := Function.update (viewOf base recvBase recvWindow).got k true } := by
  simp only [viewOf, Receiver.mk.injEq, true_and]
  funext j
  by_cases here : j = k
  · subst here
    simp [small]
  · by_cases within : j < 32
    · have ne := fun same => here (getWindowIndex_offset_inj recvBase within small same)
      simp [Function.update_noteq ne, Function.update_noteq here]
    · simp [within, Function.update_noteq here]

/-- The advance of `Recv` is the slide of the receiver it is read as. -/
theorem slide_viewOf (fuel base : Nat) (recvBase : BitVec 32) (recvWindow : Fin 32 → Bool) :
    ∃ m ≤ fuel, (advanceRecvBase fuel recvBase recvWindow).1 = recvBase + BitVec.ofNat 32 m ∧
      (viewOf base recvBase recvWindow).slide fuel =
        viewOf (base + m) (advanceRecvBase fuel recvBase recvWindow).1
          (advanceRecvBase fuel recvBase recvWindow).2 := by
  induction fuel generalizing base recvBase recvWindow with
  | zero => exact ⟨0, le_refl _, by simp [advanceRecvBase], rfl⟩
  | succ fuel ih =>
    unfold advanceRecvBase Receiver.slide
    by_cases set : recvWindow (getWindowIndex recvBase) = true
    · have first : (viewOf base recvBase recvWindow).got 0 = true := by simpa [viewOf] using set
      rw [if_pos set, if_pos first, show (viewOf base recvBase recvWindow).base = base from rfl,
        viewOf_shift]
      obtain ⟨m, within, moved, slid⟩ := ih (base + 1) (recvBase + 1)
        (Function.update recvWindow (getWindowIndex recvBase) false)
      refine ⟨m + 1, by omega, ?_, ?_⟩
      · rw [moved]
        apply BitVec.eq_of_toNat_eq
        simp [BitVec.toNat_add]
        omega
      · rw [slid, Nat.add_right_comm, Nat.add_assoc]
    · have first : (viewOf base recvBase recvWindow).got 0 = false := by simpa [viewOf] using set
      rw [if_neg set, if_neg (by simp [first])]
      exact ⟨0, by omega, by simp, rfl⟩

/-- Marking offset `k` of the window, and advancing when it is `recvBase`, is `deliver k` on the
receiver it is read as, whose base moves with `recvBase`. -/
theorem deliver_viewOf (base : Nat) (recvBase : BitVec 32) (recvWindow : Fin 32 → Bool) {k : Nat}
    (small : k < 32) :
    let marked := Function.update recvWindow (getWindowIndex (recvBase + BitVec.ofNat 32 k)) true
    let slid := if recvBase + BitVec.ofNat 32 k = recvBase then advanceRecvBase 32 recvBase marked
      else (recvBase, marked)
    (viewOf base recvBase recvWindow).deliver k =
      viewOf (base + (slid.1 - recvBase).toNat) slid.1 slid.2 := by
  dsimp only [Receiver.deliver]
  rw [← viewOf_update base recvBase recvWindow small]
  by_cases first : k = 0
  · subst first
    obtain ⟨m, within, moved, slid⟩ := slide_viewOf 32 base recvBase
      (Function.update recvWindow (getWindowIndex (recvBase + BitVec.ofNat 32 0)) true)
    rw [if_pos rfl, if_pos (by simp), slid, moved, offset_toNat _ within]
  · have elsewhere : recvBase + BitVec.ofNat 32 k ≠ recvBase := fun same => by
      have := congrArg BitVec.toNat same
      simp [BitVec.toNat_add] at this
      omega
    rw [if_neg first, if_neg elsewhere, BitVec.sub_self, BitVec.toNat_ofNat, Nat.zero_mod,
      Nat.add_zero]

/-- An unbounded base that reads as `recvBase` mod 2^32 reads as `s` once moved by `s - recvBase`. -/
theorem lifted_add {base : Nat} {recvBase : BitVec 32} (lifted : base % 2 ^ 32 = recvBase.toNat)
    (s : BitVec 32) : (base + (s - recvBase).toNat) % 2 ^ 32 = s.toNat := by
  rw [BitVec.toNat_sub]
  omega

/-! ## Runs of Recv -/

/-- What one `Recv` does to the receive side: nothing, returning no reliable packet, or it
delivers a reliable packet in the window not delivered before, marks it, and slides the window
when it is the packet at `recvBase`. -/
theorem recv_cases (ctx : ReliableContext) (incoming : Except String (String × List Byte))
    (now : Int) (window : ctx.windowSize = 32) :
    ((ctx.recv incoming now).2.1 = ctx ∧ ∀ hdr payload,
      (ctx.recv incoming now).1 = .ok (hdr, payload) → hdr.flags &&& flagReliable = 0) ∨
    ∃ hdr payload, (ctx.recv incoming now).1 = .ok (hdr, payload) ∧
      hdr.flags &&& flagReliable ≠ 0 ∧ (hdr.seq - ctx.recvBase).toNat < 32 ∧
      ctx.recvWindow (getWindowIndex hdr.seq) = false ∧
      (ctx.recv incoming now).2.1 =
        let recvWindow := Function.update ctx.recvWindow (getWindowIndex hdr.seq) true
        let slid := if hdr.seq = ctx.recvBase then advanceRecvBase 32 ctx.recvBase recvWindow
          else (ctx.recvBase, recvWindow)
        { ctx with recvBase := slid.1, recvWindow := slid.2 } := by
  unfold ReliableContext.recv
  split
  · exact .inl ⟨rfl, by simp⟩
  next hdr payload addr decoded =>
  by_cases wrong : addr ≠ ctx.addr
  · rw [if_pos wrong]
    exact .inl ⟨rfl, by simp⟩
  rw [if_neg wrong]
  by_cases unreliable : hdr.flags &&& flagReliable = 0
  · rw [if_pos unreliable]
    refine .inl ⟨rfl, fun _ _ same => ?_⟩
    cases same
    exact unreliable
  rw [if_neg unreliable]
  by_cases outside : ctx.isInRecvWindow hdr.seq = true
  swap
  · rw [if_pos outside]
    exact .inl ⟨rfl, by simp⟩
  rw [if_neg (not_not.mpr outside)]
  by_cases dup : ctx.recvWindow (getWindowIndex hdr.seq) = true
  · rw [if_pos dup]
    exact .inl ⟨rfl, by simp⟩
  rw [if_neg dup]
  rw [ReliableContext.isInRecvWindow, window, inWindow_iff] at outside
  exact .inr ⟨hdr, payload, rfl, unreliable, outside, by simpa using dup, by split <;> rfl⟩

/-- The unbounded sequence number of the packet `Recv` returned, if reliable, read from the
unbounded receive base `base`. -/
def deliveredSeq (ctx : ReliableContext) (base : Nat) :
    Except String (PacketHeader × List Byte) → List Nat
  | .ok (hdr, _) => if hdr.flags &&& flagReliable = 0 then [] else [base + (hdr.seq - ctx.recvBase).toNat]
  | .error _ => []

/-- A run of `Recv` calls from `ctx`, with the unbounded receive base `base` carried alongside:
the context after, the unbounded base after, and the unbounded sequence numbers of the reliable
packets returned, in order. -/
def recvRun : ReliableContext → Nat → List (Except String (String × List Byte) × Int) →
    ReliableContext × Nat × List Nat
  | ctx, base, [] => (ctx, base, [])
  | ctx, base, (incoming, now) :: rest =>
    let next := (ctx.recv incoming now).2.1
    let later := recvRun next (base + (next.recvBase - ctx.recvBase).toNat) rest
    (later.1, later.2.1, deliveredSeq ctx base (ctx.recv incoming now).1 ++ later.2.2)

/-- The receive side read from the unbounded base `base`. -/
def ReliableContext.view (ctx : ReliableContext) (base : Nat) : Receiver :=
  viewOf base ctx.recvBase ctx.recvWindow

/-- The receive side of `ctx`, read from the unbounded `base`, after delivering `delivered`
since the unbounded base `start`. -/
structure RecvInv (start base : Nat) (ctx : ReliableContext) (delivered : List Nat) : Prop where
  window : ctx.windowSize = 32
  lifted : base % 2 ^ 32 = ctx.recvBase.toNat
  receiver : Receiver.Inv start (ctx.view base) delivered

theorem RecvInv.recv {start base : Nat} {ctx : ReliableContext} {delivered : List Nat}
    (inv : RecvInv start base ctx delivered) (incoming : Except String (String × List Byte))
    (now : Int) :
    let next := (ctx.recv incoming now).2.1
    RecvInv start (base + (next.recvBase - ctx.recvBase).toNat) next
      (delivered ++ deliveredSeq ctx base (ctx.recv incoming now).1) := by
  rcases recv_cases ctx incoming now inv.window with
    ⟨same, unreliable⟩ | ⟨hdr, payload, result, reliable, near, fresh, stepped⟩
  · have nothing : deliveredSeq ctx base (ctx.recv incoming now).1 = [] := by
      rcases h : (ctx.recv incoming now).1 with err | ⟨hdr, payload⟩
      · rfl
      · simp [deliveredSeq, unreliable hdr payload h]
    dsimp only
    rw [same, nothing, List.append_nil]
    simpa using inv
  · dsimp only
    rw [result, stepped]
    simp only [deliveredSeq, if_neg reliable]
    generalize k_def : (hdr.seq - ctx.recvBase).toNat = k at near ⊢
    have seq_eq : hdr.seq = ctx.recvBase + BitVec.ofNat 32 k := by
      rw [← k_def, BitVec.ofNat_toNat, BitVec.setWidth_eq, BitVec.add_comm, BitVec.sub_add_cancel]
    rw [seq_eq] at fresh ⊢
    refine ⟨inv.window, lifted_add inv.lifted _, ?_⟩
    rw [ReliableContext.view, ← deliver_viewOf base ctx.recvBase ctx.recvWindow near]
    exact inv.receiver.deliver near (by simp [ReliableContext.view, viewOf, near, fresh])

theorem RecvInv.run {start base : Nat} {ctx : ReliableContext} {delivered : List Nat}
    (inv : RecvInv start base ctx delivered) (run : List (Except String (String × List Byte) × Int)) :
    let after := recvRun ctx base run
    RecvInv start after.2.1 after.1 (delivered ++ after.2.2) := by
  induction run generalizing base ctx delivered with
  | nil => simpa [recvRun] using inv
  | cons call rest ih =>
    obtain ⟨incoming, now⟩ := call
    simpa [recvRun, List.append_assoc] using ih (inv.recv incoming now)

theorem recvInv_empty (ctx : ReliableContext) (window : ctx.windowSize = 32)
    (empty : ∀ j, ctx.recvWindow j = false) :
    RecvInv ctx.recvBase.toNat ctx.recvBase.toNat ctx [] where
  window := window
  lifted := Nat.mod_eq_of_lt ctx.recvBase.isLt
  receiver :=
    { nodup := List.nodup_nil
      mem := fun n => by simp [ReliableContext.view, viewOf, empty]
      beyond := fun k far => by simp [ReliableContext.view, viewOf]; omega
      started := le_refl _
      expecting := by simp [ReliableContext.view, viewOf, empty] }

/-- Over any run of `Recv` calls from a context with an empty receive window, reading each
returned reliable packet's sequence number as the unbounded integer in the window at the time of
the call: no packet is returned twice, the packets returned are those from the first `recvBase`
up to the current one and those in the window whose bit is set, and the bit of `recvBase` is
clear. -/
theorem recvRun_delivers_once (ctx : ReliableContext)
    (run : List (Except String (String × List Byte) × Int)) (window : ctx.windowSize = 32)
    (empty : ∀ j, ctx.recvWindow j = false) :
    let after := recvRun ctx ctx.recvBase.toNat run
    after.2.2.Nodup ∧
      (∀ n, n ∈ after.2.2 ↔ (ctx.recvBase.toNat ≤ n ∧ n < after.2.1) ∨
        ∃ k < 32, n = after.2.1 + k ∧
          after.1.recvWindow (getWindowIndex (after.1.recvBase + BitVec.ofNat 32 k)) = true) ∧
      after.1.recvWindow (getWindowIndex after.1.recvBase) = false ∧
      after.2.1 % 2 ^ 32 = after.1.recvBase.toNat := by
  have final := (recvInv_empty ctx window empty).run run
  simp only [List.nil_append] at final
  refine ⟨final.receiver.nodup, fun n => ?_, ?_, final.lifted⟩
  · rw [final.receiver.mem]
    simp only [ReliableContext.view, viewOf, Bool.and_eq_true, decide_eq_true_eq]
    constructor
    · rintro (low | ⟨k, small, rfl, -, set⟩)
      · exact .inl low
      · exact .inr ⟨k, small, rfl, set⟩
    · rintro (low | ⟨k, small, rfl, set⟩)
      · exact .inl low
      · exact .inr ⟨k, small, rfl, small, set⟩
  · simpa [ReliableContext.view, viewOf] using final.receiver.expecting

theorem recvRun_delivers_once_reordered :
    let ctx := newReliableContext "peer"
    let packet := fun seq : BitVec 32 =>
      (Except.ok ("peer", frame { newPacketHeader 0 with flags := flagReliable, seq } []), (0 : Int))
    let after := recvRun ctx ctx.recvBase.toNat [packet 1, packet 1, packet 0]
    after.2.2.Nodup ∧
      (∀ n, n ∈ after.2.2 ↔ (ctx.recvBase.toNat ≤ n ∧ n < after.2.1) ∨
        ∃ k < 32, n = after.2.1 + k ∧
          after.1.recvWindow (getWindowIndex (after.1.recvBase + BitVec.ofNat 32 k)) = true) ∧
      after.1.recvWindow (getWindowIndex after.1.recvBase) = false ∧
      after.2.1 % 2 ^ 32 = after.1.recvBase.toNat :=
  recvRun_delivers_once _ _ rfl fun _ => rfl

/-- `Recv` returns a packet as soon as it is in the window, not in order: the duplicate is
dropped, and packet 0 then slides the window past 1. -/
example :
    let packet := fun seq : BitVec 32 =>
      (Except.ok ("peer", frame { newPacketHeader 0 with flags := flagReliable, seq } []), (0 : Int))
    let after := recvRun (newReliableContext "peer") 0 [packet 1, packet 1, packet 0]
    after.2.2 = [1, 0] ∧ after.2.1 = 2 := by
  set_option maxRecDepth 20000 in decide

/-! ## Acknowledgements are taken for data -/

/-- `Recv` answers every reliable datagram from the peer with an acknowledgement of its
sequence number, whatever else it does. -/
theorem recv_acks_reliable (ctx : ReliableContext) {datagram : List Byte} {hdr : PacketHeader}
    {payload : List Byte} (now : Int) (fits : datagram.length ≤ udpRecvBufferSize)
    (decoded : deserialize datagram = .ok (hdr, payload)) (reliable : hdr.flags &&& flagReliable ≠ 0) :
    (ctx.recv (.ok (ctx.addr, datagram)) now).2.2 = ReliableContext.sendAck hdr.seq now := by
  rw [← List.take_of_length_le fits] at decoded
  simp only [ReliableContext.recv, udpRecv_ok decoded, ne_eq, not_true_eq_false, if_false, reliable]
  split_ifs <;> rfl

/-- `sendACK` writes the frame of its header with no payload. -/
theorem sendAck_eq (ackSeq : BitVec 32) (now : Int) :
    ReliableContext.sendAck ackSeq now = [frame { newPacketHeader (now / 1000) with
      opcode := opAck, flags := flagAck ||| flagReliable, seq := ackSeq } []] := by
  rw [ReliableContext.sendAck, serialize_eq_ok _ (by simp)]

/-- The acknowledgement `sendACK` writes reads back as a reliable packet of sequence number
`ackSeq`. -/
theorem deserialize_sendAck (ackSeq : BitVec 32) (now : Int) :
    ∃ datagram hdr, ReliableContext.sendAck ackSeq now = [datagram] ∧
      datagram.length ≤ udpRecvBufferSize ∧ deserialize datagram = .ok (hdr, []) ∧
      hdr.seq = ackSeq ∧ hdr.flags &&& flagReliable ≠ 0 :=
  ⟨_, _, sendAck_eq ackSeq now, by simp [udpRecvBufferSize], deserialize_frame _ [] ⟨rfl, rfl⟩ rfl,
    rfl, show (flagAck ||| flagReliable) &&& flagReliable ≠ 0 by decide⟩

theorem recv_answers_ack :
    (∀ (ctx : ReliableContext) (ackSeq : BitVec 32) (sentAt now : Int),
      ∃ datagram, ReliableContext.sendAck ackSeq sentAt = [datagram] ∧
        (ctx.recv (.ok (ctx.addr, datagram)) now).2.2 = ReliableContext.sendAck ackSeq now) ∧
    (let ctx := newReliableContext "peer"
     let acked := (ctx.recv (.ok ("peer", (ReliableContext.sendAck 0 0).headD [])) 0).2.1
     let data := frame { newPacketHeader 0 with flags := flagReliable } []
     acked.recvBase = 1 ∧
       (acked.recv (.ok ("peer", data)) 0).1 = .error "sequence number out of receive window") := by
  refine ⟨fun ctx ackSeq sentAt now => ?_, ?_⟩
  · obtain ⟨datagram, hdr, sent, fits, decoded, seq, reliable⟩ := deserialize_sendAck ackSeq sentAt
    exact ⟨datagram, sent, by rw [recv_acks_reliable ctx now fits decoded reliable, seq]⟩
  · set_option maxRecDepth 20000 in decide

end OverProto
