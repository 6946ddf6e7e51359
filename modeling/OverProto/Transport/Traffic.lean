import OverProto.Transport.Link

/-!
# How often a packet goes onto the network

Every datagram the sender of a `Link` writes stays in `toReceiver`, so the `copies` there of the
frame of the packet stamped with `i` count how often the sender wrote it. `Send` writes it once,
the scan of `ProcessTimeouts` once for each retry, and `ProcessACK` once more for a fast
retransmission, which needs the slot SENT and leaves it RETRANSMIT. The slot holding the packet
says how many writes it allows: its `budget`, one while SENT and two after, plus its
`RetryCount`.

`TrafficRing` says that each outstanding packet has no more copies than its slot's budget, that
no `RetryCount` passes `MaxRetries`, and that a released packet has at most `MaxRetries + 2`.
Each call pays for what it writes out of the budgets of the slots it resends
(`timeoutLoop_charges` for the scan), so every run of the link keeps the ring, and no packet is
written more than `MaxRetries + 2` times, however the network behaves (`link_writes_bounded`).
-/

namespace OverProto

/-! ## Copies and budgets -/

section Copies

variable {log : List (PacketHeader × List Byte)}

/-- The copies of the frame of the packet at index `i` of the log among the datagrams `wire`. -/
def copies (log : List (PacketHeader × List Byte)) (wire : List (List Byte)) (i : Nat) : Nat :=
  match log[i]? with
  | some (hdr, payload) => wire.count (frame hdr payload)
  | none => 0

theorem copies_of_found {i : Nat} {hdr : PacketHeader} {payload : List Byte}
    (found : log[i]? = some (hdr, payload)) (wire : List (List Byte)) :
    copies log wire i = wire.count (frame hdr payload) := by
  simp only [copies, found]

theorem copies_append (wire more : List (List Byte)) (i : Nat) :
    copies log (wire ++ more) i = copies log wire i + copies log more i := by
  unfold copies
  split <;> simp [List.count_append]

@[simp] theorem copies_nil (i : Nat) : copies log [] i = 0 := by
  unfold copies
  split <;> rfl

theorem copies_le_length (wire : List (List Byte)) (i : Nat) : copies log wire i ≤ wire.length := by
  unfold copies
  split
  · exact List.count_le_length _ _
  · exact Nat.zero_le _

/-- Packets added to the log later do not change the copies of an earlier one. -/
theorem copies_log_append (more : List (PacketHeader × List Byte)) (wire : List (List Byte))
    {i : Nat} (lt : i < log.length) : copies (log ++ more) wire i = copies log wire i := by
  rw [copies, copies, List.getElem?_append_left lt]

theorem exists_of_lt_length {i : Nat} (lt : i < log.length) :
    ∃ hdr payload, log[i]? = some (hdr, payload) :=
  ⟨_, _, List.getElem?_eq_getElem lt⟩

/-- Frames of packets with different sequence numbers differ. -/
theorem frame_ne_of_seq_ne {hdr hdr' : PacketHeader} (payload payload' : List Byte)
    (apart : hdr.seq ≠ hdr'.seq) : frame hdr payload ≠ frame hdr' payload' := fun same => by
  have read := congrArg (fun d => (readHeader (d.take 24)).seq) same
  simp only [readHeader_take_frame _ _ (le_refl 24)] at read
  exact apart read

/-- Packets at different indices of a log that `LogInv` numbers have different frames. -/
theorem LogInv.frame_ne (inv : LogInv log) (fits : log.length ≤ 2 ^ 32) {i k : Nat}
    {hdr hdr' : PacketHeader} {payload payload' : List Byte}
    (found : log[i]? = some (hdr, payload)) (found' : log[k]? = some (hdr', payload'))
    (apart : i ≠ k) : frame hdr payload ≠ frame hdr' payload' := by
  refine frame_ne_of_seq_ne payload payload' fun same => apart ?_
  have hi := (List.getElem?_eq_some_iff.mp found).1
  have hk := (List.getElem?_eq_some_iff.mp found').1
  rw [(inv i hdr payload found).1, (inv k hdr' payload' found').1] at same
  have := congrArg BitVec.toNat same
  rwa [BitVec.toNat_ofNat, BitVec.toNat_ofNat, Nat.mod_eq_of_lt (by omega),
    Nat.mod_eq_of_lt (by omega)] at this

/-- Frames of other packets of the log are no copies of the packet at `i`. -/
theorem LogInv.copies_eq_zero (inv : LogInv log) (fits : log.length ≤ 2 ^ 32)
    {wire : List (List Byte)} {i : Nat}
    (others : ∀ d ∈ wire, ∃ (k : Nat) (hdr : PacketHeader) (payload : List Byte), k ≠ i ∧
      log[k]? = some (hdr, payload) ∧ serialize hdr payload = .ok d) :
    copies log wire i = 0 := by
  unfold copies
  split
  next hdr payload found =>
    refine List.count_eq_zero.mpr fun mem => ?_
    obtain ⟨k, hdr', payload', apart, found', sent⟩ := others _ mem
    exact inv.frame_ne fits found' found apart (serialize_eq_ok_iff.mp sent).2.symm
  next => rfl

end Copies

/-- The writes a slot allows its packet: one for `Send`, one more once it has left SENT, and one
for each retry. -/
def WindowSlot.budget (slot : WindowSlot) : Nat :=
  (if slot.state = .sent then 1 else 2) + slot.retryCount.toNat

namespace WindowSlot

theorem budget_le {slot : WindowSlot} (retries : slot.retryCount.toNat ≤ maxRetries.toNat) :
    slot.budget ≤ maxRetries.toNat + 2 := by
  unfold budget
  split <;> omega

/-- A state other than SENT never lowers the budget, and raises it when the slot was SENT. -/
theorem budget_restate (slot : WindowSlot) {state : PacketState} (left : state ≠ .sent) :
    slot.budget + (if slot.state = .sent then 1 else 0) = { slot with state }.budget := by
  unfold budget
  dsimp only
  rw [if_neg left]
  split_ifs <;> omega

theorem budget_le_restate (slot : WindowSlot) {state : PacketState} (left : state ≠ .sent) :
    slot.budget ≤ { slot with state }.budget :=
  (Nat.le_add_right _ _).trans (slot.budget_restate left).le

/-- The resend of `ProcessTimeouts`, with retries left, keeps `RetryCount` within `MaxRetries`
and raises the budget by at least one. -/
theorem resend_retries (slot : WindowSlot) (now : Int) (left : ¬ slot.retryCount ≥ maxRetries) :
    let resent := { slot with retryCount := slot.retryCount + 1, sentAt := now, state := .retransmit }
    resent.retryCount.toNat ≤ maxRetries.toNat ∧ slot.budget + 1 ≤ resent.budget := by
  have small : slot.retryCount.toNat < maxRetries.toNat := by
    simpa only [ge_iff_le, BitVec.le_def, not_le] using left
  have step : (slot.retryCount + 1).toNat = slot.retryCount.toNat + 1 := by
    rw [BitVec.toNat_add, show (1 : BitVec 32).toNat = 1 from rfl]
    exact Nat.mod_eq_of_lt (by have : maxRetries.toNat = 5 := rfl; omega)
  unfold budget
  simp only [step, reduceCtorEq, ↓reduceIte]
  constructor
  · omega
  · split <;> omega

end WindowSlot

theorem retries_update {window : Fin 32 → WindowSlot}
    (retries : ∀ j, (window j).retryCount.toNat ≤ maxRetries.toNat) {idx : Fin 32}
    {slot : WindowSlot} (bound : slot.retryCount.toNat ≤ maxRetries.toNat) (j : Fin 32) :
    (Function.update window idx slot j).retryCount.toNat ≤ maxRetries.toNat := by
  by_cases here : j = idx
  · rw [here, Function.update_same]
    exact bound
  · rw [Function.update_noteq here]
    exact retries j

/-! ## The scan pays for its writes -/

/-- No busy slot but `J` that is not ACKED holds the datagram `d`: only `J` may resend it. -/
def SoleHolder (window : Fin 32 → WindowSlot) (J : Fin 32) (d : List Byte) : Prop :=
  ∀ j, j ≠ J → ¬ ((window j).state = .empty ∨ (window j).state = .acked) →
    (window j).serialized ≠ d

/-- A turn of the scan that gives the busy slot `idx` a new slot with its packet keeps `J` the
sole holder of `d`, and what it writes of `d` comes out of the growth of the budget of `J`. -/
theorem SoleHolder.update {window : Fin 32 → WindowSlot} {J idx : Fin 32} {d : List Byte}
    (sole : SoleHolder window J d)
    (live : ¬ ((window idx).state = .empty ∨ (window idx).state = .acked)) (slot : WindowSlot)
    (same : slot.serialized = (window idx).serialized) (sent : List (List Byte))
    (packet : ∀ x ∈ sent, x = (window idx).serialized)
    (pays : (window idx).budget + sent.length ≤ slot.budget) :
    SoleHolder (Function.update window idx slot) J d ∧
      (window J).budget + sent.count d ≤ (Function.update window idx slot J).budget := by
  constructor
  · intro j apart live'
    by_cases here : j = idx
    · subst here
      rw [Function.update_same, same]
      exact sole _ apart live
    · rw [Function.update_noteq here] at live' ⊢
      exact sole j apart live'
  · by_cases here : idx = J
    · subst here
      rw [Function.update_same]
      exact (Nat.add_le_add_left (List.count_le_length _ _) _).trans pays
    · rw [Function.update_noteq (Ne.symm here),
        List.count_eq_zero.mpr fun mem => sole idx here live (packet d mem).symm, Nat.add_zero]

namespace ReliableContext

/-- The scan gives no slot a `RetryCount` past `MaxRetries`. -/
theorem timeoutLoop_retries (now : Int) (writeErr : Nat → Option String) (offsets : List Nat)
    {ctx : ReliableContext} (retries : ∀ j, (ctx.sendWindow j).retryCount.toNat ≤ maxRetries.toNat)
    (retransmitted : Nat) (written : List (List Byte)) (j : Fin 32) :
    ((timeoutLoop now writeErr offsets ctx retransmitted written).2.1.sendWindow j).retryCount.toNat
      ≤ maxRetries.toNat :=
  timeoutLoop_induction now writeErr
    (fun a _ b _ => (∀ j, (a.sendWindow j).retryCount.toNat ≤ maxRetries.toNat) →
      ∀ j, (b.sendWindow j).retryCount.toNat ≤ maxRetries.toNat)
    (fun _ _ => id) (fun ab bc => bc ∘ ab)
    (fun _ _ j _ retries => retries_update retries (retries j))
    (fun _ _ _ _ left retries => retries_update retries (WindowSlot.resend_retries _ now left).1)
    offsets ctx retransmitted written retries j

/-- While `J` is the sole holder of `d`, every copy of `d` the scan writes comes out of the growth
of the budget of `J`. -/
theorem timeoutLoop_charges (now : Int) (writeErr : Nat → Option String) (J : Fin 32)
    (d : List Byte) (offsets : List Nat) (ctx : ReliableContext) (retransmitted : Nat)
    (written : List (List Byte)) (sole : SoleHolder ctx.sendWindow J d) :
    let out := timeoutLoop now writeErr offsets ctx retransmitted written
    out.2.2.count d + (ctx.sendWindow J).budget ≤ written.count d + (out.2.1.sendWindow J).budget :=
  (timeoutLoop_induction now writeErr
    (fun a wa b wb => SoleHolder a.sendWindow J d → SoleHolder b.sendWindow J d ∧
      wb.count d + (a.sendWindow J).budget ≤ wa.count d + (b.sendWindow J).budget)
    (fun _ _ sole => ⟨sole, le_rfl⟩)
    (fun ab bc sole =>
      have ⟨sole', first⟩ := ab sole
      have ⟨sole'', second⟩ := bc sole'
      ⟨sole'', by omega⟩)
    (fun ctx written j live sole =>
      have ⟨kept, paid⟩ := sole.update live { ctx.sendWindow j with state := .empty } rfl []
        (fun _ none => absurd none (List.not_mem_nil _))
        (WindowSlot.budget_le_restate _ (by decide))
      ⟨kept, Nat.add_le_add_left paid _⟩)
    (fun ctx written j live left sole =>
      have ⟨kept, paid⟩ := sole.update live
        { ctx.sendWindow j with
          retryCount := (ctx.sendWindow j).retryCount + 1, sentAt := now, state := .retransmit }
        rfl [(ctx.sendWindow j).serialized] (fun _ mem => List.eq_of_mem_singleton mem)
        (WindowSlot.resend_retries _ now left).2
      ⟨kept, by
        rw [List.count_append, Nat.add_assoc,
          Nat.add_comm (List.count d [(ctx.sendWindow j).serialized])]
        exact Nat.add_le_add_left paid _⟩)
    offsets ctx retransmitted written sole).2

end ReliableContext

/-- A list of values among `fr`, with at most `c` copies of each, has at most `c` elements for
each element of `fr`. -/
theorem length_le_of_count_le {α : Type} [BEq α] [LawfulBEq α] {c : Nat} :
    ∀ (fr wire : List α), (∀ d ∈ wire, d ∈ fr) → (∀ d ∈ fr, wire.count d ≤ c) →
      wire.length ≤ c * fr.length
  | [], [], _, _ => Nat.zero_le _
  | [], d :: _, among, _ => absurd (among d (List.mem_cons_self _ _)) (List.not_mem_nil _)
  | f :: fs, wire, among, each => by
    have rest := length_le_of_count_le fs (wire.filter fun a => ¬ (a == f))
      (fun d mem => by
        obtain ⟨mem, other⟩ := List.mem_filter.mp mem
        rcases List.mem_cons.mp (among d mem) with rfl | later
        · simp at other
        · exact later)
      (fun d mem => ((List.filter_sublist _).count_le d).trans (each d (List.mem_cons_of_mem _ mem)))
    have first := each f (List.mem_cons_self _ _)
    rw [List.count_eq_countP] at first
    rw [List.length_eq_countP_add_countP (fun a => a == f), List.length_cons, Nat.mul_succ]
    simp only [List.countP_eq_length_filter] at first ⊢
    omega

/-! ## The ring of budgets -/

/-- What the sender wrote of the packets of the log among the datagrams `wire`: no more copies of
an outstanding packet than the budget of its slot, at most `MaxRetries + 2` of a released one,
and no `RetryCount` past `MaxRetries`. -/
structure TrafficRing (log : List (PacketHeader × List Byte)) (wire : List (List Byte))
    (base next : BitVec 32) (window : Fin 32 → WindowSlot) : Prop where
  retries : ∀ j, (window j).retryCount.toNat ≤ maxRetries.toNat
  live : ∀ q, Outstanding base next q →
    copies log wire q.toNat ≤ (window (getWindowIndex q)).budget
  released : ∀ n < base.toNat, copies log wire n ≤ maxRetries.toNat + 2

namespace TrafficRing

variable {log : List (PacketHeader × List Byte)} {seqs : List Nat} {wire : List (List Byte)}
  {base next : BitVec 32} {window : Fin 32 → WindowSlot}

/-- A change of the window that pays for the datagrams `written`: the copies of an outstanding
packet among them come out of the growth of its slot's budget, and there are none of a released
one. -/
theorem charge (ring : TrafficRing log wire base next window) {window' : Fin 32 → WindowSlot}
    {written : List (List Byte)} (retries : ∀ j, (window' j).retryCount.toNat ≤ maxRetries.toNat)
    (paid : ∀ q, Outstanding base next q → copies log written q.toNat +
      (window (getWindowIndex q)).budget ≤ (window' (getWindowIndex q)).budget)
    (fresh : ∀ n < base.toNat, copies log written n = 0) :
    TrafficRing log (wire ++ written) base next window' := by
  refine ⟨retries, fun q hq => ?_, fun n below => ?_⟩
  · have := ring.live q hq
    have := paid q hq
    rw [copies_append]
    omega
  · rw [copies_append, fresh n below]
    exact ring.released n below

/-- A slot given a state other than SENT, as `ProcessACK` gives ACKED. -/
theorem restate (ring : TrafficRing log wire base next window) (j : Fin 32) {state : PacketState}
    (left : state ≠ .sent) :
    TrafficRing log wire base next (Function.update window j { window j with state }) := by
  refine ⟨retries_update ring.retries (ring.retries j), fun q hq => ?_, ring.released⟩
  by_cases here : getWindowIndex q = j
  · rw [here, Function.update_same]
    exact (here ▸ ring.live q hq).trans ((window j).budget_le_restate left)
  · rw [Function.update_noteq here]
    exact ring.live q hq

/-- `Send` stores at `next` the packet it adds to the log, in a slot whose budget pays for what
it writes of it. -/
theorem push (ring : TrafficRing log wire base next window) (inv : RingInv base next window)
    (order : base.toNat ≤ next.toNat) (count : next.toNat = log.length)
    (room : (next - base).toNat < 32) (pkt : PacketHeader × List Byte) (slot : WindowSlot)
    (written : List (List Byte)) (retries : slot.retryCount.toNat ≤ maxRetries.toNat)
    (unseen : copies (log ++ [pkt]) wire log.length = 0)
    (own : ∀ i < log.length, copies (log ++ [pkt]) written i = 0)
    (paid : copies (log ++ [pkt]) written log.length ≤ slot.budget) :
    TrafficRing (log ++ [pkt]) (wire ++ written) base (next + 1)
      (Function.update window (getWindowIndex next) slot) := by
  have old {i : Nat} (lt : i < log.length) :
      copies (log ++ [pkt]) (wire ++ written) i = copies log wire i := by
    rw [copies_append, own i lt, Nat.add_zero, copies_log_append _ _ lt]
  refine ⟨retries_update ring.retries retries, fun q hq => ?_, fun n below => ?_⟩
  · rcases (outstanding_succ_iff room).mp hq with before | rfl
    · have := ((outstanding_iff_of_le order).mp before).2
      rw [old (by omega), Function.update_noteq (inv.index_ne_next room before)]
      exact ring.live q before
    · rw [count, copies_append, unseen, Nat.zero_add, Function.update_same]
      exact paid
  · rw [old (by omega)]
    exact ring.released n below

/-- The advance of `ProcessACK` releases the packet at `base`, which it wrote within the budget
of its slot. -/
theorem pop (ring : TrafficRing log wire base next window) (inv : RingInv base next window)
    (ahead : base < next) :
    TrafficRing log wire (base + 1) next (Function.update window (getWindowIndex base) .cleared) := by
  have apart : next ≠ base := (BitVec.ne_of_lt ahead).symm
  have base_out : Outstanding base next base := outstanding_base apart
  refine ⟨retries_update ring.retries (Nat.zero_le _), fun q hq => ?_, fun n below => ?_⟩
  · obtain ⟨before, other⟩ := (outstanding_pop_iff apart).mp hq
    rw [Function.update_noteq (inv.index_ne_of_ne before base_out other)]
    exact ring.live q before
  · rw [toNat_succ_of_lt ahead] at below
    rcases Nat.lt_succ_iff_lt_or_eq.mp below with low | rfl
    · exact ring.released n low
    · exact (ring.live base base_out).trans (WindowSlot.budget_le (ring.retries _))

theorem advanceSendBase {ctx : ReliableContext}
    (ring : TrafficRing log wire ctx.sendBase ctx.nextSeq ctx.sendWindow) (inv : SendInv ctx)
    (fuel : Nat) :
    let after := ctx.advanceSendBase fuel
    TrafficRing log wire after.sendBase after.nextSeq after.sendWindow := by
  induction fuel generalizing ctx with
  | zero => exact ring
  | succ fuel ih =>
    unfold ReliableContext.advanceSendBase
    split
    next ahead =>
      exact ih (ring.pop inv.ring ahead.1)
        ⟨inv.window, inv.cwnd_le, inv.ring.pop (BitVec.ne_of_lt ahead.1).symm⟩
    next => exact ring

/-- No packet of the log has more than `MaxRetries + 2` copies. -/
theorem bounded (ring : TrafficRing log wire base next window)
    (logRing : LogRing log seqs base next window) (i : Nat) :
    copies log wire i ≤ maxRetries.toNat + 2 := by
  by_cases below : i < base.toNat
  · exact ring.released i below
  by_cases within : i < log.length
  · have count := logRing.count
    have small : i < 2 ^ 32 := by have := next.isLt; omega
    have hq : Outstanding base next (BitVec.ofNat 32 i) := by
      rw [outstanding_iff_of_le logRing.order, BitVec.toNat_ofNat, Nat.mod_eq_of_lt small]
      omega
    have := ring.live _ hq
    rw [BitVec.toNat_ofNat, Nat.mod_eq_of_lt small] at this
    exact this.trans (WindowSlot.budget_le (ring.retries _))
  · rw [copies, List.getElem?_eq_none (by omega)]
    exact Nat.zero_le _

/-- A wire of frames of the log carries at most `MaxRetries + 2` datagrams for each packet of the
log. -/
theorem length_le (ring : TrafficRing log wire base next window)
    (logRing : LogRing log seqs base next window) (framed : ∀ d ∈ wire, Framed log d) :
    wire.length ≤ (maxRetries.toNat + 2) * log.length := by
  have logged (d : List Byte) (mem : d ∈ wire) : d ∈ log.map fun p => frame p.1 p.2 := by
    obtain ⟨k, hdr, payload, found, sent⟩ := framed d mem
    rw [(serialize_eq_ok_iff.mp sent).2]
    exact List.mem_map.mpr ⟨(hdr, payload), List.getElem?_mem found, rfl⟩
  have each (d : List Byte) (mem : d ∈ log.map fun p => frame p.1 p.2) :
      wire.count d ≤ maxRetries.toNat + 2 := by
    obtain ⟨⟨hdr, payload⟩, found, rfl⟩ := List.mem_map.mp mem
    obtain ⟨k, found⟩ := List.getElem?_of_mem found
    rw [← copies_of_found found]
    exact ring.bounded logRing k
  simpa only [List.length_map] using length_le_of_count_le _ wire logged each

/-! ## The calls of the sender -/

variable {ctx : ReliableContext}

/-- `Send` writes the packet it stamps at most once, and the frame was not on the wire before. -/
theorem send (ring : TrafficRing log wire ctx.sendBase ctx.nextSeq ctx.sendWindow)
    (inv : SenderInv log seqs ctx) (logInv : LogInv log) (fits : log.length + 1 < 2 ^ 32)
    (framed : ∀ d ∈ wire, Framed log d) (hdr : PacketHeader) (payload : List Byte) (now : Int)
    (writeErr : Option String) :
    let out := ctx.send hdr payload now writeErr
    TrafficRing (log ++ ctx.stamp hdr payload) (wire ++ out.2.2) out.2.1.sendBase out.2.1.nextSeq
      out.2.1.sendWindow := by
  dsimp only
  by_cases full : ctx.nextSeq - ctx.sendBase ≥ ctx.availableSlots
  · rw [ReliableContext.stamp, if_pos full, List.append_nil,
      ctx.send_of_full hdr payload now writeErr full, List.append_nil]
    exact ring
  have room := ctx.outstanding_lt_of_admitted inv.window inv.cwnd_le inv.ring.bounded full
  have stamped := logInv.stamp ctx inv.logRing.count hdr payload
  rw [ReliableContext.stamp, if_neg full] at stamped ⊢
  have fits' : (log ++ [({ hdr with seq := ctx.nextSeq, flags := hdr.flags ||| flagReliable },
      payload)]).length ≤ 2 ^ 32 := by
    rw [List.length_append, List.length_singleton]
    omega
  have unseen := stamped.copies_eq_zero fits' fun d mem => by
    obtain ⟨k, hdr', payload', found, sent⟩ := framed d mem
    exact ⟨k, hdr', payload', (Nat.ne_of_lt (List.getElem?_eq_some_iff.mp found).1),
      getElem?_append_of_some found, sent⟩
  have push := ring.push inv.ring inv.logRing.order inv.logRing.count room
  rcases ctx.send_admitted hdr payload now writeErr full with ⟨-, sent, none⟩ | ⟨small, sent, written⟩
  · rw [sent, none]
    have pushed := push _ (ctx.sendWindow (getWindowIndex ctx.nextSeq)) [] (ring.retries _) unseen
      (fun _ _ => copies_nil _) ((copies_le_length _ _).trans (Nat.zero_le _))
    rwa [Function.update_eq_self] at pushed
  · rw [sent, written]
    refine push _ _ _ (Nat.zero_le _) unseen
      (fun i lt => stamped.copies_eq_zero fits' fun d mem => ?_) ((copies_le_length _ _).trans le_rfl)
    rw [List.mem_singleton.mp mem]
    exact ⟨log.length, _, payload, (Nat.ne_of_lt lt).symm, List.getElem?_concat_length _ _,
      serialize_eq_ok _ small⟩

/-- `ProcessTimeouts`, whatever its writes return, pays for every resend out of the budget of
the slot it resends. -/
theorem processTimeouts (ring : TrafficRing log wire ctx.sendBase ctx.nextSeq ctx.sendWindow)
    (inv : SenderInv log seqs ctx) (logInv : LogInv log) (fits : log.length ≤ 2 ^ 32) (now : Int)
    (writeErr : Nat → Option String) :
    let out := ctx.processTimeouts now writeErr
    TrafficRing log (wire ++ out.2.2) out.2.1.sendBase out.2.1.nextSeq out.2.1.sendWindow := by
  obtain ⟨base, next, -, sent, written, packets⟩ : ctx.Rescan []
      (ctx.processTimeouts now writeErr).2.1 (ctx.processTimeouts now writeErr).2.2 :=
    ReliableContext.timeoutLoop_rescans now writeErr _ ctx 0 []
  have held (j : Fin 32) (busy : (ctx.sendWindow j).state ≠ .empty) :=
    inv.logRing.busy_framed inv.ring busy
  dsimp only
  rw [base, next]
  refine ring.charge (ReliableContext.timeoutLoop_retries now writeErr _ ring.retries 0 [])
    (fun q hq => ?_) (fun n below => ?_)
  · have := ((outstanding_iff_of_le inv.logRing.order).mp hq).2
    obtain ⟨hdr, payload, found⟩ :=
      exists_of_lt_length (show q.toNat < log.length by rw [← inv.logRing.count]; exact this)
    rw [copies_of_found found]
    have sole : SoleHolder ctx.sendWindow (getWindowIndex q) (frame hdr payload) :=
      fun j apart live same => by
        obtain ⟨q', -, rfl, hdr', payload', found', sent'⟩ := held j fun empty => live (.inl empty)
        have other : q'.toNat ≠ q.toNat := fun e => apart (by rw [BitVec.eq_of_toNat_eq e])
        exact logInv.frame_ne fits found' found other
          ((serialize_eq_ok_iff.mp sent').2.symm.trans same)
    simpa only [List.count_nil, Nat.zero_add] using ReliableContext.timeoutLoop_charges now writeErr
      _ _ (List.range ctx.windowSize.toNat) ctx 0 [] sole
  · rw [written, List.nil_append]
    refine logInv.copies_eq_zero fits fun d mem => ?_
    obtain ⟨j, busy, rfl⟩ := packets d mem
    obtain ⟨q, hq, rfl, hdr, payload, found, sent⟩ := held j busy
    have := ((outstanding_iff_of_le inv.logRing.order).mp hq).1
    exact ⟨q.toNat, hdr, payload, by omega, found, sent⟩

/-- `ProcessACK` pays for a fast retransmission out of the budget of the SENT slot it leaves
RETRANSMIT, and an acknowledgement only releases packets. -/
theorem processAck (ring : TrafficRing log wire ctx.sendBase ctx.nextSeq ctx.sendWindow)
    (inv : SenderInv log seqs ctx) (logInv : LogInv log) (fits : log.length ≤ 2 ^ 32)
    (ackSeq : BitVec 32) (now : Int) :
    let out := ctx.processAck ackSeq now
    TrafficRing log (wire ++ out.2) out.1.sendBase out.1.nextSeq out.1.sendWindow := by
  unfold ReliableContext.processAck
  dsimp only
  split
  · simpa only [List.append_nil] using ring
  next inw =>
  split
  · simpa only [List.append_nil] using ring
  next idle =>
  have busy : (ctx.sendWindow (getWindowIndex ackSeq)).state ≠ .empty :=
    fun empty => idle (.inl empty)
  rw [ReliableContext.isInSendWindow, inv.window, inWindow_iff] at inw
  have hack := (inv.ring.busy (not_not.mp inw) busy).1
  obtain ⟨q, hq, same, hdr, payload, found, sent⟩ := inv.logRing.busy_framed inv.ring busy
  obtain rfl : ackSeq = q := of_not_not fun apart => inv.ring.index_ne_of_ne hq hack (Ne.symm apart) same
  have low := ((outstanding_iff_of_le inv.logRing.order).mp hack).1
  split
  · split
    next fast =>
      dsimp only
      refine ring.charge (retries_update ring.retries (ring.retries _)) (fun q' hq' => ?_)
        fun n below => logInv.copies_eq_zero fits fun d mem => ?_
      · by_cases here : q' = ackSeq
        · have grows := (ctx.sendWindow (getWindowIndex ackSeq)).budget_restate
            (show PacketState.retransmit ≠ .sent by decide)
          have once : copies log [(ctx.sendWindow (getWindowIndex ackSeq)).serialized] ackSeq.toNat ≤ 1 :=
            copies_le_length _ _
          rw [if_pos fast.2] at grows
          rw [here, Function.update_same, ← grows]
          omega
        · rw [Function.update_noteq (inv.ring.index_ne_of_ne hq' hack here),
            logInv.copies_eq_zero fits fun d mem => ?_, Nat.zero_add]
          rw [List.mem_singleton.mp mem]
          exact ⟨ackSeq.toNat, hdr, payload, fun e => here (BitVec.eq_of_toNat_eq e).symm, found,
            sent⟩
      · rw [List.mem_singleton.mp mem]
        exact ⟨ackSeq.toNat, hdr, payload, by omega, found, sent⟩
    · simpa only [List.append_nil] using ring
  · simp only [List.append_nil]
    have marked := ring.restate (getWindowIndex ackSeq) (show PacketState.acked ≠ .sent by decide)
    have fresh : SendInv { ctx with dupAckCount := 0, lastAckSeq := ackSeq } :=
      ⟨inv.window, inv.cwnd_le, inv.ring⟩
    split
    · exact advanceSendBase (by rw [ReliableContext.updateCongestionWindow_eq_with]; exact marked)
        ((fresh.updateRtt _).restate _ _ busy).updateCongestionWindow 32
    · exact advanceSendBase (by rw [ReliableContext.updateCongestionWindow_eq_with]; exact marked)
        (fresh.restate _ _ busy).updateCongestionWindow 32

end TrafficRing

/-! ## Runs of the link -/

/-- The sender of the link wrote each packet of the log within its budget. -/
def TrafficInv (link : Link) : Prop :=
  TrafficRing link.stamped link.toReceiver link.sender.sendBase link.sender.nextSeq
    link.sender.sendWindow

namespace TrafficInv

variable {link : Link}

theorem init (senderAddr receiverAddr : String) : TrafficInv (Link.init senderAddr receiverAddr) :=
  ⟨fun _ => Nat.zero_le _, fun _ none => absurd none (by simp [Outstanding, Link.init,
    newReliableContext]), fun _ none => absurd none (Nat.not_lt_zero _)⟩

theorem step (traffic : TrafficInv link) (inv : LinkInv link)
    (fits : link.stamped.length + 32 ≤ 2 ^ 32) : ∀ event, TrafficInv (Link.step event link)
  | .send hdr payload now writeErr =>
    TrafficRing.send traffic inv.sender inv.log (by omega) inv.toReceiver hdr payload now writeErr
  | .processTimeouts now writeErr =>
    TrafficRing.processTimeouts traffic inv.sender inv.log (by omega) now writeErr
  | .deliver i now => by
    unfold TrafficInv
    simp only [Link.step]
    split <;> exact traffic
  | .acknowledge i now => by
    unfold TrafficInv
    simp only [Link.step]
    split
    · exact traffic
    split
    · exact traffic
    exact TrafficRing.processAck traffic inv.sender inv.log (by omega) _ now

theorem run (traffic : TrafficInv link) (inv : LinkInv link) (events : List LinkEvent)
    (fits : (Link.run events link).stamped.length + 32 ≤ 2 ^ 32) :
    TrafficInv (Link.run events link) := by
  induction events generalizing link with
  | nil => exact traffic
  | cons event events ih =>
    have grows := (Link.length_stamped_run events (Link.step event link)).2
    have := (Link.length_stamped_step event link).2
    have fits' : link.stamped.length + 32 ≤ 2 ^ 32 := by
      simp only [Link.run] at fits
      omega
    exact ih (traffic.step inv fits' event) (inv.step fits' event) fits

end TrafficInv

/-- However the network behaves, while fewer than 2^32 - 32 packets have been stamped, the sender
writes the frame of each stamped packet at most `MaxRetries + 2` times: once in `Send`, once for
each retry of `ProcessTimeouts`, and once for the fast retransmission of `ProcessACK`. So it
writes at most `MaxRetries + 2` datagrams for each packet stamped. -/
theorem link_writes_bounded (senderAddr receiverAddr : String) (events : List LinkEvent)
    (fits : (Link.run events (Link.init senderAddr receiverAddr)).stamped.length + 32 ≤ 2 ^ 32) :
    let link := Link.run events (Link.init senderAddr receiverAddr)
    (∀ (i : Nat) (hdr : PacketHeader) (payload : List Byte), link.stamped[i]? = some (hdr, payload) →
      link.toReceiver.count (frame hdr payload) ≤ maxRetries.toNat + 2) ∧
      link.toReceiver.length ≤ (maxRetries.toNat + 2) * link.stamped.length := by
  have inv := (LinkInv.init senderAddr receiverAddr).run events fits
  have traffic := (TrafficInv.init senderAddr receiverAddr).run
    (LinkInv.init senderAddr receiverAddr) events fits
  refine ⟨fun i hdr payload found => ?_,
    TrafficRing.length_le traffic inv.sender.logRing inv.toReceiver⟩
  rw [← copies_of_found found]
  exact TrafficRing.bounded traffic inv.sender.logRing i

/-- Packet 0 sent and handed over once; its acknowledgement read three times, which `ProcessACK`
counts as duplicates of the initial `lastAckSeq` 0; then five timeouts. -/
def lostAcks : List LinkEvent :=
  [.send (newPacketHeader 0) [] 0 none, .deliver 0 1,
    .acknowledge 0 2, .acknowledge 0 3, .acknowledge 0 4] ++
    (List.range 5).map fun k => .processTimeouts (301 * (k + 1)) fun _ => none

theorem lostAcks_writes_bounded :
    let link := Link.run lostAcks (Link.init "sender" "receiver")
    link.stamped.length + 32 ≤ 2 ^ 32 ∧
      (∀ (i : Nat) (hdr : PacketHeader) (payload : List Byte),
        link.stamped[i]? = some (hdr, payload) →
          link.toReceiver.count (frame hdr payload) ≤ maxRetries.toNat + 2) ∧
        link.toReceiver.length ≤ (maxRetries.toNat + 2) * link.stamped.length :=
  have fits := Nat.le_trans (Nat.add_le_add_right (Link.length_stamped_run lostAcks _).1 32)
    (by decide)
  ⟨fits, link_writes_bounded "sender" "receiver" lostAcks fits⟩

/-- On that run the bound is reached: packet 0, the only one stamped, was written seven times. -/
example :
    let link := Link.run lostAcks (Link.init "sender" "receiver")
    link.stamped.length = 1 ∧ link.toReceiver.length = 7 := by
  set_option maxRecDepth 20000 in decide

end OverProto
