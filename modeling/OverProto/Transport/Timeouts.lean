import OverProto.Transport.SendWindow
import OverProto.Transport.RecvWindow

/-!
# The retransmission timer

The scan of `ProcessTimeouts` walks the offsets 0 to 31 from `sendBase` and stops at the first
sequence number that is not below `nextSeq`. For a busy slot it reads the time since `SentAt` as
a `uint32` count of milliseconds and compares it with `RTO`. Past it, the slot is dropped after
`MaxRetries` retries and resent otherwise. The back-off `backoffRTO` it then computes is never
read.

When every write succeeds, the scan of a reachable sender whose `nextSeq` has not wrapped below
`sendBase` is `timeoutSlot` applied to each slot of the window, and it writes the slots it
resends in the order of their offsets (`processTimeouts_scan`). So the retry count of a slot
decides whether it is dropped, never when it is resent (`retransmit_ignores_backoff`).
-/

namespace OverProto

/-- The scan resends the slot: busy, timed out, and retried fewer than `MaxRetries` times. -/
def Resends (rto : BitVec 32) (now : Int) (slot : WindowSlot) : Prop :=
  ¬ (slot.state = .empty ∨ slot.state = .acked) ∧ BitVec.ofInt 32 (now - slot.sentAt) > rto ∧
    ¬ slot.retryCount ≥ maxRetries

instance (rto : BitVec 32) (now : Int) (slot : WindowSlot) : Decidable (Resends rto now slot) :=
  inferInstanceAs (Decidable (_ ∧ _ ∧ _))

/-- What the scan at `now`, with `RTO` `rto`, leaves of one slot. -/
def timeoutSlot (rto : BitVec 32) (now : Int) (slot : WindowSlot) : WindowSlot :=
  if slot.state = .empty ∨ slot.state = .acked then slot else
  if BitVec.ofInt 32 (now - slot.sentAt) > rto then
    if slot.retryCount ≥ maxRetries then { slot with state := .empty }
    else { slot with retryCount := slot.retryCount + 1, sentAt := now, state := .retransmit }
  else slot

/-- The datagram the scan writes for a slot: its packet when it resends it. -/
def resentBy (rto : BitVec 32) (now : Int) (slot : WindowSlot) : List (List Byte) :=
  if Resends rto now slot then [slot.serialized] else []

theorem timeoutSlot_of_empty (rto : BitVec 32) (now : Int) {slot : WindowSlot}
    (empty : slot.state = .empty) : timeoutSlot rto now slot = slot :=
  if_pos (.inl empty)

theorem timeoutSlot_of_resends {rto : BitVec 32} {now : Int} {slot : WindowSlot}
    (resends : Resends rto now slot) :
    timeoutSlot rto now slot =
      { slot with retryCount := slot.retryCount + 1, sentAt := now, state := .retransmit } := by
  obtain ⟨live, expired, under⟩ := resends
  rw [timeoutSlot, if_neg live, if_pos expired, if_neg under]

namespace ReliableContext

/-- The slot the scan examines at offset `i` from `sendBase`. -/
def scanSlot (ctx : ReliableContext) (i : Nat) : Fin 32 :=
  getWindowIndex (ctx.sendBase + BitVec.ofNat 32 i)

/-- The datagrams the scan writes for the offsets below `a`, every write succeeding. -/
def scanWritten (ctx : ReliableContext) (now : Int) (a : Nat) : List (List Byte) :=
  (List.range a).flatMap fun i => resentBy ctx.rtt.rto now (ctx.sendWindow (ctx.scanSlot i))

theorem scanWritten_succ (ctx : ReliableContext) (now : Int) (a : Nat) :
    ctx.scanWritten now (a + 1) =
      ctx.scanWritten now a ++ resentBy ctx.rtt.rto now (ctx.sendWindow (ctx.scanSlot a)) := by
  simp only [scanWritten, List.range_succ, List.flatMap_append, List.flatMap_singleton]

/-- The outstanding packet `q` is the one at offset `q - sendBase`. -/
theorem scanSlot_sub (ctx : ReliableContext) (q : BitVec 32) :
    ctx.scanSlot (q - ctx.sendBase).toNat = getWindowIndex q := by
  have same : ctx.sendBase + BitVec.ofNat 32 (q - ctx.sendBase).toNat = q := by
    rw [BitVec.ofNat_toNat, BitVec.setWidth_eq, BitVec.add_comm, BitVec.sub_add_cancel]
  rw [scanSlot, same]

/-! ## One offset, then the whole scan -/

/-- One offset the scan does not stop at, every write succeeding: its slot becomes `timeoutSlot`
of itself, the datagram of a resent slot is written, and `sendBase`, `nextSeq` and the RTT
statistics stay. -/
theorem timeoutLoop_cons_scanned (now : Int) (i : Nat) (rest : List Nat) (cur : ReliableContext)
    (retransmitted : Nat) (written : List (List Byte))
    (scanned : ¬ cur.sendBase + BitVec.ofNat 32 i ≥ cur.nextSeq) :
    let slot := cur.sendWindow (cur.scanSlot i)
    ∃ next : ReliableContext, next.sendBase = cur.sendBase ∧ next.nextSeq = cur.nextSeq ∧
      next.rtt = cur.rtt ∧
      next.sendWindow =
        Function.update cur.sendWindow (cur.scanSlot i) (timeoutSlot cur.rtt.rto now slot) ∧
      timeoutLoop now (fun _ => none) (i :: rest) cur retransmitted written =
        timeoutLoop now (fun _ => none) rest next
          (retransmitted + (resentBy cur.rtt.rto now slot).length)
          (written ++ resentBy cur.rtt.rto now slot) := by
  dsimp only
  rw [timeoutLoop, if_neg scanned]
  dsimp only
  unfold scanSlot
  set slot := cur.sendWindow (getWindowIndex (cur.sendBase + BitVec.ofNat 32 i))
  have kept (quiet : ¬ Resends cur.rtt.rto now slot) :
      resentBy cur.rtt.rto now slot = [] := if_neg quiet
  by_cases idle : slot.state = .empty ∨ slot.state = .acked
  · rw [if_pos idle, timeoutSlot, if_pos idle, kept fun resends => resends.1 idle]
    exact ⟨cur, rfl, rfl, rfl, (Function.update_eq_self _ _).symm, by rw [List.append_nil]; rfl⟩
  by_cases expired : BitVec.ofInt 32 (now - slot.sentAt) > cur.rtt.rto
  · by_cases exhausted : slot.retryCount ≥ maxRetries
    · rw [if_neg idle, if_pos expired, if_pos exhausted, timeoutSlot, if_neg idle, if_pos expired,
        if_pos exhausted, kept fun resends => resends.2.2 exhausted]
      exact ⟨{ cur with sendWindow := Function.update cur.sendWindow _ { slot with state := .empty } },
        rfl, rfl, rfl, rfl, by rw [List.append_nil]; rfl⟩
    · rw [if_neg idle, if_pos expired, if_neg exhausted, timeoutSlot_of_resends ⟨idle, expired, exhausted⟩,
        resentBy, if_pos ⟨idle, expired, exhausted⟩]
      exact ⟨cur.retransmitSlot _ now, rfl, rfl, rfl, rfl, rfl⟩
  · rw [if_neg idle, if_neg expired, timeoutSlot, if_neg idle, if_neg expired,
      kept fun resends => expired resends.2.1]
    exact ⟨cur, rfl, rfl, rfl, (Function.update_eq_self _ _).symm, by rw [List.append_nil]; rfl⟩

/-- The scan from offset `a` on, with the offsets below `a` done, when it stops at offset `n`:
every slot of an offset below `n` ends as `timeoutSlot` leaves it, every other slot as it was,
and the packets of the resent slots are written, offset by offset. -/
theorem timeoutLoop_scan (now : Int) (ctx : ReliableContext) {n : Nat} (within : n ≤ 32)
    (scanned : ∀ i < n, ¬ ctx.sendBase + BitVec.ofNat 32 i ≥ ctx.nextSeq)
    (stops : n < 32 → ctx.sendBase + BitVec.ofNat 32 n ≥ ctx.nextSeq) (m : Nat) :
    ∀ (a : Nat) (cur : ReliableContext), a + m = 32 → a ≤ n → cur.sendBase = ctx.sendBase →
      cur.nextSeq = ctx.nextSeq → cur.rtt = ctx.rtt →
      (∀ i < a, cur.sendWindow (ctx.scanSlot i) =
        timeoutSlot ctx.rtt.rto now (ctx.sendWindow (ctx.scanSlot i))) →
      (∀ j, (∀ i < a, ctx.scanSlot i ≠ j) → cur.sendWindow j = ctx.sendWindow j) →
      let out := timeoutLoop now (fun _ => none) (List.range' a m) cur
        (ctx.scanWritten now a).length (ctx.scanWritten now a)
      out.1 = ((ctx.scanWritten now n).length, none) ∧ out.2.2 = ctx.scanWritten now n ∧
        (∀ i < n, out.2.1.sendWindow (ctx.scanSlot i) =
          timeoutSlot ctx.rtt.rto now (ctx.sendWindow (ctx.scanSlot i))) ∧
        (∀ j, (∀ i < n, ctx.scanSlot i ≠ j) → out.2.1.sendWindow j = ctx.sendWindow j) := by
  induction m with
  | zero =>
    intro a cur ends before _ _ _ done todo
    obtain rfl : a = n := by omega
    exact ⟨rfl, rfl, done, todo⟩
  | succ m ih =>
    intro a cur ends before base next rtt done todo
    dsimp only
    rw [List.range'_succ]
    by_cases stop : a = n
    · subst stop
      rw [timeoutLoop, if_pos (by rw [base, next]; exact stops (by omega))]
      exact ⟨rfl, rfl, done, todo⟩
    have slot_a : cur.scanSlot a = ctx.scanSlot a := by rw [scanSlot, base]; rfl
    have fresh : cur.sendWindow (ctx.scanSlot a) = ctx.sendWindow (ctx.scanSlot a) :=
      todo _ fun i lt same => by
        have := getWindowIndex_offset_inj ctx.sendBase (by omega) (by omega) same
        omega
    obtain ⟨after, base', next', rtt', window, step⟩ := timeoutLoop_cons_scanned now a
      (List.range' (a + 1) m) cur _ _ (by rw [base, next]; exact scanned a (by omega))
    rw [slot_a, fresh, rtt, ← List.length_append, ← scanWritten_succ] at step
    rw [slot_a, fresh, rtt] at window
    rw [step]
    refine ih (a + 1) after (by omega) (by omega) (base'.trans base) (next'.trans next)
      (rtt'.trans rtt) (fun i lt => ?_) (fun j other => ?_)
    · rw [window]
      by_cases here : i = a
      · rw [here, Function.update_same]
      · have apart : ctx.scanSlot i ≠ ctx.scanSlot a := fun same =>
          here (getWindowIndex_offset_inj ctx.sendBase (by omega) (by omega) same)
        rw [Function.update_noteq apart]
        exact done i (by omega)
    · rw [window, Function.update_noteq (other a (by omega)).symm]
      exact todo j fun i lt => other i (by omega)

end ReliableContext

/-- A busy slot of a sender with the invariant is the slot of an outstanding offset. -/
theorem SendInv.scanSlot_of_busy {ctx : ReliableContext} (inv : SendInv ctx) {j : Fin 32}
    (busy : (ctx.sendWindow j).state ≠ .empty) :
    ∃ i < (ctx.nextSeq - ctx.sendBase).toNat, ctx.scanSlot i = j := by
  by_contra none
  push_neg at none
  exact busy (inv.ring.outside j fun q hq same =>
    none _ hq (by rw [ReliableContext.scanSlot_sub, same]))

/-- Every write succeeding, the scan of a sender with the invariant whose `nextSeq` has not
wrapped below `sendBase` leaves each slot as `timeoutSlot` does and writes the packets of the
slots it resends, offset by offset from `sendBase`. -/
theorem processTimeouts_scan {ctx : ReliableContext} (inv : SendInv ctx)
    (unwrapped : ctx.sendBase ≤ ctx.nextSeq) (now : Int) :
    let out := ctx.processTimeouts now fun _ => none
    let n := (ctx.nextSeq - ctx.sendBase).toNat
    out.1 = ((ctx.scanWritten now n).length, none) ∧ out.2.2 = ctx.scanWritten now n ∧
      ∀ j, out.2.1.sendWindow j = timeoutSlot ctx.rtt.rto now (ctx.sendWindow j) := by
  have count : (ctx.nextSeq - ctx.sendBase).toNat = ctx.nextSeq.toNat - ctx.sendBase.toNat :=
    BitVec.toNat_sub_of_le unwrapped
  have within := inv.ring.bounded
  have := ctx.nextSeq.isLt
  have scanned : ∀ i < (ctx.nextSeq - ctx.sendBase).toNat,
      ¬ ctx.sendBase + BitVec.ofNat 32 i ≥ ctx.nextSeq := fun i lt => by
    simp only [ge_iff_le, BitVec.le_def, BitVec.toNat_add, BitVec.toNat_ofNat, not_le]
    omega
  have stops : (ctx.nextSeq - ctx.sendBase).toNat < 32 →
      ctx.sendBase + BitVec.ofNat 32 (ctx.nextSeq - ctx.sendBase).toNat ≥ ctx.nextSeq := fun _ => by
    simp only [ge_iff_le, BitVec.le_def, BitVec.toNat_add, BitVec.toNat_ofNat]
    omega
  obtain ⟨counted, written, done, todo⟩ := ReliableContext.timeoutLoop_scan now ctx within scanned
    stops 32 0 ctx rfl (Nat.zero_le _) rfl rfl rfl (fun i lt => absurd lt (Nat.not_lt_zero i))
    (fun j _ => rfl)
  rw [ReliableContext.processTimeouts, inv.window, List.range_eq_range']
  refine ⟨counted, written, fun j => ?_⟩
  by_cases hit : ∃ i < (ctx.nextSeq - ctx.sendBase).toNat, ctx.scanSlot i = j
  · obtain ⟨i, lt, rfl⟩ := hit
    exact done i lt
  · have empty : (ctx.sendWindow j).state = .empty := by
      by_contra busy
      exact hit (inv.scanSlot_of_busy busy)
    exact (todo j fun i lt same => hit ⟨i, lt, same⟩).trans (timeoutSlot_of_empty _ _ empty).symm

/-! ## The back-off is never read -/

/-- On every reachable sender whose `nextSeq` has not wrapped below `sendBase`, every write
succeeding, `ProcessTimeouts` resends every busy slot retried fewer than `MaxRetries` times
once the `uint32` time since `SentAt` exceeds `RTO`, whatever its retry count. After one
retransmission at 301 ms, with `RTO = 300`, the next comes 301 ms later, below `2 RTO`. -/
theorem retransmit_ignores_backoff :
    (∀ ctx : ReliableContext, Reachable ctx → ctx.sendBase ≤ ctx.nextSeq →
      ∀ (now : Int) (j : Fin 32),
      let slot := ctx.sendWindow j
      (slot.state = .sent ∨ slot.state = .retransmit) → slot.retryCount < maxRetries →
      BitVec.ofInt 32 (now - slot.sentAt) > ctx.rtt.rto →
      let out := ctx.processTimeouts now fun _ => none
      out.2.1.sendWindow j =
          { slot with retryCount := slot.retryCount + 1, sentAt := now, state := .retransmit } ∧
        slot.serialized ∈ out.2.2) ∧
    (let ctx := Op.run [.send (newPacketHeader 0) [] 0 none, .processTimeouts 301 fun _ => none]
        (newReliableContext "peer")
     let slot := ctx.sendWindow (getWindowIndex 0)
     let out := ctx.processTimeouts 602 fun _ => none
     Reachable ctx ∧ slot.retryCount = 1 ∧ slot.sentAt = 301 ∧ ctx.rtt.rto = 300 ∧
       602 - slot.sentAt ≤ ((ctx.rtt.rto.toNat * 2 ^ slot.retryCount.toNat : Nat) : Int) ∧
       out.1 = (1, none) ∧ (out.2.1.sendWindow (getWindowIndex 0)).retryCount = 2 ∧
       (out.2.1.sendWindow (getWindowIndex 0)).sentAt = 602) := by
  refine ⟨fun ctx reach unwrapped now j busy under expired => ?_, (Reachable.init "peer").run _,
    by decide⟩
  have inv := sendInv_of_reachable reach
  obtain ⟨-, written, window⟩ := processTimeouts_scan inv unwrapped now
  have live : ¬ ((ctx.sendWindow j).state = .empty ∨ (ctx.sendWindow j).state = .acked) := by
    rcases busy with state | state <;> rw [state] <;> decide
  have resends : Resends ctx.rtt.rto now (ctx.sendWindow j) :=
    ⟨live, expired, BitVec.not_le.mpr under⟩
  refine ⟨(window j).trans (timeoutSlot_of_resends resends), ?_⟩
  obtain ⟨i, lt, rfl⟩ := inv.scanSlot_of_busy fun empty => live (.inl empty)
  rw [written]
  exact List.mem_flatMap.mpr ⟨i, List.mem_range.mpr lt, by
    rw [resentBy, if_pos resends]
    exact List.mem_singleton_self _⟩

/-! ## What every scan keeps -/

/-- The slot `after` holds the packet of `before`, in the same state, or `before` was busy and
not ACKED and `after` is not ACKED. -/
def WindowSlot.Rescanned (before after : WindowSlot) : Prop :=
  after.header = before.header ∧ after.data = before.data ∧ after.serialized = before.serialized ∧
    (after.state = before.state ∨
      ¬ (before.state = .empty ∨ before.state = .acked) ∧ after.state ≠ .acked)

namespace WindowSlot.Rescanned

variable {a b c : WindowSlot}

theorem refl (slot : WindowSlot) : slot.Rescanned slot := ⟨rfl, rfl, rfl, .inl rfl⟩

theorem trans (ab : a.Rescanned b) (bc : b.Rescanned c) : a.Rescanned c := by
  obtain ⟨h₁, d₁, s₁, st₁⟩ := ab
  obtain ⟨h₂, d₂, s₂, st₂⟩ := bc
  refine ⟨h₂.trans h₁, d₂.trans d₁, s₂.trans s₁, ?_⟩
  rcases st₁ with same | ⟨live, fresh⟩ <;> rcases st₂ with same' | ⟨live', fresh'⟩
  · exact .inl (same'.trans same)
  · exact .inr ⟨by rwa [← same], fresh'⟩
  · exact .inr ⟨live, by rwa [same']⟩
  · exact .inr ⟨live, fresh'⟩

theorem busy (ab : a.Rescanned b) (busy : b.state ≠ .empty) : a.state ≠ .empty := by
  rcases ab.2.2.2 with same | ⟨live, -⟩
  · rwa [← same]
  · exact fun empty => live (.inl empty)

theorem acked (ab : a.Rescanned b) (acked : b.state = .acked) : a.state = .acked := by
  rcases ab.2.2.2 with same | ⟨-, fresh⟩
  · rwa [← same]
  · exact absurd acked fresh

end WindowSlot.Rescanned

namespace ReliableContext

/-- The scan from `ctx`, having written `written`, may have reached `after` and written
`written'`: `sendBase` and `nextSeq` as they were, every slot `Rescanned`, and `written'` is
`written` followed by packets of busy slots of `ctx`. -/
def Rescan (ctx : ReliableContext) (written : List (List Byte)) (after : ReliableContext)
    (written' : List (List Byte)) : Prop :=
  after.sendBase = ctx.sendBase ∧ after.nextSeq = ctx.nextSeq ∧
    (∀ j, (ctx.sendWindow j).Rescanned (after.sendWindow j)) ∧
    ∃ sent, written' = written ++ sent ∧
      ∀ d ∈ sent, ∃ j, (ctx.sendWindow j).state ≠ .empty ∧ d = (ctx.sendWindow j).serialized

theorem Rescan.refl (ctx : ReliableContext) (written : List (List Byte)) :
    ctx.Rescan written ctx written :=
  ⟨rfl, rfl, fun _ => .refl _, [], (List.append_nil _).symm,
    fun _ none => absurd none (List.not_mem_nil _)⟩

theorem Rescan.trans {a b c : ReliableContext} {wa wb wc : List (List Byte)}
    (ab : a.Rescan wa b wb) (bc : b.Rescan wb c wc) : a.Rescan wa c wc := by
  obtain ⟨base₁, next₁, slots₁, sent₁, rfl, from₁⟩ := ab
  obtain ⟨base₂, next₂, slots₂, sent₂, rfl, from₂⟩ := bc
  refine ⟨base₂.trans base₁, next₂.trans next₁, fun j => (slots₁ j).trans (slots₂ j),
    sent₁ ++ sent₂, List.append_assoc _ _ _, fun d mem => ?_⟩
  rcases List.mem_append.mp mem with old | new
  · exact from₁ d old
  · obtain ⟨j, busy, rfl⟩ := from₂ d new
    exact ⟨j, (slots₁ j).busy busy, (slots₁ j).2.2.1⟩

/-- A turn that gives one busy, unacknowledged slot a state other than ACKED, and may write its
packet. -/
theorem rescan_update (ctx : ReliableContext) (written : List (List Byte)) (after : ReliableContext)
    (j : Fin 32) (slot : WindowSlot) (base : after.sendBase = ctx.sendBase)
    (next : after.nextSeq = ctx.nextSeq)
    (window : after.sendWindow = Function.update ctx.sendWindow j slot)
    (kept : (ctx.sendWindow j).Rescanned slot) (sent : List (List Byte))
    (busy : sent ≠ [] → (ctx.sendWindow j).state ≠ .empty)
    (packet : ∀ d ∈ sent, d = (ctx.sendWindow j).serialized) :
    ctx.Rescan written after (written ++ sent) := by
  refine ⟨base, next, fun i => ?_, sent, rfl, fun d mem => ⟨j, busy (List.ne_nil_of_mem mem),
    packet d mem⟩⟩
  rw [window]
  by_cases here : i = j
  · subst here
    simpa using kept
  · simpa [Function.update_noteq here] using WindowSlot.Rescanned.refl _

/-- The scan of `ProcessTimeouts`, whatever its writes return, is a run of turns that drop the
packet of a busy slot that is not ACKED, or resend it: any reflexive and transitive relation
between a context with the datagrams written so far and a later one that holds across each
such turn holds across the scan. -/
theorem timeoutLoop_induction (now : Int) (writeErr : Nat → Option String)
    (Step : ReliableContext → List (List Byte) → ReliableContext → List (List Byte) → Prop)
    (refl : ∀ ctx written, Step ctx written ctx written)
    (trans : ∀ {a b c : ReliableContext} {wa wb wc : List (List Byte)},
      Step a wa b wb → Step b wb c wc → Step a wa c wc)
    (drop : ∀ ctx written (j : Fin 32),
      ¬ ((ctx.sendWindow j).state = .empty ∨ (ctx.sendWindow j).state = .acked) →
      Step ctx written
        { ctx with
          sendWindow := Function.update ctx.sendWindow j { ctx.sendWindow j with state := .empty } }
        written)
    (resend : ∀ ctx written (j : Fin 32),
      ¬ ((ctx.sendWindow j).state = .empty ∨ (ctx.sendWindow j).state = .acked) →
      ¬ (ctx.sendWindow j).retryCount ≥ maxRetries →
      Step ctx written (ctx.retransmitSlot j now) (written ++ [(ctx.sendWindow j).serialized]))
    (offsets : List Nat) (ctx : ReliableContext) (retransmitted : Nat)
    (written : List (List Byte)) :
    let out := timeoutLoop now writeErr offsets ctx retransmitted written
    Step ctx written out.2.1 out.2.2 := by
  induction offsets generalizing ctx retransmitted written with
  | nil => exact refl ctx written
  | cons i rest ih =>
    unfold timeoutLoop
    dsimp only
    split_ifs with stop idle expired exhausted
    · exact refl ctx written
    · exact ih ctx _ _
    · exact trans (drop ctx written _ idle) (ih _ _ _)
    · split
      · exact resend ctx written _ idle exhausted
      · exact trans (resend ctx written _ idle exhausted) (ih _ _ _)
    · exact ih ctx _ _

/-- Whatever its writes return, the scan keeps `sendBase` and `nextSeq`, changes slots only as
`Rescanned` allows, and writes only the packets of busy slots. -/
theorem timeoutLoop_rescans (now : Int) (writeErr : Nat → Option String) (offsets : List Nat)
    (ctx : ReliableContext) (retransmitted : Nat) (written : List (List Byte)) :
    let out := timeoutLoop now writeErr offsets ctx retransmitted written
    ctx.Rescan written out.2.1 out.2.2 :=
  timeoutLoop_induction now writeErr _ Rescan.refl Rescan.trans
    (fun ctx written j idle => by
      simpa only [List.append_nil] using rescan_update ctx written
        { ctx with
          sendWindow := Function.update ctx.sendWindow j { ctx.sendWindow j with state := .empty } }
        j _ rfl rfl rfl ⟨rfl, rfl, rfl, .inr ⟨idle, by simp⟩⟩ [] (fun none => absurd rfl none)
        (fun _ mem => absurd mem (List.not_mem_nil _)))
    (fun ctx written j idle _ => rescan_update ctx written (ctx.retransmitSlot j now) j _ rfl rfl rfl
        ⟨rfl, rfl, rfl, .inr ⟨idle, by simp⟩⟩ [_] (fun _ empty => idle (.inl empty))
        (fun _ mem => List.eq_of_mem_singleton mem))
    offsets ctx retransmitted written

end ReliableContext

end OverProto
