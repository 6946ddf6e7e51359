import Mathlib.Data.Finset.Card
import OverProto.Core.Codec
import OverProto.Core.Fragment

/-!
# Reassembly under any delivery order

The receiving side of a fragmented packet deserializes each datagram and hands it to
`AddFragment` under the `FragID` of its header (`receiveFragment`, `receiveAll`).

`Collected` says what a context holds once a set of indices has arrived. `AddFragment` keeps
it (`Collected.addFragment`), so it holds after every delivery order with any duplicates
(`Collected.receiveAll`), and once every index has arrived `Assemble` joins the pieces in order
(`Collected.assemble`). With the spec of `fragmentPacket` this is the round trip
`fragmentPacket_reassemble`. A payload that fits one datagram is not fragmented, and the context
for its zero fragments has no header to return (`assemble_unfragmented_panics`).
-/

namespace OverProto

/-- The receiving side: `Deserialize` the datagram, then `AddFragment` under its `FragID`. -/
def receiveFragment (ctx : FragmentContext) (datagram : List Byte) :
    Outcome (Bool × FragmentContext) :=
  match deserialize datagram with
  | .error err => .error err
  | .ok (hdr, payload) => ctx.addFragment hdr.fragId hdr payload

/-- `receiveFragment` over a sequence of datagrams: what each `AddFragment` returned, and the
last context. -/
def receiveAll (ctx : FragmentContext) : List (List Byte) → Outcome (List Bool × FragmentContext)
  | [] => .ok ([], ctx)
  | datagram :: rest =>
    match receiveFragment ctx datagram with
    | .error err => .error err
    | .panic msg => .panic msg
    | .ok (done, next) =>
      match receiveAll next rest with
      | .ok (dones, last) => .ok (done :: dones, last)
      | .error err => .error err
      | .panic msg => .panic msg

/-- Whether each delivery of the indices `ds`, after the indices `S`, is the one that completes
the set of `N`. -/
def completionFlags (N : Nat) : Finset Nat → List Nat → List Bool
  | _, [] => []
  | S, d :: ds => decide (d ∉ S ∧ (insert d S).card = N) :: completionFlags N (insert d S) ds

@[simp] theorem length_completionFlags (N : Nat) (S : Finset Nat) (ds : List Nat) :
    (completionFlags N S ds).length = ds.length := by
  induction ds generalizing S with
  | nil => rfl
  | cons d ds ih => simp [completionFlags, ih]

theorem not_mem_and_card_insert {N : Nat} {S : Finset Nat} {d : Nat} :
    (d ∉ S ∧ (insert d S).card = N) ↔ (insert d S).card = N ∧ S.card < N := by
  by_cases seen : d ∈ S
  · simp only [seen, Finset.insert_eq_of_mem seen, not_true_eq_false, false_and, false_iff]
    omega
  · simp only [seen, Finset.card_insert_of_not_mem seen, not_false_eq_true, true_and]
    omega

/-- The `k`-th flag is set exactly when the first `k + 1` deliveries cover `N` indices and the
first `k` do not. -/
theorem completionFlags_getElem (N : Nat) (S : Finset Nat) (ds : List Nat) (k : Nat)
    (hk : k < (completionFlags N S ds).length) :
    (completionFlags N S ds)[k] = true ↔
      (S ∪ (ds.take (k + 1)).toFinset).card = N ∧ (S ∪ (ds.take k).toFinset).card < N := by
  induction ds generalizing S k with
  | nil => simp at hk
  | cons d ds ih =>
    cases k with
    | zero =>
      simp only [completionFlags, List.getElem_cons_zero, List.take_succ_cons, List.take_zero,
        List.toFinset_cons, List.toFinset_nil, Finset.union_insert, Finset.union_empty,
        decide_eq_true_eq]
      exact not_mem_and_card_insert
    | succ k =>
      simp only [completionFlags, List.getElem_cons_succ, List.take_succ_cons,
        List.toFinset_cons, Finset.union_insert, ← Finset.insert_union]
      exact ih _ k (by simpa using hk)

/-! ## The context after a set of deliveries -/

section Collect

variable {N : Nat} {piece : Nat → List Byte} {first : PacketHeader} {S : Finset Nat}
  {ctx : FragmentContext}

/-- The context for `N` fragments once the indices in `S` have arrived, fragment `i` carrying
`piece i` and fragment 0 the header `first`. -/
structure Collected (N : Nat) (piece : Nat → List Byte) (first : PacketHeader) (S : Finset Nat)
    (ctx : FragmentContext) : Prop where
  within : ∀ i ∈ S, i < N
  total : ctx.totalFrags = BitVec.ofNat 16 N
  received : ctx.receivedFrags.toNat = S.card
  slots : ∀ i : Fin 256, ctx.fragments i = if i.val ∈ S then some (piece i) else none
  header : ctx.header = if 0 ∈ S then some first else none

theorem collected_newFragmentContext (streamId seq : BitVec 32) :
    Collected N piece first ∅ (newFragmentContext streamId seq (BitVec.ofNat 16 N)) :=
  ⟨by simp, rfl, rfl, by simp [newFragmentContext], by simp [newFragmentContext]⟩

theorem Collected.card_le (inv : Collected N piece first S ctx) : S.card ≤ N :=
  (Finset.card_le_card fun i mem => Finset.mem_range.mpr (inv.within i mem)).trans
    (Finset.card_range N).le

/-- `AddFragment` of index `fragId` keeps `Collected` and reports whether this delivery
completed the set. -/
theorem Collected.addFragment (small : N ≤ 256) (inv : Collected N piece first S ctx)
    {fragId : BitVec 16} (hd : fragId.toNat < N) (hdr : PacketHeader)
    (isFirst : fragId = 0 → hdr = first) :
    ∃ next, ctx.addFragment fragId hdr (piece fragId.toNat) =
        .ok (decide (fragId.toNat ∉ S ∧ (insert fragId.toNat S).card = N), next) ∧
      Collected N piece first (insert fragId.toNat S) next := by
  have valid : ¬ ctx.totalFrags ≤ fragId := by
    rw [inv.total, BitVec.le_def, BitVec.toNat_ofNat, Nat.mod_eq_of_lt (by omega)]
    omega
  have inRange : fragId.toNat < 256 := by omega
  rw [FragmentContext.addFragment, if_neg valid, dif_pos inRange]
  dsimp only
  rw [inv.slots ⟨_, inRange⟩]
  by_cases seen : fragId.toNat ∈ S
  · rw [Finset.insert_eq_of_mem seen]
    exact ⟨ctx, by simp [seen], inv⟩
  · have card := Finset.card_insert_of_not_mem seen
    have bound := inv.card_le
    have received : (ctx.receivedFrags + 1).toNat = (insert fragId.toNat S).card := by
      rw [BitVec.toNat_add, inv.received, card]
      exact Nat.mod_eq_of_lt (by simp; omega)
    have total : ctx.totalFrags.toNat = N := by
      rw [inv.total, BitVec.toNat_ofNat, Nat.mod_eq_of_lt (by omega)]
    have flag : (ctx.receivedFrags + 1 == ctx.totalFrags) =
        decide (fragId.toNat ∉ S ∧ (insert fragId.toNat S).card = N) := by
      rw [Bool.eq_iff_iff, beq_iff_eq, decide_eq_true_iff, BitVec.toNat_eq, received, total]
      simp [seen]
    simp only [seen, Option.isSome_none, Bool.false_eq_true, ↓reduceIte, flag]
    refine ⟨_, rfl, ?_, inv.total, received, fun i => ?_, ?_⟩
    · simpa [or_imp, forall_and] using ⟨hd, inv.within⟩
    · by_cases here : i.val = fragId.toNat
      · obtain rfl : i = ⟨fragId.toNat, inRange⟩ := Fin.ext here
        simp
      · have other : i ≠ ⟨fragId.toNat, inRange⟩ := fun same => here (congrArg Fin.val same)
        simp only [Function.update_noteq other, inv.slots i, Finset.mem_insert, here, false_or]
    · by_cases zero : fragId = 0
      · simp [zero, isFirst zero]
      · have : fragId.toNat ≠ 0 := fun h => zero (BitVec.eq_of_toNat_eq h)
        simp only [if_neg zero, inv.header, Finset.mem_insert, Ne.symm this, false_or]

variable (datagram : Nat → List Byte) (headerOf : Nat → PacketHeader)

/-- Over any sequence of deliveries of indices below `N`, each datagram decoding to its index,
its header and its piece, `receiveAll` raises nothing, keeps `Collected` and returns the
completion flags. -/
theorem Collected.receiveAll (small : N ≤ 256)
    (decoded : ∀ d < N, deserialize (datagram d) = .ok (headerOf d, piece d) ∧
      (headerOf d).fragId.toNat = d)
    {ds : List Nat} (delivered : ∀ d ∈ ds, d < N) (inv : Collected N piece (headerOf 0) S ctx) :
    ∃ last, OverProto.receiveAll ctx (ds.map datagram) = .ok (completionFlags N S ds, last) ∧
      Collected N piece (headerOf 0) (S ∪ ds.toFinset) last := by
  induction ds generalizing S ctx with
  | nil => exact ⟨ctx, rfl, by simpa using inv⟩
  | cons d ds ih =>
    have hd := delivered d (.head _)
    obtain ⟨decodes, index⟩ := decoded d hd
    have isFirst : (headerOf d).fragId = 0 → headerOf d = headerOf 0 := fun zero => by
      rw [← index, zero]; rfl
    obtain ⟨next, added, inv'⟩ :=
      inv.addFragment small (by omega) (headerOf d) isFirst
    rw [index] at added inv'
    obtain ⟨last, rest, inv''⟩ := ih (fun d' mem => delivered d' (.tail _ mem)) inv'
    refine ⟨last, ?_, by simpa [Finset.insert_union] using inv''⟩
    simp only [List.map_cons, OverProto.receiveAll, receiveFragment, decodes, added, rest,
      completionFlags]

/-- Once every index below `N` has arrived, `Assemble` joins the pieces in index order under the
header of fragment 0 with `FlagFragment` cleared. -/
theorem Collected.assemble (small : N ≤ 256) (positive : 0 < N)
    (inv : Collected N piece first (Finset.range N) ctx) :
    ctx.assemble = .ok ({ first with
      flags := first.flags &&& ~~~flagFragment, fragId := 0, totalFrags := 0,
      payloadLen := BitVec.ofNat 16 ((List.range N).flatMap piece).length },
      (List.range N).flatMap piece) := by
  have total : ctx.totalFrags.toNat = N := by
    rw [inv.total, BitVec.toNat_ofNat, Nat.mod_eq_of_lt (by omega)]
  have complete : ctx.receivedFrags = ctx.totalFrags :=
    BitVec.eq_of_toNat_eq (by rw [inv.received, total, Finset.card_range])
  have collected := collectFragments_eq_ok ctx.fragments piece (List.range N)
    fun i mem => ⟨by simp at mem; omega, by simpa [inv.slots] using mem⟩
  rw [FragmentContext.assemble, if_neg (not_not.mpr complete), total, collected, inv.header,
    if_pos (by simpa using positive)]

end Collect

/-! ## The round trip -/

theorem or_and_not_cancel (f g : BitVec 8) : (f ||| g) &&& ~~~g = f &&& ~~~g := by
  ext i
  simp only [BitVec.getLsbD_and, BitVec.getLsbD_or, BitVec.getLsbD_not]
  cases f.getLsbD i <;> cases g.getLsbD i <;> simp

/-- Fragment a packet and deliver its frames in any order with any duplicates, each at least
once: `receiveAll` returns the completion flags of the deliveries, and `Assemble` the payload
under the header with `FlagFragment` cleared and the payload's length, cut to 16 bits. -/
theorem fragmentPacket_receiveAll {hdr : PacketHeader} {payload : List Byte} {mtu : BitVec 64}
    {frames : List (List Byte)} {headers : List PacketHeader}
    (valid : hdr.magic = magic ∧ hdr.version = version)
    (fragmented : fragmentPacket hdr payload mtu = .ok (frames, headers)) (nonempty : frames ≠ [])
    {deliveries : List Nat} (delivered : ∀ d ∈ deliveries, d < frames.length)
    (covering : ∀ i < frames.length, i ∈ deliveries) :
    ∃ ctx,
      receiveAll (newFragmentContext hdr.streamId hdr.seq (BitVec.ofNat 16 frames.length))
          (deliveries.map fun d => frames.getD d []) =
        .ok (completionFlags frames.length ∅ deliveries, ctx) ∧
      ctx.assemble = .ok ({ hdr with
        flags := hdr.flags &&& ~~~flagFragment, fragId := 0, totalFrags := 0,
        payloadLen := BitVec.ofNat 16 payload.length, timestamp := 0 }, payload) := by
  obtain ⟨positive, longer, small, rfl, -, sizes⟩ := fragmentPacket_eq_ok fragmented nonempty rfl rfl
  simp only [List.length_map, List.length_range] at delivered covering ⊢
  set m := (mtu - 24 - 4).toNat
  set N := (payload.length + m - 1) / m
  have decoded (d : Nat) (hd : d < N) :
      deserialize (frame (fragmentAt hdr payload m N d).1 (fragmentAt hdr payload m N d).2) =
        .ok ({ (fragmentAt hdr payload m N d).1 with timestamp := 0 },
          (fragmentAt hdr payload m N d).2) ∧
      (fragmentAt hdr payload m N d).1.fragId.toNat = d :=
    ⟨deserialize_frame _ _ valid (fragmentAt_declared _ _ positive _ hd (sizes d hd)),
      fragmentAt_fragId hdr payload _ _ (by unfold fragMaxFragments at small; omega)⟩
  have start : Collected N (fun i => (fragmentAt hdr payload m N i).2)
      { (fragmentAt hdr payload m N 0).1 with timestamp := 0 } ∅
      (newFragmentContext hdr.streamId hdr.seq (BitVec.ofNat 16 N)) :=
    collected_newFragmentContext _ _
  obtain ⟨last, run, inv⟩ := start.receiveAll
    (fun d => ((List.range N).map fun i =>
      frame (fragmentAt hdr payload m N i).1 (fragmentAt hdr payload m N i).2).getD d [])
    (fun d => { (fragmentAt hdr payload m N d).1 with timestamp := 0 }) small
    (fun d hd => by
      dsimp only
      rw [List.getD_eq_getElem?_getD, List.getElem?_map, List.getElem?_range hd]
      exact decoded d hd) delivered
  have everything : ∅ ∪ deliveries.toFinset = Finset.range N := by
    ext i
    simpa using ⟨delivered i, covering i⟩
  rw [everything] at inv
  refine ⟨last, run, ?_⟩
  rw [inv.assemble small (Nat.div_pos (by omega) positive), flatMap_fragmentAt hdr payload positive]
  simp [fragmentAt, or_and_not_cancel]

/-- Fragment a packet, deliver its frames in any order with any duplicates, each at least once:
no delivery fails, the one that completes the set returns `true` and every other `false`, and
`Assemble` returns the payload under the header with `FlagFragment` cleared. -/
theorem fragmentPacket_reassemble (hdr : PacketHeader) (payload : List Byte) (mtu : BitVec 64)
    (frames : List (List Byte)) (headers : List PacketHeader)
    (valid : hdr.magic = magic ∧ hdr.version = version)
    (fragmented : fragmentPacket hdr payload mtu = .ok (frames, headers)) (nonempty : frames ≠ [])
    (deliveries : List Nat) (delivered : ∀ d ∈ deliveries, d < frames.length)
    (covering : ∀ i < frames.length, i ∈ deliveries) :
    ∃ flags ctx,
      receiveAll (newFragmentContext hdr.streamId hdr.seq (BitVec.ofNat 16 frames.length))
          (deliveries.map fun d => frames.getD d []) = .ok (flags, ctx) ∧
      flags.length = deliveries.length ∧
      (∀ k (hk : k < flags.length), flags[k] = true ↔
        (deliveries.take (k + 1)).toFinset.card = frames.length ∧
          (deliveries.take k).toFinset.card < frames.length) ∧
      ctx.assemble = .ok ({ hdr with
        flags := hdr.flags &&& ~~~flagFragment, fragId := 0, totalFrags := 0,
        payloadLen := BitVec.ofNat 16 payload.length, timestamp := 0 }, payload) := by
  obtain ⟨ctx, run, assembled⟩ := fragmentPacket_receiveAll valid fragmented nonempty delivered covering
  exact ⟨_, ctx, run, by simp, fun k hk => by simpa using completionFlags_getElem _ ∅ _ k hk,
    assembled⟩

theorem fragmentPacket_reassemble_out_of_order :
    let frames := (List.range 2).map fun i =>
      frame (fragmentAt (newPacketHeader 0) [1, 2, 3] 2 2 i).1
        (fragmentAt (newPacketHeader 0) [1, 2, 3] 2 2 i).2
    let headers := (List.range 2).map fun i => (fragmentAt (newPacketHeader 0) [1, 2, 3] 2 2 i).1
    ((newPacketHeader 0).magic = magic ∧ (newPacketHeader 0).version = version) ∧
      fragmentPacket (newPacketHeader 0) [1, 2, 3] 30 = .ok (frames, headers) ∧ frames ≠ [] ∧
      (∀ d ∈ [1, 1, 0], d < frames.length) ∧ (∀ i < frames.length, i ∈ [1, 1, 0]) ∧
      ∃ flags ctx,
        receiveAll (newFragmentContext 0 0 (BitVec.ofNat 16 frames.length))
            ([1, 1, 0].map fun d => frames.getD d []) = .ok (flags, ctx) ∧
        flags.length = [1, 1, 0].length ∧
        (∀ k (hk : k < flags.length), flags[k] = true ↔
          ([1, 1, 0].take (k + 1)).toFinset.card = frames.length ∧
            ([1, 1, 0].take k).toFinset.card < frames.length) ∧
        ctx.assemble = .ok ({ newPacketHeader 0 with
          flags := (newPacketHeader 0).flags &&& ~~~flagFragment, fragId := 0, totalFrags := 0,
          payloadLen := BitVec.ofNat 16 3, timestamp := 0 }, [1, 2, 3]) := by
  intro frames headers
  have fragmented : fragmentPacket (newPacketHeader 0) [1, 2, 3] 30 = .ok (frames, headers) :=
    fragmentPacket_of_long _ (show ((30 : BitVec 64) - 24 - 4).toNat = 2 from rfl) (by decide)
      (by decide) (by decide) (by decide)
  have nonempty : frames ≠ [] := by simp [frames]
  have delivered : ∀ d ∈ [1, 1, 0], d < frames.length := by decide
  have covering : ∀ i < frames.length, i ∈ [1, 1, 0] := by decide
  exact ⟨⟨rfl, rfl⟩, fragmented, nonempty, delivered, covering,
    fragmentPacket_reassemble _ _ _ _ _ ⟨rfl, rfl⟩ fragmented nonempty _ delivered covering⟩

/-- A payload that fits one datagram is not fragmented; the context for its zero fragments
passes the count check and then dereferences the header that no fragment brought. -/
theorem assemble_unfragmented_panics :
    ((newPacketHeader 0).magic = magic ∧ (newPacketHeader 0).version = version) ∧
      fragmentPacket (newPacketHeader 0) [1] 1500 = .ok ([], []) ∧
      receiveAll (newFragmentContext (newPacketHeader 0).streamId (newPacketHeader 0).seq
        (BitVec.ofNat 16 0)) [] = .ok ([], newFragmentContext 0 0 0) ∧
      (newFragmentContext 0 0 0).assemble = .panic nilDereference :=
  ⟨⟨rfl, rfl⟩, by decide, rfl, by decide⟩

end OverProto
