import Mathlib.Logic.Function.Basic
import OverProto.Core.Packet

/-!
# Fragmentation and reassembly

`fragmentPacket` is `FragmentPacket` of `core/fragment.go`: a payload that does not fit one
datagram of the MTU is cut into at most 256 pieces of `mtu - 28` bytes (the last one shorter),
each serialized under a copy of the header with `FlagFragment` set, its index and the count.
`FragmentContext` is the receiving buffer: `addFragment` stores a piece once per index and
reports when the count is reached, and `assemble` joins the pieces in index order.

Go's runtime panics are part of the model (`Outcome.panic`): `AddFragment` indexes its 256-slot
array with any index below `TotalFrags`, and `Assemble` dereferences the header of fragment 0
whether or not one arrived.

The spec lemmas `fragmentPacket_eq_ok` and `collectFragments_eq_ok` say what a successful
call computes, and `flatMap_fragmentAt` that the pieces cover the payload.
-/

namespace OverProto

/-- How a call of the fragment code ends: its results, the error it returns, or a runtime
panic. -/
inductive Outcome (α : Type) where
  | ok (a : α)
  | error (msg : String)
  | panic (msg : String)
deriving DecidableEq, Repr

/-- The message of Go's panic on indexing an array of 256 elements at `i`. -/
def indexOutOfRange (i : Nat) : String :=
  "runtime error: index out of range [" ++ toString i ++ "] with length 256"

/-- The message of Go's panic on dereferencing a nil pointer. -/
def nilDereference : String :=
  "runtime error: invalid memory address or nil pointer dereference"

/-- `FragmentContext`, with the fields `AddFragment` and `Assemble` read. -/
structure FragmentContext where
  streamId : BitVec 32
  seq : BitVec 32
  totalFrags : BitVec 16
  receivedFrags : BitVec 16
  fragments : Fin 256 → Option (List Byte)
  header : Option PacketHeader

/-- `NewFragmentContext`. -/
def newFragmentContext (streamId seq : BitVec 32) (totalFrags : BitVec 16) : FragmentContext :=
  { streamId, seq, totalFrags, receivedFrags := 0, fragments := fun _ => none, header := none }

/-- `FragmentContext.AddFragment`: whether the count is reached, and the updated context. -/
def FragmentContext.addFragment (ctx : FragmentContext) (fragId : BitVec 16) (hdr : PacketHeader)
    (data : List Byte) : Outcome (Bool × FragmentContext) :=
  if ctx.totalFrags ≤ fragId then .error "invalid fragment ID"
  else if inRange : fragId.toNat < 256 then
    let slot : Fin 256 := ⟨fragId.toNat, inRange⟩
    if (ctx.fragments slot).isSome then .ok (false, ctx)
    else
      let stored := { ctx with
        fragments := Function.update ctx.fragments slot (some data)
        receivedFrags := ctx.receivedFrags + 1
        header := if fragId = 0 then some hdr else ctx.header }
      .ok (stored.receivedFrags == stored.totalFrags, stored)
  else .panic (indexOutOfRange fragId.toNat)

/-- The two loops of `Assemble` over the indices `is`: the first stops at a missing fragment,
the second appends the fragments in order. -/
def collectFragments (fragments : Fin 256 → Option (List Byte)) : List Nat → Outcome (List Byte)
  | [] => .ok []
  | i :: rest =>
    if inRange : i < 256 then
      match fragments ⟨i, inRange⟩ with
      | none => .error "missing fragment"
      | some piece =>
        match collectFragments fragments rest with
        | .ok tail => .ok (piece ++ tail)
        | .error err => .error err
        | .panic msg => .panic msg
    else .panic (indexOutOfRange i)

/-- `FragmentContext.Assemble`. -/
def FragmentContext.assemble (ctx : FragmentContext) : Outcome (PacketHeader × List Byte) :=
  if ctx.receivedFrags ≠ ctx.totalFrags then .error "not all fragments received" else
  match collectFragments ctx.fragments (List.range ctx.totalFrags.toNat) with
  | .error err => .error err
  | .panic msg => .panic msg
  | .ok payload =>
    match ctx.header with
    | none => .panic nilDereference
    | some first =>
      .ok ({ first with
        flags := first.flags &&& ~~~flagFragment, fragId := 0, totalFrags := 0,
        payloadLen := BitVec.ofNat 16 payload.length }, payload)

/-- The header and payload of fragment `i` in the loop of `FragmentPacket`, for pieces of
`maxFragPayload` bytes and `totalFrags` fragments. -/
def fragmentAt (hdr : PacketHeader) (payload : List Byte) (maxFragPayload totalFrags i : Nat) :
    PacketHeader × List Byte :=
  let offset := i * maxFragPayload
  let fragSize :=
    if offset + maxFragPayload > payload.length then payload.length - offset else maxFragPayload
  ({ hdr with
      flags := hdr.flags ||| flagFragment, fragId := BitVec.ofNat 16 i,
      totalFrags := BitVec.ofNat 16 totalFrags, payloadLen := BitVec.ofNat 16 fragSize },
    slice payload offset (offset + fragSize))

/-- `FragmentPacket`: the serialized fragments and their headers, none when the payload fits.
The `uint` arithmetic is exact on Go slices (under `2^63` bytes) except `mtu - 28`, which
wraps. -/
def fragmentPacket (hdr : PacketHeader) (payload : List Byte) (mtu : BitVec 64) :
    Except String (List (List Byte) × List PacketHeader) :=
  let maxFragPayload := (mtu - 24 - 4).toNat
  if maxFragPayload = 0 then .error "MTU too small for fragmentation" else
  let payloadSize := payload.length
  if payloadSize ≤ maxFragPayload then .ok ([], []) else
  let totalFrags := (payloadSize + maxFragPayload - 1) / maxFragPayload
  if totalFrags > fragMaxFragments then .error "too many fragments required" else
  match (List.range totalFrags).mapM (fun i =>
      let fragment := fragmentAt hdr payload maxFragPayload totalFrags i
      (serialize fragment.1 fragment.2).map fun bytes => (bytes, fragment.1)) with
  | .error err => .error err
  | .ok pieces => .ok pieces.unzip

/-! ## What `fragmentPacket` returns -/

theorem mapM_eq_ok_map {α β : Type} {f : α → Except String β} (g : α → β) {l : List α}
    {ys : List β} (mapped : l.mapM f = .ok ys) (determined : ∀ a ∈ l, ∀ b, f a = .ok b → b = g a) :
    ys = l.map g ∧ ∀ a ∈ l, f a = .ok (g a) := by
  induction l generalizing ys with
  | nil =>
    rw [List.mapM_nil] at mapped
    cases mapped
    simp
  | cons a rest ih =>
    rw [List.mapM_cons] at mapped
    cases fa : f a with
    | error err => rw [fa] at mapped; cases mapped
    | ok b =>
      cases frest : rest.mapM f with
      | error err => rw [fa, frest] at mapped; cases mapped
      | ok bs =>
        rw [fa, frest] at mapped
        cases mapped
        obtain ⟨same, rest_ok⟩ := ih frest (fun a' mem => determined a' (.tail _ mem))
        obtain rfl := determined a (.head _) b fa
        exact ⟨by rw [same, List.map_cons], by simp_all⟩

theorem mapM_eq_ok_of_forall {α β : Type} {f : α → Except String β} (g : α → β) {l : List α}
    (each : ∀ a ∈ l, f a = .ok (g a)) : l.mapM f = .ok (l.map g) := by
  induction l with
  | nil => rfl
  | cons a rest ih =>
    rw [List.mapM_cons, each a (.head _), ih fun a' mem => each a' (.tail _ mem)]
    rfl

/-- The count of fragments covers the payload: the last one starts before its end. -/
theorem fragment_offsets {size m : Nat} (positive : 0 < m) {i : Nat}
    (hi : i < (size + m - 1) / m) : i * m < size ∧ size ≤ (size + m - 1) / m * m := by
  have parts := Nat.div_add_mod (size + m - 1) m
  have rest := Nat.mod_lt (size + m - 1) positive
  have below : (i + 1) * m ≤ (size + m - 1) / m * m := Nat.mul_le_mul_right m hi
  rw [Nat.mul_comm m] at parts
  rw [Nat.succ_mul] at below
  omega

theorem serialize_map_eq_ok {hdr : PacketHeader} {payload : List Byte}
    {result : List Byte × PacketHeader} :
    (serialize hdr payload).map (fun bytes => (bytes, hdr)) = .ok result ↔
      payload.length ≤ 65535 ∧ result = (frame hdr payload, hdr) := by
  cases serialized : serialize hdr payload with
  | error err =>
    refine ⟨fun h => (by cases h), fun ⟨fits, _⟩ => ?_⟩
    rw [serialize_eq_ok _ fits] at serialized
    cases serialized
  | ok bytes =>
    obtain ⟨fits, rfl⟩ := serialize_eq_ok_iff.mp serialized
    simp [Except.map, fits, eq_comm]

/-- A piece is at most `maxFragPayload` bytes. -/
theorem length_fragmentAt_le (hdr : PacketHeader) (payload : List Byte) (m total i : Nat) :
    (fragmentAt hdr payload m total i).2.length ≤ m := by
  simp only [fragmentAt, length_slice]
  split_ifs <;> omega

/-- What `FragmentPacket` can return: no frames for a payload within `m = mtu - 28`, or the
`(size + m - 1) / m ≤ 256` frames of the pieces `fragmentAt` cuts, each fitting `Serialize`. -/
theorem fragmentPacket_cases {hdr : PacketHeader} {payload : List Byte} {mtu : BitVec 64}
    {frames : List (List Byte)} {headers : List PacketHeader}
    (fragmented : fragmentPacket hdr payload mtu = .ok (frames, headers))
    {m total : Nat} (hm : (mtu - 24 - 4).toNat = m) (htotal : (payload.length + m - 1) / m = total) :
    0 < m ∧ (payload.length ≤ m ∧ frames = [] ∧ headers = [] ∨
      m < payload.length ∧ total ≤ fragMaxFragments ∧
        frames = (List.range total).map (fun i =>
          frame (fragmentAt hdr payload m total i).1 (fragmentAt hdr payload m total i).2) ∧
        headers = (List.range total).map (fun i => (fragmentAt hdr payload m total i).1) ∧
        ∀ i < total, (fragmentAt hdr payload m total i).2.length ≤ 65535) := by
  subst hm htotal
  unfold fragmentPacket at fragmented
  simp only at fragmented
  split_ifs at fragmented with zero fits many
  · simp only [Except.ok.injEq, Prod.mk.injEq] at fragmented
    exact ⟨Nat.pos_of_ne_zero zero, .inl ⟨fits, fragmented.1.symm, fragmented.2.symm⟩⟩
  split at fragmented
  · cases fragmented
  rename_i pieces mapped
  obtain ⟨rfl, each⟩ := mapM_eq_ok_map (fun i =>
      let fragment := fragmentAt hdr payload _ _ i
      (frame fragment.1 fragment.2, fragment.1)) mapped
      (fun i _ b ok => (serialize_map_eq_ok.mp ok).2)
  simp only [Except.ok.injEq, List.unzip_eq_map, List.map_map, Prod.mk.injEq] at fragmented
  exact ⟨Nat.pos_of_ne_zero zero, .inr ⟨by omega, by omega, fragmented.1.symm, fragmented.2.symm,
    fun i hi => (serialize_map_eq_ok.mp (each i (List.mem_range.mpr hi))).1⟩⟩

/-- What a successful `FragmentPacket` returns when it fragments: `(size + m - 1) / m` frames of
the pieces `fragmentAt` cuts, each at most 65535 bytes. -/
theorem fragmentPacket_eq_ok {hdr : PacketHeader} {payload : List Byte} {mtu : BitVec 64}
    {frames : List (List Byte)} {headers : List PacketHeader}
    (fragmented : fragmentPacket hdr payload mtu = .ok (frames, headers)) (nonempty : frames ≠ [])
    {m total : Nat} (hm : (mtu - 24 - 4).toNat = m) (htotal : (payload.length + m - 1) / m = total) :
    0 < m ∧ m < payload.length ∧ total ≤ fragMaxFragments ∧
      frames = (List.range total).map (fun i =>
        frame (fragmentAt hdr payload m total i).1 (fragmentAt hdr payload m total i).2) ∧
      headers = (List.range total).map (fun i => (fragmentAt hdr payload m total i).1) ∧
      ∀ i < total, (fragmentAt hdr payload m total i).2.length ≤ 65535 := by
  obtain ⟨positive, ⟨-, rfl, -⟩ | fragments⟩ := fragmentPacket_cases fragmented hm htotal
  · exact absurd rfl nonempty
  · exact ⟨positive, fragments⟩

/-- `FragmentPacket` returns no frames only for a payload within `mtu - 28`, as that
difference wraps. -/
theorem fragmentPacket_eq_ok_nil {hdr : PacketHeader} {payload : List Byte} {mtu : BitVec 64}
    {headers : List PacketHeader} (unfragmented : fragmentPacket hdr payload mtu = .ok ([], headers)) :
    payload.length ≤ (mtu - 24 - 4).toNat := by
  obtain ⟨positive, ⟨fits, -⟩ | ⟨longer, -, none, -⟩⟩ := fragmentPacket_cases unfragmented rfl rfl
  · exact fits
  · have count := congrArg List.length none
    rw [List.length_nil, List.length_map, List.length_range] at count
    exact absurd count (Nat.div_pos (by omega) positive).ne

/-- A payload within `mtu - 28`, when that is positive, is not fragmented. -/
theorem fragmentPacket_of_fits (hdr : PacketHeader) {payload : List Byte} {mtu : BitVec 64}
    (positive : 0 < (mtu - 24 - 4).toNat) (fits : payload.length ≤ (mtu - 24 - 4).toNat) :
    fragmentPacket hdr payload mtu = .ok ([], []) := by
  simp only [fragmentPacket, if_neg positive.ne', if_pos fits]

/-- A payload longer than `m = mtu - 28 ≤ 65535` that needs at most 256 pieces is fragmented into
the frames of the pieces `fragmentAt` cuts. -/
theorem fragmentPacket_of_long (hdr : PacketHeader) {payload : List Byte} {mtu : BitVec 64}
    {m : Nat} (hm : (mtu - 24 - 4).toNat = m) (positive : 0 < m) (longer : m < payload.length)
    (few : (payload.length + m - 1) / m ≤ fragMaxFragments) (small : m ≤ 65535) :
    let total := (payload.length + m - 1) / m
    fragmentPacket hdr payload mtu = .ok ((List.range total).map (fun i =>
        frame (fragmentAt hdr payload m total i).1 (fragmentAt hdr payload m total i).2),
      (List.range total).map (fun i => (fragmentAt hdr payload m total i).1)) := by
  intro total
  have each : ∀ i ∈ List.range total,
      (let fragment := fragmentAt hdr payload m total i
       (serialize fragment.1 fragment.2).map fun bytes => (bytes, fragment.1)) =
      .ok (frame (fragmentAt hdr payload m total i).1 (fragmentAt hdr payload m total i).2,
        (fragmentAt hdr payload m total i).1) := fun i _ =>
    serialize_map_eq_ok.mpr ⟨(length_fragmentAt_le hdr payload m total i).trans small, rfl⟩
  simp only [fragmentPacket, hm, if_neg positive.ne', if_neg (Nat.not_le.mpr longer),
    if_neg (Nat.not_lt.mpr few), mapM_eq_ok_of_forall _ each, List.unzip_eq_map, List.map_map]
  rfl

theorem fragmentAt_fragId (hdr : PacketHeader) (payload : List Byte) (m total : Nat) {i : Nat}
    (small : i < 65536) : (fragmentAt hdr payload m total i).1.fragId.toNat = i := by
  simp [fragmentAt, Nat.mod_eq_of_lt small]

/-- Each fragment's header declares the length of its piece, when the piece fits `Serialize`. -/
theorem fragmentAt_declared (hdr : PacketHeader) (payload : List Byte) {m : Nat} (positive : 0 < m)
    (total : Nat) {i : Nat} (hi : i < (payload.length + m - 1) / m)
    (fits : (fragmentAt hdr payload m total i).2.length ≤ 65535) :
    (fragmentAt hdr payload m total i).1.payloadLen.toNat =
      (fragmentAt hdr payload m total i).2.length := by
  have starts := (fragment_offsets positive hi).1
  simp only [fragmentAt, length_slice] at fits ⊢
  split_ifs at fits ⊢ <;>
    simp only [BitVec.toNat_ofNat] <;> rw [Nat.mod_eq_of_lt (by omega)] <;> omega

/-- The first `k` pieces are the first `k * m` bytes of the payload. -/
theorem flatMap_range_fragmentAt (hdr : PacketHeader) (payload : List Byte) {m : Nat}
    (positive : 0 < m) (total : Nat) {k : Nat} (hk : k ≤ (payload.length + m - 1) / m) :
    (List.range k).flatMap (fun i => (fragmentAt hdr payload m total i).2) =
      payload.take (k * m) := by
  induction k with
  | zero => simp
  | succ k ih =>
    have starts := (fragment_offsets positive (Nat.lt_of_succ_le hk)).1
    rw [List.range_succ, List.flatMap_append, ih (by omega), List.flatMap_singleton, fragmentAt]
    dsimp only
    split_ifs with last
    · rw [take_append_slice _ (by omega), Nat.add_sub_cancel' (by omega), List.take_length,
        List.take_of_length_le (by rw [Nat.succ_mul]; omega)]
    · rw [take_append_slice _ (by omega), Nat.succ_mul]

/-- The pieces of `fragmentPacket` joined in order are the payload. -/
theorem flatMap_fragmentAt (hdr : PacketHeader) (payload : List Byte) {m : Nat}
    (positive : 0 < m) (total : Nat) :
    (List.range ((payload.length + m - 1) / m)).flatMap
      (fun i => (fragmentAt hdr payload m total i).2) = payload := by
  rw [flatMap_range_fragmentAt hdr payload positive total le_rfl]
  rcases Nat.eq_zero_or_pos payload.length with empty | nonempty
  · simp [List.length_eq_zero.mp empty]
  · exact List.take_of_length_le
      (fragment_offsets positive (i := 0) (Nat.div_pos (by omega) positive)).2

/-! ## What `assemble` collects -/

/-- `collectFragments` over indices whose slots all hold `piece i` returns the pieces joined. -/
theorem collectFragments_eq_ok (fragments : Fin 256 → Option (List Byte))
    (piece : Nat → List Byte) (is : List Nat)
    (present : ∀ i ∈ is, ∃ inRange : i < 256, fragments ⟨i, inRange⟩ = some (piece i)) :
    collectFragments fragments is = .ok (is.flatMap piece) := by
  induction is with
  | nil => rfl
  | cons i rest ih =>
    obtain ⟨inRange, stored⟩ := present i (.head _)
    rw [collectFragments, dif_pos inRange, stored, ih fun j mem => present j (.tail _ mem)]
    rfl

end OverProto
