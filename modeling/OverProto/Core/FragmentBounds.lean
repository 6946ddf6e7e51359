import OverProto.Core.Reassembly

/-!
# Bounds of the fragment code

Three bounds the fragment code relies on, and where each holds.

The arrays of a `FragmentContext` have 256 slots, and `AddFragment` indexes them with any
`fragID` below the `TotalFrags` of the context. `Assemble` dereferences the header of fragment
0. Over any sequence of calls, neither panics exactly when the count is between 1 and 256
(`fragmentContext_safe_iff`). The invariant `Sound` carries the argument: `AddFragment` keeps
it and `Assemble` never panics under it.

`FragmentPacket` cuts pieces of `mtu - 28` bytes, a difference taken in `uint`. From an MTU of
28 on, every frame it returns fits the MTU, and so does a payload it lets through whole. Below
28 the difference wraps, and every payload is let through whole (`fragmentPacket_fits_mtu`).

`Assemble` writes the joined length into the 16-bit `PayloadLen`. `FragmentPacket` accepts up to
256 pieces of up to 65535 bytes, so a reassembled payload of `2^16` bytes or more declares its
length modulo `2^16` (`reassembled_payloadLen_wraps`).
-/

namespace OverProto

/-! ## Calls on a fragment context -/

/-- A call on a `FragmentContext`: `AddFragment(fragID, hdr, data)` or `Assemble()`. -/
inductive FragmentCall where
  | addFragment (fragId : BitVec 16) (hdr : PacketHeader) (data : List Byte)
  | assemble

/-- What a call returns: the flag of `AddFragment`, or the header and payload of `Assemble`. -/
inductive CallResult where
  | added (done : Bool)
  | assembled (hdr : PacketHeader) (payload : List Byte)
deriving DecidableEq

namespace FragmentContext

/-- One call: what it returns and the context after it. `Assemble` only reads the context. -/
def call (ctx : FragmentContext) : FragmentCall → Outcome CallResult × FragmentContext
  | .addFragment fragId hdr data =>
    match ctx.addFragment fragId hdr data with
    | .ok (done, next) => (.ok (.added done), next)
    | .error err => (.error err, ctx)
    | .panic msg => (.panic msg, ctx)
  | .assemble =>
    match ctx.assemble with
    | .ok (hdr, payload) => (.ok (.assembled hdr payload), ctx)
    | .error err => (.error err, ctx)
    | .panic msg => (.panic msg, ctx)

/-- What the calls return, in order; a panic ends the run. -/
def callAll (ctx : FragmentContext) : List FragmentCall → List (Outcome CallResult)
  | [] => []
  | c :: rest =>
    match ctx.call c with
    | (.ok r, next) => .ok r :: next.callAll rest
    | (.error err, next) => .error err :: next.callAll rest
    | (.panic msg, _) => [.panic msg]

/-- A context for between 1 and 256 fragments whose header is set once fragment 0 is stored. -/
structure Sound (ctx : FragmentContext) : Prop where
  positive : 0 < ctx.totalFrags.toNat
  small : ctx.totalFrags.toNat ≤ 256
  header : (ctx.fragments 0).isSome → ctx.header.isSome

theorem sound_newFragmentContext (streamId seq : BitVec 32) {n : BitVec 16}
    (positive : 0 < n.toNat) (small : n.toNat ≤ 256) : Sound (newFragmentContext streamId seq n) :=
  ⟨positive, small, fun stored => by simp [newFragmentContext] at stored⟩

/-- Under `Sound`, `AddFragment` returns an error or keeps `Sound`: every index it accepts is
below the count, so within the 256 slots. -/
theorem Sound.addFragment {ctx : FragmentContext} (sound : Sound ctx) (fragId : BitVec 16)
    (hdr : PacketHeader) (data : List Byte) :
    (∃ err, ctx.addFragment fragId hdr data = .error err) ∨
      ∃ done next, ctx.addFragment fragId hdr data = .ok (done, next) ∧ Sound next := by
  by_cases invalid : ctx.totalFrags ≤ fragId
  · exact .inl ⟨_, by rw [FragmentContext.addFragment, if_pos invalid]⟩
  have inRange : fragId.toNat < 256 := by
    rw [BitVec.le_def] at invalid
    exact (Nat.lt_of_not_le invalid).trans_le sound.small
  rw [FragmentContext.addFragment, if_neg invalid, dif_pos inRange]
  dsimp only
  split
  · exact .inr ⟨false, ctx, rfl, sound⟩
  · refine .inr ⟨_, _, rfl, sound.positive, sound.small, fun stored => ?_⟩
    by_cases zero : fragId = 0
    · simp [zero]
    · have other : (0 : Fin 256) ≠ ⟨fragId.toNat, inRange⟩ := fun same =>
        zero (BitVec.eq_of_toNat_eq (congrArg Fin.val same).symm)
      simp only [Function.update_noteq other] at stored
      rw [if_neg zero]
      exact sound.header stored

theorem collectFragments_ne_panic (fragments : Fin 256 → Option (List Byte)) {is : List Nat}
    (inRange : ∀ i ∈ is, i < 256) (msg : String) : collectFragments fragments is ≠ .panic msg := by
  induction is generalizing msg with
  | nil => exact Outcome.noConfusion
  | cons i rest ih =>
    rw [collectFragments, dif_pos (inRange i (.head _))]
    split
    · exact Outcome.noConfusion
    · split
      · exact Outcome.noConfusion
      · exact Outcome.noConfusion
      · next msg' collected =>
        exact absurd collected (ih (fun j mem => inRange j (.tail _ mem)) msg')

/-- Collecting a positive number of fragments reads fragment 0 first. -/
theorem collectFragments_range_first {fragments : Fin 256 → Option (List Byte)} {n : Nat}
    (positive : 0 < n) {payload : List Byte}
    (collected : collectFragments fragments (List.range n) = .ok payload) :
    (fragments 0).isSome := by
  obtain ⟨n, rfl⟩ : ∃ k, n = k + 1 := ⟨n - 1, by omega⟩
  rw [List.range_succ_eq_map, collectFragments, dif_pos (by decide)] at collected
  split at collected
  · cases collected
  · next piece stored => exact stored ▸ rfl

/-- Under `Sound`, `Assemble` never panics: its loops stay below the count, and once they find
every fragment, fragment 0 brought the header. -/
theorem Sound.assemble_ne_panic {ctx : FragmentContext} (sound : Sound ctx) (msg : String) :
    ctx.assemble ≠ .panic msg := by
  unfold assemble
  split_ifs
  · exact Outcome.noConfusion
  split
  · exact Outcome.noConfusion
  · next msg' collected =>
    exact absurd collected (collectFragments_ne_panic _ (fun i mem => by
      simp only [List.mem_range] at mem; exact mem.trans_le sound.small) msg')
  · next payload collected =>
    split
    · next missing =>
      have := sound.header (collectFragments_range_first sound.positive collected)
      simp [missing] at this
    · exact Outcome.noConfusion

/-- From a `Sound` context no sequence of calls panics. -/
theorem Sound.callAll {ctx : FragmentContext} (sound : Sound ctx) (calls : List FragmentCall)
    (msg : String) : .panic msg ∉ ctx.callAll calls := by
  induction calls generalizing ctx with
  | nil => simp [FragmentContext.callAll]
  | cons c rest ih =>
    cases c with
    | addFragment fragId hdr data =>
      rcases sound.addFragment fragId hdr data with ⟨err, failed⟩ | ⟨done, next, added, sound'⟩
      · simp [FragmentContext.callAll, call, failed, ih sound]
      · simp [FragmentContext.callAll, call, added, ih sound']
    | assemble =>
      cases assembled : ctx.assemble with
      | ok result => simp [FragmentContext.callAll, call, assembled, ih sound]
      | error err => simp [FragmentContext.callAll, call, assembled, ih sound]
      | panic m => exact absurd assembled (sound.assemble_ne_panic m)

end FragmentContext

/-- A context made by `NewFragmentContext` survives every sequence of calls exactly when its
count is between 1 and 256. Above 256, `AddFragment(256, …)` indexes past the arrays; at 0,
`Assemble` passes its count check and dereferences the header no fragment brought. -/
theorem fragmentContext_safe_iff (streamId seq : BitVec 32) (n : BitVec 16) :
    ((∀ calls msg, .panic msg ∉ (newFragmentContext streamId seq n).callAll calls) ↔
      0 < n.toNat ∧ n.toNat ≤ 256) ∧
    (256 < n.toNat → ∀ hdr data,
      (newFragmentContext streamId seq n).callAll [.addFragment 256 hdr data] =
        [.panic (indexOutOfRange 256)]) ∧
    (n = 0 → (newFragmentContext streamId seq n).callAll [.assemble] = [.panic nilDereference]) := by
  have large (above : 256 < n.toNat) (hdr : PacketHeader) (data : List Byte) :
      (newFragmentContext streamId seq n).callAll [.addFragment 256 hdr data] =
        [.panic (indexOutOfRange 256)] := by
    simp [FragmentContext.callAll, FragmentContext.call, FragmentContext.addFragment,
      newFragmentContext, BitVec.le_def, Nat.not_le.mpr above]
  have empty (zero : n = 0) :
      (newFragmentContext streamId seq n).callAll [.assemble] = [.panic nilDereference] := by
    subst zero
    rfl
  refine ⟨⟨fun safe => ?_, fun ⟨positive, small⟩ =>
    (FragmentContext.sound_newFragmentContext streamId seq positive small).callAll⟩, large, empty⟩
  by_contra outside
  rcases Nat.eq_zero_or_pos n.toNat with zero | positive
  · have := safe [.assemble] nilDereference
    rw [empty (BitVec.eq_of_toNat_eq zero)] at this
    exact this (.head _)
  · have := safe [.addFragment 256 (newPacketHeader 0) []] (indexOutOfRange 256)
    rw [large (by omega) _ _] at this
    exact this (.head _)

/-! ## Frames within the MTU -/

/-- From an MTU of 28 on, `FragmentPacket` lets a payload through whole only when its frame fits
the MTU, and otherwise returns `⌈len / (mtu - 28)⌉ ≤ 256` frames, each within the MTU. Below 28,
`mtu - 28` wraps and every payload is let through whole, such as one byte under an MTU of 0. -/
theorem fragmentPacket_fits_mtu :
    (∀ (hdr : PacketHeader) (payload : List Byte) (mtu : BitVec 64), 28 ≤ mtu.toNat →
      (∀ headers, fragmentPacket hdr payload mtu = .ok ([], headers) →
        24 + payload.length + 4 ≤ mtu.toNat) ∧
      ∀ frames headers, fragmentPacket hdr payload mtu = .ok (frames, headers) → frames ≠ [] →
        (∀ F ∈ frames, F.length ≤ mtu.toNat) ∧
        frames.length = (payload.length + (mtu.toNat - 28) - 1) / (mtu.toNat - 28) ∧
        frames.length ≤ 256) ∧
    (∀ (hdr : PacketHeader) (payload : List Byte) (mtu : BitVec 64), mtu.toNat < 28 →
      payload.length ≤ 2 ^ 64 - 28 → fragmentPacket hdr payload mtu = .ok ([], [])) ∧
    (fragmentPacket (newPacketHeader 0) [1] 0 = .ok ([], []) ∧
      (0 : BitVec 64).toNat < 24 + [1].length + 4) := by
  have wrapped (hdr : PacketHeader) (payload : List Byte) (mtu : BitVec 64) (small : mtu.toNat < 28)
      (sized : payload.length ≤ 2 ^ 64 - 28) : fragmentPacket hdr payload mtu = .ok ([], []) := by
    have wraps : (mtu - 24 - 4).toNat = 2 ^ 64 + mtu.toNat - 28 := by bv_omega
    exact fragmentPacket_of_fits hdr (by omega) (by omega)
  refine ⟨fun hdr payload mtu large => ⟨fun headers unfragmented => ?_,
    fun frames headers fragmented nonempty => ?_⟩, wrapped, wrapped _ _ 0 (by decide) (by simp),
    by decide⟩
  all_goals have exact : (mtu - 24 - 4).toNat = mtu.toNat - 28 := by bv_omega
  · have := fragmentPacket_eq_ok_nil unfragmented
    omega
  · obtain ⟨-, -, few, rfl, -, -⟩ := fragmentPacket_eq_ok fragmented nonempty exact rfl
    refine ⟨?_, by simp, by simpa [fragMaxFragments] using few⟩
    simp only [List.mem_map, List.mem_range]
    rintro _ ⟨i, -, rfl⟩
    rw [length_frame]
    exact (Nat.add_le_add_left (length_fragmentAt_le _ _ _ _ _) 28).trans_eq (by omega)

/-! ## The reassembled length -/

/-- After `FragmentPacket` accepts a payload and its frames are received in order, `Assemble`
returns the payload under a header that declares its length modulo `2^16`. A payload of 65536
bytes under an MTU of 65563 is accepted in two frames and declares the length 0. -/
theorem reassembled_payloadLen_wraps :
    (∀ (hdr : PacketHeader) (payload : List Byte) (mtu : BitVec 64) (frames : List (List Byte))
      (headers : List PacketHeader), hdr.magic = magic ∧ hdr.version = version →
      fragmentPacket hdr payload mtu = .ok (frames, headers) → frames ≠ [] →
      ∃ flags ctx first, receiveAll (newFragmentContext hdr.streamId hdr.seq
          (BitVec.ofNat 16 frames.length)) frames = .ok (flags, ctx) ∧
        ctx.assemble = .ok (first, payload) ∧ first.payloadLen.toNat = payload.length % 65536) ∧
    (let payload := List.replicate 65536 (0 : Byte)
     ∃ frames headers flags ctx first,
       fragmentPacket (newPacketHeader 0) payload 65563 = .ok (frames, headers) ∧
       frames.length = 2 ∧ receiveAll (newFragmentContext 0 0 2) frames = .ok (flags, ctx) ∧
       ctx.assemble = .ok (first, payload) ∧ first.payloadLen = 0) := by
  have inOrder (hdr : PacketHeader) (payload : List Byte) (mtu : BitVec 64)
      (frames : List (List Byte)) (headers : List PacketHeader)
      (valid : hdr.magic = magic ∧ hdr.version = version)
      (fragmented : fragmentPacket hdr payload mtu = .ok (frames, headers)) (nonempty : frames ≠ []) :
      ∃ flags ctx first, receiveAll (newFragmentContext hdr.streamId hdr.seq
          (BitVec.ofNat 16 frames.length)) frames = .ok (flags, ctx) ∧
        ctx.assemble = .ok (first, payload) ∧ first.payloadLen.toNat = payload.length % 65536 := by
    have all : (List.range frames.length).map (fun d => frames.getD d []) = frames :=
      List.ext_getElem (by simp) fun i _ within => by
        simp [List.getD_eq_getElem?_getD, List.getElem?_eq_getElem within]
    obtain ⟨ctx, run, assembled⟩ := fragmentPacket_receiveAll valid fragmented nonempty
      (fun d mem => List.mem_range.mp mem : ∀ d ∈ List.range frames.length, d < frames.length)
      (fun i => List.mem_range.mpr)
    rw [all] at run
    exact ⟨_, ctx, _, run, assembled, by simp⟩
  refine ⟨inOrder, ?_⟩
  intro payload
  have length : payload.length = 65536 := List.length_replicate _ _
  obtain ⟨frames, headers, fragmented, count⟩ : ∃ frames headers,
      fragmentPacket (newPacketHeader 0) payload 65563 = .ok (frames, headers) ∧ frames.length = 2 :=
    ⟨_, _, fragmentPacket_of_long (newPacketHeader 0)
      (show ((65563 : BitVec 64) - 24 - 4).toNat = 65535 from rfl) (by decide)
      (by rw [length]; decide) (by rw [length]; decide) le_rfl,
      by rw [List.length_map, List.length_range, length]⟩
  obtain ⟨flags, ctx, first, run, assembled, declared⟩ :=
    inOrder _ _ _ _ _ ⟨rfl, rfl⟩ fragmented (List.ne_nil_of_length_pos (by rw [count]; decide))
  rw [count] at run
  refine ⟨frames, headers, flags, ctx, first, fragmented, count, run, assembled,
    BitVec.eq_of_toNat_eq ?_⟩
  rw [declared, length]
  rfl

end OverProto
