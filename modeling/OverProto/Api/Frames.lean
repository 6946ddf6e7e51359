import OverProto.Api.Send
import OverProto.Core.Fragment
import OverProto.Transport.RecvWindow

/-!
# What the library writes is decodable

Four functions emit frames: `Send` (through `TCPSend` or `UDPSend`), `FragmentPacket`,
`ReliableContext.Send` and `sendACK`. Each writes what `Serialize` returned, and `Deserialize`
gives back the payload `Serialize` was handed exactly when the header declares its length.
The first, second and fourth set the length field themselves. `ReliableContext.Send` keeps the
caller's field, so a header whose `PayloadLen` was never set, as `NewPacketHeader` leaves it,
makes it write a frame that does not decode to its payload.
-/

namespace OverProto

/-- `F` is what `Serialize` returned for some header and payload, and `Deserialize` gives that
payload back. -/
def RoundTrips (F : List Byte) : Prop :=
  ∃ hdr payload, serialize hdr payload = .ok F ∧ ∃ decoded, deserialize F = .ok (decoded, payload)

theorem roundTrips_frame (hdr : PacketHeader) (payload : List Byte)
    (valid : hdr.magic = magic ∧ hdr.version = version)
    (declared : hdr.payloadLen.toNat = payload.length) (fits : payload.length ≤ 65535) :
    RoundTrips (frame hdr payload) :=
  ⟨hdr, payload, serialize_eq_ok hdr fits, _, deserialize_frame hdr payload valid declared⟩

/-- Every fragment `FragmentPacket` returns declares the length of its piece. -/
theorem fragmentPacket_roundTrips {hdr : PacketHeader} {payload : List Byte} {mtu : BitVec 64}
    {frames : List (List Byte)} {headers : List PacketHeader}
    (valid : hdr.magic = magic ∧ hdr.version = version)
    (fragmented : fragmentPacket hdr payload mtu = .ok (frames, headers)) :
    ∀ F ∈ frames, RoundTrips F := by
  rcases eq_or_ne frames [] with rfl | nonempty
  · simp
  obtain ⟨positive, -, -, rfl, -, fits⟩ := fragmentPacket_eq_ok fragmented nonempty rfl rfl
  simp only [List.mem_map, List.mem_range]
  rintro _ ⟨i, hi, rfl⟩
  exact roundTrips_frame _ _ valid (fragmentAt_declared hdr payload positive _ hi (fits i hi))
    (fits i hi)

/-- The frames of `Send`, `FragmentPacket` and `sendACK` decode to the payload they were
serialized with. A frame `ReliableContext.Send` writes does so exactly when the caller's header
declares the payload's length, and a header from `NewPacketHeader` with a one-byte payload makes
it write one that does not. -/
theorem emitted_frames_decode :
    (∀ (zlib : Zlib) (gcm : Gcm) (lib : Library) (world : World) (conn : Conn)
      (streamId : BitVec 32) (opcode proto : BitVec 8) (data : List Byte) (flags : BitVec 8)
      (n : Nat), (send zlib gcm lib world conn streamId opcode proto data flags).1 = .ok n →
      ∃ F, (send zlib gcm lib world conn streamId opcode proto data flags).2 = [F] ∧
        RoundTrips F) ∧
    (∀ (hdr : PacketHeader) (payload : List Byte) (mtu : BitVec 64) (frames : List (List Byte))
      (headers : List PacketHeader), hdr.magic = magic ∧ hdr.version = version →
      fragmentPacket hdr payload mtu = .ok (frames, headers) → ∀ F ∈ frames, RoundTrips F) ∧
    (∀ (ackSeq : BitVec 32) (now : Int),
      ∃ F, ReliableContext.sendAck ackSeq now = [F] ∧ RoundTrips F) ∧
    (∀ (ctx : ReliableContext) (hdr : PacketHeader) (payload : List Byte) (now : Int)
      (writeErr : Option String), hdr.magic = magic ∧ hdr.version = version →
      ∀ F ∈ (ctx.send hdr payload now writeErr).2.2,
        (∃ decoded, deserialize F = .ok (decoded, payload)) ↔
          hdr.payloadLen.toNat = payload.length) ∧
    (let written := ((newReliableContext "peer").send (newPacketHeader 0) [1] 0 none).2.2
     written.length = 1 ∧ ∀ F ∈ written, ∀ decoded, deserialize F ≠ .ok (decoded, [1])) := by
  have reliable (ctx : ReliableContext) (hdr : PacketHeader) (payload : List Byte) (now : Int)
      (writeErr : Option String) (valid : hdr.magic = magic ∧ hdr.version = version)
      (F : List Byte) (written : F ∈ (ctx.send hdr payload now writeErr).2.2) :
      (∃ decoded, deserialize F = .ok (decoded, payload)) ↔
        hdr.payloadLen.toNat = payload.length := by
    rw [(ctx.send_written hdr payload now writeErr written).2]
    exact deserialize_frame_iff _ payload valid
  refine ⟨fun zlib gcm lib world conn streamId opcode proto data flags n sent => ?_,
    fun _ _ _ _ _ valid fragmented => fragmentPacket_roundTrips valid fragmented,
    fun ackSeq now => ⟨_, sendAck_eq ackSeq now, roundTrips_frame _ [] ⟨rfl, rfl⟩ rfl (by simp)⟩,
    reliable, by decide, fun F written decoded accepted => ?_⟩
  · obtain ⟨-, -, sealed, hdr, -, stamped, fits, written⟩ := send_eq_ok sent
    obtain ⟨valid, version_ok, -, -, -, -, -, declared⟩ := stampHeader_eq_ok stamped
    exact ⟨_, written, roundTrips_frame hdr sealed ⟨valid, version_ok⟩ declared fits⟩
  · have declared := (reliable _ _ _ _ _ ⟨rfl, rfl⟩ F written).mp ⟨decoded, accepted⟩
    exact absurd declared (by decide)

end OverProto
