import OverProto.Core.Packet

/-!
# Laws of the codec

`deserialize` inverts `serialize` on every valid header and payload (`serialize_deserialize`),
and it also accepts a frame with extra bytes before the trailer (`deserialize_padded`): the
trailer is read from the end of the buffer and the declared length is only checked against it.
What it accepts is therefore a serialized packet with bytes inserted before its last four
(`deserialize_eq_ok_serialize`), and equal to one when the length matches.

A flipped bit is detected everywhere except where it lowers `payload_len`
(`deserialize_flipBit_error`): the shortened payload is checked against a trailer that still
sits at the end, and a crafted payload makes the two agree (`deserialize_misses_shortened_length`).
-/

namespace OverProto

/-! ## Round trip -/

/-- A serialized header followed by its payload, any bytes, and the trailer of header and
payload is decoded back to the header and the payload. -/
theorem deserialize_padded (hdr : PacketHeader) (payload junk : List Byte)
    (valid : hdr.magic = magic ∧ hdr.version = version)
    (declared : hdr.payloadLen.toNat = payload.length) :
    deserialize (headerBytes hdr ++ payload ++ junk ++
        putUint32 (computeCrc32 (headerBytes hdr ++ payload))) =
      .ok ({ hdr with timestamp := 0 }, payload) := by
  rw [deserialize_eq_ok_iff, drop_trailer]
  simp only [List.append_assoc, readHeader_headerBytes, slice_headerBytes_header,
    slice_headerBytes_payload, declared, List.take_left, uint32_putUint32, valid, true_and,
    and_true, List.length_append, length_headerBytes, length_putUint32]
  omega

theorem deserialize_frame (hdr : PacketHeader) (payload : List Byte)
    (valid : hdr.magic = magic ∧ hdr.version = version)
    (declared : hdr.payloadLen.toNat = payload.length) :
    deserialize (frame hdr payload) = .ok ({ hdr with timestamp := 0 }, payload) := by
  simpa only [List.append_nil] using deserialize_padded hdr payload [] valid declared

/-- `Serialize` then `Deserialize` returns the payload and the header with its reserved word
zero, for every valid header whose length field declares the payload's length. -/
theorem serialize_deserialize (hdr : PacketHeader) (payload : List Byte)
    (valid : hdr.magic = magic ∧ hdr.version = version) (fits : payload.length ≤ 65535)
    (declared : hdr.payloadLen.toNat = payload.length) :
    ∃ bytes, serialize hdr payload = .ok bytes ∧ bytes.length = 28 + payload.length ∧
      deserialize bytes = .ok ({ hdr with timestamp := 0 }, payload) :=
  ⟨_, serialize_eq_ok hdr fits, length_frame hdr payload, deserialize_frame hdr payload valid declared⟩

/-- The header of `TestPacketFormatCompatibility`, with `NewPacketHeader` taken at time 0. -/
def compatHeader : PacketHeader :=
  { newPacketHeader 0 with
    streamId := 0x12345678, seq := 0x87654321, fragId := 0x1111, totalFrags := 0x2222,
    payloadLen := 4, opcode := 0x01, proto := 0x01, flags := 0x02 }

theorem serialize_deserialize_compatHeader :
    (compatHeader.magic = magic ∧ compatHeader.version = version) ∧
      ([116, 101, 115, 116] : List Byte).length ≤ 65535 ∧ compatHeader.payloadLen.toNat = 4 ∧
      ∃ bytes, serialize compatHeader [116, 101, 115, 116] = .ok bytes ∧
        bytes.length = 28 + 4 ∧
        deserialize bytes = .ok ({ compatHeader with timestamp := 0 }, [116, 101, 115, 116]) :=
  ⟨⟨rfl, rfl⟩, by decide, by decide,
    serialize_deserialize compatHeader _ ⟨rfl, rfl⟩ (by decide) (by decide)⟩

/-! ## What `deserialize` accepts -/

/-- A buffer `Deserialize` accepts is a serialized packet with bytes inserted before its
trailer, and the serialized packet itself when its length matches. -/
theorem deserialize_eq_ok_serialize {data : List Byte} {hdr : PacketHeader}
    {payload : List Byte} (accepted : deserialize data = .ok (hdr, payload)) :
    28 + payload.length ≤ data.length ∧ hdr.payloadLen.toNat = payload.length ∧
      (hdr.timestamp = 0 →
        serialize hdr payload =
          .ok (data.take (24 + payload.length) ++ data.drop (data.length - 4)) ∧
        (data.length = 28 + payload.length → serialize hdr payload = .ok data)) := by
  obtain ⟨long, rfl, -, -, fits, rfl, crc⟩ := deserialize_eq_ok_iff.mp accepted
  have declared : (slice data 24 (24 + (readHeader data).payloadLen.toNat)).length =
      (readHeader data).payloadLen.toNat := by
    simp only [length_slice]; omega
  refine ⟨by omega, declared.symm, fun zero => ?_⟩
  have small : (readHeader data).payloadLen.toNat ≤ 65535 := by
    have := (readHeader data).payloadLen.isLt; omega
  have header : headerBytes (readHeader data) = slice data 0 24 := by
    rw [headerBytes_readHeader (by omega) zero, slice_eq_take_drop]; rfl
  have trailer : putUint32 (computeCrc32 (headerBytes (readHeader data) ++
      slice data 24 (24 + (readHeader data).payloadLen.toNat))) =
      data.drop (data.length - 4) := by
    rw [header, ← crc, putUint32_uint32_of_length (by simp; omega)]
  have front : headerBytes (readHeader data) ++
      slice data 24 (24 + (readHeader data).payloadLen.toNat) =
      data.take (24 + (readHeader data).payloadLen.toNat) := by
    rw [header, slice_append_slice _ (by omega) (by omega), slice_eq_take_drop]; rfl
  rw [declared, serialize_eq_ok _ (by rw [declared]; exact small), frame, trailer, front]
  refine ⟨rfl, fun exact => ?_⟩
  rw [show data.length - 4 = 24 + (readHeader data).payloadLen.toNat by omega,
    List.take_append_drop]

theorem deserialize_eq_ok_serialize_compatHeader :
    deserialize (frame compatHeader [116, 101, 115, 116]) =
        .ok ({ compatHeader with timestamp := 0 }, [116, 101, 115, 116]) ∧
      28 + 4 ≤ (frame compatHeader [116, 101, 115, 116]).length ∧
      ({ compatHeader with timestamp := 0 } : PacketHeader).payloadLen.toNat = 4 ∧
      (({ compatHeader with timestamp := 0 } : PacketHeader).timestamp = 0 →
        serialize { compatHeader with timestamp := 0 } [116, 101, 115, 116] =
          .ok ((frame compatHeader [116, 101, 115, 116]).take (24 + 4) ++
            (frame compatHeader [116, 101, 115, 116]).drop
              ((frame compatHeader [116, 101, 115, 116]).length - 4)) ∧
        ((frame compatHeader [116, 101, 115, 116]).length = 28 + 4 →
          serialize { compatHeader with timestamp := 0 } [116, 101, 115, 116] =
            .ok (frame compatHeader [116, 101, 115, 116]))) :=
  have accepted := deserialize_frame compatHeader [116, 101, 115, 116] ⟨rfl, rfl⟩ (by decide)
  ⟨accepted, deserialize_eq_ok_serialize accepted⟩

/-- A frame decodes to the payload it carries exactly when its header declares that payload's
length. -/
theorem deserialize_frame_iff (hdr : PacketHeader) (payload : List Byte)
    (valid : hdr.magic = magic ∧ hdr.version = version) :
    (∃ decoded, deserialize (frame hdr payload) = .ok (decoded, payload)) ↔
      hdr.payloadLen.toNat = payload.length := by
  refine ⟨fun ⟨decoded, accepted⟩ => ?_, fun declared =>
    ⟨_, deserialize_frame hdr payload valid declared⟩⟩
  obtain ⟨-, rfl, -⟩ := deserialize_eq_ok_iff.mp accepted
  obtain ⟨-, declared, -⟩ := deserialize_eq_ok_serialize accepted
  rwa [frame, List.append_assoc, readHeader_headerBytes] at declared

/-- `Deserialize` accepts a buffer one byte longer than the frame it holds. -/
theorem deserialize_accepts_padding :
    ¬ ∀ (data : List Byte) (hdr : PacketHeader) (payload : List Byte),
      deserialize data = .ok (hdr, payload) →
        data.length = 28 + payload.length ∧ hdr.payloadLen.toNat = payload.length ∧
        (hdr.timestamp = 0 → serialize hdr payload = .ok data) := by
  intro strict
  have padded := deserialize_padded (newPacketHeader 0) [] [0] ⟨rfl, rfl⟩ rfl
  have := (strict _ _ _ padded).1
  simp at this

/-! ## Single-bit errors -/

/-- The bytes with bit `j` of byte `k` inverted. -/
def flipBit (data : List Byte) (k j : Nat) : List Byte :=
  data.set k (data.getD k 0 ^^^ BitVec.twoPow 8 j)

@[simp] theorem length_flipBit (data : List Byte) (k j : Nat) :
    (flipBit data k j).length = data.length :=
  List.length_set ..

theorem flipBit_append_left {a : List Byte} (b : List Byte) {k : Nat} (j : Nat)
    (hk : k < a.length) : flipBit (a ++ b) k j = flipBit a k j ++ b := by
  rw [flipBit, flipBit, List.getD_append _ _ _ _ hk, List.set_append_left _ _ hk]

theorem flipBit_append_right (a : List Byte) {b : List Byte} {k : Nat} (j : Nat)
    (hk : a.length ≤ k) : flipBit (a ++ b) k j = a ++ flipBit b (k - a.length) j := by
  rw [flipBit, flipBit, List.getD_append_right _ _ _ _ hk, List.set_append_right _ _ hk]

theorem getD_flipBit_self {data : List Byte} {k : Nat} (j : Nat) (hk : k < data.length) :
    (flipBit data k j).getD k 0 = data.getD k 0 ^^^ BitVec.twoPow 8 j := by
  rw [flipBit, List.getD_eq_getElem _ _ (by simpa using hk), List.getElem_set_self]

theorem flipBit_ne {data : List Byte} {k j : Nat} (hk : k < data.length) (hj : j < 8) :
    flipBit data k j ≠ data := fun same =>
  twoPow_xor_ne _ hj ((getD_flipBit_self j hk).symm.trans (congrArg (List.getD · k 0) same))

theorem computeCrc32_flipBit_ne {data : List Byte} {k j : Nat} (hk : k < data.length)
    (hj : j < 8) : computeCrc32 (flipBit data k j) ≠ computeCrc32 data :=
  computeCrc32_set_ne data hk (by rw [← List.getD_eq_getElem _ 0]; exact twoPow_xor_ne _ hj)

theorem slice_flipBit_inside (l : List Byte) {lo hi k : Nat} (j : Nat) (hlo : lo ≤ k)
    (hhi : k < hi) : slice (flipBit l k j) lo hi = flipBit (slice l lo hi) (k - lo) j := by
  rw [flipBit, flipBit, slice_set_inside _ _ hlo, getD_slice _ (by omega), Nat.add_sub_cancel' hlo]

/-- A flipped bit of the header is caught: by the trailer, or by the length check when it raises
`payload_len`. -/
theorem deserialize_flipBit_header (hdr : PacketHeader) (payload : List Byte)
    (declared : hdr.payloadLen.toNat = payload.length) {k j : Nat} (hk : k < 24) (hj : j < 8)
    (raising : k = 18 ∨ k = 19 → ((frame hdr payload).getD k 0).getLsbD j = false)
    (hdr' : PacketHeader) (payload' : List Byte) :
    deserialize (flipBit (frame hdr payload) k j) ≠ .ok (hdr', payload') := by
  intro result
  have front : k < (headerBytes hdr).length := hk
  rw [frame, List.append_assoc, flipBit_append_left _ _ front, ← List.append_assoc] at result
  obtain ⟨rfl, within, rfl, crc⟩ := deserialize_shaped (by simp) (by simp) result
  have field : (readHeader (flipBit (headerBytes hdr) k j)).payloadLen =
      uint16 (slice (flipBit (headerBytes hdr) k j) 18 20) := rfl
  by_cases lengthField : k = 18 ∨ k = 19
  · have clear : ((slice (headerBytes hdr) 18 20).getD (k - 18) 0).getLsbD j = false := by
      rw [getD_slice _ (by omega), Nat.add_sub_cancel' (by omega), ← raising lengthField, frame,
        List.append_assoc, List.getD_append _ _ _ _ front]
    have raised := lt_uint16_flip (by simp) (by omega) hj clear
    rw [← flipBit, ← slice_flipBit_inside _ _ (by omega) (by omega), ← field,
      slice_headerBytes_payloadLen, uint16_putUint16] at raised
    omega
  · have same : (readHeader (flipBit (headerBytes hdr) k j)).payloadLen = hdr.payloadLen := by
      rw [field, flipBit, slice_set_outside _ _ (by omega), slice_headerBytes_payloadLen,
        uint16_putUint16]
    rw [same, declared, List.take_length, uint32_putUint32, ← flipBit_append_left _ _ front] at crc
    exact computeCrc32_flipBit_ne (by simp; omega) hj crc.symm

/-- A flipped bit of the payload is caught by the trailer. -/
theorem deserialize_flipBit_payload (hdr : PacketHeader) (payload : List Byte)
    (declared : hdr.payloadLen.toNat = payload.length) {k j : Nat} (past : 24 ≤ k)
    (inPayload : k < 24 + payload.length) (hj : j < 8) (hdr' : PacketHeader) (payload' : List Byte) :
    deserialize (flipBit (frame hdr payload) k j) ≠ .ok (hdr', payload') := by
  intro result
  have front : (headerBytes hdr).length ≤ k := past
  rw [frame, flipBit_append_left _ _ (by simp; omega), flipBit_append_right _ _ front] at result
  obtain ⟨rfl, -, rfl, crc⟩ := deserialize_shaped (by simp) (by simp) result
  rw [readHeader_headerBytes_self, declared, ← length_flipBit payload (k - _) j, List.take_length,
    uint32_putUint32, ← flipBit_append_right _ _ front] at crc
  exact computeCrc32_flipBit_ne (by simp; omega) hj crc.symm

/-- A flipped bit of the trailer is caught, since the trailer no longer reads as the CRC. -/
theorem deserialize_flipBit_trailer (hdr : PacketHeader) (payload : List Byte)
    (declared : hdr.payloadLen.toNat = payload.length) {k j : Nat}
    (inTrailer : 24 + payload.length ≤ k) (hk : k < 28 + payload.length) (hj : j < 8)
    (hdr' : PacketHeader) (payload' : List Byte) :
    deserialize (flipBit (frame hdr payload) k j) ≠ .ok (hdr', payload') := by
  intro result
  rw [frame, flipBit_append_right _ _ (by simp; omega)] at result
  obtain ⟨rfl, -, rfl, crc⟩ := deserialize_shaped (by simp) (by simp) result
  rw [readHeader_headerBytes_self, declared, List.take_length] at crc
  exact flipBit_ne (by simp; omega) hj
    (uint32_inj_of_length (by simp) (by simp) (crc.trans (uint32_putUint32 _).symm))

/-- Every flipped bit of a serialized packet is detected, except one that clears a bit of the
`payload_len` field. -/
theorem deserialize_flipBit_error (hdr : PacketHeader) (payload frameBytes : List Byte)
    (declared : hdr.payloadLen.toNat = payload.length)
    (serialized : serialize hdr payload = .ok frameBytes) {k j : Nat}
    (hk : k < frameBytes.length) (hj : j < 8)
    (raising : k = 18 ∨ k = 19 → (frameBytes.getD k 0).getLsbD j = false) :
    ∃ err, deserialize (flipBit frameBytes k j) = .error err := by
  obtain ⟨-, rfl⟩ := serialize_eq_ok_iff.mp serialized
  rw [length_frame] at hk
  cases result : deserialize (flipBit (frame hdr payload) k j) with
  | error err => exact ⟨err, rfl⟩
  | ok r =>
    refine absurd result ?_
    obtain ⟨hdr', payload'⟩ := r
    rcases Nat.lt_or_ge k 24 with inHeader | past
    · exact deserialize_flipBit_header hdr payload declared inHeader hj raising hdr' payload'
    rcases Nat.lt_or_ge k (24 + payload.length) with inPayload | inTrailer
    · exact deserialize_flipBit_payload hdr payload declared past inPayload hj hdr' payload'
    · exact deserialize_flipBit_trailer hdr payload declared inTrailer hk hj hdr' payload'

theorem deserialize_flipBit_error_length_raised :
    (newPacketHeader 0).payloadLen.toNat = ([] : List Byte).length ∧
      serialize (newPacketHeader 0) [] = .ok (frame (newPacketHeader 0) []) ∧
      19 < (frame (newPacketHeader 0) []).length ∧ 0 < 8 ∧
      (19 = 18 ∨ 19 = 19 → ((frame (newPacketHeader 0) []).getD 19 0).getLsbD 0 = false) ∧
      ∃ err, deserialize (flipBit (frame (newPacketHeader 0) []) 19 0) = .error err :=
  have serialized := @serialize_eq_ok (newPacketHeader 0) [] (by decide)
  have raising : 19 = 18 ∨ 19 = 19 → ((frame (newPacketHeader 0) []).getD 19 0).getLsbD 0 = false :=
    fun _ => by decide
  ⟨by decide, serialized, by simp, by decide, raising,
    deserialize_flipBit_error _ _ _ (by decide) serialized (by simp) (by decide) raising⟩

set_option maxRecDepth 20000 in
/-- Clearing bit 2 of byte 19 shortens a 4-byte payload to none, and the 24 header bytes that
remain have the digest of the original header and payload. -/
theorem deserialize_misses_shortened_length :
    ∃ (hdr : PacketHeader) (payload frameBytes : List Byte) (k j : Nat),
      hdr.magic = magic ∧ hdr.version = version ∧ payload.length ≤ 65535 ∧
      hdr.payloadLen.toNat = payload.length ∧ serialize hdr payload = .ok frameBytes ∧
      k < frameBytes.length ∧ j < 8 ∧
      deserialize (flipBit frameBytes k j) =
        .ok ({ hdr with payloadLen := 0, timestamp := 0 }, []) :=
  ⟨{ newPacketHeader 0 with opcode := 1, proto := 1, payloadLen := 4 }, [132, 70, 1, 11], _, 19, 2,
    rfl, rfl, by decide, rfl, serialize_eq_ok _ (by decide), by simp, by decide, by decide⟩

end OverProto
