import OverProto.Core.Crc32

/-!
# Packets and the codec

A packet on the wire is the 24-byte header, the payload and a big-endian CRC32 trailer computed
over the header bytes (with the word at offset 20 written as zero) followed by the payload.
`serialize` and `deserialize` are `Serialize` and `Deserialize` of `core/packet.go`.

`deserialize` reads the trailer from the last four bytes of its buffer and rejects a declared
payload length only when it runs past them, so a buffer longer than its frame is accepted.
The spec lemmas `serialize_eq_ok` and `deserialize_eq_ok_iff` say everything the two functions
do; the codec theorems use only them.
-/

namespace OverProto

/-! ## Constants of `core/common.go` -/

/-- `Magic`. -/
def magic : BitVec 16 := 0xABCD

/-- `Version`. -/
def version : BitVec 8 := 0x01

/-- `HeaderSize`. -/
def headerSize : Nat := 24

/-- `FragMaxFragments`. -/
def fragMaxFragments : Nat := 256

/-- `CompressThreshold`. -/
def compressThreshold : Nat := 512

/-- `FlagFragment`. -/
def flagFragment : BitVec 8 := 0x01

/-- `FlagCompressed`. -/
def flagCompressed : BitVec 8 := 0x02

/-- `FlagEncrypted`. -/
def flagEncrypted : BitVec 8 := 0x04

/-- `FlagReliable`. -/
def flagReliable : BitVec 8 := 0x08

/-- `FlagACK`. -/
def flagAck : BitVec 8 := 0x10

/-- `OpACK`. -/
def opAck : BitVec 8 := 0x03

/-- `ProtoTCP`. -/
def protoTcp : BitVec 8 := 0x01

/-- `ProtoUDP`. -/
def protoUdp : BitVec 8 := 0x02

/-- `PacketHeader`, without the `CRC32` field that no function reads. -/
structure PacketHeader where
  magic : BitVec 16
  version : BitVec 8
  flags : BitVec 8
  opcode : BitVec 8
  proto : BitVec 8
  streamId : BitVec 32
  seq : BitVec 32
  fragId : BitVec 16
  totalFrags : BitVec 16
  payloadLen : BitVec 16
  timestamp : BitVec 32
deriving DecidableEq, Repr

/-- Results of the model's fallible functions compare by constructor and contents, so that tests on
them can be decided. -/
instance instDecidableEqExcept {ε α : Type} [DecidableEq ε] [DecidableEq α] :
    DecidableEq (Except ε α)
  | .error a, .error b =>
    if same : a = b then isTrue (same ▸ rfl) else isFalse fun e => by cases e; exact same rfl
  | .ok a, .ok b =>
    if same : a = b then isTrue (same ▸ rfl) else isFalse fun e => by cases e; exact same rfl
  | .error _, .ok _ => isFalse nofun
  | .ok _, .error _ => isFalse nofun

/-- `ValidateHeader`. -/
def validateHeader (hdr : PacketHeader) : Except String Unit :=
  if hdr.magic ≠ magic then .error "invalid magic number"
  else if hdr.version ≠ version then .error "invalid version"
  else .ok ()

/-- `SafeInt64ToUint32`: the value and the error, if any. -/
def safeInt64ToUint32 (v : Int) : BitVec 32 × Option String :=
  if v < 0 ∨ v > 4294967295 then (0, some "value out of uint32 range") else (BitVec.ofInt 32 v, none)

/-- `SafeIntToUint16`: the value and the error, if any. -/
def safeIntToUint16 (v : Int) : BitVec 16 × Option String :=
  if v < 0 ∨ v > 65535 then (0, some "value out of uint16 range") else (BitVec.ofInt 16 v, none)

/-- `NewPacketHeader` at the Unix time `unixTime` (seconds). -/
def newPacketHeader (unixTime : Int) : PacketHeader :=
  { magic, version, flags := 0, opcode := 0, proto := 0, streamId := 0, seq := 0, fragId := 0,
    totalFrags := 0, payloadLen := 0, timestamp := (safeInt64ToUint32 unixTime).1 }

/-- The 24 bytes `Serialize` writes into `headerBuf`; the word at offset 20 is zero. -/
def headerBytes (hdr : PacketHeader) : List Byte :=
  putUint16 hdr.magic ++ [hdr.version, hdr.flags, hdr.opcode, hdr.proto] ++
    putUint32 hdr.streamId ++ putUint32 hdr.seq ++ putUint16 hdr.fragId ++
    putUint16 hdr.totalFrags ++ putUint16 hdr.payloadLen ++ putUint32 0

/-- `Serialize`. -/
def serialize (hdr : PacketHeader) (payload : List Byte) : Except String (List Byte) :=
  if payload.length > 65535 then .error "payload too large (max 65535 bytes)"
  else
    let headerBuf := headerBytes hdr
    let crc32Value := ((newCrc32.update headerBuf).update payload).final
    .ok (headerBuf ++ payload ++ putUint32 crc32Value)

/-- The header fields `Deserialize` reads from `data[0:24]`. -/
def readHeader (data : List Byte) : PacketHeader :=
  { magic := uint16 (slice data 0 2), version := data.getD 2 0, flags := data.getD 3 0,
    opcode := data.getD 4 0, proto := data.getD 5 0, streamId := uint32 (slice data 6 10),
    seq := uint32 (slice data 10 14), fragId := uint16 (slice data 14 16),
    totalFrags := uint16 (slice data 16 18), payloadLen := uint16 (slice data 18 20),
    timestamp := uint32 (slice data 20 24) }

/-- `Deserialize`. -/
def deserialize (data : List Byte) : Except String (PacketHeader × List Byte) :=
  if data.length < headerSize + 4 then .error "data too short for packet" else
  let hdr := readHeader data
  match validateHeader hdr with
  | .error err => .error err
  | .ok () =>
    let payloadEnd := headerSize + hdr.payloadLen.toNat
    if payloadEnd > data.length - 4 then .error "payload length exceeds available data" else
    let payload := slice data headerSize payloadEnd
    let crc32Received := uint32 (data.drop (data.length - 4))
    let crc32Computed := ((newCrc32.update (slice data 0 headerSize)).update payload).final
    if crc32Received ≠ crc32Computed then .error "CRC32 mismatch" else .ok (hdr, payload)

/-! ## What `serialize` writes -/

@[simp] theorem length_headerBytes (hdr : PacketHeader) : (headerBytes hdr).length = 24 := rfl

/-- The frame of a header and a payload, as `Serialize` lays it out. -/
def frame (hdr : PacketHeader) (payload : List Byte) : List Byte :=
  headerBytes hdr ++ payload ++ putUint32 (computeCrc32 (headerBytes hdr ++ payload))

@[simp] theorem length_frame (hdr : PacketHeader) (payload : List Byte) :
    (frame hdr payload).length = 28 + payload.length := by
  simp [frame]
  omega

theorem serialize_eq_ok (hdr : PacketHeader) {payload : List Byte}
    (fits : payload.length ≤ 65535) : serialize hdr payload = .ok (frame hdr payload) := by
  simp [serialize, frame, final_update_update, Nat.not_lt.mpr fits]

theorem serialize_eq_error (hdr : PacketHeader) {payload : List Byte}
    (large : 65535 < payload.length) :
    serialize hdr payload = .error "payload too large (max 65535 bytes)" := by
  simp [serialize, large]

/-- `Serialize` fails exactly on payloads over 65535 bytes. -/
theorem serialize_eq_ok_iff {hdr : PacketHeader} {payload bytes : List Byte} :
    serialize hdr payload = .ok bytes ↔ payload.length ≤ 65535 ∧ bytes = frame hdr payload := by
  rcases Nat.lt_or_ge 65535 payload.length with large | fits
  · simp [serialize_eq_error hdr large, Nat.not_le.mpr large]
  · simp [serialize_eq_ok hdr fits, fits, eq_comm]

/-! ## What `deserialize` accepts -/

theorem validateHeader_eq_ok_iff {hdr : PacketHeader} :
    validateHeader hdr = .ok () ↔ hdr.magic = magic ∧ hdr.version = version := by
  unfold validateHeader
  split_ifs <;> simp_all

/-- Everything `Deserialize` checks before it returns a packet. -/
theorem deserialize_eq_ok_iff {data : List Byte} {hdr : PacketHeader} {payload : List Byte} :
    deserialize data = .ok (hdr, payload) ↔
      28 ≤ data.length ∧ hdr = readHeader data ∧ hdr.magic = magic ∧ hdr.version = version ∧
      24 + hdr.payloadLen.toNat ≤ data.length - 4 ∧
      payload = slice data 24 (24 + hdr.payloadLen.toNat) ∧
      uint32 (data.drop (data.length - 4)) = computeCrc32 (slice data 0 24 ++ payload) := by
  unfold deserialize
  simp only [headerSize, final_update_update]
  by_cases short : data.length < 24 + 4
  · rw [if_pos short]
    simp only [reduceCtorEq, false_iff, not_and]
    omega
  rw [if_neg short]
  cases valid : validateHeader (readHeader data) with
  | error err =>
    have invalid : ¬((readHeader data).magic = magic ∧ (readHeader data).version = version) :=
      fun both => by rw [validateHeader_eq_ok_iff.mpr both] at valid; cases valid
    simp only [reduceCtorEq, false_iff]
    rintro ⟨-, rfl, m, v, -⟩
    exact invalid ⟨m, v⟩
  | ok u =>
    obtain ⟨m, v⟩ := validateHeader_eq_ok_iff.mp valid
    dsimp only
    by_cases long : 24 + (readHeader data).payloadLen.toNat > data.length - 4
    · rw [if_pos long]
      simp only [reduceCtorEq, false_iff]
      rintro ⟨-, rfl, -, -, fits, -⟩
      omega
    rw [if_neg long]
    split_ifs with crc
    · simp only [reduceCtorEq, false_iff]
      rintro ⟨-, rfl, -, -, -, rfl, same⟩
      exact crc same
    · simp only [Except.ok.injEq, Prod.mk.injEq]
      constructor
      · rintro ⟨rfl, rfl⟩
        exact ⟨by omega, rfl, m, v, by omega, rfl, not_not.mp crc⟩
      · rintro ⟨-, rfl, -, -, -, rfl, -⟩
        exact ⟨rfl, rfl⟩

/-! ## The header fields read back -/

theorem slice_headerBytes_header (hdr : PacketHeader) (rest : List Byte) :
    slice (headerBytes hdr ++ rest) 0 24 = headerBytes hdr :=
  slice_zero_length _ _

theorem slice_headerBytes_payload (hdr : PacketHeader) (rest : List Byte) (n : Nat) :
    slice (headerBytes hdr ++ rest) 24 (24 + n) = rest.take n := by
  simpa [slice] using slice_append_right (headerBytes hdr) rest 0 n

theorem drop_trailer (front : List Byte) (v : BitVec 32) :
    (front ++ putUint32 v).drop ((front ++ putUint32 v).length - 4) = putUint32 v :=
  List.drop_left' (by simp)

/-- The header read from serialized header bytes is the header, with the reserved word zero. -/
theorem readHeader_headerBytes (hdr : PacketHeader) (rest : List Byte) :
    readHeader (headerBytes hdr ++ rest) = { hdr with timestamp := 0 } := by
  have load16 (v : BitVec 16) : uint16 [(v >>> 8).setWidth 8, v.setWidth 8] = v :=
    uint16_putUint16 v
  have load32 (v : BitVec 32) : uint32 [(v >>> 24).setWidth 8, (v >>> 16).setWidth 8,
      (v >>> 8).setWidth 8, v.setWidth 8] = v := uint32_putUint32 v
  simp [readHeader, headerBytes, putUint16, putUint32, slice, load16, load32]
  rfl

/-- A buffer whose reserved word is zero starts with the bytes of the header read from it. -/
theorem headerBytes_readHeader {data : List Byte} (long : 24 ≤ data.length)
    (zero : (readHeader data).timestamp = 0) : headerBytes (readHeader data) = data.take 24 := by
  have width (a b : Nat) (hab : a ≤ b) (hb : b ≤ 24) : (slice data a b).length = b - a := by
    simp only [length_slice]; omega
  have two (a : Nat) (h : a + 2 ≤ 24) : (slice data a (a + 2)).length = 2 := by
    rw [width _ _ (by omega) h]; omega
  have four (a : Nat) (h : a + 4 ≤ 24) : (slice data a (a + 4)).length = 4 := by
    rw [width _ _ (by omega) h]; omega
  have reserved : putUint32 0 = slice data 20 24 := by
    rw [← zero]; exact putUint32_uint32_of_length (four 20 le_rfl)
  have middle : [data.getD 2 0, data.getD 3 0, data.getD 4 0, data.getD 5 0] = slice data 2 6 := by
    rw [← slice_append_slice data (b := 5) (by omega) (by omega),
      ← slice_append_slice data (b := 4) (by omega) (by omega),
      ← slice_append_slice data (b := 3) (by omega) (by omega), slice_succ _ (by omega),
      slice_succ _ (by omega), slice_succ _ (by omega), slice_succ _ (by omega)]
    rfl
  simp only [headerBytes, readHeader, putUint16_uint16_of_length (two 0 (by omega)),
    putUint16_uint16_of_length (two 14 (by omega)), putUint16_uint16_of_length (two 16 (by omega)),
    putUint16_uint16_of_length (two 18 (by omega)), putUint32_uint32_of_length (four 6 (by omega)),
    putUint32_uint32_of_length (four 10 (by omega)), reserved, middle]
  rw [slice_append_slice _ (by omega) (by omega), slice_append_slice _ (by omega) (by omega),
    slice_append_slice _ (by omega) (by omega), slice_append_slice _ (by omega) (by omega),
    slice_append_slice _ (by omega) (by omega), slice_append_slice _ (by omega) (by omega),
    slice_append_slice _ (by omega) (by omega), slice_eq_take_drop]
  rfl

theorem readHeader_headerBytes_self (hdr : PacketHeader) :
    readHeader (headerBytes hdr) = { hdr with timestamp := 0 } := by
  simpa using readHeader_headerBytes hdr []

theorem slice_headerBytes_payloadLen (hdr : PacketHeader) :
    slice (headerBytes hdr) 18 20 = putUint16 hdr.payloadLen := rfl

theorem readHeader_append (front rest : List Byte) (long : 24 ≤ front.length) :
    readHeader (front ++ rest) = readHeader front := by
  simp (disch := omega) only [readHeader, slice_append_left, List.getD_append]

/-- What `Deserialize` returns on a buffer cut as 24 bytes, a body and 4 bytes. -/
theorem deserialize_shaped {front body back : List Byte} {hdr : PacketHeader}
    {payload : List Byte} (hf : front.length = 24) (hb : back.length = 4)
    (accepted : deserialize (front ++ body ++ back) = .ok (hdr, payload)) :
    hdr = readHeader front ∧ hdr.payloadLen.toNat ≤ body.length ∧
      payload = body.take hdr.payloadLen.toNat ∧
      uint32 back = computeCrc32 (front ++ payload) := by
  obtain ⟨-, rfl, -, -, fits, rfl, crc⟩ := deserialize_eq_ok_iff.mp accepted
  rw [List.append_assoc, readHeader_append _ _ (by omega)] at fits crc ⊢
  simp only [List.length_append] at fits
  have payload := slice_append_right front (body ++ back) 0 (readHeader front).payloadLen.toNat
  rw [hf, Nat.add_zero, slice_eq_take_drop (body ++ back), List.drop_zero, Nat.sub_zero,
    List.take_append_of_le_length (by omega)] at payload
  rw [payload, ← List.append_assoc, List.drop_left' (by simp; omega), ← hf, slice_append_left _ _ (by simp),
    slice_append_left _ _ le_rfl, slice_eq_take_drop, List.drop_zero, Nat.sub_zero, List.take_length] at crc
  rw [payload]
  exact ⟨rfl, by omega, rfl, crc⟩

end OverProto
