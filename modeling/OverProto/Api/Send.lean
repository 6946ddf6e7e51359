import OverProto.Core.Codec
import OverProto.Optimize.Payload
import OverProto.Transport.Reliable

/-!
# The send pipeline

`Send` of package `overproto` turns the caller's data into one packet: it compresses a payload of
at least `CompressThreshold` bytes when that pays (`compressStep`), seals it with `FlagEncrypted`
and prefixes the IV (`encryptStep`), stamps a header from `NewPacketHeader` with the caller's
fields and the payload's length (`stampHeader`), and hands the packet to `TCPSend` or `UDPSend`
(`transmit`).

A peer undoes the steps in the opposite order (`recoverData`, the receiving side the pipeline's
description gives: the library has no function for it). `send_recovers_data` shows that it
recovers the caller's data from the one frame `Send` writes, for any zlib and AES-GCM in which
inflate inverts deflate and Open inverts Seal.
-/

namespace OverProto

/-! ## State and environment -/

/-- The package state `Send` reads: whether `Init` has run, and the key `SetEncryptionKey` left
in package `optimize`. The `config` of the package is never read. -/
structure Library where
  initialized : Bool
  encryptionKey : Option (List Byte)
deriving DecidableEq, Repr

/-- The package before `Init`. -/
def Library.empty : Library := { initialized := false, encryptionKey := none }

/-- `Init`. -/
def Library.init (lib : Library) : Except String Library :=
  if lib.initialized then .error "already initialized" else .ok { lib with initialized := true }

/-- `Shutdown`: clears the key and the initialization. -/
def Library.shutdown (lib : Library) : Library :=
  if lib.initialized then { initialized := false, encryptionKey := none } else lib

/-- `SetEncryptionKey`. -/
def Library.setEncryptionKey (lib : Library) (key : Fin 32 → Byte) : Library :=
  { lib with encryptionKey := OverProto.setEncryptionKey key }

/-- What the `conn interface{}` of `Send` holds. -/
inductive Conn where
  /-- A `net.Conn` that is not a UDP socket. -/
  | stream
  /-- A `*net.UDPConn`, which is also a `net.Conn`. -/
  | udp
  /-- Anything else. -/
  | other
deriving DecidableEq, Repr

/-- What one call of `Send` reads from outside: the IV `crypto/rand` gives (or its error), the
Unix time in seconds, and how the socket write ends. -/
structure World where
  random : Except String (Fin 12 → Byte)
  unixTime : Int
  writeErr : Option String

/-! ## The steps of `Send` -/

/-- Step 1: compress a payload of at least `CompressThreshold` bytes unless the caller set
`FlagCompressed`, and keep it as it is when compression does not pay. -/
def compressStep (zlib : Zlib) (payload : List Byte) (flags : BitVec 8) : List Byte × BitVec 8 :=
  if payload.length ≥ compressThreshold ∧ flags &&& flagCompressed = 0 then
    match compress zlib payload with
    | .ok compressed => (compressed, flags ||| flagCompressed)
    | .error _ => (payload, flags)
  else (payload, flags)

/-- Step 2: with `FlagEncrypted`, the IV followed by the sealed payload. -/
def encryptStep (gcm : Gcm) (encryptionKey : Option (List Byte))
    (random : Except String (Fin 12 → Byte)) (payload : List Byte) (flags : BitVec 8) :
    Except String (List Byte) :=
  if flags &&& flagEncrypted ≠ 0 then
    if ¬ isEncryptionEnabled encryptionKey then .error "encryption enabled but key not set" else
    match encrypt gcm encryptionKey random payload with
    | .error err => .error err
    | .ok (encrypted, iv) => .ok (iv ++ encrypted)
  else .ok payload

/-- Step 3: the header of `NewPacketHeader` with the caller's fields, the payload's length, the
time and sequence number 0. -/
def stampHeader (unixTime : Int) (streamId : BitVec 32) (opcode proto flags : BitVec 8)
    (payload : List Byte) : Except String PacketHeader :=
  match safeIntToUint16 payload.length with
  | (_, some _) => .error "payload too large"
  | (payloadLen, none) =>
    match safeInt64ToUint32 unixTime with
    | (_, some _) => .error "timestamp conversion failed"
    | (timestamp, none) =>
      .ok { newPacketHeader unixTime with
        streamId, opcode, proto, flags, payloadLen, timestamp, seq := 0 }

/-- Step 4: hand the packet to the transport of `proto`. Both branches of the UDP case call
`UDPSend`. -/
def transmit (conn : Conn) (proto : BitVec 8) (hdr : PacketHeader) (payload : List Byte)
    (writeErr : Option String) : Except String Nat × List (List Byte) :=
  if proto = protoTcp then
    match conn with
    | .other => (.error "invalid connection type for TCP", [])
    | _ => tcpSend hdr payload writeErr
  else if proto = protoUdp then
    match conn with
    | .udp => udpSend hdr payload writeErr
    | _ => (.error "invalid connection type for UDP", [])
  else (.error "unsupported protocol", [])

/-- `Send`: the count written or the error, and the bytes handed to the socket. -/
def send (zlib : Zlib) (gcm : Gcm) (lib : Library) (world : World) (conn : Conn)
    (streamId : BitVec 32) (opcode proto : BitVec 8) (data : List Byte) (flags : BitVec 8) :
    Except String Nat × List (List Byte) :=
  if ¬ lib.initialized then (.error "not initialized", []) else
  if data.length > 65535 then (.error "payload too large (max 65535 bytes)", []) else
  let (payload, flags) := compressStep zlib data flags
  match encryptStep gcm lib.encryptionKey world.random payload flags with
  | .error err => (.error err, [])
  | .ok payload =>
    match stampHeader world.unixTime streamId opcode proto flags payload with
    | .error err => (.error err, [])
    | .ok hdr => transmit conn proto hdr payload world.writeErr

/-- The receiving side as the pipeline's description has it: open `P[12:]` under the IV
`P[:12]` when `FlagEncrypted` is set, then decompress when `FlagCompressed` is. -/
def recoverData (zlib : Zlib) (gcm : Gcm) (encryptionKey : Option (List Byte))
    (hdr : PacketHeader) (payload : List Byte) : Except String (List Byte) :=
  let opened := if hdr.flags &&& flagEncrypted ≠ 0 then
    decrypt gcm encryptionKey (payload.drop aesIvSize) (payload.take aesIvSize) else .ok payload
  match opened with
  | .error err => .error err
  | .ok inner => if hdr.flags &&& flagCompressed ≠ 0 then decompress zlib inner else .ok inner

/-! ## What each step does -/

theorem or_and_self_right (f g : BitVec 8) : (f ||| g) &&& g = g := by
  ext i
  simp only [BitVec.getLsbD_and, BitVec.getLsbD_or]
  cases f.getLsbD i <;> cases g.getLsbD i <;> rfl

/-- Step 1 either leaves the payload and flags alone, or replaces the payload by what
`Compress` returned and adds `FlagCompressed`, which the caller had left clear. -/
theorem compressStep_cases (zlib : Zlib) (data : List Byte) (flags : BitVec 8) :
    compressStep zlib data flags = (data, flags) ∨
      flags &&& flagCompressed = 0 ∧ compress zlib data = .ok (compressStep zlib data flags).1 ∧
        (compressStep zlib data flags).2 = flags ||| flagCompressed := by
  unfold compressStep
  split_ifs with wanted
  · split
    next compressed compressed_ok => exact .inr ⟨wanted.2, compressed_ok, rfl⟩
    next => exact .inl rfl
  · exact .inl rfl

/-- What step 2 returned is opened back by `Decrypt` when `FlagEncrypted` is set, and is the
payload otherwise. -/
theorem encryptStep_eq_ok {gcm : Gcm}
    (opens : ∀ key iv data, gcm.opened key iv (gcm.sealed key iv data) = .ok data)
    (tagged : ∀ key iv data, aesGcmTagSize ≤ (gcm.sealed key iv data).length)
    {encryptionKey : Option (List Byte)} {random : Except String (Fin 12 → Byte)}
    {payload sealed : List Byte} {flags : BitVec 8}
    (sealed_ok : encryptStep gcm encryptionKey random payload flags = .ok sealed) :
    if flags &&& flagEncrypted ≠ 0 then
      decrypt gcm encryptionKey (sealed.drop aesIvSize) (sealed.take aesIvSize) = .ok payload
    else sealed = payload := by
  unfold encryptStep at sealed_ok
  split_ifs at sealed_ok ⊢ with encrypting enabled
  · split at sealed_ok
    · cases sealed_ok
    next encrypted iv encrypted_ok =>
    cases sealed_ok
    obtain ⟨-, ivBytes, -, -, -, rfl, -⟩ := encrypt_eq_ok encrypted_ok
    have sized : (List.ofFn ivBytes).length = aesIvSize := List.length_ofFn ivBytes
    rw [List.drop_left' sized, List.take_left' sized]
    exact decrypt_encrypt opens tagged encrypted_ok
  · cases sealed_ok
    rfl

/-- Step 3 fills the header from the caller's fields and declares the payload's length. -/
theorem stampHeader_eq_ok {unixTime : Int} {streamId : BitVec 32} {opcode proto flags : BitVec 8}
    {payload : List Byte} {hdr : PacketHeader}
    (stamped : stampHeader unixTime streamId opcode proto flags payload = .ok hdr) :
    hdr.magic = magic ∧ hdr.version = version ∧ hdr.streamId = streamId ∧ hdr.opcode = opcode ∧
      hdr.proto = proto ∧ hdr.flags = flags ∧ hdr.seq = 0 ∧
      hdr.payloadLen.toNat = payload.length := by
  have fits : ¬ ((payload.length : Int) < 0 ∨ (payload.length : Int) > 65535) := fun far => by
    simp only [stampHeader, safeIntToUint16, if_pos far] at stamped
    cases stamped
  simp only [stampHeader, safeIntToUint16, if_neg fits] at stamped
  split at stamped
  · cases stamped
  cases stamped
  refine ⟨rfl, rfl, rfl, rfl, rfl, rfl, rfl, ?_⟩
  simp only [BitVec.toNat_ofInt]
  omega

/-- A successful step 4 wrote exactly the frame of the packet. -/
theorem transmit_eq_ok {conn : Conn} {proto : BitVec 8} {hdr : PacketHeader}
    {payload : List Byte} {writeErr : Option String} {n : Nat}
    (sent : (transmit conn proto hdr payload writeErr).1 = .ok n) :
    payload.length ≤ 65535 ∧ (transmit conn proto hdr payload writeErr).2 = [frame hdr payload] := by
  unfold transmit at sent ⊢
  split_ifs at sent ⊢ <;> split at sent <;> first
    | cases sent
    | exact writeFrame_eq_ok sent

/-- A successful `Send` went through every step: it wrote one frame, of the header step 3
stamped and the payload step 2 returned. -/
theorem send_eq_ok {zlib : Zlib} {gcm : Gcm} {lib : Library} {world : World} {conn : Conn}
    {streamId : BitVec 32} {opcode proto : BitVec 8} {data : List Byte} {flags : BitVec 8}
    {n : Nat} (sent : (send zlib gcm lib world conn streamId opcode proto data flags).1 = .ok n) :
    lib.initialized = true ∧ data.length ≤ 65535 ∧ ∃ sealed hdr,
      encryptStep gcm lib.encryptionKey world.random (compressStep zlib data flags).1
        (compressStep zlib data flags).2 = .ok sealed ∧
      stampHeader world.unixTime streamId opcode proto (compressStep zlib data flags).2 sealed =
        .ok hdr ∧
      sealed.length ≤ 65535 ∧
      (send zlib gcm lib world conn streamId opcode proto data flags).2 = [frame hdr sealed] := by
  have init : lib.initialized = true := by
    by_contra off
    simp [send, off] at sent
  have fits : ¬ data.length > 65535 := fun long => by simp [send, init, long] at sent
  rw [send, if_neg (not_not.mpr init), if_neg fits] at sent ⊢
  refine ⟨init, by omega, ?_⟩
  generalize compressStep zlib data flags = step at sent ⊢
  obtain ⟨payload, flags'⟩ := step
  dsimp only at sent ⊢
  split at sent
  · cases sent
  next sealed sealed_ok =>
  rw [sealed_ok]
  split at sent
  · cases sent
  next hdr stamped =>
  exact ⟨sealed, hdr, rfl, stamped, transmit_eq_ok sent⟩

/-! ## The round trip -/

/-- Every successful `Send` of data with `FlagCompressed` clear writes one frame that decodes to
a header with the caller's stream, opcode, protocol and flags (plus `FlagCompressed` when it
compressed), sequence number 0 and the payload's length, and from whose payload the receiving
side recovers the data. Success already means that the package was initialized, that the data
has at most 65535 bytes and that the protocol is TCP or UDP. -/
theorem send_recovers_data (zlib : Zlib) (gcm : Gcm)
    (inflates : ∀ data, zlib.inflate (zlib.deflate data) = (data, none))
    (framed : ∀ data, zlib.deflate data ≠ [])
    (opens : ∀ key iv data, gcm.opened key iv (gcm.sealed key iv data) = .ok data)
    (tagged : ∀ key iv data, aesGcmTagSize ≤ (gcm.sealed key iv data).length)
    (lib : Library) (world : World) (conn : Conn) (streamId : BitVec 32) (opcode proto : BitVec 8)
    (data : List Byte) (flags : BitVec 8) (uncompressed : flags &&& flagCompressed = 0) {n : Nat}
    (sent : (send zlib gcm lib world conn streamId opcode proto data flags).1 = .ok n) :
    ∃ F hdr payload, (send zlib gcm lib world conn streamId opcode proto data flags).2 = [F] ∧
      deserialize F = .ok (hdr, payload) ∧ hdr.streamId = streamId ∧ hdr.opcode = opcode ∧
      hdr.proto = proto ∧ hdr.seq = 0 ∧ hdr.payloadLen.toNat = payload.length ∧
      (hdr.flags = flags ∨ hdr.flags = flags ||| flagCompressed) ∧
      recoverData zlib gcm lib.encryptionKey hdr payload = .ok data := by
  obtain ⟨-, fits, sealed, hdr, sealed_ok, stamped, -, written⟩ := send_eq_ok sent
  obtain ⟨valid, version_ok, stream, op, proto_ok, flags_ok, seq, declared⟩ :=
    stampHeader_eq_ok stamped
  have opened := encryptStep_eq_ok opens tagged sealed_ok
  have inner : (if hdr.flags &&& flagEncrypted ≠ 0 then
      decrypt gcm lib.encryptionKey (sealed.drop aesIvSize) (sealed.take aesIvSize)
      else .ok sealed) = .ok (compressStep zlib data flags).1 := by
    rw [flags_ok]
    split_ifs at opened ⊢
    · exact opened
    · rw [opened]
  refine ⟨_, _, _, written, deserialize_frame hdr sealed ⟨valid, version_ok⟩ declared, stream, op,
    proto_ok, seq, declared, ?_⟩
  simp only [recoverData, inner]
  rw [flags_ok]
  rcases compressStep_cases zlib data flags with same | ⟨-, compressed_ok, added⟩
  · rw [same]
    exact ⟨.inl rfl, if_neg (not_not.mpr uncompressed)⟩
  · have small : data.length < maxDecompressedSize := by unfold maxDecompressedSize; omega
    have marked : (flags ||| flagCompressed) &&& flagCompressed ≠ 0 := by
      rw [or_and_self_right]
      decide
    rw [added, if_pos marked, decompress_compress inflates framed small compressed_ok]
    exact ⟨.inr rfl, rfl⟩

theorem send_recovers_data_encrypted :
    let zlib : Zlib := { deflate := fun data => 0 :: data, inflate := fun stream => (stream.drop 1, none) }
    let gcm : Gcm := { sealed := fun _ _ data => List.replicate 16 0 ++ data,
                       opened := fun _ _ message => .ok (message.drop 16) }
    let lib : Library := { initialized := true, encryptionKey := some (List.replicate 32 7) }
    let world : World := { random := .ok fun _ => 5, unixTime := 0, writeErr := none }
    (send zlib gcm lib world .stream 9 1 protoTcp [1, 2, 3] flagEncrypted).1 = .ok 59 ∧
    ∃ F hdr payload, (send zlib gcm lib world .stream 9 1 protoTcp [1, 2, 3] flagEncrypted).2 = [F] ∧
      deserialize F = .ok (hdr, payload) ∧ hdr.streamId = 9 ∧ hdr.opcode = 1 ∧
      hdr.proto = protoTcp ∧ hdr.seq = 0 ∧ hdr.payloadLen.toNat = payload.length ∧
      (hdr.flags = flagEncrypted ∨ hdr.flags = flagEncrypted ||| flagCompressed) ∧
      recoverData zlib gcm lib.encryptionKey hdr payload = .ok [1, 2, 3] :=
  have sent : (send { deflate := fun data => 0 :: data, inflate := fun stream => (stream.drop 1, none) }
      { sealed := fun _ _ data => List.replicate 16 0 ++ data,
        opened := fun _ _ message => .ok (message.drop 16) }
      { initialized := true, encryptionKey := some (List.replicate 32 7) }
      { random := .ok fun _ => 5, unixTime := 0, writeErr := none } .stream 9 1 protoTcp
      [1, 2, 3] flagEncrypted).1 = .ok 59 := by decide
  ⟨sent, send_recovers_data _ _ (fun _ => rfl) (fun _ => List.cons_ne_nil _ _) (fun _ _ _ => by simp)
    (fun _ _ _ => by simp [aesGcmTagSize]) _ _ _ _ _ _ _ _ (by decide) sent⟩

end OverProto
