import OverProto.Core.Packet

/-!
# Compression and encryption of payloads

The `optimize` package transforms payloads with two library primitives, which the model takes as
parameters: the `compress/zlib` streams (`Zlib`) and the AES-256-GCM AEAD of `crypto/cipher`
(`Gcm`). `compress` keeps a zlib stream only when it is shorter than the data, `decompress` reads
at most `maxDecompressedSize` bytes back, and `encrypt` seals under the key of the package and
a random IV, which `decrypt` takes back with the sealed bytes.

What `Send` relies on is that each step is undone by its inverse (`decompress_compress`,
`decrypt_encrypt`), given that inflate inverts deflate and Open inverts Seal, that a zlib stream
is never empty (it carries a header and a checksum) and that a sealed message carries its
16-byte tag.
-/

namespace OverProto

/-! ## Constants -/

/-- `AESKeySize`. -/
def aesKeySize : Nat := 32

/-- `AESIVSize`. -/
def aesIvSize : Nat := 12

/-- `AESGCMTagSize`. -/
def aesGcmTagSize : Nat := 16

/-- The `maxDecompressedSize` of `Decompress`: 10 MiB. -/
def maxDecompressedSize : Nat := 10 * 1024 * 1024

/-! ## The primitives -/

/-- The `compress/zlib` streams of the package: `deflate data` is what a level-6 writer leaves
in its buffer once closed (writing to a `bytes.Buffer` does not fail), and `inflate stream` the
bytes a reader yields before it stops, with the error it stops with (none at the end of a
well-formed stream). -/
structure Zlib where
  deflate : List Byte → List Byte
  inflate : List Byte → List Byte × Option String

/-- The AEAD of `cipher.NewGCM(aes.NewCipher(key))`, which does not fail for a 32-byte key:
`sealed key iv data` is `Seal(nil, iv, data, nil)` and `opened key iv message` is `Open`. -/
structure Gcm where
  sealed : List Byte → List Byte → List Byte → List Byte
  opened : List Byte → List Byte → List Byte → Except String (List Byte)

/-! ## Compression -/

/-- `Compress`: the zlib stream of the data, unless it is not shorter. -/
def compress (zlib : Zlib) (data : List Byte) : Except String (List Byte) :=
  if data.length = 0 then .error "empty data" else
  let compressed := zlib.deflate data
  if compressed.length ≥ data.length then .error "compression not effective" else .ok compressed

/-- `Decompress`: the inflated bytes, read through a `LimitReader` of `maxDecompressedSize`, so
that a stream reaching the limit is refused whatever follows. -/
def decompress (zlib : Zlib) (data : List Byte) : Except String (List Byte) :=
  if data.length = 0 then .error "empty data" else
  let (inflated, stop) := zlib.inflate data
  if inflated.length ≥ maxDecompressedSize then
    .error "decompressed data too large (potential decompression bomb)" else
  match stop with
  | some err => .error err
  | none => .ok inflated

/-- `ShouldCompress`. -/
def shouldCompress (size : Nat) : Bool := size ≥ compressThreshold

theorem compress_eq_ok {zlib : Zlib} {data compressed : List Byte}
    (compressed_ok : compress zlib data = .ok compressed) :
    compressed = zlib.deflate data ∧ compressed.length < data.length := by
  simp only [compress] at compressed_ok
  split_ifs at compressed_ok with empty long
  cases compressed_ok
  exact ⟨rfl, by omega⟩

/-- A payload that `Compress` accepted decompresses back to itself. -/
theorem decompress_compress {zlib : Zlib}
    (inflates : ∀ data, zlib.inflate (zlib.deflate data) = (data, none))
    (framed : ∀ data, zlib.deflate data ≠ []) {data compressed : List Byte}
    (small : data.length < maxDecompressedSize)
    (compressed_ok : compress zlib data = .ok compressed) :
    decompress zlib compressed = .ok data := by
  obtain ⟨rfl, -⟩ := compress_eq_ok compressed_ok
  have nonempty : (zlib.deflate data).length ≠ 0 := fun empty =>
    framed data (List.length_eq_zero.mp empty)
  simp only [decompress, if_neg nonempty, inflates, if_neg (Nat.not_le.mpr small)]

/-! ## Encryption -/

/-- `SetEncryptionKey`: the key the package keeps. -/
def setEncryptionKey (key : Fin 32 → Byte) : Option (List Byte) := some (List.ofFn key)

/-- `IsEncryptionEnabled`. -/
def isEncryptionEnabled : Option (List Byte) → Bool
  | some key => key.length == aesKeySize
  | none => false

/-- `Encrypt` of `data` under the key of the package, with the IV `crypto/rand` gives (or its
error): the sealed bytes and the IV. -/
def encrypt (gcm : Gcm) (encryptionKey : Option (List Byte))
    (random : Except String (Fin 12 → Byte)) (data : List Byte) :
    Except String (List Byte × List Byte) :=
  match encryptionKey with
  | none => .error "encryption key not set"
  | some key =>
    if key.length ≠ aesKeySize then .error "encryption key not set" else
    if data.length = 0 then .error "empty data" else
    match random with
    | .error err => .error err
    | .ok iv => .ok (gcm.sealed key (List.ofFn iv) data, List.ofFn iv)

/-- `Decrypt` of the sealed bytes under the IV `iv`. -/
def decrypt (gcm : Gcm) (encryptionKey : Option (List Byte)) (encrypted iv : List Byte) :
    Except String (List Byte) :=
  match encryptionKey with
  | none => .error "encryption key not set"
  | some key =>
    if key.length ≠ aesKeySize then .error "encryption key not set" else
    if encrypted.length = 0 then .error "empty encrypted data" else
    if iv.length ≠ aesIvSize then .error "invalid IV size" else
    if encrypted.length < aesGcmTagSize then .error "encrypted data too short" else
    gcm.opened key iv encrypted

/-- What `Encrypt` returns when it succeeds. -/
theorem encrypt_eq_ok {gcm : Gcm} {encryptionKey : Option (List Byte)}
    {random : Except String (Fin 12 → Byte)} {data encrypted iv : List Byte}
    (encrypted_ok : encrypt gcm encryptionKey random data = .ok (encrypted, iv)) :
    ∃ key ivBytes, encryptionKey = some key ∧ key.length = aesKeySize ∧
      random = .ok ivBytes ∧ iv = List.ofFn ivBytes ∧ encrypted = gcm.sealed key iv data := by
  unfold encrypt at encrypted_ok
  split at encrypted_ok
  · cases encrypted_ok
  next key =>
  split_ifs at encrypted_ok with wrong empty
  split at encrypted_ok
  · cases encrypted_ok
  next ivBytes =>
  cases encrypted_ok
  exact ⟨key, ivBytes, rfl, not_not.mp wrong, rfl, rfl, rfl⟩

/-- What `Encrypt` sealed, `Decrypt` opens under the same key and the IV it returned. -/
theorem decrypt_encrypt {gcm : Gcm}
    (opens : ∀ key iv data, gcm.opened key iv (gcm.sealed key iv data) = .ok data)
    (tagged : ∀ key iv data, aesGcmTagSize ≤ (gcm.sealed key iv data).length)
    {encryptionKey : Option (List Byte)} {random : Except String (Fin 12 → Byte)}
    {data encrypted iv : List Byte}
    (encrypted_ok : encrypt gcm encryptionKey random data = .ok (encrypted, iv)) :
    decrypt gcm encryptionKey encrypted iv = .ok data := by
  obtain ⟨key, ivBytes, rfl, sized, -, rfl, rfl⟩ := encrypt_eq_ok encrypted_ok
  have long := tagged key (List.ofFn ivBytes) data
  simp only [decrypt, sized, ne_eq, not_true_eq_false, if_false, List.length_ofFn, aesIvSize]
  rw [if_neg (by unfold aesGcmTagSize at long; omega), if_neg (by omega), opens]

end OverProto
