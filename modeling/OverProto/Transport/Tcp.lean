import OverProto.Core.Packet

/-!
# The TCP receive state machine

`TCPRecv` of `transport/tcp.go` recovers packet boundaries from a byte stream: from `StateIdle`
it reads the 24 header bytes, takes the payload length from bytes 18 and 19, reads the payload
and the 4 CRC bytes into a buffer grown to the frame's size, and hands the buffer to
`Deserialize`. Every state of its loop either returns or moves to the next one, so the loop is
the chain of handlers `recvIdle`, `recvHeader`, `recvPayload`, `recvCrc`, `recvReady`.

The socket is `NetConn`: the bytes the peer has sent and not yet been read, and what each coming
`Read` does (`ReadEvent`): return some of the next bytes, or fail after consuming some. At the end
of the stream a `Read` returns `io.EOF`; with no event left it returns all that was asked for.

`TCPSend` writes the frame `Serialize` returns (`writeFrame`).
-/

namespace OverProto

/-- The message of `io.EOF`. -/
def eof : String := "EOF"

/-- What one `Read` of the socket does. -/
inductive ReadEvent where
  /-- Return the next `n` bytes, at least one and at most what was asked for and is left. -/
  | data (n : Nat)
  /-- Consume the next `n` bytes (at most what was asked for and is left) and return `err`. -/
  | fail (n : Nat) (err : String)
deriving DecidableEq, Repr

/-- The socket `fd` of a `TCPConnection`: unread bytes and the coming `Read` outcomes. -/
structure NetConn where
  unread : List Byte
  reads : List ReadEvent
deriving DecidableEq, Repr

/-- `fd.Read` into a buffer of `want` bytes: the bytes written, the error, and the socket
after. -/
def NetConn.read (c : NetConn) (want : Nat) : List Byte × Option String × NetConn :=
  if c.unread = [] then ([], some eof, { c with reads := c.reads.tail }) else
  match c.reads with
  | [] =>
    let k := min want c.unread.length
    (c.unread.take k, none, { c with unread := c.unread.drop k })
  | .data n :: rest =>
    let k := min (max n 1) (min want c.unread.length)
    (c.unread.take k, none, { unread := c.unread.drop k, reads := rest })
  | .fail n err :: rest =>
    let k := min n (min want c.unread.length)
    (c.unread.take k, some err, { unread := c.unread.drop k, reads := rest })

/-- `readExact` into a buffer of `want` bytes: the bytes, or the error of the `Read` that
stopped it. -/
def readExact (c : NetConn) (want : Nat) : Except String (List Byte) × NetConn :=
  if _ : want = 0 then (.ok [], c) else
  match c.read want with
  | (_, some err, next) => (.error err, next)
  | (chunk, none, next) =>
    if _ : chunk.length = 0 then (.error eof, next) else
    match readExact next (want - chunk.length) with
    | (.ok rest, last) => (.ok (chunk ++ rest), last)
    | (.error err, last) => (.error err, last)
termination_by want
decreasing_by omega

/-- `TCPRecvState`. -/
inductive TcpRecvState where
  | idle
  | readingHeader
  | readingPayload
  | readingCrc
  | ready
deriving DecidableEq, Repr

/-- `TCPConnection`. -/
structure TcpConnection where
  fd : NetConn
  recvState : TcpRecvState
  recvBuffer : List Byte
  recvBytesRead : Nat
deriving DecidableEq, Repr

/-- `NewTCPConnection`: an idle connection with a 64 KiB buffer. -/
def newTcpConnection (fd : NetConn) : TcpConnection :=
  { fd, recvState := .idle, recvBuffer := List.replicate 65536 0, recvBytesRead := 0 }

/-- `uint16(recvBuffer[18])<<8 | uint16(recvBuffer[19])`. -/
def bufferPayloadLen (buf : List Byte) : BitVec 16 :=
  (buf.getD 18 0).setWidth 16 <<< 8 ||| (buf.getD 19 0).setWidth 16

/-- The buffer after `readExact(buf[pos:...])` wrote `bytes` from `pos` on. -/
def writeAt (buf : List Byte) (pos : Nat) (bytes : List Byte) : List Byte :=
  buf.take pos ++ bytes ++ buf.drop (pos + bytes.length)

/-- The result `TCPRecv` returns. -/
abbrev RecvResult := Except String (PacketHeader × List Byte)

/-- `case StateReady`: deserialize the bytes read. -/
def recvReady (conn : TcpConnection) : RecvResult × TcpConnection :=
  match deserialize (conn.recvBuffer.take conn.recvBytesRead) with
  | .error err => (.error err, { conn with recvState := .idle })
  | .ok packet => (.ok packet, { conn with recvState := .idle, recvBytesRead := 0 })

/-- One of the reading states: read the bytes from `recvBytesRead` up to `stop` and go on with
`next`, or go idle with the error of `readExact`. -/
def recvUpTo (stop : Nat) (state : TcpRecvState)
    (next : TcpConnection → RecvResult × TcpConnection) (conn : TcpConnection) :
    RecvResult × TcpConnection :=
  if stop > conn.recvBytesRead then
    match readExact conn.fd (stop - conn.recvBytesRead) with
    | (.error err, fd) => (.error err, { conn with fd, recvState := .idle })
    | (.ok bytes, fd) =>
      next { conn with
        fd, recvBuffer := writeAt conn.recvBuffer conn.recvBytesRead bytes,
        recvBytesRead := stop, recvState := state }
  else next { conn with recvState := state }

/-- `case StateReadingCRC`: read up to `24 + payloadLen + 4`, then `StateReady`. -/
def recvCrc (conn : TcpConnection) : RecvResult × TcpConnection :=
  recvUpTo (24 + (bufferPayloadLen conn.recvBuffer).toNat + 4) .ready recvReady conn

/-- `case StateReadingPayload`: read up to `24 + payloadLen`, then `StateReadingCRC`. -/
def recvPayload (conn : TcpConnection) : RecvResult × TcpConnection :=
  recvUpTo (24 + (bufferPayloadLen conn.recvBuffer).toNat) .readingCrc recvCrc conn

/-- What `case StateReadingHeader` does once the header is in: grow the buffer to the frame's
size, keeping the header, and go to `StateReadingPayload` at offset 24. -/
def recvHeaderRead (conn : TcpConnection) : RecvResult × TcpConnection :=
  let totalSize := 24 + (bufferPayloadLen conn.recvBuffer).toNat + 4
  let buf := if totalSize > conn.recvBuffer.length then
    conn.recvBuffer.take 24 ++ List.replicate (totalSize - 24) 0 else conn.recvBuffer
  recvPayload { conn with recvBuffer := buf, recvState := .readingPayload, recvBytesRead := 24 }

/-- `case StateReadingHeader`: read up to offset 24. -/
def recvHeader (conn : TcpConnection) : RecvResult × TcpConnection :=
  recvUpTo 24 .readingHeader recvHeaderRead conn

/-- `case StateIdle`: a fresh 24-byte buffer, then `StateReadingHeader`. -/
def recvIdle (conn : TcpConnection) : RecvResult × TcpConnection :=
  recvHeader { conn with
    recvBuffer := List.replicate 24 0, recvBytesRead := 0, recvState := .readingHeader }

/-- `TCPRecv`: the loop from the connection's state. -/
def tcpRecv (conn : TcpConnection) : RecvResult × TcpConnection :=
  match conn.recvState with
  | .idle => recvIdle conn
  | .readingHeader => recvHeader conn
  | .readingPayload => recvPayload conn
  | .readingCrc => recvCrc conn
  | .ready => recvReady conn

/-! ## Sending -/

/-- `Serialize` the packet and write the bytes, the write ending with `writeErr`: the count
written or the error, and the bytes handed to the socket. -/
def writeFrame (hdr : PacketHeader) (payload : List Byte) (writeErr : Option String) :
    Except String Nat × List (List Byte) :=
  match serialize hdr payload with
  | .error err => (.error err, [])
  | .ok data =>
    match writeErr with
    | some err => (.error err, [data])
    | none => (.ok data.length, [data])

/-- A successful write hands exactly the frame of the packet to the socket. -/
theorem writeFrame_eq_ok {hdr : PacketHeader} {payload : List Byte} {writeErr : Option String}
    {n : Nat} (written : (writeFrame hdr payload writeErr).1 = .ok n) :
    payload.length ≤ 65535 ∧ (writeFrame hdr payload writeErr).2 = [frame hdr payload] := by
  unfold writeFrame at written ⊢
  split at written
  · cases written
  next data serialized =>
  obtain ⟨fits, rfl⟩ := serialize_eq_ok_iff.mp serialized
  exact ⟨fits, by split <;> rfl⟩

/-- `TCPSend`. -/
def tcpSend (hdr : PacketHeader) (payload : List Byte) (writeErr : Option String) :
    Except String Nat × List (List Byte) :=
  writeFrame hdr payload writeErr

end OverProto
