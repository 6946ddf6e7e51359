import OverProto.Transport.Tcp

/-!
# Reliable delivery over UDP

`ReliableContext` of `transport/udp_mtu_linux.go`: a selective-repeat sender with a ring of
32 slots indexed by `seq % 32`, from `sendBase` to `nextSeq`, and a receiver with a 32-bit bitmap
from `recvBase`, both over `uint32` sequence numbers that wrap. Every operation is a function of
the context and its inputs (the time in milliseconds, the datagram read, the outcome of each
write), returning its result, the new context and the datagrams it wrote to the peer.

The two cumulative advance loops run at most 32 times, since each iteration clears a set slot
of the 32; they are written with that bound as fuel (`advanceSendBase`, `advanceRecvBase`).
`Reachable` closes `NewReliableContext` under the four operations.

Under it is plain UDP: `UDPSend` serializes and writes one datagram, as `TCPSend` does on a
stream (the MTU it looks up only decides a warning it never prints), and `UDPRecv` deserializes
the first `UDPRecvBufferSize` bytes of one datagram. `Recv` reads through `UDPRecv`.
-/

namespace OverProto

/-- `WindowSize`. -/
def windowSize : BitVec 32 := 32

/-- `InitialRTT`, in milliseconds. -/
def initialRtt : BitVec 32 := 100

/-- `InitialCwnd`. -/
def initialCwnd : BitVec 32 := 4

/-- `MaxCwnd`. -/
def maxCwnd : BitVec 32 := 32

/-- `MaxRetries`. -/
def maxRetries : BitVec 32 := 5

/-- `FastRetransmitThreshold`. -/
def fastRetransmitThreshold : BitVec 32 := 3

/-- `UDPRecvBufferSize`: the bytes `UDPRecv` reads of one datagram. -/
def udpRecvBufferSize : Nat := 65536

/-- `UDPSend`, writing to the connected or the given address. -/
def udpSend (hdr : PacketHeader) (payload : List Byte) (writeErr : Option String) :
    Except String Nat × List (List Byte) :=
  writeFrame hdr payload writeErr

/-- `UDPRecv` of what `ReadFromUDP` returned (the sender and the datagram, or the error): the
header, the payload and the sender. -/
def udpRecv (incoming : Except String (String × List Byte)) :
    Except String (PacketHeader × List Byte × String) :=
  match incoming with
  | .error err => .error err
  | .ok (addr, datagram) =>
    match deserialize (datagram.take udpRecvBufferSize) with
    | .error err => .error err
    | .ok (hdr, payload) => .ok (hdr, payload, addr)

theorem udpRecv_ok {addr : String} {datagram : List Byte} {hdr : PacketHeader}
    {payload : List Byte}
    (decoded : deserialize (datagram.take udpRecvBufferSize) = .ok (hdr, payload)) :
    udpRecv (.ok (addr, datagram)) = .ok (hdr, payload, addr) := by
  simp only [udpRecv, decoded]

/-- `PacketState`. -/
inductive PacketState where
  | empty
  | sent
  | acked
  | retransmit
deriving DecidableEq, Repr

/-- `WindowSlot`; `sentAt` is a time in milliseconds. -/
structure WindowSlot where
  header : Option PacketHeader
  data : List Byte
  serialized : List Byte
  state : PacketState
  sentAt : Int
  retryCount : BitVec 32
deriving DecidableEq, Repr

/-- `WindowSlot{}`. -/
def WindowSlot.cleared : WindowSlot :=
  { header := none, data := [], serialized := [], state := .empty, sentAt := 0, retryCount := 0 }

/-- `RTTStats`. -/
structure RttStats where
  srtt : BitVec 32
  rttVar : BitVec 32
  rto : BitVec 32
  samplesCount : Nat
deriving DecidableEq, Repr

/-- `ReliableContext`; `addr` is the peer's address and the socket is the environment. -/
structure ReliableContext where
  addr : String
  sendWindow : Fin 32 → WindowSlot
  sendBase : BitVec 32
  nextSeq : BitVec 32
  windowSize : BitVec 32
  recvBase : BitVec 32
  recvWindow : Fin 32 → Bool
  rtt : RttStats
  cwnd : BitVec 32
  ssthresh : BitVec 32
  dupAckCount : BitVec 32
  lastAckSeq : BitVec 32
  inSlowStart : Bool

/-- The RTT statistics `NewReliableContext` starts from. -/
def initialRttStats : RttStats :=
  { srtt := initialRtt, rttVar := initialRtt / 2, rto := initialRtt + 4 * (initialRtt / 2),
    samplesCount := 0 }

/-- `NewReliableContext` for the peer at `addr`. -/
def newReliableContext (addr : String) : ReliableContext :=
  { addr, sendWindow := fun _ => .cleared, sendBase := 0, nextSeq := 0, windowSize,
    recvBase := 0, recvWindow := fun _ => false, rtt := initialRttStats,
    cwnd := initialCwnd, ssthresh := maxCwnd, dupAckCount := 0, lastAckSeq := 0,
    inSlowStart := true }

/-- `getWindowIndex`: `seq % WindowSize`. -/
def getWindowIndex (seq : BitVec 32) : Fin 32 := ⟨seq.toNat % 32, Nat.mod_lt _ (by decide)⟩

/-- The test `isInSendWindow` and `isInRecvWindow` share, for the window of `size` from
`base`: a plain range check, and a second one when `base + size` wraps. -/
def inWindow (base size seq : BitVec 32) : Bool :=
  if base ≤ seq ∧ seq < base + size then true
  else if base + size < base then decide (seq ≥ base ∨ seq < base + size)
  else false

namespace ReliableContext

/-- `isInSendWindow`. -/
def isInSendWindow (ctx : ReliableContext) (seq : BitVec 32) : Bool :=
  inWindow ctx.sendBase ctx.windowSize seq

/-- `isInRecvWindow`. -/
def isInRecvWindow (ctx : ReliableContext) (seq : BitVec 32) : Bool :=
  inWindow ctx.recvBase ctx.windowSize seq

/-- The `availableSlots` of `Send`: the room left in the ring, replaced by `cwnd` when there is
none or more than `cwnd`. -/
def availableSlots (ctx : ReliableContext) : BitVec 32 :=
  let available := ctx.windowSize - (ctx.nextSeq - ctx.sendBase)
  let available := if available > ctx.windowSize then ctx.windowSize else available
  if available = 0 ∨ available > ctx.cwnd then ctx.cwnd else available

/-- `Send` at time `now`, the write of the packet ending with `writeErr`: the error, the new
context and the datagrams written. -/
def send (ctx : ReliableContext) (hdr : PacketHeader) (payload : List Byte) (now : Int)
    (writeErr : Option String) : Except String Unit × ReliableContext × List (List Byte) :=
  if ctx.nextSeq - ctx.sendBase ≥ ctx.availableSlots then (.error "send window full", ctx, []) else
  let seq := ctx.nextSeq
  let ctx := { ctx with nextSeq := ctx.nextSeq + 1 }
  let pktHdr := { hdr with seq, flags := hdr.flags ||| flagReliable }
  match serialize pktHdr payload with
  | .error err => (.error err, ctx, [])
  | .ok serialized =>
    let ctx := { ctx with
      sendWindow := Function.update ctx.sendWindow (getWindowIndex seq)
        { header := some pktHdr, data := payload, serialized, state := .sent, sentAt := now,
          retryCount := 0 } }
    match writeErr with
    | some err => (.error err, ctx, [serialized])
    | none => (.ok (), ctx, [serialized])

/-- `sendACK` at time `now`: the datagram written, whose write error is ignored. -/
def sendAck (ackSeq : BitVec 32) (now : Int) : List (List Byte) :=
  let ackHdr := { newPacketHeader (now / 1000) with
    opcode := opAck, flags := flagAck ||| flagReliable, seq := ackSeq }
  match serialize ackHdr [] with
  | .error _ => []
  | .ok serialized => [serialized]

end ReliableContext

/-- The loop of `Recv` that slides the receive window over delivered packets, run at most
`fuel` times. -/
def advanceRecvBase : Nat → BitVec 32 → (Fin 32 → Bool) → BitVec 32 × (Fin 32 → Bool)
  | 0, recvBase, recvWindow => (recvBase, recvWindow)
  | fuel + 1, recvBase, recvWindow =>
    if recvWindow (getWindowIndex recvBase) then
      advanceRecvBase fuel (recvBase + 1)
        (Function.update recvWindow (getWindowIndex recvBase) false)
    else (recvBase, recvWindow)

namespace ReliableContext

/-- `Recv` at time `now` of what `ReadFromUDP` returned to its `UDPRecv` (the sender and the
datagram, or the read error): the packet or the error, the new context and the acknowledgements
written. -/
def recv (ctx : ReliableContext) (incoming : Except String (String × List Byte)) (now : Int) :
    Except String (PacketHeader × List Byte) × ReliableContext × List (List Byte) :=
  match udpRecv incoming with
  | .error err => (.error err, ctx, [])
  | .ok (hdr, payload, addr) =>
  if addr ≠ ctx.addr then (.error "packet from wrong address", ctx, []) else
  if hdr.flags &&& flagReliable = 0 then (.ok (hdr, payload), ctx, []) else
  let seq := hdr.seq
  if ¬ ctx.isInRecvWindow seq then
    (.error "sequence number out of receive window", ctx, sendAck seq now) else
  if ctx.recvWindow (getWindowIndex seq) then (.error "duplicate packet", ctx, sendAck seq now) else
  let recvWindow := Function.update ctx.recvWindow (getWindowIndex seq) true
  let (recvBase, recvWindow) :=
    if seq = ctx.recvBase then advanceRecvBase 32 ctx.recvBase recvWindow
    else (ctx.recvBase, recvWindow)
  (.ok (hdr, payload), { ctx with recvBase, recvWindow }, sendAck seq now)

/-- `updateRTT` with the sample `rtt`. -/
def updateRtt (ctx : ReliableContext) (rtt : BitVec 32) : ReliableContext :=
  let stats := ctx.rtt
  let stats := if stats.samplesCount = 0 then { stats with srtt := rtt, rttVar := rtt / 2 }
    else
      let delta := if rtt > stats.srtt then rtt - stats.srtt else stats.srtt - rtt
      { stats with rttVar := (3 * stats.rttVar + delta) / 4, srtt := (7 * stats.srtt + rtt) / 8 }
  { ctx with rtt := { stats with
    rto := stats.srtt + 4 * stats.rttVar, samplesCount := stats.samplesCount + 1 } }

/-- `updateCongestionWindow`. Go divides `1 / cwnd` with a panic at zero, `BitVec` gives zero
there; no reachable context has `cwnd = 0`. -/
def updateCongestionWindow (ctx : ReliableContext) : ReliableContext :=
  if ctx.inSlowStart then
    let cwnd := ctx.cwnd + 1
    let inSlowStart := if cwnd ≥ ctx.ssthresh then false else ctx.inSlowStart
    { ctx with cwnd := if cwnd > maxCwnd then maxCwnd else cwnd, inSlowStart }
  else
    let cwnd := ctx.cwnd + 1 / ctx.cwnd
    { ctx with cwnd := if cwnd > maxCwnd then maxCwnd else cwnd }

/-- The loop of `ProcessACK` that slides the send window over acknowledged packets, run at most
`fuel` times. -/
def advanceSendBase : Nat → ReliableContext → ReliableContext
  | 0, ctx => ctx
  | fuel + 1, ctx =>
    if ctx.sendBase < ctx.nextSeq ∧ (ctx.sendWindow (getWindowIndex ctx.sendBase)).state = .acked
    then advanceSendBase fuel { ctx with
      sendWindow := Function.update ctx.sendWindow (getWindowIndex ctx.sendBase) .cleared,
      sendBase := ctx.sendBase + 1 }
    else ctx

/-- `ProcessACK` of `ackSeq` at time `now`: the new context and the fast retransmission
written, if any. -/
def processAck (ctx : ReliableContext) (ackSeq : BitVec 32) (now : Int) :
    ReliableContext × List (List Byte) :=
  if ¬ ctx.isInSendWindow ackSeq then (ctx, []) else
  let idx := getWindowIndex ackSeq
  let slot := ctx.sendWindow idx
  if slot.state = .empty ∨ slot.state = .acked then (ctx, []) else
  if ackSeq = ctx.lastAckSeq then
    let dupAckCount := ctx.dupAckCount + 1
    if dupAckCount = fastRetransmitThreshold ∧ slot.state = .sent then
      ({ ctx with
        dupAckCount,
        sendWindow := Function.update ctx.sendWindow idx { slot with state := .retransmit } },
        [slot.serialized])
    else ({ ctx with dupAckCount }, [])
  else
  let ctx := { ctx with dupAckCount := 0, lastAckSeq := ackSeq }
  let ctx := if slot.retryCount = 0 ∧ slot.state = .sent then
    ctx.updateRtt (BitVec.ofInt 32 (now - slot.sentAt)) else ctx
  let ctx := { ctx with sendWindow := Function.update ctx.sendWindow idx { slot with state := .acked } }
  (advanceSendBase 32 ctx.updateCongestionWindow, [])

/-- The body of the loop of `ProcessTimeouts` for the slot of `seq`, once it has timed out. -/
def retransmitSlot (ctx : ReliableContext) (idx : Fin 32) (now : Int) : ReliableContext :=
  let slot := ctx.sendWindow idx
  let ssthresh := ctx.cwnd / 2
  { ctx with
    sendWindow := Function.update ctx.sendWindow idx
      { slot with retryCount := slot.retryCount + 1, sentAt := now, state := .retransmit },
    ssthresh := if ssthresh < 2 then 2 else ssthresh, cwnd := initialCwnd, inSlowStart := true }

/-- The loop of `ProcessTimeouts` over the offsets `offsets` from `sendBase`, after
`retransmitted` retransmissions that wrote `written`; the `k`-th write ends with `writeErr k`.
The back-off `backoffRTO` it computes is never read, and is left out. -/
def timeoutLoop (now : Int) (writeErr : Nat → Option String) :
    List Nat → ReliableContext → Nat → List (List Byte) →
      (Nat × Option String) × ReliableContext × List (List Byte)
  | [], ctx, retransmitted, written => ((retransmitted, none), ctx, written)
  | i :: rest, ctx, retransmitted, written =>
    let seq := ctx.sendBase + BitVec.ofNat 32 i
    if seq ≥ ctx.nextSeq then ((retransmitted, none), ctx, written) else
    let idx := getWindowIndex seq
    let slot := ctx.sendWindow idx
    if slot.state = .empty ∨ slot.state = .acked then
      timeoutLoop now writeErr rest ctx retransmitted written else
    if BitVec.ofInt 32 (now - slot.sentAt) > ctx.rtt.rto then
      if slot.retryCount ≥ maxRetries then
        timeoutLoop now writeErr rest
          { ctx with sendWindow := Function.update ctx.sendWindow idx { slot with state := .empty } }
          retransmitted written
      else
        let ctx := ctx.retransmitSlot idx now
        match writeErr retransmitted with
        | some err => ((retransmitted, some err), ctx, written ++ [slot.serialized])
        | none => timeoutLoop now writeErr rest ctx (retransmitted + 1) (written ++ [slot.serialized])
    else timeoutLoop now writeErr rest ctx retransmitted written

/-- `ProcessTimeouts` at time `now`: the count of retransmissions and the error, the new
context and the datagrams written. -/
def processTimeouts (ctx : ReliableContext) (now : Int) (writeErr : Nat → Option String) :
    (Nat × Option String) × ReliableContext × List (List Byte) :=
  timeoutLoop now writeErr (List.range ctx.windowSize.toNat) ctx 0 []

end ReliableContext

/-! ## Runs -/

/-- A call of one of the four operations, with its inputs. -/
inductive Op where
  | send (hdr : PacketHeader) (payload : List Byte) (now : Int) (writeErr : Option String)
  | recv (incoming : Except String (String × List Byte)) (now : Int)
  | processAck (ackSeq : BitVec 32) (now : Int)
  | processTimeouts (now : Int) (writeErr : Nat → Option String)

/-- The context after the call `op`. -/
def Op.apply : Op → ReliableContext → ReliableContext
  | .send hdr payload now writeErr, ctx => (ctx.send hdr payload now writeErr).2.1
  | .recv incoming now, ctx => (ctx.recv incoming now).2.1
  | .processAck ackSeq now, ctx => (ctx.processAck ackSeq now).1
  | .processTimeouts now writeErr, ctx => (ctx.processTimeouts now writeErr).2.1

/-- The contexts reachable from `NewReliableContext` by any sequence of calls. -/
inductive Reachable : ReliableContext → Prop where
  | init (addr : String) : Reachable (newReliableContext addr)
  | step {ctx : ReliableContext} (op : Op) : Reachable ctx → Reachable (op.apply ctx)

/-- The context after the calls `ops`, in order. -/
def Op.run : List Op → ReliableContext → ReliableContext
  | [], ctx => ctx
  | op :: ops, ctx => Op.run ops (op.apply ctx)

end OverProto
