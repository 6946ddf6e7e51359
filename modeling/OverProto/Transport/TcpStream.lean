import OverProto.Core.Codec
import OverProto.Transport.Tcp

/-!
# `TCPRecv` reads one frame of the stream

When every `Read` of the socket succeeds (`NetConn.DataOnly`), however it splits the stream,
`readExact` of `n` bytes returns the next `n` bytes, or `io.EOF` after the stream ran out
(`readExact_dataOnly`). Each reading state of `TCPRecv` is one such read (`recvUpTo_dataOnly`),
so a call from `StateIdle` consumes exactly the header, the declared payload and the trailer,
and returns what `Deserialize` returns on those bytes (`tcpRecv_idle`). Over a stream of serialized
packets the successive calls return the packets (`tcpRecvMany_frames`), and the two together
are `tcpRecv_refines_reader`.

A `Read` that fails is another matter. Every call ends in `StateIdle` (`tcpRecv_recvState`), so
the bytes a failed call consumed are dropped, and the next call reads a header from the middle of
the frame (`tcpRecv_resets_after_failed_read`).
-/

namespace OverProto

/-- Every coming `Read` returns bytes: no `Read` fails before the end of the stream. -/
def NetConn.DataOnly (c : NetConn) : Prop := ∀ e ∈ c.reads, ∃ n, e = .data n

theorem NetConn.DataOnly.tail {c : NetConn} (data : c.DataOnly) (unread : List Byte) :
    NetConn.DataOnly ⟨unread, c.reads.tail⟩ :=
  fun e mem => data e (List.mem_of_mem_tail mem)

/-- A `Read` of a nonempty stream under a data-only schedule returns between one and `want` of
the next bytes. -/
theorem NetConn.read_dataOnly {c : NetConn} (data : c.DataOnly) (nonempty : c.unread ≠ [])
    {want : Nat} (positive : 0 < want) :
    ∃ k rest, 0 < k ∧ k ≤ want ∧ k ≤ c.unread.length ∧
      NetConn.DataOnly ⟨c.unread.drop k, rest⟩ ∧
      c.read want = (c.unread.take k, none, ⟨c.unread.drop k, rest⟩) := by
  have long : 0 < c.unread.length := List.length_pos.mpr nonempty
  unfold NetConn.read
  rw [if_neg nonempty]
  match reads : c.reads, data with
  | [], _ => exact ⟨min want c.unread.length, [], by omega, by omega, by omega, nofun, rfl⟩
  | .data n :: rest, data =>
    refine ⟨min (max n 1) (min want c.unread.length), rest, by omega, by omega, by omega,
      fun e mem => ?_, rfl⟩
    exact data e (by rw [reads]; exact .tail _ mem)
  | .fail n err :: rest, data =>
    obtain ⟨_, bad⟩ := data _ (by rw [reads]; exact .head _)
    cases bad

/-- Under a data-only schedule `readExact` of `want` bytes returns the next `want` bytes, or
`io.EOF` when fewer are left; either way it consumes `want` bytes of the stream. -/
theorem readExact_dataOnly (c : NetConn) (data : c.DataOnly) (want : Nat) :
    ∃ next, next.DataOnly ∧ next.unread = c.unread.drop want ∧
      readExact c want =
        (if want ≤ c.unread.length then .ok (c.unread.take want) else .error eof, next) := by
  induction want using Nat.strong_induction_on generalizing c with
  | _ want ih =>
  rcases Nat.eq_zero_or_pos want with rfl | positive
  · exact ⟨c, data, rfl, by simp [readExact]⟩
  by_cases empty : c.unread = []
  · refine ⟨_, data.tail c.unread, by simp [empty], ?_⟩
    rw [readExact, dif_neg (by omega)]
    simp [NetConn.read, empty, Nat.pos_iff_ne_zero.mp positive]
  obtain ⟨k, rest, pos, le_want, le_len, data', read⟩ := NetConn.read_dataOnly data empty positive
  obtain ⟨last, data'', unread, result⟩ := ih (want - k) (by omega) _ data'
  refine ⟨last, data'', by rw [unread, List.drop_drop, Nat.add_sub_cancel' le_want], ?_⟩
  rw [readExact, dif_neg (by omega), read]
  simp only [List.length_take, Nat.min_eq_left le_len, dif_neg (Nat.pos_iff_ne_zero.mp pos)]
  rw [result]
  simp only [List.length_drop]
  by_cases fits : want ≤ c.unread.length
  · rw [if_pos (by omega), if_pos fits]
    dsimp only
    rw [← List.take_add, Nat.add_sub_cancel' le_want]
  · rw [if_neg (by omega), if_neg fits]

/-! ## One reading state -/

theorem writeAt_nil (buf : List Byte) (pos : Nat) : writeAt buf pos [] = buf := by
  simp [writeAt]

theorem writeAt_append (front back bytes : List Byte) :
    writeAt (front ++ back) front.length bytes = front ++ bytes ++ back.drop bytes.length := by
  simp [writeAt, List.take_append_of_le_length, List.drop_append_eq_append_drop]

/-- A reading state reads up to `stop` from the stream and goes on, or goes idle with `io.EOF`
once the stream is short. -/
theorem recvUpTo_dataOnly (stop : Nat) (state : TcpRecvState)
    (next : TcpConnection → RecvResult × TcpConnection) (conn : TcpConnection)
    (data : conn.fd.DataOnly) (below : conn.recvBytesRead ≤ stop) :
    ∃ fd : NetConn, fd.DataOnly ∧ fd.unread = conn.fd.unread.drop (stop - conn.recvBytesRead) ∧
      recvUpTo stop state next conn =
        if stop - conn.recvBytesRead ≤ conn.fd.unread.length then
          next { conn with
            fd, recvBuffer := writeAt conn.recvBuffer conn.recvBytesRead
              (conn.fd.unread.take (stop - conn.recvBytesRead)),
            recvBytesRead := stop, recvState := state }
        else (.error eof, { conn with fd, recvState := .idle }) := by
  rcases Nat.lt_or_ge conn.recvBytesRead stop with reads | done
  · obtain ⟨fd, data', unread, result⟩ := readExact_dataOnly conn.fd data (stop - conn.recvBytesRead)
    refine ⟨fd, data', unread, ?_⟩
    rw [recvUpTo, if_pos reads, result]
    split_ifs <;> rfl
  · obtain rfl : stop = conn.recvBytesRead := by omega
    refine ⟨conn.fd, data, by simp, ?_⟩
    rw [recvUpTo, if_neg (Nat.lt_irrefl _), Nat.sub_self, if_pos (Nat.zero_le _), List.take_zero,
      writeAt_nil]

/-! ## One call from `StateIdle` -/

theorem bufferPayloadLen_eq (buf : List Byte) : bufferPayloadLen buf = uint16 (slice buf 18 20) := by
  rw [bufferPayloadLen, uint16, BitVec.or_comm]
  simp [slice, List.getD_eq_getElem?_getD, List.getElem?_take]

theorem bufferPayloadLen_append (front back : List Byte) (long : 20 ≤ front.length) :
    bufferPayloadLen (front ++ back) = bufferPayloadLen front := by
  simp only [bufferPayloadLen_eq, slice_append_left _ _ long]

/-- A call of `TCPRecv` ended with `result`, an idle connection, and a data-only socket with
`unread` left to read. -/
structure EndsWith (out : RecvResult × TcpConnection) (result : RecvResult) (unread : List Byte) :
    Prop where
  result : out.1 = result
  idle : out.2.recvState = .idle
  data : out.2.fd.DataOnly
  unread : out.2.fd.unread = unread

theorem endsWith_eof {conn : TcpConnection} (idle : conn.recvState = .idle)
    (data : conn.fd.DataOnly) : EndsWith (.error eof, conn) (.error eof) conn.fd.unread :=
  ⟨rfl, idle, data, rfl⟩

theorem recvReady_endsWith {conn : TcpConnection} {frameBytes : List Byte}
    (data : conn.fd.DataOnly) (taken : conn.recvBuffer.take conn.recvBytesRead = frameBytes) :
    EndsWith (recvReady conn) (deserialize frameBytes) conn.fd.unread := by
  unfold recvReady
  rw [taken]
  split <;> rename_i decoded <;> exact ⟨decoded.symm, rfl, data, rfl⟩

section Stages

variable (conn : TcpConnection) (frontBytes : List Byte)

/-- `StateReadingCRC` after the header and payload `frontBytes`: the frame is those bytes and the
next 4 of the stream. -/
theorem recvCrc_endsWith (data : conn.fd.DataOnly) (long : 20 ≤ frontBytes.length)
    (sized : frontBytes.length = 24 + (bufferPayloadLen frontBytes).toNat)
    (buffer : conn.recvBuffer = frontBytes ++ List.replicate 4 0)
    (offset : conn.recvBytesRead = frontBytes.length) :
    EndsWith (recvCrc conn)
      (if 4 ≤ conn.fd.unread.length then deserialize (frontBytes ++ conn.fd.unread.take 4)
        else .error eof) (conn.fd.unread.drop 4) := by
  have stop : 24 + (bufferPayloadLen conn.recvBuffer).toNat + 4 = frontBytes.length + 4 := by
    rw [buffer, bufferPayloadLen_append _ _ long, ← sized]
  obtain ⟨fd, data', unread, step⟩ :=
    recvUpTo_dataOnly (frontBytes.length + 4) .ready recvReady conn data (by omega)
  rw [recvCrc, stop, step]
  simp only [offset, Nat.add_sub_cancel_left] at unread ⊢
  split_ifs with fits
  · rw [← unread]
    refine recvReady_endsWith data' ?_
    rw [buffer, writeAt_append, List.length_take, Nat.min_eq_left fits]
    simp
  · rw [← unread]
    exact endsWith_eof rfl data'

/-- `StateReadingPayload` after the 24 header bytes `frontBytes` declaring `L`: the frame is the
header and the next `L + 4` bytes of the stream. -/
theorem recvPayload_endsWith (data : conn.fd.DataOnly) (header : frontBytes.length = 24)
    (buffer : conn.recvBuffer =
      frontBytes ++ List.replicate ((bufferPayloadLen frontBytes).toNat + 4) 0)
    (offset : conn.recvBytesRead = 24) :
    let L := (bufferPayloadLen frontBytes).toNat
    EndsWith (recvPayload conn)
      (if L + 4 ≤ conn.fd.unread.length then deserialize (frontBytes ++ conn.fd.unread.take (L + 4))
        else .error eof) (conn.fd.unread.drop (L + 4)) := by
  intro L
  have stop : 24 + (bufferPayloadLen conn.recvBuffer).toNat = 24 + L := by
    rw [buffer, bufferPayloadLen_append _ _ (by omega)]
  obtain ⟨fd, data', unread, step⟩ :=
    recvUpTo_dataOnly (24 + L) .readingCrc recvCrc conn data (by omega)
  rw [recvPayload, stop, step]
  simp only [offset, Nat.add_sub_cancel_left] at unread ⊢
  by_cases fits : L ≤ conn.fd.unread.length
  · rw [if_pos fits]
    have same : bufferPayloadLen (frontBytes ++ conn.fd.unread.take L) =
        bufferPayloadLen frontBytes := bufferPayloadLen_append _ _ (by omega)
    have result : (if L + 4 ≤ conn.fd.unread.length then
          deserialize (frontBytes ++ conn.fd.unread.take (L + 4)) else .error eof) =
        if 4 ≤ fd.unread.length then
          deserialize (frontBytes ++ conn.fd.unread.take L ++ fd.unread.take 4) else .error eof := by
      simp only [unread, List.length_drop, List.append_assoc, ← List.take_add]
      split_ifs <;> first | rfl | omega
    rw [result, show conn.fd.unread.drop (L + 4) = fd.unread.drop 4 by
      rw [unread, List.drop_drop, Nat.add_comm]]
    refine recvCrc_endsWith _ _ data' (by simp; omega) (by rw [same]; simp; omega) ?_ (by simp; omega)
    rw [buffer, ← header, writeAt_append, List.length_take, Nat.min_eq_left fits,
      List.drop_replicate, Nat.add_sub_cancel_left]
  · rw [if_neg fits, if_neg (by omega), List.drop_eq_nil_of_le (by omega : conn.fd.unread.length ≤ L + 4),
      ← List.drop_eq_nil_of_le (by omega : conn.fd.unread.length ≤ L), ← unread]
    exact endsWith_eof rfl data'

end Stages

/-- A call from `StateIdle` on a stream `R` read without failures: if `R` holds the 24 header
bytes, the `L` payload bytes they declare and 4 more, it consumes exactly those and returns what
`Deserialize` returns on them; otherwise it consumes the stream and returns `io.EOF`. Either way
the connection is idle again. -/
theorem tcpRecv_idle (conn : TcpConnection) (idle : conn.recvState = .idle)
    (data : conn.fd.DataOnly) :
    let L := (uint16 (slice conn.fd.unread 18 20)).toNat
    EndsWith (tcpRecv conn)
      (if 28 + L ≤ conn.fd.unread.length then deserialize (conn.fd.unread.take (28 + L))
        else .error eof) (conn.fd.unread.drop (28 + L)) := by
  intro L
  obtain ⟨fd, data', unread, header⟩ := recvUpTo_dataOnly 24 .readingHeader recvHeaderRead
    { conn with recvBuffer := List.replicate 24 0, recvBytesRead := 0, recvState := .readingHeader }
    data (Nat.zero_le _)
  simp only [Nat.sub_zero] at header unread
  rw [tcpRecv, idle, recvIdle, recvHeader, header]
  by_cases hasHeader : 24 ≤ conn.fd.unread.length
  swap
  · rw [if_neg hasHeader, if_neg (by omega), List.drop_eq_nil_of_le (by omega),
      ← List.drop_eq_nil_of_le (by omega : conn.fd.unread.length ≤ 24), ← unread]
    exact endsWith_eof rfl data'
  have declared : bufferPayloadLen (conn.fd.unread.take 24) = uint16 (slice conn.fd.unread 18 20) := by
    rw [bufferPayloadLen_eq, slice, List.take_take, slice]; rfl
  have result : (if 28 + L ≤ conn.fd.unread.length then
        deserialize (conn.fd.unread.take (28 + L)) else .error eof) =
      if L + 4 ≤ fd.unread.length then
        deserialize (conn.fd.unread.take 24 ++ fd.unread.take (L + 4)) else .error eof := by
    rw [unread, ← List.take_add, List.length_drop]
    split_ifs <;> first | omega | rfl | (congr 2; omega)
  rw [if_pos hasHeader, recvHeaderRead, result,
    show conn.fd.unread.drop (28 + L) = fd.unread.drop (L + 4) by
      rw [unread, List.drop_drop]; congr 1; omega]
  have buffer : writeAt (List.replicate 24 0) 0 (conn.fd.unread.take 24) = conn.fd.unread.take 24 := by
    simp [writeAt, hasHeader]
  simp only [buffer, declared, List.length_take, Nat.min_eq_left hasHeader, List.take_take,
    Nat.min_self, show 24 + L + 4 - 24 = L + 4 by omega, show 24 + L + 4 > 24 by omega, if_true]
  have payload := recvPayload_endsWith
    { fd, recvState := .readingPayload, recvBytesRead := 24,
      recvBuffer := conn.fd.unread.take 24 ++ List.replicate (L + 4) 0 }
    (conn.fd.unread.take 24) data' (by simp [hasHeader]) (by rw [declared]) rfl
  dsimp only at payload
  rwa [declared] at payload

/-! ## Successive calls over a stream of frames -/

/-- `n` successive calls of `TCPRecv`, as the receive loops of the example server make them. -/
def tcpRecvMany : Nat → TcpConnection → List RecvResult × TcpConnection
  | 0, conn => ([], conn)
  | n + 1, conn =>
    match tcpRecv conn with
    | (result, next) =>
      match tcpRecvMany n next with
      | (results, last) => (result :: results, last)

/-- On a stream of serialized packets, read without failures, the `k`-th call returns the
`k`-th packet with its reserved word zero. -/
theorem tcpRecvMany_frames {packets : List (PacketHeader × List Byte)} {frames : List (List Byte)}
    (valid : ∀ packet ∈ packets, packet.1.magic = magic ∧ packet.1.version = version ∧
      packet.1.payloadLen.toNat = packet.2.length)
    (serialized : List.Forall₂ (fun packet bytes => serialize packet.1 packet.2 = .ok bytes)
      packets frames)
    (rest : List Byte) (conn : TcpConnection) (idle : conn.recvState = .idle)
    (data : conn.fd.DataOnly) (stream : conn.fd.unread = frames.flatten ++ rest) :
    (tcpRecvMany packets.length conn).1 =
      packets.map fun packet => .ok ({ packet.1 with timestamp := 0 }, packet.2) := by
  induction serialized generalizing conn with
  | nil => rfl
  | @cons packet bytes packets frames first _ ih =>
    obtain ⟨-, rfl⟩ := serialize_eq_ok_iff.mp first
    obtain ⟨magicOk, versionOk, declared⟩ := valid packet (.head _)
    have call := tcpRecv_idle conn idle data
    have field : (uint16 (slice conn.fd.unread 18 20)).toNat = packet.2.length := by
      rw [stream, List.flatten_cons, List.append_assoc,
        slice_append_left _ _ (by simp; omega), frame, List.append_assoc,
        slice_append_left _ _ (by simp), slice_headerBytes_payloadLen, uint16_putUint16, declared]
    have long : 28 + packet.2.length ≤ conn.fd.unread.length := by
      simp [stream]
    simp only [field, if_pos long] at call
    have taken : conn.fd.unread.take (28 + packet.2.length) = frame packet.1 packet.2 := by
      rw [stream, List.flatten_cons, List.append_assoc, ← length_frame,
        List.take_left]
    have dropped : conn.fd.unread.drop (28 + packet.2.length) = frames.flatten ++ rest := by
      rw [stream, List.flatten_cons, List.append_assoc, ← length_frame, List.drop_left]
    rw [taken, deserialize_frame _ _ ⟨magicOk, versionOk⟩ declared] at call
    rw [dropped] at call
    simp only [List.length_cons, tcpRecvMany, call.result, List.map_cons,
      ih (fun p mem => valid p (.tail _ mem)) _ call.idle call.data call.unread]

/-- `TCPRecv` refines a plain length-prefixed reader under any chunking of the reads: a call
from `StateIdle` at offset `i` of the stream consumes exactly the `28 + L` bytes of the frame
there and returns what `Deserialize` returns on them, or `io.EOF` if the stream is shorter; and
over a stream of serialized packets the successive calls return the packets. -/
theorem tcpRecv_refines_reader :
    (∀ (S : List Byte) (i : Nat) (conn : TcpConnection), conn.recvState = .idle →
      conn.fd.DataOnly → conn.fd.unread = S.drop i →
      let L := (uint16 (slice S (i + 18) (i + 20))).toNat
      (tcpRecv conn).2.recvState = .idle ∧
        if i + 28 + L ≤ S.length then
          (tcpRecv conn).1 = deserialize (slice S i (i + 28 + L)) ∧
            (tcpRecv conn).2.fd.unread = S.drop (i + 28 + L)
        else (tcpRecv conn).1 = .error eof) ∧
    (∀ (packets : List (PacketHeader × List Byte)) (frames : List (List Byte))
      (rest : List Byte) (conn : TcpConnection),
      (∀ packet ∈ packets, packet.1.magic = magic ∧ packet.1.version = version ∧
        packet.1.payloadLen.toNat = packet.2.length) →
      List.Forall₂ (fun packet bytes => serialize packet.1 packet.2 = .ok bytes) packets frames →
      conn.recvState = .idle → conn.fd.DataOnly → conn.fd.unread = frames.flatten ++ rest →
      (tcpRecvMany packets.length conn).1 =
        packets.map fun packet => .ok ({ packet.1 with timestamp := 0 }, packet.2)) := by
  refine ⟨fun S i conn idle data stream => ?_,
    fun _ _ rest conn valid serialized idle data stream =>
      tcpRecvMany_frames valid serialized rest conn idle data stream⟩
  have call := tcpRecv_idle conn idle data
  simp only [stream, slice_drop, List.length_drop, List.drop_drop, take_drop_eq_slice,
    ← Nat.add_assoc] at call
  refine ⟨call.idle, ?_⟩
  split_ifs with long
  · rw [if_pos (by omega)] at call
    exact ⟨call.result, call.unread⟩
  · rw [if_neg (by omega)] at call
    exact call.result

theorem tcpRecv_refines_reader_compatHeader :
    let S := frame compatHeader [116, 101, 115, 116]
    let conn := newTcpConnection ⟨S, [.data 1, .data 5, .data 100]⟩
    (conn.recvState = .idle ∧ conn.fd.DataOnly ∧ conn.fd.unread = S.drop 0 ∧
      let L := (uint16 (slice S (0 + 18) (0 + 20))).toNat
      (tcpRecv conn).2.recvState = .idle ∧
        if 0 + 28 + L ≤ S.length then
          (tcpRecv conn).1 = deserialize (slice S 0 (0 + 28 + L)) ∧
            (tcpRecv conn).2.fd.unread = S.drop (0 + 28 + L)
        else (tcpRecv conn).1 = .error eof) ∧
    ((∀ packet ∈ [(compatHeader, ([116, 101, 115, 116] : List Byte))], packet.1.magic = magic ∧
        packet.1.version = version ∧ packet.1.payloadLen.toNat = packet.2.length) ∧
      List.Forall₂ (fun packet bytes => serialize packet.1 packet.2 = .ok bytes)
        [(compatHeader, [116, 101, 115, 116])] [S] ∧
      conn.recvState = .idle ∧ conn.fd.DataOnly ∧ conn.fd.unread = [S].flatten ++ [] ∧
      (tcpRecvMany 1 conn).1 = [.ok ({ compatHeader with timestamp := 0 }, [116, 101, 115, 116])]) := by
  intro S conn
  have idle : conn.recvState = .idle := rfl
  have data : conn.fd.DataOnly := fun e mem => by
    simp only [conn, newTcpConnection, List.mem_cons, List.mem_singleton, List.not_mem_nil,
      or_false] at mem
    rcases mem with rfl | rfl | rfl <;> exact ⟨_, rfl⟩
  have valid : ∀ packet ∈ [(compatHeader, ([116, 101, 115, 116] : List Byte))], packet.1.magic = magic ∧
      packet.1.version = version ∧ packet.1.payloadLen.toNat = packet.2.length := by
    simp only [List.mem_singleton, forall_eq]
    exact ⟨rfl, rfl, by decide⟩
  have serialized : List.Forall₂ (fun packet bytes => serialize packet.1 packet.2 = .ok bytes)
      [(compatHeader, [116, 101, 115, 116])] [S] :=
    .cons (serialize_eq_ok _ (by decide)) .nil
  have stream : conn.fd.unread = [S].flatten ++ [] := by
    simp only [List.flatten_cons, List.flatten_nil, List.append_nil]
    rfl
  exact ⟨⟨idle, data, rfl, tcpRecv_refines_reader.1 S 0 conn idle data rfl⟩,
    valid, serialized, idle, data, stream,
    tcpRecv_refines_reader.2 [(compatHeader, [116, 101, 115, 116])] [S] [] conn valid serialized
      idle data stream⟩

/-! ## A failed read -/

/-- A reading state ends idle whenever the state after it does. -/
theorem recvUpTo_recvState (stop : Nat) (state : TcpRecvState)
    {next : TcpConnection → RecvResult × TcpConnection}
    (ends : ∀ conn, (next conn).2.recvState = .idle) (conn : TcpConnection) :
    (recvUpTo stop state next conn).2.recvState = .idle := by
  unfold recvUpTo
  split_ifs
  · split
    · rfl
    · exact ends _
  · exact ends _

/-- Every call of `TCPRecv` leaves the connection in `StateIdle`, whatever it returns: a call
never stops mid-frame. -/
theorem tcpRecv_recvState (conn : TcpConnection) : (tcpRecv conn).2.recvState = .idle := by
  have ready (conn : TcpConnection) : (recvReady conn).2.recvState = .idle := by
    unfold recvReady; split <;> rfl
  have crc (conn : TcpConnection) : (recvCrc conn).2.recvState = .idle :=
    recvUpTo_recvState _ _ ready conn
  have payload (conn : TcpConnection) : (recvPayload conn).2.recvState = .idle :=
    recvUpTo_recvState _ _ crc conn
  have header (conn : TcpConnection) : (recvHeader conn).2.recvState = .idle :=
    recvUpTo_recvState _ _ (fun _ => payload _) conn
  unfold tcpRecv
  split
  · exact header _
  · exact header _
  · exact payload _
  · exact crc _
  · exact ready _

/-- A `readExact` whose first `Read` returns `k` bytes, fewer than asked for, and whose second
fails, consumes the `k` bytes and returns the error. -/
theorem readExact_data_fail (c : NetConn) {k : Nat} {err : String} {rest : List ReadEvent}
    (reads : c.reads = .data k :: .fail 0 err :: rest) {want : Nat} (positive : 0 < k)
    (short : k < want) (left : k < c.unread.length) :
    readExact c want = (.error err, ⟨c.unread.drop k, rest⟩) := by
  have nonempty : c.unread ≠ [] := List.ne_nil_of_length_pos (by omega)
  have taken : min (max k 1) (min want c.unread.length) = k := by omega
  rw [readExact, dif_neg (by omega)]
  simp only [NetConn.read, if_neg nonempty, reads, taken, List.length_take,
    Nat.min_eq_left left.le, dif_neg (Nat.pos_iff_ne_zero.mp positive)]
  rw [readExact, dif_neg (by omega)]
  have remaining : c.unread.drop k ≠ [] := by simp; omega
  simp [NetConn.read, remaining]

/-- A call from `StateIdle` whose header read gets `k` bytes and then fails returns the error
and leaves the socket `k` bytes further on. -/
theorem tcpRecv_failed_read (conn : TcpConnection) (idle : conn.recvState = .idle) {k : Nat}
    {err : String} {rest : List ReadEvent} (reads : conn.fd.reads = .data k :: .fail 0 err :: rest)
    (positive : 0 < k) (short : k < 24) (left : k < conn.fd.unread.length) :
    (tcpRecv conn).1 = .error err ∧ (tcpRecv conn).2.fd = ⟨conn.fd.unread.drop k, rest⟩ := by
  have read := readExact_data_fail conn.fd reads positive short left
  rw [tcpRecv, idle, recvIdle, recvHeader, recvUpTo, if_pos (by simp)]
  simp only [Nat.sub_zero, read, and_true]

/-- A failed `Read` loses the bytes its call had consumed: every call of `TCPRecv` ends in
`StateIdle`, so the next one starts a header where the failed one stopped. On the frame of the
compatibility test, a first `Read` of 10 bytes followed by a timeout leaves 22 bytes that the
next calls take for a short header, and no call returns the frame. -/
theorem tcpRecv_resets_after_failed_read :
    (∀ conn : TcpConnection, (tcpRecv conn).2.recvState = .idle) ∧
    (∀ (conn : TcpConnection) (k : Nat) (err : String) (rest : List ReadEvent),
      conn.recvState = .idle → conn.fd.reads = .data k :: .fail 0 err :: rest → 0 < k →
      k < 24 → k < conn.fd.unread.length →
      (tcpRecv conn).1 = .error err ∧ (tcpRecv conn).2.fd = ⟨conn.fd.unread.drop k, rest⟩) ∧
    (let conn := newTcpConnection
      ⟨frame compatHeader [116, 101, 115, 116], [.data 10, .fail 0 "i/o timeout"]⟩
     (tcpRecvMany 3 conn).1 = [.error "i/o timeout", .error eof, .error eof]) := by
  refine ⟨tcpRecv_recvState, fun conn k err rest idle reads positive short left =>
    tcpRecv_failed_read conn idle reads positive short left, ?_⟩
  intro conn
  have fd : conn.fd = ⟨frame compatHeader [116, 101, 115, 116], [.data 10, .fail 0 "i/o timeout"]⟩ :=
    rfl
  have first := tcpRecv_failed_read conn rfl (by rw [fd]) (by decide) (by decide)
    (by rw [fd, length_frame]; decide)
  have data : (tcpRecv conn).2.fd.DataOnly := by rw [first.2]; exact nofun
  have second := tcpRecv_idle _ (tcpRecv_recvState conn) data
  have short : (tcpRecv conn).2.fd.unread.length = 22 := by
    rw [first.2, fd]
    simp only [List.length_drop, length_frame]
    rfl
  dsimp only at second
  rw [if_neg (by omega)] at second
  have third := tcpRecv_idle _ second.idle second.data
  dsimp only at third
  have gone : (tcpRecv (tcpRecv conn).2).2.fd.unread = [] := by
    rw [second.unread, List.drop_eq_nil_of_le (by omega)]
  rw [gone, if_neg (by simp)] at third
  simp only [tcpRecvMany, first.1, second.result, third.result]

end OverProto
