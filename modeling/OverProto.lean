import OverProto.Core.Wire
import OverProto.Core.Crc32
import OverProto.Core.Packet
import OverProto.Core.Codec
import OverProto.Core.Fragment
import OverProto.Core.Reassembly
import OverProto.Core.FragmentBounds
import OverProto.Transport.Tcp
import OverProto.Transport.TcpStream
import OverProto.Transport.Reliable
import OverProto.Transport.ReliableCalls
import OverProto.Transport.SendWindow
import OverProto.Transport.AckProcessing
import OverProto.Transport.SendAdmission
import OverProto.Transport.RttEstimator
import OverProto.Transport.RecvWindow
import OverProto.Transport.Congestion
import OverProto.Transport.Timeouts
import OverProto.Transport.Link
import OverProto.Transport.AckRuns
import OverProto.Transport.Traffic
import OverProto.Transport.Exchange
import OverProto.Optimize.Payload
import OverProto.Api.Send
import OverProto.Api.Frames
