import CellReplay.Lib.Transition
import CellReplay.Lib.Binary64
import CellReplay.Lib.FifoChannel
import CellReplay.Lib.PriorityQueue
import CellReplay.Util.ByteStreamQueue
import CellReplay.Packet.PacketQueue
import CellReplay.Packet.QueueArguments
import CellReplay.Packet.DropHead
import CellReplay.Packet.TailLimited
import CellReplay.Packet.PiePacketQueue
import CellReplay.Frontend.Execution
import CellReplay.Frontend.Occupancy
import CellReplay.Frontend.Delivery
import CellReplay.Frontend.WaitTime
import CellReplay.Frontend.Polling
import CellReplay.Frontend.Bypass
import CellReplay.Frontend.ReleaseOrder
import CellReplay.Frontend.Schedule
import CellReplay.Frontend.Lookup
import CellReplay.Frontend.FluidLink
import CellReplay.Frontend.SearchTermination
import CellReplay.Frontend.SlotCapacity
import CellReplay.Frontend.SlotSafety
import CellReplay.Frontend.Handover
import CellReplay.Frontend.ReleaseFloor
import CellReplay.Frontend.Restart
import CellReplay.Frontend.ReleaseArithmetic
import CellReplay.Frontend.LinkSafety
import CellReplay.Frontend.TimeShift
import CellReplay.Frontend.OffsetTable
import CellReplay.Frontend.PacketHeader
import CellReplay.Record.Dispatch
import CellReplay.Record.Handshake
import CellReplay.Record.PacketTrainServer
import CellReplay.Record.SaturatorServer
import CellReplay.Record.TrainExchange
import CellReplay.Record.SaturatorBatches
import CellReplay.Record.TraceFiles
import CellReplay.Record.EchoedProbes
import CellReplay.Record.SenderThread
import CellReplay.Frontend.CommandLine
import CellReplay.Util.DnsProxy
import CellReplay.Packet.PacketShell
import CellReplay.Frontend.LossyDelivery
import CellReplay.Packet.CodelStanding
import CellReplay.Packet.PieControl
import CellReplay.Record.ReplayedTraces
import CellReplay.Record.BandwidthTrace
import CellReplay.Frontend.Latency
import CellReplay.Packet.FerryDelivery
import CellReplay.Frontend.QuotedCommand
import CellReplay.Util.Interfaces
