import BtPeer.Library.Run
import BtPeer.Library.Count
import BtPeer.Library.Memory
import BtPeer.Library.Ring
import BtPeer.Library.Clock
import BtPeer.Basic
import BtPeer.Chunk
import BtPeer.Packet
import BtPeer.Packet.ExtHeader
import BtPeer.Packet.Wire
import BtPeer.SendPacket
import BtPeer.Broadcast
import BtPeer.RecvWin
import BtPeer.RecvWin.Marks
import BtPeer.Upload
import BtPeer.Download
import BtPeer.Transfer.Isolation
import BtPeer.Transfer.Reassembly
import BtPeer.Transfer.Sequence
import BtPeer.Transfer.Timer
import BtPeer.Transfer.Phases
import BtPeer.Transfer.Duplicates
import BtPeer.Transfer.Karn
import BtPeer.Transfer.Backoff
import BtPeer.Transfer.RealTime
import BtPeer.Transfer.Estimate
import BtPeer.Server.Admission
import BtPeer.Server.Completion
import BtPeer.Server.Integrity
import BtPeer.Server.Peer
import BtPeer.Server.Listing
import BtPeer.Server.Emission
import BtPeer.Server.Discovery
import BtPeer.Server.Announce
import BtPeer.Packet.RoundTrip
import BtPeer.Packet.Spelling
import BtPeer.Server.Spelling
import BtPeer.Server.Uploads
import BtPeer.Server.Saving
import BtPeer.Server.Bounds
import BtPeer.Server.Assignment
import BtPeer.InputBuffer
import BtPeer.ChunkFile
import BtPeer.Server.ReadString
import BtPeer.LinkedList
import BtPeer.Server.HasQueue
import BtPeer.Library.Blocks
import BtPeer.Library.SecureHash
import BtPeer.Sha
import BtPeer.Sha.Correct
import BtPeer.Server.MakeChunks
import BtPeer.Transfer.Earned
import BtPeer.Server.Causality
import BtPeer.Library.Network
import BtPeer.Server.Network
import BtPeer.Transfer.Recovery
import BtPeer.Server.Downloads
import BtPeer.Server.Fetch
import BtPeer.Server.Spiffy
import BtPeer.Server.PeerRun
import BtPeer.Server.Config
import BtPeer.Server.EndToEnd
import BtPeer.Server.Startup
