import Cpe464.Framework.Bytes
import Cpe464.Framework.CString
import Cpe464.Framework.Chunks
import Cpe464.Framework.Cumulative
import Cpe464.Framework.FirstWriter
import Cpe464.Framework.Observation
import Cpe464.Framework.OnesComplement
import Cpe464.Framework.Runs
import Cpe464.Framework.Simulation
import Cpe464.Framework.Strtol
import Cpe464.Chat.Framing
import Cpe464.Chat.Reception
import Cpe464.Chat.HandleTable
import Cpe464.Chat.HandleMap
import Cpe464.Chat.Growth
import Cpe464.Chat.Server
import Cpe464.Chat.Bounds
import Cpe464.Chat.Broadcast
import Cpe464.Chat.Client
import Cpe464.Chat.Fragments
import Cpe464.Chat.Routing
import Cpe464.Chat.ServerRuns
import Cpe464.Chat.Registration
import Cpe464.Chat.Delivery
import Cpe464.Chat.Listing
import Cpe464.Chat.Recipients
import Cpe464.Chat.Unknown
import Cpe464.Chat.Stdin
import Cpe464.Chat.CommandLine
import Cpe464.Chat.OwnHandle
import Cpe464.Chat.ServerMessage
import Cpe464.Chat.Display
import Cpe464.Chat.ClientLoop
import Cpe464.Chat.PollSet
import Cpe464.Chat.ServerControl
import Cpe464.Chat.Starvation
import Cpe464.Chat.Streams
import Cpe464.Chat.Progress
import Cpe464.Chat.Outgoing
import Cpe464.Chat.Conversation
import Cpe464.Chat.Relay
import Cpe464.Transfer.Packet
import Cpe464.Transfer.ReceiveHook
import Cpe464.Transfer.Receive
import Cpe464.Transfer.FileSender
import Cpe464.Transfer.Window
import Cpe464.Transfer.WholeFile
import Cpe464.Transfer.BadFile
import Cpe464.Transfer.ServerLoop
import Cpe464.Transfer.Connect
import Cpe464.Transfer.ServerInert
import Cpe464.Transfer.SharedSocket
import Cpe464.Transfer.Children
import Cpe464.Transfer.Rcopy
import Cpe464.Transfer.Damage
import Cpe464.Transfer.Acknowledgement
import Cpe464.Transfer.ReceiveBuffer
import Cpe464.Transfer.PacketManager
import Cpe464.Transfer.SendHook
import Cpe464.Transfer.Arguments
import Cpe464.Transfer.Session
import Cpe464.Transfer.Assembly
import Cpe464.Transfer.HookedSession
import Cpe464.Trace.Parse
import Cpe464.Trace.Capture
import Cpe464.Trace.Checksum
import Cpe464.Trace.Dissection
