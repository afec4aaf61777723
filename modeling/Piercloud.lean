import Piercloud.Library.CString
import Piercloud.Library.Replace
import Piercloud.Library.Numeral
import Piercloud.Library.Runs
import Piercloud.Library.Traces
import Piercloud.Library.Nesting
import Piercloud.Library.Progress
import Piercloud.Library.Loop
import Piercloud.Library.Fifo
import Piercloud.Library.Block
import Piercloud.Library.Fields
import Piercloud.Construction.Liblst
import Piercloud.Construction.Socket
import Piercloud.Construction.Buffer
import Piercloud.Construction.Header
import Piercloud.Construction.Routing
import Piercloud.Construction.Device
import Piercloud.Construction.Answer
import Piercloud.Construction.Request
import Piercloud.Construction.Session
import Piercloud.Construction.Respond
import Piercloud.Construction.Authorization
import Piercloud.Construction.Paths
import Piercloud.Construction.Wire
import Piercloud.Construction.Transfer
import Piercloud.Construction.Transport
import Piercloud.Construction.Connection
import Piercloud.Construction.Client
import Piercloud.Construction.Blocks
import Piercloud.Construction.Strings
import Piercloud.Construction.Lists
import Piercloud.Construction.Config
import Piercloud.Construction.Files
import Piercloud.Proof.Socket.Conservation
import Piercloud.Proof.Socket.Delivery
import Piercloud.Proof.Socket.Loops
import Piercloud.Proof.Socket.Outcomes
import Piercloud.Proof.Socket.Rows
import Piercloud.Proof.Socket.Kept
import Piercloud.Proof.Socket.Retry
import Piercloud.Proof.Parser.Steps
import Piercloud.Proof.Parser.Messages
import Piercloud.Proof.Parser.Chunks
import Piercloud.Proof.Parser.Survival
import Piercloud.Proof.Parser.Sessions
import Piercloud.Proof.Parser.Queue
import Piercloud.Proof.Parser.Truncation
import Piercloud.Proof.Parser.Loops
import Piercloud.Proof.Parser.Draining
import Piercloud.Proof.Parser.Separation
import Piercloud.Proof.Parser.Ahead
import Piercloud.Proof.Tunnel.Encoding
import Piercloud.Proof.Tunnel.Agreement
import Piercloud.Proof.Tunnel.Pings
import Piercloud.Proof.Tunnel.Framing
import Piercloud.Proof.Tunnel.Credentials
import Piercloud.Proof.Tunnel.Routing
import Piercloud.Proof.Tunnel.Paths
import Piercloud.Proof.Tunnel.Judged
import Piercloud.Proof.Respond.Received
import Piercloud.Proof.Respond.Lengths
import Piercloud.Proof.Respond.Lines
import Piercloud.Proof.Respond.Relayed
import Piercloud.Proof.Respond.Announced
import Piercloud.Proof.Respond.Rewriting
import Piercloud.Proof.Respond.Chunked
import Piercloud.Proof.Device.Order
import Piercloud.Proof.Device.Loss
import Piercloud.Proof.Device.Readers
import Piercloud.Proof.Device.Assigned
import Piercloud.Proof.Answer.Correlation
import Piercloud.Proof.Answer.Places
import Piercloud.Proof.Answer.Unkilled
import Piercloud.Proof.Answer.Liveness
import Piercloud.Proof.Transfer.Copying
import Piercloud.Proof.Transfer.Gone
import Piercloud.Proof.Connection.Exchange
import Piercloud.Proof.Connection.Pieces
import Piercloud.Proof.Connection.Stages
import Piercloud.Proof.Connection.Requests
import Piercloud.Proof.Connection.Handshake
import Piercloud.Proof.Connection.Destination
import Piercloud.Proof.Connection.Login
import Piercloud.Proof.Connection.Descriptor
import Piercloud.Proof.Connection.SockRow
import Piercloud.Proof.Client.Handles
import Piercloud.Proof.Client.Accepted
import Piercloud.Proof.Client.Rounds
import Piercloud.Proof.Strings.Replacement
import Piercloud.Proof.Strings.Chopping
import Piercloud.Proof.Strings.Trimming
import Piercloud.Proof.Lists.Pushing
import Piercloud.Proof.Lists.Lookup
import Piercloud.Proof.Strings.Fields
import Piercloud.Proof.Lists.Settings
import Piercloud.Proof.Files.Content
import Piercloud.Proof.Files.Rows
import Piercloud.Proof.Files.Lines
import Piercloud.Proof.Files.Leftover
import Piercloud.Proof.System.Delivery
import Piercloud.Proof.System.Answered
import Piercloud.Proof.Pointers.Owned
import Piercloud.Proof.Pointers.Request
