import OmniKV.Lib.Overlay
import OmniKV.Lib.Machine
import OmniKV.Lib.Net
import OmniKV.Lib.Quorum
import OmniKV.Lib.Frames
import OmniKV.Lib.Broadcast
import OmniKV.Lib.Conveyance
import OmniKV.Lib.Views
import OmniKV.Lib.Decimal
import OmniKV.Lib.Words
import OmniKV.Kv
import OmniKV.Compaction
import OmniKV.Database
import OmniKV.OmniPaxos
import OmniKV.Server
import OmniKV.Node
import OmniKV.Replica
import OmniKV.ReadErrors
import OmniKV.Single
import OmniKV.Reconfig
import OmniKV.Transfer
import OmniKV.Agreement
import OmniKV.Membership
import OmniKV.Integrity
import OmniKV.Sessions
import OmniKV.Succession
import OmniKV.EventLoop
import OmniKV.Routing
import OmniKV.Inbox
import OmniKV.Answers
import OmniKV.Numbering
import OmniKV.Lifetime
import OmniKV.Proposals
import OmniKV.Traffic
import OmniKV.Refinement
import OmniKV.Cluster
import OmniKV.Crashes
import OmniKV.Relay
import OmniKV.Delivery
import OmniKV.Partition
import OmniKV.Peers
import OmniKV.Reconnection
import OmniKV.Links
import OmniKV.Transport
import OmniKV.Deployment
import OmniKV.Progress
import OmniKV.Mappings
import OmniKV.Addresses
import OmniKV.Parser
import OmniKV.ClientPorts
import OmniKV.Dispatch
import OmniKV.Responses
