import Multiport.Lib.Overwrite
import Multiport.Lib.Maps
import Multiport.Lib.Lists
import Multiport.Lib.Runs
import Multiport.Lib.Timers
import Multiport.Lib.Index
import Multiport.Lib.Nested
import Multiport.Lib.Bytes
import Multiport.Lib.Heap
import Multiport.Lib.Compare
import Multiport.Net.Addr
import Multiport.Net.AddrText
import Multiport.Net.Prefix
import Multiport.Net.Packet
import Multiport.Net.Flowtrack
import Multiport.Tailcfg.Node
import Multiport.Disco.Message
import Multiport.Disco.Codec
import Multiport.Disco.RoundTrip
import Multiport.Control.PeerState
import Multiport.Control.PeerDiff
import Multiport.Control.Patchify
import Multiport.Control.DiscoScreen
import Multiport.Control.Session
import Multiport.Netmap.Mutation
import Multiport.Control.Incremental
import Multiport.Magicsock.ProbeManager
import Multiport.Magicsock.ProbeLedger
import Multiport.Magicsock.ProbeCaps
import Multiport.Magicsock.ActivePolicy
import Multiport.Magicsock.PolicyTiming
import Multiport.Magicsock.Knobs
import Multiport.Magicsock.Sockets
import Multiport.Magicsock.Score
import Multiport.Magicsock.ActiveBackup
import Multiport.Magicsock.DualSend
import Multiport.Magicsock.RankedPaths
import Multiport.Magicsock.DiscoAdverts
import Multiport.Magicsock.Geneve
import Multiport.Magicsock.AdvertisedEndpoints
import Multiport.Net.PacketBounds
import Multiport.PacketFilter.Reuse
import Multiport.Magicsock.Endpoint
import Multiport.Magicsock.BestAddr
import Multiport.Magicsock.HoldWindow
import Multiport.Magicsock.PathOrder
import Multiport.Magicsock.SendPair
import Multiport.Magicsock.PeerMap
import Multiport.Magicsock.PeerKeys
import Multiport.Magicsock.RelayServers
import Multiport.Magicsock.ConnPeers
import Multiport.Magicsock.ConnRuns
import Multiport.Magicsock.DiscoKeys
import Multiport.Magicsock.StalePeers
import Multiport.Magicsock.RelayCandidates
import Multiport.Magicsock.RelayManager
import Multiport.Magicsock.RelayWork
import Multiport.Magicsock.RelayFreshness
import Multiport.Magicsock.EndpointTracker
import Multiport.Magicsock.TrackedEndpoints
import Multiport.Magicsock.ProbeSend
import Multiport.PacketFilter.Match
import Multiport.PacketFilter.Filter
import Multiport.PacketFilter.Admission
import Multiport.PacketFilter.Rules
import Multiport.PacketFilter.Grants
import Multiport.Tka.State
import Multiport.Tka.Chonk
import Multiport.Tka.Authority
import Multiport.Tka.ActiveChain
import Multiport.Tka.Open
import Multiport.Tka.Tree
import Multiport.Tka.Inform
import Multiport.Tka.Converge
import Multiport.Tka.Builder
import Multiport.Tka.Keys
import Multiport.Tka.Wire
import Multiport.Tka.Finalize
import Multiport.Tka.Sync
import Multiport.Tka.Sig
import Multiport.Udprelay.Server
import Multiport.Udprelay.Indices
import Multiport.Udprelay.Allocation
import Multiport.Udprelay.Binding
import Multiport.Lib.Buffer
import Multiport.Controlbase.Conn
import Multiport.Controlbase.Stream
import Multiport.Lib.LastMax
import Multiport.Tstun.PeerConfig
import Multiport.Dns.Name
import Multiport.Appc.Connector
import Multiport.Appc.Observe
import Multiport.Appc.Serve
import Multiport.Appc.Reconfigure
import Multiport.Taildrop.Files
import Multiport.Taildrop.Manager
import Multiport.Taildrop.Resume
import Multiport.Lib.SlidingQueue
import Multiport.Eventbus.Bus
import Multiport.Eventbus.Order
import Multiport.Lib.TextLines
import Multiport.Filch.Buffer
import Multiport.Filch.Reading
import Multiport.Filch.Fifo
import Multiport.Lib.SlashPath
import Multiport.Serve.Config
import Multiport.Serve.Handler
import Multiport.Serve.Validate
import Multiport.Lib.Coalesce
import Multiport.IpnBus.Notify
import Multiport.IpnBus.Sender
import Multiport.Lib.Segments
import Multiport.Batching.Coalesce
import Multiport.Derp.Mesh
import Multiport.Tka.Offer
import Multiport.Eventbus.Closing
import Multiport.Util.Cmpver
import Multiport.Ipnlocal.Expiry
import Multiport.PacketFilter.Replies
