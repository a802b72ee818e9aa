import Inferna.Lib.Run
import Inferna.Lib.Dict
import Inferna.Lib.Text
import Inferna.Models
import Inferna.Scheduler
import Inferna.Scaling
import Inferna.Instances
import Inferna.WorkersSvc
import Inferna.Autoscaling
import Inferna.Manager
import Inferna.World
import Inferna.Placement
import Inferna.Errors
import Inferna.Moves
import Inferna.Footprint
import Inferna.Vram
import Inferna.Ports
import Inferna.Handover
import Inferna.ScaleSpec
import Inferna.ScaleTarget
import Inferna.StopReach
import Inferna.Batches
import Inferna.TickRollback
import Inferna.Window
import Inferna.Lib.Ipaddress
import Inferna.Lib.Url
import Inferna.UpstreamGuard
import Inferna.PinSafety
import Inferna.Gateway
import Inferna.Lib.Tally
import Inferna.Slots
import Inferna.Usage
import Inferna.Conservation
import Inferna.Quota
import Inferna.BadAggregate
import Inferna.Groups
import Inferna.Lib.Coalesce
import Inferna.Docker
import Inferna.Coalescing
import Inferna.StoppedDown
import Inferna.Health
import Inferna.Agreement
import Inferna.Round
import Inferna.Lib.Json
import Inferna.Relay
import Inferna.Addresses
import Inferna.PendingBound
import Inferna.Stamps
import Inferna.Lib.Race
import Inferna.Users
import Inferna.LastInstance
import Inferna.Identity
import Inferna.OneStep
import Inferna.Engines
import Inferna.Topology
import Inferna.RunLoop
import Inferna.Listing
import Inferna.Endpoints
import Inferna.RequestCount
import Inferna.Lib.UuidText
import Inferna.Phase0
import Inferna.Phase2
import Inferna.Parity
import Inferna.Lib.Quantile
import Inferna.Ttft
import Inferna.LoadSignal
import Inferna.RangeFit
import Inferna.Hosts
import Inferna.HostReuse
import Inferna.Lib.Greedy
import Inferna.Capacity
import Inferna.Spread
import Inferna.FastPath
import Inferna.Policy
import Inferna.Balance
import Inferna.Lib.HashChain
import Inferna.Lib.TimedRing
import Inferna.PrefixCache
import Inferna.Lib.IpText
import Inferna.Literals
import Inferna.Commands
import Inferna.Lib.HeaderParams
import Inferna.Multipart
import Inferna.Lib.PyText
import Inferna.Digests
import Inferna.Lib.JsonDump
import Inferna.StreamUsage
import Inferna.Lib.Search
import Inferna.FinalUsage
import Inferna.Verdict
import Inferna.Clusters
import Inferna.Lib.JsonText
import Inferna.Coding
import Inferna.Lib.UnitStep
import Inferna.Stability
import Inferna.Access
import Inferna.Lib.Rounding
import Inferna.Occupancy
import Inferna.Report
import Inferna.Progress
import Inferna.Catalog
import Inferna.Lib.Cooldown
import Inferna.Pacing
import Inferna.Affinity
import Inferna.Lib.Locking
import Inferna.Transactions
import Inferna.Uptime
