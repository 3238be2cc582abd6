import IoCatcher.Lib.OrderedMap
import IoCatcher.Lib.Tiling
import IoCatcher.Lib.Run
import IoCatcher.Lib.LittleEndian
import IoCatcher.Lib.Outcome
import IoCatcher.Model.Backends
import IoCatcher.Model.Object
import IoCatcher.Model.Ownership
import IoCatcher.Model.Layout
import IoCatcher.Model.Buffers
import IoCatcher.Model.WellFormed
import IoCatcher.Model.Content
import IoCatcher.Model.CopyOnWrite
import IoCatcher.Model.FullCopy
import IoCatcher.Model.Server
import IoCatcher.Model.Transfer
import IoCatcher.Model.Requests
import IoCatcher.Model.MemoryCache
import IoCatcher.Model.Gaps
import IoCatcher.Model.Lockstep
import IoCatcher.Model.Flight
import IoCatcher.Model.RangeCopy
import IoCatcher.Safety.SegmentMap
import IoCatcher.Safety.Exclusion
import IoCatcher.Safety.Isolation
import IoCatcher.Safety.FullCopy
import IoCatcher.Safety.RangeCopy
import IoCatcher.Safety.Coherence
import IoCatcher.Safety.CopyBounds
import IoCatcher.Safety.CowRequest
import IoCatcher.Safety.EagerRead
import IoCatcher.Safety.Durability
import IoCatcher.Safety.Snapshot
import IoCatcher.Safety.Answers
import IoCatcher.Safety.Provenance
import IoCatcher.Wire.Serializer
import IoCatcher.Wire.Protocol
import IoCatcher.Wire.RoundTrip
import IoCatcher.Wire.Bounds
import IoCatcher.Network.Connection
import IoCatcher.Network.Effects
import IoCatcher.Safety.ReceiveBuffers
import IoCatcher.Safety.EagerWrite
import IoCatcher.Safety.Endpoints
import IoCatcher.Safety.Unauthenticated
import IoCatcher.Wire.Decoding
import IoCatcher.Network.Rdma
import IoCatcher.Network.Twins
import IoCatcher.Safety.Leftover
import IoCatcher.Network.Threads
import IoCatcher.Safety.Disconnection
import IoCatcher.Client.Pool
import IoCatcher.Client.Regions
import IoCatcher.Model.StorageLog
import IoCatcher.Safety.ExactTiling
import IoCatcher.Safety.Flush
import IoCatcher.Safety.Iovec
import IoCatcher.Safety.CowReport
import IoCatcher.Safety.CowDurability
import IoCatcher.Safety.Origins
import IoCatcher.Safety.Recycling
import IoCatcher.Safety.Registrations
import IoCatcher.Wire.Sizes
import IoCatcher.Memory.Cache
import IoCatcher.Memory.Balance
import IoCatcher.Memory.Nvdimm
import IoCatcher.Storage.Mero
import IoCatcher.Model.Accounts
import IoCatcher.Safety.FailedLoad
import IoCatcher.Lib.Custody
import IoCatcher.Network.Completions
import IoCatcher.Safety.Pending
import IoCatcher.Lib.Wrapping
import IoCatcher.Safety.Overlap
import IoCatcher.Wire.Encoding
import IoCatcher.Network.Answering
import IoCatcher.Network.Returning
import IoCatcher.Client.Actions
import IoCatcher.Client.Exchange
import IoCatcher.Lib.Simulation
import IoCatcher.Lib.Mailbox
import IoCatcher.Safety.Fetches
import IoCatcher.Client.System
import IoCatcher.Client.InFlight
import IoCatcher.Client.Service
import IoCatcher.Client.Schedule
import IoCatcher.Client.Calls
import IoCatcher.Client.Buffers
import IoCatcher.Lib.WriteBack
import IoCatcher.Refinement.ObjectStore
import IoCatcher.Refinement.Copies
import IoCatcher.Refinement.Server
import IoCatcher.Refinement.Service
import IoCatcher.Refinement.Delivery
import IoCatcher.Refinement.Sources
import IoCatcher.Refinement.Registered
import IoCatcher.Refinement.Restart
