import Kademlia.Bencode.Basic
import Kademlia.Bencode.Frame
import Kademlia.Bencode.Reader
import Kademlia.Bencode.RoundTrip
import Kademlia.Bencode.Writer
import Kademlia.Bucket
import Kademlia.Bytes
import Kademlia.Config
import Kademlia.Contact
import Kademlia.DecodeError
import Kademlia.Dialogue
import Kademlia.Draws
import Kademlia.Endpoint
import Kademlia.Id.Basic
import Kademlia.Id.Hex
import Kademlia.Keyed
import Kademlia.Ledger
import Kademlia.Lookup.Query
import Kademlia.Message.Basic
import Kademlia.Message.Decode
import Kademlia.Message.Encode
import Kademlia.Node.Basic
import Kademlia.Node.Deed
import Kademlia.Node.Lookup
import Kademlia.Node.Maintain
import Kademlia.Node.Probes
import Kademlia.Node.Publish
import Kademlia.Node.Receive
import Kademlia.Proofs.Bucket
import Kademlia.Proofs.Bytewise
import Kademlia.Proofs.Drawing
import Kademlia.Proofs.Hex
import Kademlia.Proofs.Ledger.Accounts
import Kademlia.Proofs.Ledger.Conclusion
import Kademlia.Proofs.Ledger.Dealings
import Kademlia.Proofs.Ledger.Handles
import Kademlia.Proofs.Ledger.Interleaving
import Kademlia.Proofs.Ledger.Operations
import Kademlia.Proofs.Ledger.Orderly
import Kademlia.Proofs.Ledger.Retries
import Kademlia.Proofs.Ledger.Waiting
import Kademlia.Proofs.Lookup.Calls
import Kademlia.Proofs.Lookup.Result
import Kademlia.Proofs.Lookup.Rounds
import Kademlia.Proofs.Lookup.Standing
import Kademlia.Proofs.Message.Contacts
import Kademlia.Proofs.Message.Framing
import Kademlia.Proofs.Message.Requests
import Kademlia.Proofs.Message.RoundTrip
import Kademlia.Proofs.Message.Shape
import Kademlia.Proofs.Message.Size
import Kademlia.Proofs.Metric
import Kademlia.Proofs.MetricLaws
import Kademlia.Proofs.Neighbourhood
import Kademlia.Proofs.Node.Acceptance
import Kademlia.Proofs.Node.Arrival
import Kademlia.Proofs.Node.Attendance
import Kademlia.Proofs.Node.Awaiting
import Kademlia.Proofs.Node.Confinement
import Kademlia.Proofs.Node.Course
import Kademlia.Proofs.Node.Ending
import Kademlia.Proofs.Node.Eviction
import Kademlia.Proofs.Node.Expiry
import Kademlia.Proofs.Node.Growth
import Kademlia.Proofs.Node.Lasting
import Kademlia.Proofs.Node.Life
import Kademlia.Proofs.Node.LookupResult
import Kademlia.Proofs.Node.Maintenance
import Kademlia.Proofs.Node.Probing
import Kademlia.Proofs.Node.Prospects
import Kademlia.Proofs.Node.Provenance
import Kademlia.Proofs.Node.Publishers
import Kademlia.Proofs.Node.Replication
import Kademlia.Proofs.Node.Search
import Kademlia.Proofs.Node.Traffic
import Kademlia.Proofs.Ranking
import Kademlia.Proofs.Ranking.Additions
import Kademlia.Proofs.RecordStore.History
import Kademlia.Proofs.RecordStore.Representation
import Kademlia.Proofs.RoutingTable.Closest
import Kademlia.Proofs.RoutingTable.Entries
import Kademlia.Proofs.RoutingTable.Freshness
import Kademlia.Proofs.RoutingTable.History
import Kademlia.Proofs.RoutingTable.Known
import Kademlia.Proofs.RoutingTable.Pings
import Kademlia.Proofs.RoutingTable.Representation
import Kademlia.Proofs.RoutingTable.Splitting
import Kademlia.Proofs.RoutingTable.Unlimited
import Kademlia.Proofs.RoutingTable.Use
import Kademlia.Proofs.RoutingTable.WellFormed
import Kademlia.Proofs.Share
import Kademlia.Proofs.Swarm.Datagrams
import Kademlia.Proofs.Swarm.Matching
import Kademlia.Proofs.Swarm.Member
import Kademlia.Proofs.Swarm.Network
import Kademlia.Proofs.Utf8
import Kademlia.Ranking
import Kademlia.RecordStore
import Kademlia.RoutingTable
import Kademlia.Simulation.Network
import Kademlia.Simulation.Service
import Kademlia.Simulation.Testnet
import Kademlia.Simulation.World
import Kademlia.Text.Decimal
import Kademlia.Text.Utf8
import Kademlia.Time
import Kademlia.TransactionId
import Kademlia.Upkeep
