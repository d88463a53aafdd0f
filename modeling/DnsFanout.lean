import DnsFanout.Main
import DnsFanout.Rehearsal.Handler
import DnsFanout.Rehearsal.Host
import DnsFanout.Rehearsal.Peer
import DnsFanout.Rehearsal.Post
import DnsFanout.Rehearsal.Resolver
import DnsFanout.Rehearsal.Shelf
import DnsFanout.Proofs.Rotation
import DnsFanout.Proofs.Selection
import DnsFanout.Proofs.Merge
import DnsFanout.Proofs.Worker.Journal
import DnsFanout.Proofs.Worker.Observe
import DnsFanout.Proofs.Worker.Story
import DnsFanout.Proofs.Worker.Turn
import DnsFanout.Proofs.Worker.Round
import DnsFanout.Proofs.Crew.Basic
import DnsFanout.Proofs.Crew.Dispatch
import DnsFanout.Proofs.Crew.Serial
import DnsFanout.Proofs.Interleaving
import DnsFanout.Proofs.Health
import DnsFanout.Proofs.ProbeSlot
import DnsFanout.Proofs.Correlation
import DnsFanout.Proofs.Noninterference
import DnsFanout.Proofs.Deadline
import DnsFanout.Proofs.Wire.Compression
import DnsFanout.Proofs.Wire.Emission
import DnsFanout.Proofs.Wire.Record
import DnsFanout.Proofs.Wire.Section
import DnsFanout.Proofs.Wire.Decoding
import DnsFanout.Proofs.Wire.Regular
import DnsFanout.Proofs.Wire.Front
import DnsFanout.Proofs.Wire.Offset
import DnsFanout.Proofs.Wire.Size
import DnsFanout.Proofs.Wire.RoundTrip
import DnsFanout.Proofs.Answering
import DnsFanout.Proofs.Startup
import DnsFanout.Proofs.Framing
import DnsFanout.Proofs.Streams.Basic
import DnsFanout.Proofs.Streams.Ownership
import DnsFanout.Proofs.Streams.Tale
import DnsFanout.Proofs.Streams.Completion
import DnsFanout.Proofs.Streams.Reuse
import DnsFanout.Proofs.Address.Digits
import DnsFanout.Proofs.Address.Dotted
import DnsFanout.Proofs.Address.Groups
import DnsFanout.Proofs.Address.Texts
import DnsFanout.Proofs.Address.RoundTrip
import DnsFanout.Proofs.Address.Characters
import DnsFanout.Proofs.EndpointText
import DnsFanout.Proofs.EndpointGrammar
import DnsFanout.Proofs.Pool
import DnsFanout.Proofs.PoolCalls
import DnsFanout.Proofs.PoolHistory
import DnsFanout.Proofs.Datagrams
import DnsFanout.Proofs.StaleConnections
import DnsFanout.Proofs.Incident
import DnsFanout.Proofs.FailureCount
import DnsFanout.Proofs.ProbeLoops
import DnsFanout.Proofs.ProbeRounds
import DnsFanout.Proofs.Toml.Quoted
import DnsFanout.Proofs.Toml.Values
import DnsFanout.Proofs.Toml.Sections
import DnsFanout.Proofs.SettingsText
import DnsFanout.Proofs.HandlerContract
import DnsFanout.Proofs.ReplyCode
import DnsFanout.Proofs.Aggregation
import DnsFanout.Proofs.ConfiguredEndpoints
import DnsFanout.Proofs.Accounting
import DnsFanout.Proofs.Tolerance
import DnsFanout.Proofs.Escalation
import DnsFanout.Proofs.DatagramSize
import DnsFanout.Proofs.Connection
import DnsFanout.Proofs.DatagramHeader
import DnsFanout.Proofs.DatagramReply
import DnsFanout.Proofs.WholeDatagrams
import DnsFanout.Proofs.Results
import DnsFanout.Proofs.NameComparison
import DnsFanout.Proofs.ReplyMatching
import DnsFanout.Proofs.ZoneSpelling
import DnsFanout.Proofs.AdmissionRule
