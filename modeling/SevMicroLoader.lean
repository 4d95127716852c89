import SevMicroLoader.Lib.MerklePath
import SevMicroLoader.Lib.OrderStatistic
import SevMicroLoader.Lib.Calendar
import SevMicroLoader.Lib.Hex
import SevMicroLoader.Lib.Frame
import SevMicroLoader.Lib.Prog
import SevMicroLoader.Lib.Implement
import SevMicroLoader.Lib.Loop
import SevMicroLoader.Lib.Tasks
import SevMicroLoader.Lib.Stages
import SevMicroLoader.Lib.Words
import SevMicroLoader.Lib.Crlf
import SevMicroLoader.Rust.Str
import SevMicroLoader.Rust.U64
import SevMicroLoader.Time.Request
import SevMicroLoader.Time.Verify
import SevMicroLoader.Time.MerkleProof
import SevMicroLoader.Time.MerkleTree
import SevMicroLoader.Time.TagLookup
import SevMicroLoader.Time.Safety
import SevMicroLoader.Time.Query
import SevMicroLoader.Time.Server
import SevMicroLoader.Time.Consensus
import SevMicroLoader.Time.Median
import SevMicroLoader.Time.HttpDate
import SevMicroLoader.Time.DateRange
import SevMicroLoader.Time.Floor
import SevMicroLoader.Dns.Box
import SevMicroLoader.Dns.Response
import SevMicroLoader.Dns.Reply
import SevMicroLoader.Dns.Session
import SevMicroLoader.Dns.Alignment
import SevMicroLoader.Dns.WellFormed
import SevMicroLoader.Dns.Txt
import SevMicroLoader.Dns.TxtRecords
import SevMicroLoader.Dns.Certificate
import SevMicroLoader.Dns.Safety
import SevMicroLoader.Dns.Client
import SevMicroLoader.Dns.Query
import SevMicroLoader.Dns.Padding
import SevMicroLoader.Dns.Establish
import SevMicroLoader.Dns.Cache
import SevMicroLoader.Dns.Choice
import SevMicroLoader.Dns.Failover
import SevMicroLoader.Dns.Transport
import SevMicroLoader.Dns.Resolver
import SevMicroLoader.Dns.ResolverRuns
import SevMicroLoader.Dns.Provider
import SevMicroLoader.Dns.ProviderRuns
import SevMicroLoader.Attestation.Limiter
import SevMicroLoader.Attestation.Ledger
import SevMicroLoader.Attestation.LimiterRuns
import SevMicroLoader.Attestation.Collection
import SevMicroLoader.Attestation.Handler
import SevMicroLoader.Attestation.Grammar
import SevMicroLoader.Attestation.Binding
import SevMicroLoader.Attestation.Endpoint
import SevMicroLoader.Attestation.Segmentation
import SevMicroLoader.Attestation.Http
import SevMicroLoader.Attestation.Server
import SevMicroLoader.Attestation.Service
import SevMicroLoader.Attestation.ServiceRuns
import SevMicroLoader.Boot.Download
import SevMicroLoader.Boot.DownloadRuns
import SevMicroLoader.Boot.Sequence
import SevMicroLoader.Boot.Chain
import SevMicroLoader.Boot.Init
import SevMicroLoader.Boot.Clock
import SevMicroLoader.Boot.Interfaces
import SevMicroLoader.Boot.DateFallback
import SevMicroLoader.Boot.Provenance
import SevMicroLoader.Boot.Lockdown
import SevMicroLoader.Boot.Watchdog
import SevMicroLoader.Boot.Order
import SevMicroLoader.Boot.Entry
