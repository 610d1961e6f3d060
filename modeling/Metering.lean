import Metering.Agent.Collector
import Metering.Agent.Dispatch
import Metering.Agent.FanOut
import Metering.Agent.HttpSender
import Metering.Agent.Lifetime
import Metering.Agent.Sampler
import Metering.Agent.Settings
import Metering.Agent.Strategy
import Metering.Bytes.Basic
import Metering.Bytes.Chunks
import Metering.Bytes.Hex
import Metering.Command.Line
import Metering.Command.Option
import Metering.Command.Settings
import Metering.Command.Usage
import Metering.Deflate.Bits
import Metering.Deflate.Deflate
import Metering.Deflate.Inflate
import Metering.Deflate.Matcher
import Metering.Deflate.PrefixCode
import Metering.Deflate.Token
import Metering.Digest.Crc32
import Metering.Digest.Hmac
import Metering.Digest.Sha256
import Metering.Failure.Basic
import Metering.Http.Headers
import Metering.Http.Percent
import Metering.Http.Request
import Metering.Http.Response
import Metering.Http.Status
import Metering.Http.Uri
import Metering.Ingest.Audit
import Metering.Ingest.Calls
import Metering.Ingest.Endpoints
import Metering.Ingest.Layers
import Metering.Ingest.Pool
import Metering.Ingest.Refusal
import Metering.Ingest.Route
import Metering.Ingest.Service
import Metering.Ingest.Task
import Metering.Json.Basic
import Metering.Json.Cursor
import Metering.Json.Fault
import Metering.Json.Reader
import Metering.Json.Shape
import Metering.Json.Skip
import Metering.Key.Der
import Metering.Key.File
import Metering.Key.Pem
import Metering.Key.Rsa
import Metering.Main
import Metering.Metric.Basic
import Metering.Metric.Record
import Metering.Net.Address
import Metering.Net.Listener
import Metering.Net.Network
import Metering.Number.Binary64
import Metering.Number.Decimal
import Metering.Number.Digits
import Metering.Number.Shortest
import Metering.Number.Text
import Metering.Number.Unsigned
import Metering.Proofs.BatchFold
import Metering.Proofs.LedgerHistory
import Metering.Proofs.ServiceRuns
import Metering.Retry
import Metering.Rpc.Client
import Metering.Rpc.Connection
import Metering.Rpc.Envelope
import Metering.Rpc.Frame
import Metering.Rpc.Session
import Metering.Server.Serving
import Metering.Server.Settings
import Metering.Server.Startup
import Metering.Store.ConnectionString
import Metering.Store.Database
import Metering.Store.Disk
import Metering.Store.Fault
import Metering.Store.Ledger
import Metering.Store.Repository
import Metering.Store.SnapshotFile
import Metering.Store.Table
import Metering.Text.Base64
import Metering.Text.Blank
import Metering.Text.Quoted
import Metering.Text.Unprintable
import Metering.Wire.Gzip
import Metering.Wire.Payload
import Metering.Wire.Sealing
import Metering.Wire.Signature
import Metering.Proofs.AnswerEffect
import Metering.Proofs.CallerCheck
import Metering.Proofs.SignatureCheck
import Metering.Proofs.PoolRuns
import Metering.Proofs.ExportReads
import Metering.Proofs.FileReplace
import Metering.Proofs.SaveStages
import Metering.Proofs.SyncSave
import Metering.Proofs.NearestRank
import Metering.Proofs.DecimalRange
import Metering.Proofs.ShortestDigits
import Metering.Proofs.JsonReads
import Metering.Proofs.NumberParts
import Metering.Proofs.JsonNumbers
import Metering.Proofs.MetricText
import Metering.Proofs.Inflation
import Metering.Proofs.AddressText
import Metering.Proofs.SealedBlocks
import Metering.Proofs.RequestMarks
import Metering.Proofs.PayloadLayers
import Metering.Proofs.Delivery
import Metering.Proofs.JsonYields
import Metering.Proofs.ValueTexts
import Metering.Proofs.SoundUpdates
import Metering.Proofs.SoundWrites
import Metering.Proofs.SnapshotText
import Metering.Proofs.RestartIdentity
import Metering.Proofs.FanOutBooks
import Metering.Proofs.PollCounts
import Metering.Proofs.CrewRuns
import Metering.Proofs.DispatchAccounts
import Metering.Proofs.SaveOrder
import Metering.Proofs.RepeatedCalls
import Metering.Proofs.KeyMatrix
import Metering.Proofs.BodyDecoding
import Metering.Proofs.SignedAnswers
import Metering.Proofs.JsonDocuments
import Metering.Proofs.BatchTransports
import Metering.Proofs.FrameStreams
import Metering.Proofs.SessionReplies
import Metering.Proofs.EnvelopeText
import Metering.Proofs.LateReplies
import Metering.Proofs.WriteDialogues
import Metering.Proofs.ServingCourse
import Metering.Proofs.LastSave
import Metering.Proofs.RoundTrips
import Metering.Proofs.PathTexts
import Metering.Proofs.ReadSurfaces
import Metering.Proofs.AuditTrail
import Metering.Proofs.FrameGrammar
import Metering.Proofs.BatchStages
import Metering.Proofs.AuthenticPayloads
import Metering.Proofs.AddressSpelling
import Metering.Proofs.NetworkMembers
import Metering.Proofs.CollectorCourse
import Metering.Proofs.RetryCourse
import Metering.Proofs.SealedBodies
import Metering.Proofs.ServerAddress
import Metering.Proofs.CountLookup
