import Relocation.Binary64
import Relocation.CommandLine.Arguments
import Relocation.CommandLine.Flag
import Relocation.CommandLine.UsageError
import Relocation.Controller
import Relocation.Crd.Definitions
import Relocation.Crd.Schema
import Relocation.Error
import Relocation.Export
import Relocation.ExportDirs
import Relocation.Files.Calls
import Relocation.Files.IoError
import Relocation.Files.Path
import Relocation.Files.Tree
import Relocation.HostImageSync
import Relocation.HostReferences
import Relocation.Json.Decode
import Relocation.Json.Encode
import Relocation.Json.Numeral
import Relocation.Json.Reader
import Relocation.Json.Source
import Relocation.Json.Value
import Relocation.Json.Writer
import Relocation.Json.Yaml
import Relocation.Lifecycle
import Relocation.Log.Filter
import Relocation.Log.Line
import Relocation.Main
import Relocation.Metrics
import Relocation.Net.Endpoint
import Relocation.Net.SocketAddress
import Relocation.Notice
import Relocation.Objects.ClusterConfig
import Relocation.Objects.Descriptor
import Relocation.Objects.Host
import Relocation.Objects.HostPatch
import Relocation.Objects.Key
import Relocation.Objects.Metadata
import Relocation.Objects.RelocationSettings
import Relocation.Objects.Secret
import Relocation.Outcome
import Relocation.Program
import Relocation.Proofs.Adapters
import Relocation.Proofs.Amendments
import Relocation.Proofs.ApiServer
import Relocation.Proofs.Artifacts
import Relocation.Proofs.Backoffs
import Relocation.Proofs.Base64
import Relocation.Proofs.BootTargets
import Relocation.Proofs.Callbacks
import Relocation.Proofs.Collected
import Relocation.Proofs.Contention
import Relocation.Proofs.Convergence
import Relocation.Proofs.Deletion
import Relocation.Proofs.DeletionLifecycle
import Relocation.Proofs.Documents
import Relocation.Proofs.Effects
import Relocation.Proofs.Encodings
import Relocation.Proofs.ExportContents
import Relocation.Proofs.ExportFailures
import Relocation.Proofs.Exports
import Relocation.Proofs.FileWork
import Relocation.Proofs.Files.Clearing
import Relocation.Proofs.Files.Confined
import Relocation.Proofs.Files.ExportSite
import Relocation.Proofs.Files.Grounds
import Relocation.Proofs.Files.Growth
import Relocation.Proofs.Files.Linkless
import Relocation.Proofs.Files.Making
import Relocation.Proofs.Files.Neighbours
import Relocation.Proofs.Files.Places
import Relocation.Proofs.Files.Removal
import Relocation.Proofs.Files.Seeking
import Relocation.Proofs.Files.Stations
import Relocation.Proofs.Files.Trees
import Relocation.Proofs.Files.Twins
import Relocation.Proofs.Files.Way
import Relocation.Proofs.FinalizerProtocol
import Relocation.Proofs.GuardSequences
import Relocation.Proofs.GivingWay
import Relocation.Proofs.Guards
import Relocation.Proofs.HostPatches
import Relocation.Proofs.Idempotence
import Relocation.Proofs.HostReferrers
import Relocation.Proofs.ImageUrl
import Relocation.Proofs.Independence
import Relocation.Proofs.Json.Codecs
import Relocation.Proofs.Json.MergePatch
import Relocation.Proofs.Json.Records
import Relocation.Proofs.Json.RoundTrip
import Relocation.Proofs.LockExclusion
import Relocation.Proofs.Measurements
import Relocation.Proofs.OptimisticConcurrency
import Relocation.Proofs.Orphans
import Relocation.Proofs.Phases
import Relocation.Proofs.Replicas
import Relocation.Proofs.SameObjects
import Relocation.Proofs.StalePatches
import Relocation.Proofs.Surroundings
import Relocation.Proofs.Timestamps
import Relocation.Proofs.Versions
import Relocation.Proofs.WorkQueue
import Relocation.Reconcile
import Relocation.Scenario.Live
import Relocation.Scenario.State
import Relocation.Scenario.Step
import Relocation.Settings
import Relocation.Startup
import Relocation.Store.Api
import Relocation.Store.Memory
import Relocation.Table
import Relocation.Text.Base64
import Relocation.Text.Blank
import Relocation.Text.Percent
import Relocation.Text.Printable
import Relocation.Text.Quoted
import Relocation.Text.Similarity
import Relocation.Text.Utf8
import Relocation.Time.Timestamp
import Relocation.WriteLock
