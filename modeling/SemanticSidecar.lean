import SemanticSidecar.Lib.Json
import SemanticSidecar.Lib.Pool
import SemanticSidecar.EngineTrait
import SemanticSidecar.Health
import SemanticSidecar.Protocol.Framing
import SemanticSidecar.Protocol.Calls
import SemanticSidecar.Protocol.Dispatch
import SemanticSidecar.Protocol.Loop
import SemanticSidecar.Engine.Input
import SemanticSidecar.Engine.Budget
import SemanticSidecar.Engine.Batch
import SemanticSidecar.Engine.Mismatch
import SemanticSidecar.Broker.Reply
import SemanticSidecar.Broker.Engine
import SemanticSidecar.Broker.Processes
import SemanticSidecar.Broker.Queue
import SemanticSidecar.Broker.Scheduling
import SemanticSidecar.Broker.Serve
import SemanticSidecar.Broker.Exchanges
import SemanticSidecar.Broker.Bookkeeping
import SemanticSidecar.Broker.Agreement
import SemanticSidecar.Broker.Silence
import SemanticSidecar.Prepare.Acquire
import SemanticSidecar.Prepare.Cleanup
import SemanticSidecar.Engine.Encode
import SemanticSidecar.Engine.BackendSelect
import SemanticSidecar.Engine.Load
import SemanticSidecar.Engine.Report
import SemanticSidecar.Engine.Served
import SemanticSidecar.Engine.Answers
import SemanticSidecar.Engine.Benchmark
import SemanticSidecar.Engine.Probes
import SemanticSidecar.Broker.Facts
import SemanticSidecar.Broker.Endpoint
import SemanticSidecar.Engine.Fastest
import SemanticSidecar.Engine.Recall
import SemanticSidecar.Prepare.Integrity
import SemanticSidecar.Package.Directory
import SemanticSidecar.Package.Modules
import SemanticSidecar.Package.Whitelist
import SemanticSidecar.Lib.Fallible
import SemanticSidecar.Package.Inventory
import SemanticSidecar.Package.Exact
import SemanticSidecar.Package.Roles
import SemanticSidecar.Engine.Machine
import SemanticSidecar.Lib.Sha256
import SemanticSidecar.Package.Identity
import SemanticSidecar.Lib.LockedFile
import SemanticSidecar.Engine.SharedCache
import SemanticSidecar.Lib.Halving
import SemanticSidecar.Engine.Isolation
import SemanticSidecar.Engine.Envelope
import SemanticSidecar.Broker.RequestClass
import SemanticSidecar.Lib.Descriptors
import SemanticSidecar.StdioGuard
import SemanticSidecar.Engine.Capabilities
import SemanticSidecar.Lib.Ensures
import SemanticSidecar.Prepare.Account
import SemanticSidecar.Lib.View
import SemanticSidecar.Prepare.Leftovers
import SemanticSidecar.Prepare.Events
import SemanticSidecar.Cli
import SemanticSidecar.BuildSupport
import SemanticSidecar.Package.Paths
import SemanticSidecar.Prepare.Attribution
import SemanticSidecar.Shader.Instructions
import SemanticSidecar.Shader.HalfStore
import SemanticSidecar.Lib.PyJson.Lexer
import SemanticSidecar.Lib.PyJson.Value
import SemanticSidecar.Lib.Splice
import SemanticSidecar.Native.Patch
import SemanticSidecar.Native.Validated
import SemanticSidecar.Prepare.FinalPath
import SemanticSidecar.Prepare.DownloadOnce
import SemanticSidecar.Lib.Monitor
import SemanticSidecar.Broker.Monitor
import SemanticSidecar.Engine.Checked
import SemanticSidecar.Prepare.Settled
import SemanticSidecar.Broker.Windows
import SemanticSidecar.Prepare.Run
import SemanticSidecar.Engine.Prepared
import SemanticSidecar.Console
import SemanticSidecar.Lib.Memo
import SemanticSidecar.Engine.Drivers
import SemanticSidecar.Lib.Recorded
import SemanticSidecar.Engine.Guarded
import SemanticSidecar.Package.Release
