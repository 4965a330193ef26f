import IntentGuard.Lib.Runs
import IntentGuard.Lib.FiniteSum
import IntentGuard.Lib.Erc20
import IntentGuard.Lib.Hashing
import IntentGuard.Lib.Keccak256
import IntentGuard.Lib.Table
import IntentGuard.Lib.Replay
import IntentGuard.Lib.Mirror
import IntentGuard.Lib.NewestFirst
import IntentGuard.Lib.JsonText
import IntentGuard.Lib.SortedEntries
import IntentGuard.Lib.Patterns
import IntentGuard.Lib.Broadcast
import IntentGuard.Lib.Budget
import IntentGuard.Lib.Machines
import IntentGuard.Lib.EventStream
import IntentGuard.Contracts.Types
import IntentGuard.Contracts.World
import IntentGuard.Contracts.IntentRegistry
import IntentGuard.Contracts.StakeVault
import IntentGuard.Contracts.GuardedExecutor
import IntentGuard.Contracts.ChallengeArbiter
import IntentGuard.Contracts.System
import IntentGuard.Contracts.Effect
import IntentGuard.Contracts.History
import IntentGuard.Contracts.Preflight
import IntentGuard.Contracts.Intents
import IntentGuard.Contracts.Noninterference
import IntentGuard.Contracts.Rejections
import IntentGuard.Contracts.CommittedIntents
import IntentGuard.Contracts.Stability
import IntentGuard.Contracts.Exposure
import IntentGuard.Contracts.Receipts
import IntentGuard.Contracts.Solvency
import IntentGuard.Contracts.OwnerControl
import IntentGuard.Contracts.NextNonce
import IntentGuard.Contracts.Challenges
import IntentGuard.Contracts.Logs
import IntentGuard.Contracts.Records
import IntentGuard.Contracts.Lifecycle
import IntentGuard.Js.Text
import IntentGuard.Js.Unicode
import IntentGuard.Js.Utf8
import IntentGuard.Js.Number
import IntentGuard.Js.Double
import IntentGuard.Js.BigInt
import IntentGuard.Infra.CanonicalJson
import IntentGuard.Infra.JsonParse
import IntentGuard.Infra.KeyOrder
import IntentGuard.Infra.LocalCas
import IntentGuard.Infra.Manifest
import IntentGuard.Infra.ManifestConfig
import IntentGuard.Infra.ManifestStore
import IntentGuard.Infra.ManifestRoute
import IntentGuard.Infra.Config
import IntentGuard.Infra.Signer
import IntentGuard.Infra.Traces
import IntentGuard.Infra.Acknowledgements
import IntentGuard.Infra.TraceRecords
import IntentGuard.Infra.ReplayRoute
import IntentGuard.Infra.Evidence
import IntentGuard.Infra.SignIn
import IntentGuard.Infra.Store
import IntentGuard.Infra.Decoder
import IntentGuard.Infra.Poller
import IntentGuard.Infra.ChainHistory
import IntentGuard.Infra.StoreMirror
import IntentGuard.Infra.ActiveIntents
import IntentGuard.Infra.Backends
import IntentGuard.Infra.Retries
import IntentGuard.Infra.StoreFailures
import IntentGuard.Infra.Gapless
import IntentGuard.Infra.ChallengePrepare
import IntentGuard.Infra.Recourse
import IntentGuard.Infra.StakeMirror
import IntentGuard.Infra.Feed
import IntentGuard.Infra.Challengeable
import IntentGuard.Infra.Executions
import IntentGuard.Infra.LiveEvents
import IntentGuard.Infra.LiveIsolation
import IntentGuard.Infra.LiveStream
import IntentGuard.Infra.DeterministicChecks
import IntentGuard.Trace.Value
import IntentGuard.Trace.Validation
import IntentGuard.Trace.Schema
import IntentGuard.Trace.Runtime
import IntentGuard.Trace.GuardClient
import IntentGuard.Scripts.Deploy
import IntentGuard.Scripts.Bootstrap
import IntentGuard.Trace.Serialize
import IntentGuard.Trace.Client
import IntentGuard.Trace.Integral
import IntentGuard.Trace.NormalForm
import IntentGuard.Trace.PythonKeccak
import IntentGuard.Trace.PythonLanes
import IntentGuard.Trace.Python
import IntentGuard.Trace.CrossLanguage
import IntentGuard.Trace.Parity
import IntentGuard.Demo.Control
import IntentGuard.Infra.DemoStatus
