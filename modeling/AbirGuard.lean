import AbirGuard.Rust.Reshare
import AbirGuard.Rust.Cli
import AbirGuard.Rust.CliDurability
import AbirGuard.Rust.FailedLoad
import AbirGuard.Rust.MldsaDurability
import AbirGuard.Core.Run
import AbirGuard.Rust.McpGateway
import AbirGuard.Rust.McpTotality
import AbirGuard.Rust.Interleaving
import AbirGuard.Core.Dict
import AbirGuard.Core.Raise
import AbirGuard.Core.Text
import AbirGuard.Python.Attestation
import AbirGuard.Core.Json
import AbirGuard.Python.FipsMode
import AbirGuard.Python.Rotation
import AbirGuard.Python.Vault
import AbirGuard.Python.VaultFrames
import AbirGuard.Python.AttestationGate
import AbirGuard.Python.CryptoStore
import AbirGuard.Python.StoreDurability
import AbirGuard.Core.HashChain
import AbirGuard.Rust.AuditLog
import AbirGuard.Rust.AuditTampering
import AbirGuard.Rust.MpcSession
import AbirGuard.Rust.MpcBinding
import AbirGuard.Rust.MpcDelivery
import AbirGuard.Rust.KeyAnchor
import AbirGuard.Rust.Dpki
import AbirGuard.Rust.DpkiLifecycle
import AbirGuard.Core.LastWriter
import AbirGuard.Rust.SmartContract
import AbirGuard.Python.FederatedVault
import AbirGuard.Python.FederatedMesh
import AbirGuard.Core.Record
import AbirGuard.Rust.Jwk
import AbirGuard.Rust.DidDocument
import AbirGuard.Rust.DidJson
import AbirGuard.Rust.VaultStability
import AbirGuard.Rust.McpRoundTrip
import AbirGuard.Python.KeyState
import AbirGuard.Python.Coherence
import AbirGuard.Python.LiveKeys
import AbirGuard.Python.VaultBinding
import AbirGuard.Python.FipsSwitching
import AbirGuard.Python.FipsEnforcement
import AbirGuard.Python.Accounting
import AbirGuard.Python.UsageLimit
import AbirGuard.Rust.MpcReplay
import AbirGuard.Core.Authentication
import AbirGuard.Rust.AuthenticatedShare
import AbirGuard.Rust.Revocation
import AbirGuard.Core.Fifo
import AbirGuard.Rust.AttestationService
import AbirGuard.Rust.KeyCache
import AbirGuard.Python.AttestationChallenge
import AbirGuard.Python.AuditChain
import AbirGuard.Python.Revocation
import AbirGuard.Python.McpServer
import AbirGuard.Python.CanaryDetection
import AbirGuard.Python.Rbac
import AbirGuard.Python.HsmCluster
import AbirGuard.Core.Threads
import AbirGuard.Go.Lang
import AbirGuard.Go.Vault
import AbirGuard.Go.Calls
import AbirGuard.Go.Revocation
import AbirGuard.Go.Rotation
import AbirGuard.Go.PanicFreedom
import AbirGuard.Go.ConcurrentEncrypt
import AbirGuard.Js.CacheCoherence
import AbirGuard.Python.McpHttp
import AbirGuard.Python.HttpRobustness
import AbirGuard.Rust.ShamirCommands
import AbirGuard.Python.QkdNetwork
import AbirGuard.Python.MultiAgent
import AbirGuard.Rust.ReshareFailure
import AbirGuard.Python.RevocationAgreement
import AbirGuard.Rust.Commitments
import AbirGuard.Rust.ZeroCopy
import AbirGuard.Rust.VaultAgreement
import AbirGuard.Core.Utf8Lossy
import AbirGuard.Rust.KeyDerivation
import AbirGuard.Python.BlobFormat
import AbirGuard.Python.HybridKem
import AbirGuard.Rust.ZeroCopyCache
import AbirGuard.Core.MaximalRuns
import AbirGuard.Rust.Compliance
import AbirGuard.Rust.Bb84
import AbirGuard.Rust.MpcDigest
import AbirGuard.Python.SecureEnclave
import AbirGuard.Python.ZkCompliance
import AbirGuard.Core.XorShift
import AbirGuard.Rust.XorShift
import AbirGuard.Go.KeyIds
import AbirGuard.Python.HsmKeyStore
import AbirGuard.Python.TpmSeal
import AbirGuard.Rust.Entropy
import AbirGuard.Core.SlidingWindow
import AbirGuard.Python.KeyIds
import AbirGuard.Python.RateLimit
import AbirGuard.Python.ClientIp
import AbirGuard.Core.Noninterference
import AbirGuard.Python.HttpIsolation
import AbirGuard.Python.HttpAudit
import AbirGuard.Core.Lines
import AbirGuard.Rust.StdioServer
import AbirGuard.Core.Serde
import AbirGuard.Rust.TrustZone
import AbirGuard.Core.KeyStore
import AbirGuard.Python.CloudKms
import AbirGuard.Rust.MpcExchange
import AbirGuard.Python.HardwareKeys
import AbirGuard.Core.Csv
import AbirGuard.Python.Compliance
import AbirGuard.Rust.SealedStorage
import AbirGuard.Core.JsonText
import AbirGuard.Js.McpClient
import AbirGuard.Js.ClientRoundTrip
import AbirGuard.Python.SecureVault
import AbirGuard.Python.RotationAgreement
