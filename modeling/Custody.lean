import Custody.CanonicalJson
import Custody.Commitments
import Custody.Statements
import Custody.Schemas
import Custody.Equations
import Custody.EquationMeaning
import Custody.Discrepancies
import Custody.Engine
import Custody.EngineMeaning
import Custody.PassedVerdict
import Custody.Merkle
import Custody.TransparencyLog
import Custody.HeldReceipts
import Custody.ReplayAudit
import Custody.VerdictComparison
import Custody.WithoutEvidence
import Custody.UserGate
import Custody.GateSoundness
import Custody.Judgeability
import Custody.LogInvariant
import Custody.RegisteredEvidence
import Custody.BlockedJudgment
import Custody.ReplayMeaning
import Custody.AuditCoverage
import Custody.HonestReplay
import Custody.AuditSoundness
import Custody.HonestOperator
import Custody.ThirdParty
import Custody.TimelyVerdicts
import Custody.Identity
import Custody.Service
import Custody.ServiceReplay
import Custody.HashTree
import Custody.MerkleProofs
import Custody.AppendOnly
import Custody.HeldMeaning
import Custody.GenuineReceipts
import Custody.Omissions
import Custody.Equivocation
import Custody.UntrustedHolders
import Custody.Auditing
import Custody.Witness
import Custody.AuditingAgent
import Custody.RereadStatements
import Custody.Journal
import Custody.JournalReplay
import Custody.Delivery
import Custody.ExactlyOnce
import Custody.PagedExport
import Custody.Snapshot
import Custody.ClaimedOnce
import Custody.Effects
import Custody.Execution
import Custody.AtMostOnce
import Custody.Cbor
import Custody.CborMeaning
import Custody.CborRoundTrip
import Custody.Serialisations
import Custody.CoseSign1
import Custody.CoseRoundTrip
import Custody.HashChain
import Custody.StreamingGate
import Custody.RegisteredCompleteness
import Custody.Enrollment
import Custody.Lineage
import Custody.LineageSoundness
import Custody.Configuration
import Custody.LoadableEpochs
import Custody.Activation
import Custody.ActivationSafety
import Custody.Exchange
import Custody.TreeProofs
import Custody.Checkpoints
import Custody.RelayTestimony
import Custody.GateAgreement
import Custody.EntryOrder
import Custody.HonestRuns
import Custody.HonestExchange
import Custody.Refusals
import Custody.CborFailures
import Custody.CoseAcceptance
import Custody.RegistrationAgreement
import Custody.PrivateContent
import Custody.QueuedEvidence
import Custody.Backlog
import Custody.Attributions
import Custody.Ed25519
import Custody.PrimeField
import Custody.PointCompression
import Custody.ScalarMultiplication
import Custody.SignatureVerification
import Custody.DerItems
import Custody.Der
import Custody.DerRoundTrip
import Custody.TimestampRequests
import Custody.AcceptedCommitments
import Custody.EndToEnd
import Custody.Requests
import Custody.ResponseRelease
import Custody.StoredResponses
import Custody.FailedRequests
import Custody.AgentLife
import Custody.RequestEnds
import Custody.JsonReader
import Custody.JsonRoundTrip
import Custody.Documents
import Custody.Rpc
import Custody.RemoteCalls
import Custody.ServedRoles
