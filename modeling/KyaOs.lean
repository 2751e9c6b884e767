import KyaOs.Delegation.ScopeAttenuation
import KyaOs.Audit.MerkleProofs
import KyaOs.Delegation.ChainSoundness
import KyaOs.Card.Narrowing
import KyaOs.Delegation.RevocationSoundness
import KyaOs.Delegation.GraphRaces
import KyaOs.StatusList.Serializable
import KyaOs.Card.Revocation
import KyaOs.Utils.CanonicalInjective
import KyaOs.Proof.ReplaySafety
import KyaOs.Card.ProofAcceptance
import KyaOs.Audit.LedgerSoundness
import KyaOs.Audit.Equivocation
import KyaOs.Audit.BundleSoundness
import KyaOs.Middleware.ControlArgs
import KyaOs.Middleware.GrantRows
import KyaOs.Delegation.ChainTotality
import KyaOs.Middleware.GrantReuse
import KyaOs.Delegation.BasicChecks
import KyaOs.Delegation.VcVerifier
import KyaOs.Middleware.DelegationGate
import KyaOs.Middleware.DelegationVerify
import KyaOs.Middleware.GateSafety
import KyaOs.Middleware.GateTotality
import KyaOs.Middleware.RedeemedOnce
import KyaOs.Audit.ReadService
import KyaOs.Card.DelegationStatus
import KyaOs.Utils.IpClassifier
import KyaOs.Utils.SafeFetch
import KyaOs.Audit.CheckpointBuilder
import KyaOs.Audit.CheckpointHooks
import KyaOs.Session.Manager
import KyaOs.Session.RemovedSessions
import KyaOs.Audit.EvidenceStability
import KyaOs.Card.DidWebReaders
import KyaOs.Card.ResolvedIdentity
import KyaOs.Card.ListAuthenticity
import KyaOs.Delegation.CacheTransparency
import KyaOs.Middleware.RelayedProofs
import KyaOs.Card.HttpSignature
import KyaOs.Audit.EpochIsolation
import KyaOs.Delegation.DidKeyResolver
import KyaOs.Utils.AddressVerdict
import KyaOs.Delegation.StatusCache
import KyaOs.Integrations.CheqdInvalidation
import KyaOs.Authz.PendingFlows
import KyaOs.Authz.OneExchange
import KyaOs.Middleware.ScrubWalk
import KyaOs.Middleware.ScrubAgreement
import KyaOs.Delegation.DidWebUrl
import KyaOs.Card.Cimd
import KyaOs.Card.ClientIdForms
import KyaOs.Fifo.Queue
import KyaOs.Runs.Logged
import KyaOs.Session.StoreEviction
import KyaOs.Utils.TtlCacheRuns
import KyaOs.Proof.JwsVerification
import KyaOs.Proof.MintedProofs
import KyaOs.Audit.Mirror
import KyaOs.Audit.MirrorRuns
import KyaOs.Audit.Projection
import KyaOs.Audit.ProjectionRuns
import KyaOs.Concurrency.Tails
import KyaOs.Audit.Observer
import KyaOs.Audit.ObserverRuns
import KyaOs.Audit.SourceState
import KyaOs.Audit.TrailService
import KyaOs.Audit.SourceChain
import KyaOs.Audit.FlushOrder
import KyaOs.Audit.Coordinator
