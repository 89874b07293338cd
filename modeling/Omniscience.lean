import Omniscience.Outbox.Attribution
import Omniscience.Outbox.DeadLetters
import Omniscience.Stores.Checkpoints
import Omniscience.Stores.Snapshots
import Omniscience.Stores.MixedWriters
import Omniscience.Reconcile.Budget
import Omniscience.Reconcile.Convergence
import Omniscience.Reconcile.Orphans
import Omniscience.Ingestion.RunTracker
import Omniscience.Ingestion.DedupRace
import Omniscience.Retrieval.Reconciler
import Omniscience.Retrieval.Pagination
import Omniscience.Stores.Resurrection
import Omniscience.Stores.MergeChains
import Omniscience.Stores.StubsLeft
import Omniscience.Stores.StubEdges
import Omniscience.Stores.Draining
import Omniscience.Ingestion.Redelivery
import Omniscience.Operator.Drift
import Omniscience.Retrieval.Historical
import Omniscience.Ingestion.OperatorGraph
import Omniscience.Stores.Isolation
import Omniscience.Admission.Deliveries
import Omniscience.Auth.ReadTokens
import Omniscience.Mcp.Metadata
import Omniscience.Privacy.Receipts
import Omniscience.Stats.Cache
import Omniscience.Retrieval.CalibrationOrder
import Omniscience.Retrieval.CalibrationReports
import Omniscience.Retrieval.Federation
import Omniscience.Linking.Linker
import Omniscience.Audit.Replay
import Omniscience.Retrieval.GraphScope
import Omniscience.Retrieval.BreadthFirst
import Omniscience.Stores.TraversalAgreement
import Omniscience.Parsers.Chunking
import Omniscience.Parsers.TfDrift
import Omniscience.Parsers.KubernetesIsolation
import Omniscience.Retrieval.RankFusion
import Omniscience.Parsers.CodeSymbols
import Omniscience.Stores.DocumentIdentity
import Omniscience.Stores.Backfill
import Omniscience.Stores.EdgeTargets
import Omniscience.Stores.StateFingerprints
import Omniscience.Stores.EntityReaders
import Omniscience.Stores.MetadataViews
import Omniscience.Retrieval.AnchorCandidates
import Omniscience.Ingestion.TruncatedEvents
import Omniscience.Queue.DeadLetterPayloads
import Omniscience.Linking.NameForms
import Omniscience.Ingestion.ContentHashes
import Omniscience.Privacy.DeletionReceipts
import Omniscience.Admission.Qualification
import Omniscience.Ingestion.OtlpTraces
import Omniscience.Retrieval.BlastRadius
import Omniscience.Admission.FailClosed
import Omniscience.Migration.Chunks
import Omniscience.Migration.Chunks
import Omniscience.Admission.FailClosed
