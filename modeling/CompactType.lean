import CompactType.Factory.Recorder
import CompactType.FileTree
import CompactType.Main
import CompactType.TypeTable.History
import CompactType.Proofs.Drafts
import CompactType.Proofs.Completeness
import CompactType.Proofs.Soundness
import CompactType.Proofs.CanonicalText
import CompactType.Proofs.Coupling
import CompactType.Proofs.Denotation
import CompactType.Proofs.Described
import CompactType.Proofs.Mirror
import CompactType.Proofs.Parsed
import CompactType.Proofs.RoundTrip
import CompactType.Proofs.Effects
import CompactType.Proofs.Encodings
import CompactType.Proofs.Prefixes
import CompactType.Proofs.Limits
import CompactType.Proofs.Replays
import CompactType.Proofs.Identity
import CompactType.Proofs.Evolution
import CompactType.Proofs.Exploration
import CompactType.Proofs.Legible
import CompactType.Proofs.Respelling
import CompactType.Proofs.Refusals
import CompactType.Proofs.Faults
import CompactType.Proofs.Paths
import CompactType.Proofs.Harmless
import CompactType.Proofs.Listings
import CompactType.Proofs.Resources
import CompactType.Proofs.ByteRuns
