import VectorIndex.Main
import VectorIndex.Proofs.CommandLine.Listing
import VectorIndex.Proofs.CommandLine.Pipeline
import VectorIndex.Proofs.Definition.Compilation
import VectorIndex.Proofs.Definition.Extension
import VectorIndex.Proofs.Definition.RoundTrip
import VectorIndex.Proofs.Hnsw.SettingsMap
import VectorIndex.Proofs.Journal
import VectorIndex.Proofs.Schema.DeclarationOrder
import VectorIndex.Proofs.Schema.Delivery
import VectorIndex.Proofs.Schema.Extension
import VectorIndex.Proofs.Schema.FixedPoint
import VectorIndex.Proofs.Schema.Locality
import VectorIndex.Proofs.Schema.Shape
import VectorIndex.Proofs.Schema.SpelledDefaults
import VectorIndex.Proofs.Schema.Violations
import VectorIndex.Schema.Inspection
import VectorIndex.Proofs.Schema.Visibility
import VectorIndex.Proofs.Definition.Training
import VectorIndex.Proofs.Hnsw.Acceptance
import VectorIndex.Proofs.Schema.Defects
import VectorIndex.Proofs.Defaults.Meaning
import VectorIndex.Proofs.Setting.Writes
import VectorIndex.Proofs.CommandLine.Comparison
import VectorIndex.Proofs.CommandLine.Overrides
import VectorIndex.Proofs.CommandLine.SpaceOption
