import PhaseTree.Layout.Script
import PhaseTree.Proofs.Conversion.Functoriality
import PhaseTree.Proofs.Conversion.Invisibility
import PhaseTree.Proofs.Listing.Exposure
import PhaseTree.Proofs.Listing.Interleaving
import PhaseTree.Proofs.Name.Display
import PhaseTree.Proofs.Name.Order
import PhaseTree.Proofs.Name.Recognition
import PhaseTree.Proofs.Print.Chains
import PhaseTree.Proofs.Print.Columns
import PhaseTree.Proofs.Print.Cosmetics
import PhaseTree.Proofs.Print.Embedding
import PhaseTree.Proofs.Print.Lines
import PhaseTree.Proofs.Print.Listings
import PhaseTree.Proofs.Print.Offside
import PhaseTree.Proofs.Print.Opacity
import PhaseTree.Proofs.Print.PatternUnambiguity
import PhaseTree.Proofs.Print.Quoting
import PhaseTree.Proofs.Print.Renames
import PhaseTree.Proofs.Print.Tuples
import PhaseTree.Proofs.Print.TypeUnambiguity
import PhaseTree.Proofs.Print.Unambiguity
import PhaseTree.Proofs.Span.Hull
import PhaseTree.Proofs.Tree.Equality
import PhaseTree.Proofs.Wire.Consumption
import PhaseTree.Proofs.Wire.FirstFailure
import PhaseTree.Proofs.Wire.Minimality
import PhaseTree.Tree.Chain
import PhaseTree.Wire.Entry
