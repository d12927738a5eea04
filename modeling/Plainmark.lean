import Plainmark.Main
import Plainmark.Macro.Expression
import Plainmark.Proofs.Rewriting
import Plainmark.Proofs.Grammar
import Plainmark.Proofs.Slugs
import Plainmark.Proofs.Weight
import Plainmark.Proofs.Convergence
import Plainmark.Proofs.FixedPoints
import Plainmark.Proofs.Segments
import Plainmark.Proofs.Documents
import Plainmark.Proofs.Encoding
import Plainmark.Proofs.Trees
import Plainmark.Proofs.Writing
import Plainmark.Proofs.Listing
import Plainmark.Proofs.Directories
import Plainmark.Proofs.Alignment
import Plainmark.Proofs.Paths
import Plainmark.Proofs.Previews
import Plainmark.Proofs.Tasks
import Plainmark.Proofs.Leftovers
import Plainmark.Proofs.Resources
import Plainmark.Proofs.Mentions
import Plainmark.Proofs.Resolving
import Plainmark.Proofs.Failures
import Plainmark.Proofs.Configurations
import Plainmark.Proofs.Spans
import Plainmark.Proofs.Insertions
import Plainmark.Proofs.Crosslinks
import Plainmark.Proofs.Replacements
import Plainmark.Proofs.Precedence
import Plainmark.Proofs.Patches
import Plainmark.Proofs.Lines
import Plainmark.Proofs.Seams
import Plainmark.Proofs.Printouts
import Plainmark.Proofs.Discoveries
import Plainmark.Proofs.Verbosity
import Plainmark.Proofs.Words
import Plainmark.Proofs.Counts
