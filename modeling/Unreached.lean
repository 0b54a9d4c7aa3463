import Unreached.Main
import Unreached.Proofs.Check
import Unreached.Proofs.Deadline
import Unreached.Proofs.Traversal
import Unreached.Proofs.Union
import Unreached.Proofs.Removal
import Unreached.Proofs.Paths
import Unreached.Proofs.Walk
import Unreached.Proofs.Tree
import Unreached.Proofs.Parents
import Unreached.Proofs.Relocation
import Unreached.Proofs.MovedFiles
import Unreached.Proofs.Arguments
import Unreached.Proofs.Calls
import Unreached.Proofs.Options
import Unreached.Proofs.Snapshot
import Unreached.Proofs.Run
import Unreached.Proofs.Declarations
import Unreached.Proofs.Reexports
import Unreached.Proofs.Specifiers
import Unreached.Proofs.AliasTargets
import Unreached.Proofs.NamedFiles
import Unreached.Proofs.Importers
import Unreached.Proofs.Quoting
import Unreached.Proofs.Substitution
import Unreached.Proofs.Written
import Unreached.Proofs.Comments
import Unreached.Proofs.SingleLines
import Unreached.Proofs.Variants
import Unreached.Proofs.DirectoryWalks
import Unreached.Proofs.AliasSelection
import Unreached.Proofs.Inventory
import Unreached.Proofs.PathsBelow
import Unreached.Proofs.Collection
import Unreached.Proofs.LinkFree
import Unreached.Proofs.OpenPlaces
import Unreached.Proofs.IndependentMoves
import Unreached.Proofs.Confirmation
import Unreached.Proofs.DisplayedPaths
