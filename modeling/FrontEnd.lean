import FrontEnd.Main
import FrontEnd.Proofs.Typing.Safety
import FrontEnd.Proofs.Tree.Prefix
import FrontEnd.Proofs.Diagnostic.Located
import FrontEnd.Proofs.Prune.Stable
import FrontEnd.Proofs.Typing.Functionwise
import FrontEnd.Proofs.Tree.Extents
import FrontEnd.Proofs.Refcount.Fresh
import FrontEnd.Proofs.Refcount.Exits
import FrontEnd.Proofs.Refcount.Types
import FrontEnd.Proofs.Bracket.Accepted
import FrontEnd.Proofs.Cursor.Refinement
import FrontEnd.Proofs.Tree.CommaList
import FrontEnd.Proofs.Tree.Progress
import FrontEnd.Proofs.Text.Columns
