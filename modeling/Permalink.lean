import Permalink.Main
import Permalink.Navigation
import Permalink.Service.Basic
import Permalink.Proofs.RoundTrip
import Permalink.Proofs.Fragment.NormalForm
import Permalink.Proofs.Schema.Consistency
import Permalink.Proofs.Invariants
import Permalink.Proofs.Parts
import Permalink.Proofs.Navigation
import Permalink.Proofs.Document
import Permalink.Proofs.Zipper
import Permalink.Proofs.Branch
import Permalink.Proofs.Viewless
import Permalink.Proofs.Find.Concatenation
import Permalink.Proofs.Find.Canonical
import Permalink.Proofs.Find.Pieces
import Permalink.Proofs.Literal
import Permalink.Proofs.DefaultView
import Permalink.Proofs.Decimal
import Permalink.Proofs.Whole
import Permalink.Proofs.Find.Respelling
import Permalink.Proofs.Escaping.Alphabet
import Permalink.Proofs.DefaultType
import Permalink.Proofs.Origin
import Permalink.Proofs.Clock
import Permalink.Proofs.Guess
