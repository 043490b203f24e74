import Reckoner.Decimal.Read
import Reckoner.Demo
import Reckoner.Main
import Reckoner.Specimen
import Reckoner.Proofs.Composition
import Reckoner.Proofs.Evaluation
import Reckoner.Proofs.Soundness
import Reckoner.Proofs.Recovery
import Reckoner.Proofs.Rounding
import Reckoner.Proofs.Viability
import Reckoner.Proofs.Layouts
import Reckoner.Proofs.Readback
import Reckoner.Proofs.Spelling
import Reckoner.Proofs.Listing
import Reckoner.Proofs.Chronicle
import Reckoner.Proofs.Slot
import Reckoner.Proofs.Operations
import Reckoner.Proofs.Turns
import Reckoner.Proofs.Provenance
import Reckoner.Proofs.Relevance
import Reckoner.Proofs.Lookahead
import Reckoner.Proofs.Atomicity
import Reckoner.Proofs.Nesting
import Reckoner.Proofs.Specimens
import Reckoner.Proofs.Parentheses
import Reckoner.Proofs.Putback
import Reckoner.Proofs.Signs
