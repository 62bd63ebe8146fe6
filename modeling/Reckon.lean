import Reckon.Main
import Reckon.Proofs.Alphabet
import Reckon.Proofs.Complaints
import Reckon.Proofs.Consumption
import Reckon.Proofs.Dependence
import Reckon.Proofs.Equations
import Reckon.Proofs.Finiteness
import Reckon.Proofs.Heights
import Reckon.Proofs.Interleaving
import Reckon.Proofs.Isolation
import Reckon.Proofs.Layers
import Reckon.Proofs.Postorder
import Reckon.Proofs.Printing
import Reckon.Proofs.Repetition
import Reckon.Proofs.RoundTrip
import Reckon.Proofs.Sameness
import Reckon.Proofs.Settings
import Reckon.Proofs.Signs
import Reckon.Proofs.Stages
