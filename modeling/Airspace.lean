import Airspace.Guard.Command
import Airspace.Main
import Airspace.Position
import Airspace.Proofs.Double
import Airspace.Proofs.Path
import Airspace.Proofs.Sweep
import Airspace.Proofs.Stream
import Airspace.Proofs.Reference
import Airspace.Proofs.Block
import Airspace.Proofs.Drawing
import Airspace.Proofs.Outline
import Airspace.Proofs.Parity
import Airspace.Proofs.Ingestion
import Airspace.Proofs.Country
import Airspace.Proofs.Unpruned
import Airspace.Proofs.Endings
import Airspace.Proofs.Room
import Airspace.Proofs.Overrun
import Airspace.Proofs.Loading
import Airspace.Proofs.Outcome
import Airspace.Proofs.Lifecycle
import Airspace.Proofs.Atomicity
import Airspace.Proofs.Order
import Airspace.Proofs.Course
import Airspace.Proofs.Strictness
import Airspace.Proofs.Reordering
import Airspace.Proofs.Proximity
import Airspace.Proofs.Coherence
import Airspace.Proofs.Delivery
import Airspace.Proofs.Fitting
import Airspace.Proofs.Metering
import Airspace.Proofs.Retracing
import Airspace.Proofs.Spelling
import Airspace.Proofs.Variants
import Airspace.Proofs.Redrawing
import Airspace.Proofs.Finding
import Airspace.Proofs.Rings
import Airspace.Proofs.Reach
import Airspace.Proofs.Value
import Airspace.Proofs.Rounding
import Airspace.Proofs.Nearest
import Airspace.Proofs.GreatCircle
import Airspace.Proofs.Pruning
import Airspace.Proofs.Appending
import Airspace.Proofs.Boundary
import Airspace.Proofs.Capacity
import Airspace.Proofs.Exact
import Airspace.Proofs.Bounding
import Airspace.Proofs.CheckIns
import Airspace.Proofs.Fields
import Airspace.Proofs.Foot
import Airspace.Proofs.Written
import Airspace.Proofs.Shortened
