import Placement.Main
import Placement.Query.Batch
import Placement.Spawn.Writing
import Placement.Proofs.Binary32.Order
import Placement.Proofs.Binary32.Rounding
import Placement.Proofs.Binary32.Signs
import Placement.Proofs.Bytes.Consumption
import Placement.Proofs.Bytes.Delivery
import Placement.Proofs.Bytes.Words
import Placement.Proofs.Geometry.Axes
import Placement.Proofs.Geometry.Corners
import Placement.Proofs.Geometry.Enclosure
import Placement.Proofs.Geometry.Exact
import Placement.Proofs.Geometry.Rotations
import Placement.Proofs.Geometry.Frames
import Placement.Proofs.Query.Accumulation
import Placement.Proofs.Query.ExactRay
import Placement.Proofs.Query.Ground
import Placement.Proofs.Query.Hits
import Placement.Proofs.Query.InnerRays
import Placement.Proofs.Query.Nearest
import Placement.Proofs.Query.Preference
import Placement.Proofs.Spawn.Construction
import Placement.Proofs.Spawn.Fields
import Placement.Proofs.Spawn.Pieces
import Placement.Proofs.Spawn.Records
import Placement.Proofs.Spawn.RoundTrip
import Placement.Proofs.Spawn.Runs
import Placement.Proofs.Spawn.Sessions
import Placement.Proofs.Spawn.Outcomes
import Placement.Proofs.Bytes.Refusals
import Placement.Proofs.Spawn.LimitedSinks
import Placement.Proofs.Inspect.Report
import Placement.Proofs.Spawn.Assembly
import Placement.Proofs.Bytes.Breaks
import Placement.Proofs.Spawn.BrokenSources
import Placement.Proofs.Geometry.Similarity
import Placement.Proofs.Query.LoneHits
import Placement.Proofs.Query.Highest
import Placement.Proofs.Binary32.Magnitudes
import Placement.Proofs.Binary32.Turns
import Placement.Proofs.Geometry.Anchor
import Placement.Proofs.Query.Agreement
import Placement.Proofs.Query.Inert
import Placement.Proofs.Query.Plumb
import Placement.Proofs.Geometry.PointBounds
import Placement.Proofs.Inspect.Reach
