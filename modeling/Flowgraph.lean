import Flowgraph.Main
import Flowgraph.Run.Board
import Flowgraph.Proofs.Alike
import Flowgraph.Proofs.Commands
import Flowgraph.Proofs.Connectivity
import Flowgraph.Proofs.Dependencies
import Flowgraph.Proofs.Duplicates
import Flowgraph.Proofs.Forms
import Flowgraph.Proofs.Listing
import Flowgraph.Proofs.Meaning
import Flowgraph.Proofs.Mirroring
import Flowgraph.Proofs.Reach
import Flowgraph.Proofs.Records
import Flowgraph.Proofs.Relabeling
import Flowgraph.Proofs.Renaming
import Flowgraph.Proofs.RoundTrip
import Flowgraph.Proofs.Sessions
import Flowgraph.Proofs.Shape
import Flowgraph.Proofs.Stream
import Flowgraph.Proofs.Ties
import Flowgraph.Proofs.Verdict
import Flowgraph.Proofs.Diagnosis
import Flowgraph.Proofs.Cancelling
import Flowgraph.Proofs.EdgeVerdicts
import Flowgraph.Proofs.Handles
import Flowgraph.Proofs.Copies
import Flowgraph.Proofs.Growth
import Flowgraph.Proofs.BackEdges
import Flowgraph.Proofs.Repeats
import Flowgraph.Proofs.PortReports
import Flowgraph.Proofs.Requirements
import Flowgraph.Proofs.Boards
import Flowgraph.Proofs.RunRecords
import Flowgraph.Proofs.Adjacency
import Flowgraph.Proofs.Bookkeeping
import Flowgraph.Proofs.LoopSafety
