import LogicBoard.Diagnostic.Log
import LogicBoard.Main
import LogicBoard.Proofs.Compile.Blocks
import LogicBoard.Proofs.Compile.Circuit
import LogicBoard.Proofs.Compile.Comments
import LogicBoard.Proofs.Compile.Consistency
import LogicBoard.Proofs.Compile.Dependencies
import LogicBoard.Proofs.Compile.Folding
import LogicBoard.Proofs.Compile.Names
import LogicBoard.Proofs.Compile.Scores
import LogicBoard.Proofs.Compile.Sizes
import LogicBoard.Proofs.Design.Pin
import LogicBoard.Proofs.Design.Projection
import LogicBoard.Proofs.Edit.Bounds
import LogicBoard.Proofs.Edit.Connecting
import LogicBoard.Proofs.Edit.Operation
import LogicBoard.Proofs.Edit.Paths
import LogicBoard.Proofs.Edit.Positions
import LogicBoard.Proofs.Edit.Problems
import LogicBoard.Proofs.Edit.Wiring
import LogicBoard.Proofs.Geometry.Meeting
import LogicBoard.Proofs.Json.Documents
import LogicBoard.Proofs.Json.Scalars
import LogicBoard.Proofs.Record.Normal
import LogicBoard.Proofs.Record.RoundTrip
import LogicBoard.Proofs.Registry.Directory
import LogicBoard.Proofs.Registry.Export
import LogicBoard.Proofs.Registry.Failures
import LogicBoard.Proofs.Registry.Memory
import LogicBoard.Proofs.Registry.Operation
import LogicBoard.Proofs.Registry.Polling
import LogicBoard.Proofs.Registry.Renaming
import LogicBoard.Proofs.Registry.Resizing
import LogicBoard.Proofs.Registry.Sessions
import LogicBoard.Proofs.Routing.Costs
import LogicBoard.Proofs.Routing.Repeated
import LogicBoard.Proofs.Routing.Reroute
import LogicBoard.Proofs.Routing.Route
import LogicBoard.Proofs.Store.Directory
import LogicBoard.Proofs.Store.Disk
import LogicBoard.Proofs.Store.Found
import LogicBoard.Proofs.Store.Interchange
import LogicBoard.Proofs.Store.Path
import LogicBoard.Proofs.Store.Requests
import LogicBoard.Proofs.Text.Case
import LogicBoard.Store.Memory
