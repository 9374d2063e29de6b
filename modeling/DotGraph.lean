import DotGraph.Command.FileTree
import DotGraph.Json.Settings
import DotGraph.Main
import DotGraph.Proofs.Graph.Run
import DotGraph.Proofs.Graph.Strict
import DotGraph.Proofs.Graph.Cell
import DotGraph.Proofs.Graph.Walk
import DotGraph.Proofs.Reader.RoundTrip
import DotGraph.Proofs.Token.Tiling
import DotGraph.Proofs.Token.RoundTrip
import DotGraph.Proofs.Json.Scalar
import DotGraph.Proofs.Json.Text
import DotGraph.Proofs.Json.Record
import DotGraph.Proofs.Json.RoundTrip
import DotGraph.Proofs.Tree.Events
import DotGraph.Proofs.Graph.Merging
import DotGraph.Proofs.Graph.Groups
import DotGraph.Proofs.Graph.OwnPath
import DotGraph.Proofs.Token.Places
import DotGraph.Proofs.Token.Scanning
import DotGraph.Proofs.Reader.Coordinates
import DotGraph.Proofs.Graph.Growth
import DotGraph.Proofs.Graph.Skeleton
import DotGraph.Proofs.Graph.Marks
import DotGraph.Proofs.Reader.Turns
import DotGraph.Proofs.Reader.Nesting
import DotGraph.Proofs.Reader.CutOff
import DotGraph.Proofs.Token.Calls
import DotGraph.Proofs.Command.Conversion
import DotGraph.Proofs.Graph.Shorthand
import DotGraph.Proofs.Reader.SourceOrder
import DotGraph.Proofs.Graph.Replay
import DotGraph.Proofs.Graph.Replacement
import DotGraph.Proofs.Graph.Chain
import DotGraph.Proofs.Tree.Essence
import DotGraph.Proofs.Token.Flaws
import DotGraph.Proofs.Reader.Cascade
import DotGraph.Proofs.Reader.Progress
import DotGraph.Proofs.Command.OneLineEach
import DotGraph.Proofs.Reader.Steps
import DotGraph.Proofs.Reader.Names
