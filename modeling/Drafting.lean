import Drafting.Graph.Forest
import Drafting.Main
import Drafting.Session
import Drafting.Diagram.Document
import Drafting.Proofs.Page.Conversation
import Drafting.Proofs.Page.Edges
import Drafting.Proofs.Page.Limits
import Drafting.Proofs.Drawing
import Drafting.Proofs.Page.Frame
import Drafting.Proofs.Page.Grid
import Drafting.Proofs.Page.Bands
import Drafting.Proofs.Reorder
import Drafting.Proofs.Route.Mirror
import Drafting.Proofs.Page.Rename
import Drafting.Proofs.LooseEdges
import Drafting.Proofs.Layout.Hierarchy
import Drafting.Proofs.Layout.FlowChart
import Drafting.Proofs.Layout.Mindmap
import Drafting.Proofs.Layout.Actors
import Drafting.Proofs.Layout.Origin
import Drafting.Proofs.Source.Supply
import Drafting.Proofs.Source.IdleLine
import Drafting.Proofs.Source.Header
import Drafting.Proofs.Source.Guess
import Drafting.Proofs.Source.Parents
import Drafting.Proofs.Source.MemberText
import Drafting.Proofs.Document
import Drafting.Proofs.Route.Curve
import Drafting.Proofs.Source.ClassBody
import Drafting.Proofs.Source.MemberText
import Drafting.Proofs.Source.Relations
import Drafting.Proofs.Source.BehindBrace
import Drafting.Proofs.Source.Chain
import Drafting.Proofs.Page.Following
import Drafting.Proofs.Source.Dialogue
import Drafting.Proofs.Source.Rejected
import Drafting.Proofs.Source.Nameless
import Drafting.Proofs.Page.Greedy
import Drafting.Proofs.Route.Fan
import Drafting.Proofs.Layout.Walk
import Drafting.Proofs.Page.Banding
import Drafting.Proofs.Extent
import Drafting.Proofs.Page.RowSpan
