import FrameGraph.Span
import FrameGraph.Graph
import FrameGraph.Image.Descriptor
import FrameGraph.Number.Duration
import FrameGraph.Description
import FrameGraph.Text.Quoted
import FrameGraph.Text.Columns
import FrameGraph.Log.Filter
import FrameGraph.Pattern.Meaning
import FrameGraph.Plan
import FrameGraph.Reachability
import FrameGraph.Order
import FrameGraph.Report
import FrameGraph.Files
import FrameGraph.Slot
import FrameGraph.Description.Text
import FrameGraph.Settings.Text
import FrameGraph.Ron.Quotation.Lemmas
import FrameGraph.Version
import FrameGraph.Main
import FrameGraph.Proofs.Editor.Edits
import FrameGraph.Proofs.Editor.WellFormed
import FrameGraph.Proofs.Editor.Accepted
import FrameGraph.Proofs.Editor.Flags
import FrameGraph.Proofs.Editor.Links
import FrameGraph.Proofs.Editor.Removal
import FrameGraph.Proofs.Packing.Residents
import FrameGraph.Proofs.Order.Forward
import FrameGraph.Proofs.Order.Least
import FrameGraph.Proofs.Packing.Sharing
import FrameGraph.Proofs.Packing.Similar
import FrameGraph.Proofs.Compile.Allocation
import FrameGraph.Proofs.Compile.Wiring
import FrameGraph.Proofs.Packing.Logicals
import FrameGraph.Proofs.Compile.Reference
import FrameGraph.Proofs.Compile.Aliasing
import FrameGraph.Proofs.Compile.Outcome
import FrameGraph.Proofs.Compile.Strategies
import FrameGraph.Proofs.Compile.AnyOrder
import FrameGraph.Proofs.Compile.Culling
import FrameGraph.Proofs.Compile.Dangling
import FrameGraph.Proofs.Compile.Typing
import FrameGraph.Proofs.Compile.Skipped
import FrameGraph.Proofs.Compile.Adoption
import FrameGraph.Proofs.Compile.Accounting
import FrameGraph.Proofs.Editor.Catalogue
import FrameGraph.Proofs.Renumber.Order
import FrameGraph.Proofs.Renumber.Packing
import FrameGraph.Proofs.Editor.Reload
import FrameGraph.Proofs.Renumber.Compile
import FrameGraph.Proofs.Compile.Reload
import FrameGraph.Proofs.Compile.Rooted
import FrameGraph.Proofs.Order.Arrangements
import FrameGraph.Proofs.Order.CycleReport
import FrameGraph.Proofs.Compile.Runnable
import FrameGraph.Proofs.CommandLine.Runs
import FrameGraph.Proofs.Packing.Census
import FrameGraph.Proofs.Packing.Conservation
import FrameGraph.Proofs.Packing.Minimal
import FrameGraph.Proofs.Packing.FirstFit
import FrameGraph.Proofs.Editor.Undo
import FrameGraph.Proofs.Editor.RoundTrip
import FrameGraph.Proofs.Description.Loading
import FrameGraph.Proofs.Description.Text
import FrameGraph.Proofs.Report
import FrameGraph.Proofs.Number.Rounding
import FrameGraph.Proofs.Image.Resolution
import FrameGraph.Proofs.Order.Moments
import FrameGraph.Proofs.Compile.Bounds
