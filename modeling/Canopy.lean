import Canopy.Json.Value
import Canopy.Decimal.Shortest
import Canopy.Json.Write
import Canopy.Json.Read
import Canopy.Text.Unprintable
import Canopy.Text.Quoted
import Canopy.Opcode
import Canopy.Sequence.Increasing
import Canopy.Loop.Key
import Canopy.Component.State
import Canopy.Component.Queue
import Canopy.Script.Eval
import Canopy.Script.Basic
import Canopy.Program.Word
import Canopy.Program.Basic
import Canopy.Program.Decode
import Canopy.Program.Plan
import Canopy.Json.Inspect
import Canopy.Program.Inspect
import Canopy.Document.Basic
import Canopy.Document.Html
import Canopy.Render.Node
import Canopy.Render.Error
import Canopy.Render.Events
import Canopy.Render.State
import Canopy.Render.Loop
import Canopy.Render.Mount
import Canopy.Render.Unmount
import Canopy.Render.Update
import Canopy.Render.Flush
import Canopy.Render.Root
import Canopy.Program.Builder
import Canopy.Component.Inspect
import Canopy.Proofs.Wire.Acceptance
import Canopy.Proofs.Program.Layout
import Canopy.Proofs.Program.Decoded
import Canopy.Proofs.Render.WellFormed
import Canopy.Proofs.Loop.KeyPolicy
import Canopy.Proofs.Render.Matching
import Canopy.Proofs.Render.Mounting
import Canopy.Proofs.Sequence.Longest
import Canopy.Proofs.Sequence.Common
import Canopy.Proofs.Document.Links
import Canopy.Proofs.Document.Splice
import Canopy.Proofs.Render.Runs
import Canopy.Proofs.Render.MountSteps
import Canopy.Proofs.Render.Flat
import Canopy.Proofs.Render.Reconcile
import Canopy.Proofs.Render.Growth
import Canopy.Proofs.Render.Placing
import Canopy.Proofs.Render.Unmounting
import Canopy.Proofs.Render.Rebranch
import Canopy.Proofs.Render.Bindings
import Canopy.Proofs.Render.Fresh
import Canopy.Proofs.Render.Idle
import Canopy.Proofs.Render.Rerender
import Canopy.Proofs.Render.Duplicates
import Canopy.Proofs.Render.Planning
import Canopy.Proofs.Render.Clearing
import Canopy.Proofs.Render.Reconciled
import Canopy.Proofs.Render.Updating
import Canopy.Proofs.Render.Flushing
import Canopy.Proofs.Render.FlushOrder
import Canopy.Proofs.Program.Building
import Canopy.Proofs.Program.WellFormedCalls
import Canopy.Proofs.Render.Sessions
import Canopy.Proofs.Render.Safety
import Canopy.Proofs.Document.Forest
import Canopy.Proofs.Render.Arena
import Canopy.Proofs.Document.Trees
import Canopy.Proofs.Render.Described
import Canopy.Proofs.Render.Drawing
import Canopy.Proofs.Render.BuildsDescribed
