import BlockScript.Calendar
import BlockScript.Clock
import BlockScript.Compile.Lowering
import BlockScript.Compile.Reporter
import BlockScript.Compile.Scope
import BlockScript.Compile.Site
import BlockScript.Compile.Statement
import BlockScript.Compile.Target
import BlockScript.Console.Arguments
import BlockScript.Console.Files
import BlockScript.Console.Line
import BlockScript.Console.Program
import BlockScript.Console.Session
import BlockScript.Console.Style
import BlockScript.Dice
import BlockScript.Error
import BlockScript.Host.Basic
import BlockScript.Host.Headless
import BlockScript.Host.Recorded
import BlockScript.Json.Basic
import BlockScript.Json.Reader
import BlockScript.Json.Record
import BlockScript.Machine.Basic
import BlockScript.Machine.Eval
import BlockScript.Machine.Events
import BlockScript.Machine.Exec
import BlockScript.Machine.Frame
import BlockScript.Machine.Turn
import BlockScript.Main
import BlockScript.Number.Decimal
import BlockScript.Number.Degrees
import BlockScript.Number.Literal
import BlockScript.Number.Units
import BlockScript.Options.Basic
import BlockScript.Options.Document
import BlockScript.Player
import BlockScript.Project.Basic
import BlockScript.Project.Decode
import BlockScript.Project.Read
import BlockScript.Proofs.Acts
import BlockScript.Proofs.Assembly
import BlockScript.Proofs.Backdrops
import BlockScript.Proofs.Bodies
import BlockScript.Proofs.Bounds
import BlockScript.Proofs.Bypass
import BlockScript.Proofs.Bystanders
import BlockScript.Proofs.CallStacks
import BlockScript.Proofs.Changes
import BlockScript.Proofs.Clocks
import BlockScript.Proofs.Closure
import BlockScript.Proofs.Coercions
import BlockScript.Proofs.Comparisons
import BlockScript.Proofs.Conditions
import BlockScript.Proofs.Control
import BlockScript.Proofs.Costumes
import BlockScript.Proofs.Cutting
import BlockScript.Proofs.Descent
import BlockScript.Proofs.Emission
import BlockScript.Proofs.Exactness
import BlockScript.Proofs.Fates
import BlockScript.Proofs.Folding
import BlockScript.Proofs.Fragments
import BlockScript.Proofs.Frames
import BlockScript.Proofs.Glides
import BlockScript.Proofs.Grammar
import BlockScript.Proofs.Groups
import BlockScript.Proofs.Guises
import BlockScript.Proofs.Hats
import BlockScript.Proofs.Incarnations
import BlockScript.Proofs.Layouts
import BlockScript.Proofs.Links
import BlockScript.Proofs.ListItems
import BlockScript.Proofs.Listeners
import BlockScript.Proofs.Listings
import BlockScript.Proofs.Literals
import BlockScript.Proofs.Loops
import BlockScript.Proofs.Machines
import BlockScript.Proofs.Magnitudes
import BlockScript.Proofs.NativeLoops
import BlockScript.Proofs.Nearness
import BlockScript.Proofs.NormalForms
import BlockScript.Proofs.Order
import BlockScript.Proofs.Pacing
import BlockScript.Proofs.Passages
import BlockScript.Proofs.Passes
import BlockScript.Proofs.Positions
import BlockScript.Proofs.Readback
import BlockScript.Proofs.Registers
import BlockScript.Proofs.Rendezvous
import BlockScript.Proofs.Resumption
import BlockScript.Proofs.Roster
import BlockScript.Proofs.Rounding
import BlockScript.Proofs.Safety
import BlockScript.Proofs.Seats
import BlockScript.Proofs.Spots
import BlockScript.Proofs.Statements
import BlockScript.Proofs.Storages
import BlockScript.Proofs.Successions
import BlockScript.Proofs.Sums
import BlockScript.Proofs.Threads
import BlockScript.Proofs.Tickets
import BlockScript.Proofs.Trampolines
import BlockScript.Proofs.Turns
import BlockScript.Proofs.Uncut
import BlockScript.Proofs.Undefined
import BlockScript.Proofs.Visits
import BlockScript.Proofs.Waits
import BlockScript.Proofs.Worlds
import BlockScript.Script.Cut
import BlockScript.Script.Event
import BlockScript.Script.Expr
import BlockScript.Script.Listing
import BlockScript.Script.Menu
import BlockScript.Script.Operator
import BlockScript.Script.Program
import BlockScript.Script.Slot
import BlockScript.Script.Stmt
import BlockScript.Table
import BlockScript.Target.Asset
import BlockScript.Target.Basic
import BlockScript.Target.Sprite
import BlockScript.Text.Blank
import BlockScript.Text.Casing
import BlockScript.Text.Clusters
import BlockScript.Text.Joining
import BlockScript.Text.Lowercase
import BlockScript.Text.Quoted
import BlockScript.Text.Ranges
import BlockScript.Text.Search
import BlockScript.Text.Unprinted
import BlockScript.Thread
import BlockScript.Value.Basic
import BlockScript.Value.Compare
import BlockScript.Value.Items
