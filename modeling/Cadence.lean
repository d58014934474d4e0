import Cadence.Arena
import Cadence.Component.Basic
import Cadence.Component.Bounds
import Cadence.Component.Sprite
import Cadence.Component.Transform
import Cadence.Drawing.Camera
import Cadence.Drawing.Color
import Cadence.Drawing.DrawList
import Cadence.Drawing.Primitive
import Cadence.Drawing.Screen
import Cadence.Engine.Basic
import Cadence.Engine.Frame
import Cadence.Engine.Op
import Cadence.Engine.Phase
import Cadence.Engine.Register
import Cadence.Engine.Routing
import Cadence.Entity
import Cadence.InOrder
import Cadence.Index
import Cadence.Phase
import Cadence.Proofs.Arena
import Cadence.Proofs.Drawing.Sheets
import Cadence.Proofs.Engine.Account
import Cadence.Proofs.Engine.Alike
import Cadence.Proofs.Engine.Callback
import Cadence.Proofs.Engine.Clean
import Cadence.Proofs.Engine.Containment
import Cadence.Proofs.Engine.Cursor
import Cadence.Proofs.Engine.Deletion
import Cadence.Proofs.Engine.Delivery
import Cadence.Proofs.Engine.Erasure
import Cadence.Proofs.Engine.Following
import Cadence.Proofs.Engine.Handover
import Cadence.Proofs.Engine.History
import Cadence.Proofs.Engine.Indexes
import Cadence.Proofs.Engine.Journal
import Cadence.Proofs.Engine.Lifecycle
import Cadence.Proofs.Engine.Numbering
import Cadence.Proofs.Engine.Observation
import Cadence.Proofs.Engine.Order
import Cadence.Proofs.Engine.Parallel
import Cadence.Proofs.Engine.PhaseRun
import Cadence.Proofs.Engine.Poison
import Cadence.Proofs.Engine.Presentation
import Cadence.Proofs.Engine.Projection
import Cadence.Proofs.Engine.Recording
import Cadence.Proofs.Engine.Registration
import Cadence.Proofs.Engine.Results
import Cadence.Proofs.Engine.Routing
import Cadence.Proofs.Engine.Rule
import Cadence.Proofs.Engine.Run
import Cadence.Proofs.Engine.Safety
import Cadence.Proofs.Engine.Sole
import Cadence.Proofs.Engine.Stable
import Cadence.Proofs.Engine.Sync
import Cadence.Proofs.Engine.Tale
import Cadence.Proofs.InOrder
import Cadence.Proofs.Index
import Cadence.Proofs.Index.Listing
import Cadence.Proofs.Index.Owners
import Cadence.Proofs.Session.Notices
import Cadence.Proofs.Settings.Document
import Cadence.Proofs.Store
import Cadence.Proofs.System.Boxes
import Cadence.Proofs.System.Catalogs
import Cadence.Proofs.System.Commands
import Cadence.Proofs.System.Covering
import Cadence.Proofs.System.Diary
import Cadence.Proofs.System.Loading
import Cadence.Proofs.System.Moves
import Cadence.Proofs.System.Pictures
import Cadence.Proofs.System.Safety
import Cadence.Proofs.System.Sight
import Cadence.Proofs.System.Unloading
import Cadence.Proofs.System.Usage
import Cadence.Proofs.System.Users
import Cadence.Proofs.Toml.Document
import Cadence.Proofs.Toml.Numeral
import Cadence.Proofs.World.Balance
import Cadence.Proofs.World.Deletion
import Cadence.Proofs.World.Departure
import Cadence.Proofs.World.Errors
import Cadence.Proofs.World.Extension
import Cadence.Proofs.World.Faithful
import Cadence.Proofs.World.Flush
import Cadence.Proofs.World.Generation
import Cadence.Proofs.World.Gentle
import Cadence.Proofs.World.Issue
import Cadence.Proofs.World.Log
import Cadence.Proofs.World.Operations
import Cadence.Proofs.World.Retention
import Cadence.Proofs.World.Routable
import Cadence.Proofs.World.Routing
import Cadence.Proofs.World.Run
import Cadence.Proofs.World.Single
import Cadence.Proofs.World.Sound
import Cadence.Scalar
import Cadence.Scheduler
import Cadence.Session.Cast
import Cadence.Session.Host
import Cadence.Session.Probe
import Cadence.Session.Program
import Cadence.Session.Run
import Cadence.Session.ScreenOp
import Cadence.Session.Ticker
import Cadence.Session.WorldOp
import Cadence.Settings.Basic
import Cadence.Settings.Change
import Cadence.Settings.Document
import Cadence.Settings.Environment
import Cadence.Store
import Cadence.System.Basic
import Cadence.System.Boxes
import Cadence.System.BuiltIn
import Cadence.System.Motion
import Cadence.System.Painter
import Cadence.System.Scripts.Basic
import Cadence.System.Scripts.Usage
import Cadence.Text.Blank
import Cadence.Text.Numeral
import Cadence.Toml.Document
import Cadence.Toml.Number
import Cadence.Toml.Quoted
import Cadence.Toml.Tree
import Cadence.Toml.Value
import Cadence.Toml.Writer
import Cadence.Version
import Cadence.World.Basic
import Cadence.World.Edit
import Cadence.World.Query
