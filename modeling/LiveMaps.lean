import LiveMaps.Admission.Participant
import LiveMaps.Admission.Rules
import LiveMaps.Catalog.Ancestry
import LiveMaps.Catalog.Basic
import LiveMaps.Catalog.Records
import LiveMaps.CommandLine.Arguments
import LiveMaps.CommandLine.Commands
import LiveMaps.CommandLine.Numbers
import LiveMaps.Config
import LiveMaps.Denial
import LiveMaps.Difficulty
import LiveMaps.Documents
import LiveMaps.Event
import LiveMaps.Files.Content
import LiveMaps.Files.Route
import LiveMaps.Files.Tree
import LiveMaps.Hex
import LiveMaps.IdTable
import LiveMaps.Ident
import LiveMaps.Json.Codec
import LiveMaps.Json.Reader
import LiveMaps.Json.Value
import LiveMaps.Json.Writer
import LiveMaps.Live.Base
import LiveMaps.Live.Map
import LiveMaps.Location
import LiveMaps.Main
import LiveMaps.Number.Decimal
import LiveMaps.Number.Natural
import LiveMaps.Number.Rounding
import LiveMaps.Number.Single
import LiveMaps.Ordered
import LiveMaps.Proofs.Admission.Binds
import LiveMaps.Proofs.Admission.Corpses
import LiveMaps.Proofs.Admission.Easing
import LiveMaps.Proofs.Admission.Grounds
import LiveMaps.Proofs.Admission.Judging
import LiveMaps.Proofs.Admission.Levels
import LiveMaps.Proofs.Admission.Validity
import LiveMaps.Proofs.Catalog.Family
import LiveMaps.Proofs.Catalog.Forest
import LiveMaps.Proofs.Catalog.Searches
import LiveMaps.Proofs.Catalog.Validation
import LiveMaps.Proofs.Catalog.Walks
import LiveMaps.Proofs.Files.Tree
import LiveMaps.Proofs.Ids.Limits
import LiveMaps.Proofs.Ids.Refinement
import LiveMaps.Proofs.Ids.Space
import LiveMaps.Proofs.Ids.Table
import LiveMaps.Proofs.Json.Codecs
import LiveMaps.Proofs.Json.Documents
import LiveMaps.Proofs.Json.Formats
import LiveMaps.Proofs.Json.Kinds
import LiveMaps.Proofs.Json.Numerals
import LiveMaps.Proofs.Json.Partial
import LiveMaps.Proofs.Keyed
import LiveMaps.Proofs.Live.Base
import LiveMaps.Proofs.Number.Layouts
import LiveMaps.Proofs.Number.Midpoints
import LiveMaps.Proofs.Number.Nearest
import LiveMaps.Proofs.Number.Reading
import LiveMaps.Proofs.Number.Shortest
import LiveMaps.Proofs.Number.Singles
import LiveMaps.Proofs.Number.Values
import LiveMaps.Proofs.Number.Written
import LiveMaps.Proofs.Saved.Folder
import LiveMaps.Proofs.Saved.Following
import LiveMaps.Proofs.Saved.Log
import LiveMaps.Proofs.Saved.Records
import LiveMaps.Proofs.Saved.Reopening
import LiveMaps.Proofs.Saved.Shown
import LiveMaps.Proofs.Saved.Faulty
import LiveMaps.Proofs.Schedule.Callers
import LiveMaps.Proofs.Schedule.Durations
import LiveMaps.Proofs.Schedule.Phases
import LiveMaps.Proofs.Schedule.Window
import LiveMaps.Proofs.Simulation.Hosting
import LiveMaps.Proofs.Simulation.Openings
import LiveMaps.Proofs.Simulation.Passing
import LiveMaps.Proofs.Simulation.Reports
import LiveMaps.Proofs.Terrain.Cells
import LiveMaps.Proofs.Terrain.Names
import LiveMaps.Proofs.World.Clocks
import LiveMaps.Proofs.World.Copies
import LiveMaps.Proofs.World.Fates
import LiveMaps.Proofs.World.Families
import LiveMaps.Proofs.World.Idling
import LiveMaps.Proofs.World.Install
import LiveMaps.Proofs.World.Orders
import LiveMaps.Proofs.World.Passes
import LiveMaps.Proofs.World.Runs
import LiveMaps.Proofs.World.Shutdown
import LiveMaps.Proofs.World.Sound
import LiveMaps.Saved.Calls
import LiveMaps.Saved.Directory
import LiveMaps.Saved.Records
import LiveMaps.Saved.State
import LiveMaps.Schedule.History
import LiveMaps.Schedule.Timer
import LiveMaps.Schedule.WorkerPool
import LiveMaps.Simulation
import LiveMaps.Terrain.Grid
import LiveMaps.Terrain.Tiles
import LiveMaps.World.Create
import LiveMaps.World.Resolve
import LiveMaps.World.State
import LiveMaps.World.Tick
import LiveMaps.Proofs.World.Transfers
import LiveMaps.Proofs.World.Claims
import LiveMaps.Proofs.World.Strides
import LiveMaps.Proofs.World.Newcomers
import LiveMaps.Proofs.Ids.Handouts
import LiveMaps.Proofs.Saved.Numbering
import LiveMaps.Proofs.World.Identities
import LiveMaps.Proofs.World.Refusals
import LiveMaps.Proofs.World.Rejoining
import LiveMaps.Proofs.World.Replay
import LiveMaps.Proofs.World.Routes
import LiveMaps.Proofs.Saved.Unreadable
