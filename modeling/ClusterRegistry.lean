import ClusterRegistry.Bounds
import ClusterRegistry.Client
import ClusterRegistry.Dogu
import ClusterRegistry.Dogu.Catalog
import ClusterRegistry.Dogu.Document
import ClusterRegistry.Double
import ClusterRegistry.Duration
import ClusterRegistry.Entries
import ClusterRegistry.Failure
import ClusterRegistry.Failure.Chain
import ClusterRegistry.Http.Address
import ClusterRegistry.Http.Exchange
import ClusterRegistry.Json.Doc
import ClusterRegistry.Json.Numeral
import ClusterRegistry.Json.Record
import ClusterRegistry.Json.Token
import ClusterRegistry.Key
import ClusterRegistry.Node
import ClusterRegistry.Node.Document
import ClusterRegistry.Path
import ClusterRegistry.Program
import ClusterRegistry.Refusal
import ClusterRegistry.Registry
import ClusterRegistry.Request
import ClusterRegistry.Retry
import ClusterRegistry.Rounding
import ClusterRegistry.Scope
import ClusterRegistry.Settings
import ClusterRegistry.Settings.Document
import ClusterRegistry.Settings.Layer
import ClusterRegistry.Settings.Setting
import ClusterRegistry.Settings.Source
import ClusterRegistry.Simulation.Fault
import ClusterRegistry.Simulation.World
import ClusterRegistry.Store
import ClusterRegistry.Store.Wait
import ClusterRegistry.Text.Blank
import ClusterRegistry.Text.Digits
import ClusterRegistry.Text.Utf8
import ClusterRegistry.Toml
import ClusterRegistry.Toml.Moment
import ClusterRegistry.Toml.Table
import ClusterRegistry.Toml.Token
import ClusterRegistry.Toml.Word
import ClusterRegistry.Tree
import ClusterRegistry.Watch
import ClusterRegistry.Proofs.Contents
import ClusterRegistry.Proofs.Store.Edit
import ClusterRegistry.Proofs.Store.Expiry
import ClusterRegistry.Proofs.Store.Course
import ClusterRegistry.Proofs.Store.Order
import ClusterRegistry.Proofs.Store.History
import ClusterRegistry.Proofs.Store.Voyage
import ClusterRegistry.Proofs.Store.Eager
import ClusterRegistry.Proofs.Store.Parking
import ClusterRegistry.Proofs.Store.Refinement
import ClusterRegistry.Proofs.Store.Ledger
import ClusterRegistry.Proofs.Watch.Buffer
import ClusterRegistry.Proofs.Watch.Follow
import ClusterRegistry.Proofs.Store.Replay
import ClusterRegistry.Proofs.Store.Untold
import ClusterRegistry.Proofs.Path
import ClusterRegistry.Proofs.Json.Token
import ClusterRegistry.Proofs.Json.Doc
import ClusterRegistry.Proofs.Json.Record
import ClusterRegistry.Proofs.Client.Link
import ClusterRegistry.Proofs.Dogu.Document
import ClusterRegistry.Proofs.Store.Lasting
import ClusterRegistry.Proofs.Client.Request
import ClusterRegistry.Proofs.Dogu.Call
import ClusterRegistry.Proofs.Dogu.Place
import ClusterRegistry.Proofs.Dogu.Reading
import ClusterRegistry.Proofs.Dogu.Roster
import ClusterRegistry.Proofs.Dogu.Repetition
import ClusterRegistry.Proofs.Dogu.Stray
import ClusterRegistry.Proofs.Store.Silence
import ClusterRegistry.Proofs.Watch.Progress
import ClusterRegistry.Proofs.Watch.Loss
import ClusterRegistry.Proofs.Dogu.Look
import ClusterRegistry.Proofs.Dogu.Listing
import ClusterRegistry.Proofs.Client.Wire
import ClusterRegistry.Proofs.Dogu.Filing
import ClusterRegistry.Proofs.Json.Agreement
import ClusterRegistry.Proofs.Dogu.Dispatch
import ClusterRegistry.Proofs.Client.Crowd
import ClusterRegistry.Proofs.Dogu.Texts
import ClusterRegistry.Proofs.Dogu.Upgrade
import ClusterRegistry.Proofs.Relative
import ClusterRegistry.Proofs.Store.Walk
import ClusterRegistry.Proofs.Store.Scan
import ClusterRegistry.Proofs.Tree
import ClusterRegistry.Proofs.Views
import ClusterRegistry.Proofs.Text.Utf8
import ClusterRegistry.Proofs.Json.Numeral
import ClusterRegistry.Proofs.Node.Fields
import ClusterRegistry.Proofs.Node.Document
import ClusterRegistry.Proofs.Store.Frame
import ClusterRegistry.Proofs.Scope
import ClusterRegistry.Proofs.Tree.Siblings
import ClusterRegistry.Proofs.Tree.Pairs
import ClusterRegistry.Proofs.Tree.Comparison
import ClusterRegistry.Proofs.Store.Twin
import ClusterRegistry.Proofs.Store.Heads
import ClusterRegistry.Proofs.Store.Unindexed
import ClusterRegistry.Proofs.Store.Visits
import ClusterRegistry.Proofs.Store.Peeks
import ClusterRegistry.Proofs.Store.Effect
import ClusterRegistry.Proofs.Client.Attempts
import ClusterRegistry.Proofs.Client.Rehearsal
import ClusterRegistry.Proofs.Http.Members
import ClusterRegistry.Proofs.Client.Absence
import ClusterRegistry.Proofs.Client.Writing
import ClusterRegistry.Proofs.Dogu.Answers
import ClusterRegistry.Proofs.Dogu.Registering
import ClusterRegistry.Proofs.Failure.Wrapping
import ClusterRegistry.Proofs.Store.Purge
import ClusterRegistry.Proofs.Client.Amid
import ClusterRegistry.Proofs.Store.Pursuit
import ClusterRegistry.Proofs.Retry
import ClusterRegistry.Proofs.Http.Circle
import ClusterRegistry.Proofs.Text.Octets
import ClusterRegistry.Proofs.Http.Percent
import ClusterRegistry.Proofs.Http.Target
import ClusterRegistry.Proofs.Tree.Planting
import ClusterRegistry.Proofs.Tree.Arena
import ClusterRegistry.Proofs.Tree.Places
import ClusterRegistry.Proofs.Path.Algebra
import ClusterRegistry.Proofs.Settings.Field
import ClusterRegistry.Proofs.Settings.Given
import ClusterRegistry.Proofs.Settings.Environment
import ClusterRegistry.Proofs.Settings.Stage
import ClusterRegistry.Proofs.Settings.Layered
