import FeedFiler.Address
import FeedFiler.Bus
import FeedFiler.Config
import FeedFiler.Config.Error
import FeedFiler.Config.Feed
import FeedFiler.Config.Route
import FeedFiler.Config.Typing
import FeedFiler.Envelope
import FeedFiler.ErrorLog
import FeedFiler.Feed
import FeedFiler.Feed.JourneyTimes
import FeedFiler.Feed.Markup
import FeedFiler.Feed.TagMapping
import FeedFiler.Filer
import FeedFiler.Files.FileTree
import FeedFiler.Files.Store
import FeedFiler.Geometry.Polygon
import FeedFiler.Json.Basic
import FeedFiler.Json.Document
import FeedFiler.Json.Double
import FeedFiler.Json.Parser
import FeedFiler.Json.Printer
import FeedFiler.Main
import FeedFiler.Message.Predicate
import FeedFiler.Message.RecordPath
import FeedFiler.Message.Reshape
import FeedFiler.Message.RuleError
import FeedFiler.Message.Template
import FeedFiler.Number.Decimal
import FeedFiler.Number.Magnitude
import FeedFiler.Number.Reading
import FeedFiler.Number.Shortest
import FeedFiler.Record
import FeedFiler.Router
import FeedFiler.Router.Channel
import FeedFiler.Routing.Builder
import FeedFiler.Routing.Table
import FeedFiler.Run.Command
import FeedFiler.Run.Error
import FeedFiler.Run.Ingest
import FeedFiler.Run.Replay
import FeedFiler.Text.Blank
import FeedFiler.Text.Combining
import FeedFiler.Text.Cut
import FeedFiler.Text.Lines
import FeedFiler.Text.Quoted
import FeedFiler.Text.Ranges
import FeedFiler.Text.Reader
import FeedFiler.Text.Unassigned
import FeedFiler.Text.Utf8
import FeedFiler.Text.Visible
import FeedFiler.Time.Calendar
import FeedFiler.Time.Instant
import FeedFiler.Toml.Basic
import FeedFiler.Toml.Draft
import FeedFiler.Toml.Moment
import FeedFiler.Toml.Numbers
import FeedFiler.Toml.Parser
import FeedFiler.Toml.Settled
import FeedFiler.Toml.Strings
import FeedFiler.Value
import FeedFiler.Proofs.Json.Numbers
import FeedFiler.Proofs.Json.RoundTrip
import FeedFiler.Proofs.Feed.Elements
import FeedFiler.Proofs.Feed.Pages
import FeedFiler.Proofs.Files.Operations
import FeedFiler.Proofs.Json.OneLine
import FeedFiler.Proofs.Replay.Transcript
import FeedFiler.Proofs.Bus.Execution
import FeedFiler.Proofs.Router.Delivery
import FeedFiler.Proofs.Filer.CallOrder
import FeedFiler.Proofs.Filer.Partition
import FeedFiler.Proofs.Envelope.RoundTrip
import FeedFiler.Proofs.Filer.Versions
import FeedFiler.Proofs.Filer.LastVersion
import FeedFiler.Proofs.Router.Counting
import FeedFiler.Proofs.Routing.Accepting
import FeedFiler.Proofs.Config.Parting
import FeedFiler.Proofs.Bus.Starting
import FeedFiler.Proofs.Filer.Outstanding
import FeedFiler.Proofs.Feed.Derived
import FeedFiler.Proofs.Feed.Octets
import FeedFiler.Proofs.Run.Draining
import FeedFiler.Proofs.Message.PathGrammar
import FeedFiler.Proofs.Message.Pieces
import FeedFiler.Proofs.Message.DayParts
import FeedFiler.Proofs.Feed.Spellings
import FeedFiler.Proofs.Message.Resolving
import FeedFiler.Proofs.Message.Reshaping
import FeedFiler.Proofs.Filer.Confinement
import FeedFiler.Proofs.Envelope.Header
import FeedFiler.Proofs.Geometry.Convex
import FeedFiler.Proofs.Router.Room
import FeedFiler.Proofs.Replay.PassedOver
import FeedFiler.Proofs.Filer.Abandoned
import FeedFiler.Proofs.Files.Commuting
import FeedFiler.Proofs.Routing.Calls
import FeedFiler.Proofs.Record.Reading
import FeedFiler.Proofs.Feed.JourneyTimes
import FeedFiler.Proofs.ErrorLog
import FeedFiler.Proofs.Feed.Blanks
