import QueryServer.Arguments
import QueryServer.Arguments.Help
import QueryServer.Command
import QueryServer.Configuration
import QueryServer.Connection
import QueryServer.Connection.Reader
import QueryServer.Connection.Stream
import QueryServer.Connection.Writer
import QueryServer.Engine
import QueryServer.Executor
import QueryServer.Executor.Session
import QueryServer.Frame
import QueryServer.Frame.Codec
import QueryServer.Machine
import QueryServer.Main
import QueryServer.Number.Binary64
import QueryServer.Number.Numeral
import QueryServer.Number.Shortest
import QueryServer.Number.Written
import QueryServer.Port
import QueryServer.Proofs.Arguments
import QueryServer.Proofs.Arguments.Layering
import QueryServer.Proofs.Ascii
import QueryServer.Proofs.Command
import QueryServer.Proofs.Connection.Buffering
import QueryServer.Proofs.Connection.Conservation
import QueryServer.Proofs.Connection.Delivery
import QueryServer.Proofs.Connection.Emission
import QueryServer.Proofs.Connection.RoundTrip
import QueryServer.Proofs.Engine.Atomicity
import QueryServer.Proofs.Engine.Isolation
import QueryServer.Proofs.Engine.Laws
import QueryServer.Proofs.Engine.Machine
import QueryServer.Proofs.Engine.Sequence
import QueryServer.Proofs.Engine.Transactions
import QueryServer.Proofs.Executor.Holding
import QueryServer.Proofs.Executor.Recall
import QueryServer.Proofs.Executor.Results
import QueryServer.Proofs.Executor.Session
import QueryServer.Proofs.Executor.Single
import QueryServer.Proofs.Frame.Decoding
import QueryServer.Proofs.Frame.Pieces
import QueryServer.Proofs.Frame.Resumption
import QueryServer.Proofs.Frame.Segments
import QueryServer.Proofs.Number.Fewest
import QueryServer.Proofs.Number.Form
import QueryServer.Proofs.Number.Nearest
import QueryServer.Proofs.Number.Numeral
import QueryServer.Proofs.Number.Reading
import QueryServer.Proofs.Number.Rounding
import QueryServer.Proofs.Number.Shortest
import QueryServer.Proofs.Port
import QueryServer.Proofs.Response
import QueryServer.Proofs.Sequence
import QueryServer.Proofs.Server.Account
import QueryServer.Proofs.Server.Acts
import QueryServer.Proofs.Server.Conversation
import QueryServer.Proofs.Server.Discipline
import QueryServer.Proofs.Server.Entries
import QueryServer.Proofs.Server.Exchange
import QueryServer.Proofs.Server.Moment
import QueryServer.Proofs.Server.Readback
import QueryServer.Proofs.Server.Removal
import QueryServer.Proofs.Server.Schedule
import QueryServer.Proofs.Server.Sharing
import QueryServer.Proofs.Server.Shutdown
import QueryServer.Proofs.Server.Startup
import QueryServer.Proofs.Server.Turns
import QueryServer.Proofs.Sql.Columns
import QueryServer.Proofs.Sql.Effect
import QueryServer.Proofs.Sql.Entry
import QueryServer.Proofs.Sql.Extent
import QueryServer.Proofs.Sql.Insertion
import QueryServer.Proofs.Sql.Lexing
import QueryServer.Proofs.Sql.Lookup
import QueryServer.Proofs.Sql.Projection
import QueryServer.Proofs.Sql.Quoting
import QueryServer.Proofs.Sql.Reads
import QueryServer.Proofs.Sql.Rows
import QueryServer.Proofs.Sql.Soundness
import QueryServer.Proofs.Sql.Taking
import QueryServer.Proofs.Sql.Transaction
import QueryServer.Proofs.Sql.Users
import QueryServer.Proofs.Store.Absence
import QueryServer.Proofs.Store.Bootstrap
import QueryServer.Proofs.Store.Connect
import QueryServer.Proofs.Store.Disk
import QueryServer.Proofs.Store.Opening
import QueryServer.Proofs.Store.Reached
import QueryServer.Proofs.Store.Relations
import QueryServer.Proofs.Text.Category
import QueryServer.Proofs.Text.Literal
import QueryServer.Proofs.Text.Malformed
import QueryServer.Proofs.Text.Replacement
import QueryServer.Proofs.Text.Trim
import QueryServer.Proofs.Text.Utf8
import QueryServer.Proofs.Value
import QueryServer.Proofs.Visible
import QueryServer.Response
import QueryServer.Server.Client
import QueryServer.Server.Handler
import QueryServer.Server.Notice
import QueryServer.Server.Program
import QueryServer.Server.Service
import QueryServer.Server.Start
import QueryServer.Sql.Affinity
import QueryServer.Sql.Change
import QueryServer.Sql.Change.Resolution
import QueryServer.Sql.Conversion
import QueryServer.Sql.Database
import QueryServer.Sql.Datum
import QueryServer.Sql.Definition
import QueryServer.Sql.Expr
import QueryServer.Sql.Fault
import QueryServer.Sql.Function
import QueryServer.Sql.Grammar
import QueryServer.Sql.Grammar.Command
import QueryServer.Sql.Grammar.Definition
import QueryServer.Sql.Grammar.Expression
import QueryServer.Sql.Grammar.Selection
import QueryServer.Sql.Keyword
import QueryServer.Sql.Lexer
import QueryServer.Sql.Numeric
import QueryServer.Sql.Operation
import QueryServer.Sql.Plan
import QueryServer.Sql.Query
import QueryServer.Sql.Query.Scan
import QueryServer.Sql.Query.Selection
import QueryServer.Sql.Reference
import QueryServer.Sql.Scope
import QueryServer.Sql.Script
import QueryServer.Sql.Statement
import QueryServer.Sql.Table
import QueryServer.Sql.Term
import QueryServer.Sql.Token
import QueryServer.Store
import QueryServer.Store.Disk
import QueryServer.Store.Location
import QueryServer.Store.Relations
import QueryServer.Text.Blank
import QueryServer.Text.Literal
import QueryServer.Text.Printable
import QueryServer.Text.Quoted
import QueryServer.Text.Utf8
import QueryServer.Value
