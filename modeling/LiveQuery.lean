import LiveQuery.Completion.Context
import LiveQuery.Completion.Suggestions
import LiveQuery.Decimal.Binary64
import LiveQuery.Decimal.Shortest
import LiveQuery.Desktop.Actions
import LiveQuery.Desktop.Gesture
import LiveQuery.Desktop.Labels
import LiveQuery.Desktop.Window
import LiveQuery.Display.Cells
import LiveQuery.Display.Paint
import LiveQuery.Display.Rows
import LiveQuery.Display.Wide
import LiveQuery.Display.Window
import LiveQuery.Document
import LiveQuery.Host.EventLoop
import LiveQuery.Host.Looped
import LiveQuery.Host.Timers
import LiveQuery.Json.Printer
import LiveQuery.Json.Reader
import LiveQuery.Json.Value
import LiveQuery.Main
import LiveQuery.Path.Basic
import LiveQuery.Path.Keys
import LiveQuery.Query.Memo
import LiveQuery.Query.Outcome
import LiveQuery.Query.Program
import LiveQuery.Query.Recording
import LiveQuery.Session.Commands
import LiveQuery.Session.Dispatcher
import LiveQuery.Session.Latency
import LiveQuery.Session.Recent
import LiveQuery.Session.State
import LiveQuery.Session.TableClient
import LiveQuery.Session.Time
import LiveQuery.Terminal.Console
import LiveQuery.Terminal.Invocation
import LiveQuery.Terminal.Options
import LiveQuery.Terminal.Program
import LiveQuery.Terminal.Repl
import LiveQuery.Text.Basic
import LiveQuery.Text.Blank
import LiveQuery.Text.Digit
import LiveQuery.Text.Lower
import LiveQuery.Text.Printable
import LiveQuery.Text.Quoted
import LiveQuery.Text.Ranges
import LiveQuery.Text.Utf8
import LiveQuery.Web.Api
import LiveQuery.Web.Http
import LiveQuery.Web.Server
import LiveQuery.Web.Target
import LiveQuery.Web.Wire
import LiveQuery.Proofs.Memo.Answers
import LiveQuery.Proofs.Memo.Questions
import LiveQuery.Proofs.Dispatch.Moves
import LiveQuery.Proofs.Dispatch.Sound
import LiveQuery.Proofs.Path.Stream
import LiveQuery.Proofs.Dispatch.Commits
import LiveQuery.Proofs.Session.Inputs
import LiveQuery.Proofs.Session.Settled
import LiveQuery.Proofs.Session.Upkeep
import LiveQuery.Proofs.Session.Panel
import LiveQuery.Proofs.Session.Offers
import LiveQuery.Proofs.Json.Printed
import LiveQuery.Proofs.Display.Spacing
import LiveQuery.Proofs.Display.Literals
import LiveQuery.Proofs.Display.Styled
import LiveQuery.Proofs.Display.Colours
import LiveQuery.Proofs.Display.Cells
import LiveQuery.Proofs.Display.Windows
import LiveQuery.Proofs.Display.Scrolling
import LiveQuery.Proofs.Display.Padding
import LiveQuery.Proofs.Display.Pieces
import LiveQuery.Proofs.Display.Rows
import LiveQuery.Proofs.Completion.Accepted
import LiveQuery.Proofs.Path.Reading
import LiveQuery.Proofs.Dispatch.Ledger
import LiveQuery.Proofs.Dispatch.Ended
import LiveQuery.Proofs.Dispatch.Tokens
import LiveQuery.Proofs.Dispatch.Balance
import LiveQuery.Proofs.Session.Leftovers
import LiveQuery.Proofs.Dispatch.Chores
import LiveQuery.Proofs.Host.Timers
import LiveQuery.Proofs.Session.View
import LiveQuery.Proofs.Host.Settling
import LiveQuery.Proofs.Desktop.Quiet
import LiveQuery.Proofs.Desktop.Accounts
import LiveQuery.Proofs.Desktop.Runs
import LiveQuery.Proofs.Desktop.FailedLoads
import LiveQuery.Proofs.Host.Jobs
import LiveQuery.Proofs.Session.Completing
import LiveQuery.Proofs.Desktop.Entry
import LiveQuery.Proofs.Session.Shared
import LiveQuery.Proofs.Web.Visits
import LiveQuery.Proofs.Json.RoundTrip
import LiveQuery.Proofs.Session.Recent
import LiveQuery.Proofs.Host.Hosted
import LiveQuery.Proofs.Host.Typing
import LiveQuery.Proofs.Terminal.Lines
import LiveQuery.Proofs.Path.Grammar
import LiveQuery.Proofs.Display.Sides
import LiveQuery.Proofs.Memo.Endings
import LiveQuery.Proofs.Memo.Callers
import LiveQuery.Proofs.Memo.Races
import LiveQuery.Proofs.Path.FirstItems
import LiveQuery.Proofs.Completion.Again
import LiveQuery.Proofs.Session.Lifetime
import LiveQuery.Proofs.Session.Committed
import LiveQuery.Proofs.Session.Descent
import LiveQuery.Proofs.Display.Store
import LiveQuery.Proofs.Completion.Narrowing
import LiveQuery.Proofs.Dispatch.Bursts
import LiveQuery.Proofs.Host.Running
import LiveQuery.Proofs.Memo.Compilations
import LiveQuery.Proofs.Decimal.Quotients
import LiveQuery.Proofs.Session.Percentiles
import LiveQuery.Proofs.Completion.Dots
import LiveQuery.Proofs.Display.Slices
