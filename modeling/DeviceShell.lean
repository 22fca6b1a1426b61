import DeviceShell.Command.Answers
import DeviceShell.Command.Card
import DeviceShell.Command.Columns
import DeviceShell.Command.Rejection
import DeviceShell.Command.Table
import DeviceShell.Config.Basic
import DeviceShell.Config.Document
import DeviceShell.Device.Basic
import DeviceShell.Device.Facts
import DeviceShell.Device.Flags
import DeviceShell.Device.Simulated
import DeviceShell.Failure
import DeviceShell.History
import DeviceShell.Input.Channel
import DeviceShell.Input.Editor
import DeviceShell.Input.Mailbox
import DeviceShell.Input.Reader
import DeviceShell.Input.Typing
import DeviceShell.Interrupts
import DeviceShell.Json.Letters
import DeviceShell.Json.Lexer
import DeviceShell.Json.Library
import DeviceShell.Json.Outline
import DeviceShell.Json.Token
import DeviceShell.Json.Written
import DeviceShell.Log.Calls
import DeviceShell.Log.Facade
import DeviceShell.Log.Hub
import DeviceShell.Log.Level
import DeviceShell.Log.Notice
import DeviceShell.Log.Record
import DeviceShell.Log.Station
import DeviceShell.Main
import DeviceShell.Monitor.Frame
import DeviceShell.Monitor.Interval
import DeviceShell.Monitor.Redraw
import DeviceShell.Monitor.Share
import DeviceShell.Monitor.Snapshot
import DeviceShell.Program.Folder
import DeviceShell.Program.Run
import DeviceShell.Proofs.Command.Calls
import DeviceShell.Proofs.Command.Grid
import DeviceShell.Proofs.Command.Listing
import DeviceShell.Proofs.Command.Lookup
import DeviceShell.Proofs.Command.Places
import DeviceShell.Proofs.Config.Merging
import DeviceShell.Proofs.Config.RoundTrip
import DeviceShell.Proofs.Device.Naming
import DeviceShell.Proofs.Device.Sampling
import DeviceShell.Proofs.Input.Batch
import DeviceShell.Proofs.Input.Course
import DeviceShell.Proofs.Input.Delivery
import DeviceShell.Proofs.Input.Erasing
import DeviceShell.Proofs.Input.Lines
import DeviceShell.Proofs.Input.Overlong
import DeviceShell.Proofs.Input.Queue
import DeviceShell.Proofs.Input.Segments
import DeviceShell.Proofs.Interrupts.Handles
import DeviceShell.Proofs.Json.Grammar
import DeviceShell.Proofs.Json.Library
import DeviceShell.Proofs.Json.Objects
import DeviceShell.Proofs.Json.Reading
import DeviceShell.Proofs.Json.Skipping
import DeviceShell.Proofs.Json.Spelling
import DeviceShell.Proofs.Log.Cutting
import DeviceShell.Proofs.Log.Delivery
import DeviceShell.Proofs.Log.Registration
import DeviceShell.Proofs.Log.Whole
import DeviceShell.Proofs.Monitor.Course
import DeviceShell.Proofs.Monitor.Figures
import DeviceShell.Proofs.Monitor.Intervals
import DeviceShell.Proofs.Monitor.Leftovers
import DeviceShell.Proofs.Monitor.Lines
import DeviceShell.Proofs.Monitor.Rounds
import DeviceShell.Proofs.Monitor.Shares
import DeviceShell.Proofs.Monitor.Table
import DeviceShell.Proofs.Program.Ledger
import DeviceShell.Proofs.Program.Parties
import DeviceShell.Proofs.Program.ReaderFirst
import DeviceShell.Proofs.Program.Schedule
import DeviceShell.Proofs.Program.Stranded
import DeviceShell.Proofs.Relay.Batching
import DeviceShell.Proofs.Relay.Chunks
import DeviceShell.Proofs.Relay.Course
import DeviceShell.Proofs.Relay.Drying
import DeviceShell.Proofs.Relay.Ending
import DeviceShell.Proofs.Relay.Events
import DeviceShell.Proofs.Relay.Fifo
import DeviceShell.Proofs.Relay.Interrupting
import DeviceShell.Proofs.Relay.Outside
import DeviceShell.Proofs.Relay.Restoration
import DeviceShell.Proofs.Relay.Stopping
import DeviceShell.Proofs.Relay.Transfer
import DeviceShell.Proofs.Shell.Alike
import DeviceShell.Proofs.Shell.Dispatching
import DeviceShell.Proofs.Shell.Leaving
import DeviceShell.Proofs.Shell.Looping
import DeviceShell.Proofs.Shell.Rejecting
import DeviceShell.Proofs.Shell.Respacing
import DeviceShell.Proofs.Shell.Steps
import DeviceShell.Proofs.Shell.Surviving
import DeviceShell.Proofs.Terminal.Flushing
import DeviceShell.Proofs.Terminal.Screen
import DeviceShell.Proofs.Text.Columns
import DeviceShell.Proofs.Text.Decoding
import DeviceShell.Proofs.Text.Filling
import DeviceShell.Proofs.Text.Fitting
import DeviceShell.Proofs.Text.Numerals
import DeviceShell.Proofs.Text.Printable
import DeviceShell.Proofs.Text.Words
import DeviceShell.Relay.Circle
import DeviceShell.Relay.Client
import DeviceShell.Relay.Drain
import DeviceShell.Relay.Pipe
import DeviceShell.Relay.Ring
import DeviceShell.Relay.Script
import DeviceShell.Relay.Session
import DeviceShell.Shared
import DeviceShell.Shell.Execute
import DeviceShell.Terminal.Console
import DeviceShell.Terminal.Escape
import DeviceShell.Text.Align
import DeviceShell.Text.Blank
import DeviceShell.Text.Bytes
import DeviceShell.Text.Fit
import DeviceShell.Text.Numeral
