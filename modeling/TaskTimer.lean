import TaskTimer.Session.Service
import TaskTimer.Notice.Bus
import TaskTimer.Command.Arguments
import TaskTimer.Command.Report
import TaskTimer.Command.Run
import TaskTimer.Files.Tree
import TaskTimer.Log.Entry
import TaskTimer.Log.File
import TaskTimer.Proofs.Notation.Spelling
import TaskTimer.Proofs.Plan.Duration
import TaskTimer.Proofs.Task.Content
import TaskTimer.Proofs.Session.Invariant
import TaskTimer.Proofs.Session.Countdown
import TaskTimer.Proofs.Session.Pause
import TaskTimer.Proofs.Session.Generation
import TaskTimer.Proofs.Session.Rescan
import TaskTimer.Proofs.Session.Isolation
import TaskTimer.Proofs.Session.Lifecycle
import TaskTimer.Proofs.Session.Alarm
import TaskTimer.Proofs.Session.Clock
import TaskTimer.Proofs.Text.Bytes
import TaskTimer.Proofs.Text.Lines
import TaskTimer.Proofs.Json.RoundTrip
import TaskTimer.Proofs.Notice.Stream
import TaskTimer.Proofs.Notation.Grammar
import TaskTimer.Proofs.Session.Relay
import TaskTimer.Proofs.Log.File
import TaskTimer.Proofs.Notation.Nesting
import TaskTimer.Proofs.Task.Pattern
import TaskTimer.Proofs.Task.Document
import TaskTimer.Proofs.Task.NormalForm
import TaskTimer.Proofs.Plan.Repetition
import TaskTimer.Proofs.Session.Restart
import TaskTimer.Proofs.Session.Snapshot
import TaskTimer.Proofs.Session.Cancellation
import TaskTimer.Proofs.Files.Watcher
import TaskTimer.Proofs.Text.ByteLines
import TaskTimer.Proofs.Json.Line
import TaskTimer.Proofs.Notice.Listener
import TaskTimer.Proofs.Log.Reading
import TaskTimer.Proofs.Plan.Progress
