import EventIntake.Config.Load
import EventIntake.Intake
import EventIntake.Proofs.Sink.Agreement
import EventIntake.Proofs.Sink.Balance
import EventIntake.Proofs.Sink.Conservation
import EventIntake.Proofs.Sink.Purity
import EventIntake.Proofs.Sink.Shutdown
import EventIntake.Proofs.Sink.Threshold
import EventIntake.Proofs.Store.Acceptance
import EventIntake.Proofs.Store.Transaction
import EventIntake.Sink
import EventIntake.Sql.Render
import EventIntake.Store.Disk
import EventIntake.Store.Memory
import EventIntake.Subscription.Backoff
import EventIntake.Proofs.Record.Schema
import EventIntake.Proofs.Subscription.Unruled
import EventIntake.Proofs.Sink.Rules
import EventIntake.Proofs.Json.Grammar
import EventIntake.Proofs.Json.Raw
import EventIntake.Proofs.Json.Reading
import EventIntake.Proofs.Json.Rendering
import EventIntake.Proofs.Event.Rendering
import EventIntake.Proofs.Json.Value
import EventIntake.Proofs.Json.Kept
import EventIntake.Proofs.Json.RoundTrip
import EventIntake.Proofs.Event.Owner
import EventIntake.Proofs.Event.RoundTrip
import EventIntake.Proofs.Json.Plain
import EventIntake.Proofs.Queue.Threshold
import EventIntake.Proofs.Sink.Failure
import EventIntake.Proofs.Rules.Runs
import EventIntake.Proofs.Record.Injective
import EventIntake.Proofs.Sql.Quoting
import EventIntake.Proofs.Sql.Alignment
import EventIntake.Proofs.Queue.Independence
import EventIntake.Proofs.Queue.Drain
import EventIntake.Proofs.Store.Commits
import EventIntake.Proofs.Subscription.Registry
import EventIntake.Proofs.Subscription.Retry
import EventIntake.Proofs.Sink.Retry
import EventIntake.Proofs.Json.Scanning
import EventIntake.Proofs.Json.Accepting
import EventIntake.Proofs.Json.Settling
import EventIntake.Proofs.Json.Deciding
import EventIntake.Proofs.Subscription.Notification
import EventIntake.Proofs.Event.NormalForm
import EventIntake.Proofs.Config.Verbatim
