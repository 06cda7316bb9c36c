import RouterReconciler.Main
import RouterReconciler.Remote.ProgramRehearsal
import RouterReconciler.Remote.SecureCopy
import RouterReconciler.Text.LineDiff
import RouterReconciler.Text.Phrase
import RouterReconciler.Device.Generation
import RouterReconciler.Fleet.Inventory
import RouterReconciler.Json.Parser
import RouterReconciler.Json.Printer
import RouterReconciler.Toml.Parser
import RouterReconciler.Device.Rehearsal
import RouterReconciler.Run.Tasks
import RouterReconciler.TaskFile.Basic
import RouterReconciler.Retry
import RouterReconciler.Device.Snapshot
import RouterReconciler.Device.Console
import RouterReconciler.Response
import RouterReconciler.Facility
import RouterReconciler.Text.WordCharacters
import RouterReconciler.Proofs.Placement.Carry
import RouterReconciler.Proofs.Placement.Runs
import RouterReconciler.Proofs.Placement.Moves
import RouterReconciler.Proofs.Device.Writes
import RouterReconciler.Proofs.Device.View
import RouterReconciler.Proofs.Device.Effects
import RouterReconciler.Proofs.Device.Ids
import RouterReconciler.Proofs.Device.Edits
import RouterReconciler.Proofs.Device.Order
import RouterReconciler.Proofs.Device.Failures
import RouterReconciler.Proofs.Device.Orderly
import RouterReconciler.Proofs.Device.Standing
import RouterReconciler.Proofs.Reconcile.Reads
import RouterReconciler.Proofs.Reconcile.Quiet
import RouterReconciler.Proofs.Run.Live
import RouterReconciler.Proofs.Record.Fields
import RouterReconciler.Proofs.Record.Difference
import RouterReconciler.Proofs.Reconcile.Reading
import RouterReconciler.Proofs.Reconcile.Progress
import RouterReconciler.Proofs.Reconcile.Present
import RouterReconciler.Proofs.Reconcile.Slots
import RouterReconciler.Proofs.Reconcile.Adjust
import RouterReconciler.Proofs.Reconcile.Plain
import RouterReconciler.Proofs.Reconcile.Replace
import RouterReconciler.Proofs.Reconcile.Claims
import RouterReconciler.Proofs.Reconcile.Alignment
import RouterReconciler.Proofs.Reconcile.PresentAgain
import RouterReconciler.Proofs.Reconcile.AdjustAgain
import RouterReconciler.Proofs.Run.Unordered
import RouterReconciler.Proofs.Run.Ordered
import RouterReconciler.Proofs.Reconcile.Planned
import RouterReconciler.Proofs.Reconcile.Matches
import RouterReconciler.Proofs.Reconcile.Tidy
import RouterReconciler.Proofs.Reconcile.Orderly
import RouterReconciler.Proofs.Run.Stops
import RouterReconciler.Proofs.Run.Refusal
import RouterReconciler.Proofs.Run.Applicable
import RouterReconciler.Proofs.Run.Protected
import RouterReconciler.Proofs.Device.Loading
import RouterReconciler.Proofs.Device.Scripts
import RouterReconciler.Proofs.Run.Dry
import RouterReconciler.Proofs.Reconcile.Turns
import RouterReconciler.Proofs.Reconcile.Single
import RouterReconciler.Proofs.Run.Positions
import RouterReconciler.Proofs.Reconcile.Moving
import RouterReconciler.Proofs.Run.Traces
import RouterReconciler.Proofs.Run.Changed
import RouterReconciler.Proofs.Device.Journal
import RouterReconciler.Proofs.Run.Stepwise
import RouterReconciler.Proofs.Run.Endings
import RouterReconciler.Proofs.Value.Quoting
import RouterReconciler.Proofs.Value.Arrays
import RouterReconciler.Proofs.Response.Framing
import RouterReconciler.Proofs.Text.Pieces
import RouterReconciler.Proofs.Device.Requests
import RouterReconciler.Proofs.Device.Contents
import RouterReconciler.Proofs.Device.Fresh
import RouterReconciler.Proofs.Value.Literals
import RouterReconciler.Proofs.Run.Moments
import RouterReconciler.Proofs.Run.Stored
import RouterReconciler.Proofs.Device.Sending
import RouterReconciler.Proofs.Value.Durations
import RouterReconciler.Proofs.Value.Documents
import RouterReconciler.Proofs.Device.Snapshots
import RouterReconciler.Proofs.Placement.Fewest
import RouterReconciler.Proofs.Run.Accounts
import RouterReconciler.Proofs.TaskFile.Sources
import RouterReconciler.Proofs.TaskFile.Given
import RouterReconciler.Proofs.Reconcile.FirstFit
import RouterReconciler.Proofs.Reconcile.Judgeable
import RouterReconciler.Proofs.Reconcile.Checks
import RouterReconciler.Proofs.Reconcile.Assignments
import RouterReconciler.Proofs.Value.Notations
import RouterReconciler.Proofs.Value.Clocks
import RouterReconciler.Proofs.Value.Breaks
import RouterReconciler.Proofs.Device.Leftovers
import RouterReconciler.Proofs.TaskFile.Combinations
import RouterReconciler.Proofs.Value.Overlaps
import RouterReconciler.Proofs.Reconcile.Identity
import RouterReconciler.Proofs.Reconcile.Finds
import RouterReconciler.Proofs.Reconcile.Steady
import RouterReconciler.Proofs.Run.Through
import RouterReconciler.Proofs.Run.OneByOne
import RouterReconciler.Proofs.Reconcile.Targets
import RouterReconciler.Proofs.Run.Removals
import RouterReconciler.Proofs.Run.Toggles
import RouterReconciler.Proofs.Run.Configured
import RouterReconciler.Proofs.Reconcile.Columns
import RouterReconciler.Proofs.Local.Paths
import RouterReconciler.Proofs.Local.Replacement
import RouterReconciler.Proofs.Run.Transfers
