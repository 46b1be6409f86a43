import ReverseSweep.Main
import ReverseSweep.Payload
import ReverseSweep.RunFolder
import ReverseSweep.RunRecord
import ReverseSweep.Sweep.Script
import ReverseSweep.Proofs.Eviction
import ReverseSweep.Proofs.Schedule
import ReverseSweep.Proofs.Rooted
import ReverseSweep.Proofs.Spacing
import ReverseSweep.Proofs.Lockstep
import ReverseSweep.Proofs.Course
import ReverseSweep.Proofs.Passes
import ReverseSweep.Proofs.WayBack
import ReverseSweep.Proofs.Setup
import ReverseSweep.Proofs.Trajectory
import ReverseSweep.Proofs.Costs
import ReverseSweep.Proofs.Parallel
import ReverseSweep.Proofs.Interruption
import ReverseSweep.Proofs.Residents
import ReverseSweep.Proofs.Failures
import ReverseSweep.Proofs.Differentiation
import ReverseSweep.Proofs.Jacobian
import ReverseSweep.Proofs.Gradient
import ReverseSweep.Proofs.Turns
import ReverseSweep.Proofs.Histories
import ReverseSweep.Proofs.Halving
import ReverseSweep.Proofs.Outcomes
import ReverseSweep.Proofs.LeastGap
import ReverseSweep.Proofs.Events
import ReverseSweep.Proofs.Ledger
import ReverseSweep.Proofs.Renewal
import ReverseSweep.Proofs.Columns
import ReverseSweep.Proofs.Rows
import ReverseSweep.Proofs.Ensures
import ReverseSweep.Proofs.Interventions
import ReverseSweep.Proofs.Divergence
import ReverseSweep.Proofs.Progress
import ReverseSweep.Proofs.Beside
import ReverseSweep.Proofs.Likeness
import ReverseSweep.Proofs.Observers
import ReverseSweep.Proofs.Twins
import ReverseSweep.Proofs.Recall
import ReverseSweep.Proofs.Forgetting
import ReverseSweep.Proofs.Cramped
import ReverseSweep.Proofs.Verdicts
import ReverseSweep.Proofs.Agreement
import ReverseSweep.Proofs.Numerals
import ReverseSweep.Proofs.Freshness
import ReverseSweep.Proofs.Overriding
import ReverseSweep.Proofs.Reading
import ReverseSweep.Proofs.Record
import ReverseSweep.Proofs.Tables
import ReverseSweep.Proofs.Overflow
import ReverseSweep.Proofs.Entries
import ReverseSweep.Proofs.Words
import ReverseSweep.Proofs.Nearest
import ReverseSweep.Proofs.Places
import ReverseSweep.Proofs.Rounding
import ReverseSweep.Proofs.Operations
import ReverseSweep.Proofs.Sums
import ReverseSweep.Proofs.Averages
import ReverseSweep.Proofs.Cells
import ReverseSweep.Proofs.Shown
import ReverseSweep.Proofs.Grid
