import MinConflicts.Binary64.Arith
import MinConflicts.Binary64.Basic
import MinConflicts.Constraint
import MinConflicts.Decimal.Basic
import MinConflicts.Decimal.Layout
import MinConflicts.Decimal.Reading
import MinConflicts.Decimal.Shortest
import MinConflicts.Domain.Basic
import MinConflicts.Domain.Range
import MinConflicts.Domain.Tree
import MinConflicts.Fault
import MinConflicts.Formula
import MinConflicts.Log
import MinConflicts.Number
import MinConflicts.Path
import MinConflicts.Proofs.Effects
import MinConflicts.Proofs.Tables
import MinConflicts.Score
import MinConflicts.Search.Board
import MinConflicts.Search.Candidate
import MinConflicts.Search.Choice
import MinConflicts.Search.Draws
import MinConflicts.Search.Journal
import MinConflicts.Settings.Basic
import MinConflicts.Settings.Merge
import MinConflicts.Settings.Reading
import MinConflicts.Solver
import MinConflicts.Sort
import MinConflicts.Table
import MinConflicts.Text.Blank
import MinConflicts.Text.Cased
import MinConflicts.Text.Digit
import MinConflicts.Text.Printable
import MinConflicts.Text.Split
import MinConflicts.Text.Title
import MinConflicts.Value.Arith
import MinConflicts.Value.Basic
import MinConflicts.Value.Printer
import MinConflicts.Proofs.ExactOrder
import MinConflicts.Proofs.Positions
import MinConflicts.Proofs.Sameness
import MinConflicts.Proofs.Boards
import MinConflicts.Proofs.Courses
import MinConflicts.Proofs.Coherence
import MinConflicts.Proofs.Records
import MinConflicts.Proofs.Distinctness
import MinConflicts.Proofs.Accounting
import MinConflicts.Proofs.Lockstep
import MinConflicts.Proofs.Mirrors
import MinConflicts.Proofs.Boundaries
import MinConflicts.Proofs.Budgets
import MinConflicts.Proofs.Favourites
import MinConflicts.Proofs.NarrowWindows
import MinConflicts.Proofs.WideWindows
import MinConflicts.Proofs.Rounding
import MinConflicts.Proofs.Success
import MinConflicts.Proofs.Counts
import MinConflicts.Proofs.Shuffles
import MinConflicts.Proofs.KeyChoices
import MinConflicts.Proofs.Totality
import MinConflicts.Proofs.DrawCounts
import MinConflicts.Proofs.Tallies
import MinConflicts.Proofs.Reorderings
import MinConflicts.Proofs.Addresses
import MinConflicts.Proofs.Flattening
import MinConflicts.Proofs.Assembly
import MinConflicts.Proofs.SettingRanges
import MinConflicts.Proofs.Rankings
import MinConflicts.Proofs.Stores
import MinConflicts.Proofs.Starts
import MinConflicts.Proofs.FirstSolutions
import MinConflicts.Proofs.BestChoices
import MinConflicts.Proofs.GreedySteps
import MinConflicts.Proofs.Proportions
import MinConflicts.Proofs.ProperValues
import MinConflicts.Proofs.FirstOccurrences
import MinConflicts.Proofs.Influences
import MinConflicts.Proofs.Quotients
import MinConflicts.Proofs.IntegerRanges
import MinConflicts.Proofs.LargeIntegers
import MinConflicts.Proofs.MergedSettings
import MinConflicts.Proofs.ReportedCounts
import MinConflicts.Proofs.ExactScores
import MinConflicts.Proofs.RunLogs
