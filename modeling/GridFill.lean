import GridFill.Text.Basic
import GridFill.Text.Numeral
import GridFill.Fault
import GridFill.Board.Frame
import GridFill.Board.Basic
import GridFill.Board.Text
import GridFill.Rules
import GridFill.Random.Twister
import GridFill.Search.Plan
import GridFill.Search.Explore
import GridFill.Search.Basic
import GridFill.Carve
import GridFill.Sudoku.Basic
import GridFill.Puzzle.Basic
import GridFill.Puzzle.File
import GridFill.Settings
import GridFill.Clock.Basic
import GridFill.Runner.Tree
import GridFill.Runner.Transcript
import GridFill.Runner.Solve
import GridFill.Runner.Host
import GridFill.Runner.Run
import GridFill.Command
import GridFill.Main
import GridFill.Proofs.Board.Empty
import GridFill.Proofs.Board.Place
import GridFill.Proofs.Search.Completion
import GridFill.Proofs.Search.Run
import GridFill.Proofs.Search.Simulate
import GridFill.Proofs.Search.Restore
import GridFill.Proofs.Search.Pure
import GridFill.Proofs.Search.Reach
import GridFill.Proofs.Search.Reports
import GridFill.Proofs.Search.Fill
import GridFill.Proofs.Search.Count
import GridFill.Proofs.Search.Asked
import GridFill.Proofs.Search.Breakdown
import GridFill.Proofs.Search.Observe
import GridFill.Proofs.Search.Dealt
import GridFill.Proofs.Board.Index
import GridFill.Proofs.Rules.Peers
import GridFill.Proofs.Rules.Extension
import GridFill.Proofs.Rules.Group
import GridFill.Proofs.Rules.Win
import GridFill.Proofs.Sudoku.Box
import GridFill.Proofs.Rules.Givens
import GridFill.Proofs.Search.Effort
import GridFill.Proofs.Search.Agree
import GridFill.Proofs.Sudoku.Pattern
import GridFill.Proofs.Carve.Cleared
import GridFill.Proofs.Sudoku.Full
import GridFill.Proofs.Carve.Visit
import GridFill.Proofs.Sudoku.Generate
import GridFill.Proofs.Carve.Outcome
import GridFill.Proofs.Carve.Completed
import GridFill.Proofs.Carve.Irreducible
import GridFill.Proofs.Carve.Spare
import GridFill.Proofs.Carve.Failure
import GridFill.Proofs.Puzzle.Check
import GridFill.Proofs.Board.Rows
import GridFill.Proofs.Board.Views
import GridFill.Proofs.Board.Connected
import GridFill.Proofs.Puzzle.Gap
import GridFill.Proofs.Puzzle.Board
import GridFill.Proofs.Sudoku.Block
import GridFill.Proofs.Sudoku.Sides
import GridFill.Proofs.Sudoku.Build
import GridFill.Proofs.Text.Word
import GridFill.Proofs.Text.Numeral
import GridFill.Proofs.Text.Separated
import GridFill.Proofs.Board.Text
import GridFill.Proofs.Clock.Double
import GridFill.Proofs.Clock.Reading
import GridFill.Proofs.Puzzle.Written
import GridFill.Proofs.Puzzle.Loaded
import GridFill.Proofs.Puzzle.Sheet
import GridFill.Proofs.Runner.Script
import GridFill.Proofs.Runner.Verdict
import GridFill.Proofs.Search.Watch
import GridFill.Proofs.Search.Balance
import GridFill.Proofs.Search.Excess
import GridFill.Proofs.Search.Account
import GridFill.Proofs.Search.Sighted
import GridFill.Proofs.Search.Discipline
import GridFill.Proofs.Search.Lockstep
import GridFill.Proofs.Rules.Standing
import GridFill.Proofs.Search.Bound
import GridFill.Proofs.Board.Transpose
import GridFill.Proofs.Rules.Symmetry
