import GoRepl.Build.Outcome
import GoRepl.Build.Staging
import GoRepl.Build.Toolchain
import GoRepl.CommandLine.Options
import GoRepl.CommandLine.Run
import GoRepl.CommandLine.Setup
import GoRepl.Config.Settings
import GoRepl.Config.ShellWords
import GoRepl.Config.Toml.Document
import GoRepl.Config.Toml.Number
import GoRepl.Config.Toml.Scan
import GoRepl.Config.Toml.Value
import GoRepl.Console.Color
import GoRepl.Console.Command
import GoRepl.Console.Completion
import GoRepl.Console.Deletion
import GoRepl.Console.History
import GoRepl.Console.Input
import GoRepl.Console.Loop
import GoRepl.Diagnostics.Location
import GoRepl.Diagnostics.Noise
import GoRepl.Files.Path
import GoRepl.Files.Tree
import GoRepl.Fragment.Framing
import GoRepl.Fragment.Shape
import GoRepl.Log.Basic
import GoRepl.Log.Entry
import GoRepl.Main
import GoRepl.Program.Layout
import GoRepl.Proofs.Build.Effect
import GoRepl.Proofs.Console.Restoration
import GoRepl.Proofs.Files.Frame
import GoRepl.Proofs.Fragment.Framing
import GoRepl.Proofs.Fragment.Nesting
import GoRepl.Proofs.Log.Contents
import GoRepl.Proofs.Log.Submission
import GoRepl.Proofs.Program.Echo
import GoRepl.Proofs.Program.Indentation
import GoRepl.Proofs.Program.Placement
import GoRepl.Proofs.Session.Atomicity
import GoRepl.Proofs.Session.Echo
import GoRepl.Proofs.Session.KnownGood
import GoRepl.Proofs.Session.Recording
import GoRepl.Proofs.Session.Replay
import GoRepl.Proofs.Session.Run
import GoRepl.Proofs.Session.Step
import GoRepl.Proofs.Session.Transcript
import GoRepl.Proofs.Session.Undo
import GoRepl.Proofs.Syntax.BeforeBlock
import GoRepl.Proofs.Syntax.Control
import GoRepl.Proofs.Syntax.Expression
import GoRepl.Proofs.Syntax.Extension
import GoRepl.Proofs.Syntax.Reader
import GoRepl.Proofs.Syntax.Header
import GoRepl.Proofs.Syntax.NestedPhrases
import GoRepl.Proofs.Syntax.Nesting
import GoRepl.Proofs.Text.Lines
import GoRepl.Proofs.Text.Trim
import GoRepl.Proofs.Token.Boundary
import GoRepl.Proofs.Token.Kinds
import GoRepl.Proofs.Token.LineEnd
import GoRepl.Proofs.Token.Nesting
import GoRepl.Session.Basic
import GoRepl.Session.Dispatch
import GoRepl.Session.Transcript
import GoRepl.Source.Position
import GoRepl.Syntax.Fault
import GoRepl.Syntax.Grammar.Expressions
import GoRepl.Syntax.Grammar.Statements
import GoRepl.Syntax.Grammar.Types
import GoRepl.Syntax.Outline
import GoRepl.Syntax.Parser
import GoRepl.Syntax.Phrase
import GoRepl.Syntax.Reader
import GoRepl.Syntax.Tree
import GoRepl.Text.Blank
import GoRepl.Text.Clusters
import GoRepl.Text.CodePoints
import GoRepl.Text.JoinClass
import GoRepl.Text.Letters
import GoRepl.Text.Lines
import GoRepl.Text.Lossy
import GoRepl.Text.Quoted
import GoRepl.Text.Unprintable
import GoRepl.Token.Basic
import GoRepl.Token.Keyword
import GoRepl.Token.Lexer
import GoRepl.Token.Number
import GoRepl.Token.Piece
import GoRepl.Token.Symbol
import GoRepl.Proofs.Token.Trailing
import GoRepl.Proofs.Token.Trimmed
import GoRepl.Proofs.Token.Words
import GoRepl.Proofs.Fragment.Names
import GoRepl.Proofs.Session.Imports
import GoRepl.Proofs.Syntax.Exchange
import GoRepl.Proofs.Syntax.LastToken
import GoRepl.Proofs.Syntax.ExchangedPhrases
import GoRepl.Proofs.Syntax.PrintCall
import GoRepl.Proofs.Fragment.PrintedValue
import GoRepl.Proofs.Token.Spliced
import GoRepl.Proofs.Source.Position
import GoRepl.Proofs.Token.Joined
import GoRepl.Proofs.Token.Semicolons
import GoRepl.Proofs.Syntax.Formed
import GoRepl.Proofs.Syntax.FormedStatements
import GoRepl.Proofs.Syntax.Grouping
import GoRepl.Proofs.Syntax.WellFormed
import GoRepl.Proofs.Syntax.Spans
import GoRepl.Proofs.Syntax.Words
import GoRepl.Proofs.Syntax.WordsOfPhrases
import GoRepl.Proofs.Fragment.Words
import GoRepl.Proofs.Token.Depths
import GoRepl.Proofs.Syntax.Quiet
import GoRepl.Proofs.Fragment.TopLevel
import GoRepl.Proofs.Fragment.OuterNames
import GoRepl.Proofs.Diagnostics.Location
import GoRepl.Proofs.Diagnostics.Attribution
import GoRepl.Proofs.Session.Diagnosis
import GoRepl.Proofs.Log.Rollback
import GoRepl.Proofs.Fragment.Faults
import GoRepl.Proofs.Log.Names
import GoRepl.Proofs.Files.Names
import GoRepl.Proofs.Files.Removal
import GoRepl.Proofs.Build.Leftovers
import GoRepl.Proofs.Token.NumberGrammar
import GoRepl.Proofs.Token.Truncation
import GoRepl.Proofs.Fragment.LoneExpression
import GoRepl.Proofs.Syntax.Composed
import GoRepl.Proofs.Syntax.Advance
import GoRepl.Proofs.Syntax.Levels
import GoRepl.Proofs.Syntax.Calls
import GoRepl.Proofs.Syntax.Starts
import GoRepl.Proofs.Fragment.ErrorPlaces
import GoRepl.Proofs.Console.Completion
import GoRepl.Proofs.Fragment.NameCalls
import GoRepl.Proofs.Console.Inputs
import GoRepl.Proofs.Token.Longest
import GoRepl.Proofs.Token.Merge
import GoRepl.Proofs.Syntax.Termination
