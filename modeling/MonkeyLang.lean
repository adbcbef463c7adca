import MonkeyLang.CommandLine.Arguments
import MonkeyLang.CommandLine.Execute
import MonkeyLang.CommandLine.Refusal
import MonkeyLang.CommandLine.Similar
import MonkeyLang.CommandLine.Usage
import MonkeyLang.Eval.Arithmetic
import MonkeyLang.Eval.Basic
import MonkeyLang.Eval.Builtin
import MonkeyLang.Eval.Evaluate
import MonkeyLang.Eval.Node
import MonkeyLang.Eval.Trace
import MonkeyLang.Failure
import MonkeyLang.Layout.Line
import MonkeyLang.Layout.Panel
import MonkeyLang.Layout.Table
import MonkeyLang.Lexer.Cursor
import MonkeyLang.Lexer.Scan
import MonkeyLang.Main
import MonkeyLang.Parser.Basic
import MonkeyLang.Parser.Diagnostic
import MonkeyLang.Parser.Grammar
import MonkeyLang.Parser.Program
import MonkeyLang.Parser.Stream
import MonkeyLang.Parser.Window
import MonkeyLang.Proofs.CommandLine.Agreement
import MonkeyLang.Proofs.Eval.Accord
import MonkeyLang.Proofs.Eval.Account
import MonkeyLang.Proofs.Eval.Arithmetic
import MonkeyLang.Proofs.Eval.Continued
import MonkeyLang.Proofs.Eval.Deeper
import MonkeyLang.Proofs.Eval.Footprint
import MonkeyLang.Proofs.Eval.Frozen
import MonkeyLang.Proofs.Eval.Invariant
import MonkeyLang.Proofs.Eval.Journal
import MonkeyLang.Proofs.Eval.Layers
import MonkeyLang.Proofs.Eval.Link
import MonkeyLang.Proofs.Eval.Maps
import MonkeyLang.Proofs.Eval.Nesting
import MonkeyLang.Proofs.Eval.Observed
import MonkeyLang.Proofs.Eval.Outcome
import MonkeyLang.Proofs.Eval.Proper
import MonkeyLang.Proofs.Eval.ReadBack
import MonkeyLang.Proofs.Eval.Renaming
import MonkeyLang.Proofs.Eval.Reprinted
import MonkeyLang.Proofs.Eval.Safety
import MonkeyLang.Proofs.Eval.Tally
import MonkeyLang.Proofs.Eval.Unison
import MonkeyLang.Proofs.Eval.Unmentioned
import MonkeyLang.Proofs.Eval.Unwinding
import MonkeyLang.Proofs.Eval.Walked
import MonkeyLang.Proofs.Eval.Watched
import MonkeyLang.Proofs.Eval.Wording
import MonkeyLang.Proofs.Inside
import MonkeyLang.Proofs.Lexer.Joined
import MonkeyLang.Proofs.Lexer.Layout
import MonkeyLang.Proofs.Lexer.Lexed
import MonkeyLang.Proofs.Lexer.Lexes
import MonkeyLang.Proofs.Lexer.Places
import MonkeyLang.Proofs.Lexer.Spaced
import MonkeyLang.Proofs.Lexer.Tiling
import MonkeyLang.Proofs.Lexer.Tracking
import MonkeyLang.Proofs.Parser.Blames
import MonkeyLang.Proofs.Parser.BrokenOff
import MonkeyLang.Proofs.Parser.Completeness
import MonkeyLang.Proofs.Parser.Concurring
import MonkeyLang.Proofs.Parser.Conforming
import MonkeyLang.Proofs.Parser.FirstFault
import MonkeyLang.Proofs.Parser.Joined
import MonkeyLang.Proofs.Parser.Layout
import MonkeyLang.Proofs.Parser.Lockstep
import MonkeyLang.Proofs.Parser.Moved
import MonkeyLang.Proofs.Parser.Passing
import MonkeyLang.Proofs.Parser.Reads
import MonkeyLang.Proofs.Parser.ReportLines
import MonkeyLang.Proofs.Parser.Reported
import MonkeyLang.Proofs.Parser.Settled
import MonkeyLang.Proofs.Parser.Shape
import MonkeyLang.Proofs.Parser.Soundness
import MonkeyLang.Proofs.Parser.Viable
import MonkeyLang.Proofs.RoundTrip
import MonkeyLang.Proofs.Syntax.Alike
import MonkeyLang.Proofs.Syntax.Numeral
import MonkeyLang.Proofs.Syntax.Opening
import MonkeyLang.Proofs.Syntax.Regrouped
import MonkeyLang.Proofs.Syntax.Same
import MonkeyLang.Proofs.Syntax.WellMade
import MonkeyLang.Proofs.Syntax.Written
import MonkeyLang.Proofs.Text.Utf8
import MonkeyLang.Proofs.Value.CopyOnWrite
import MonkeyLang.Proofs.Value.Displayed
import MonkeyLang.Proofs.Value.Environments
import MonkeyLang.Proofs.Value.Heap
import MonkeyLang.Proofs.Value.Keyed
import MonkeyLang.Proofs.Value.Matching
import MonkeyLang.Proofs.Value.Parts
import MonkeyLang.Proofs.Value.Scopes
import MonkeyLang.Run
import MonkeyLang.Settings
import MonkeyLang.Syntax.Node
import MonkeyLang.Syntax.Operator
import MonkeyLang.Syntax.Print
import MonkeyLang.Text.Alphabet
import MonkeyLang.Text.Blank
import MonkeyLang.Text.Cased
import MonkeyLang.Text.Decimal
import MonkeyLang.Text.Digit
import MonkeyLang.Text.Escaped
import MonkeyLang.Text.Hex
import MonkeyLang.Text.Letter
import MonkeyLang.Text.Lower
import MonkeyLang.Text.Passable
import MonkeyLang.Text.Printable
import MonkeyLang.Text.Quoted
import MonkeyLang.Text.Ranges
import MonkeyLang.Text.Utf8
import MonkeyLang.Token
import MonkeyLang.Value.Basic
import MonkeyLang.Value.Environment
import MonkeyLang.Value.Heap
import MonkeyLang.Value.Key
import MonkeyLang.Value.Print
