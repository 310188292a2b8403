import FrontEnd.Character
import FrontEnd.Character.Digit
import FrontEnd.Character.Printable
import FrontEnd.Diagnostics
import FrontEnd.Dump.Outline
import FrontEnd.Dump.Tree
import FrontEnd.Grammar.Constant
import FrontEnd.Grammar.Expression
import FrontEnd.Grammar.Problem
import FrontEnd.Grammar.Program
import FrontEnd.Grammar.Progress
import FrontEnd.Grammar.Rule
import FrontEnd.Grammar.Rule.Lemmas
import FrontEnd.Grammar.Statement
import FrontEnd.Number
import FrontEnd.Proofs.Code
import FrontEnd.Proofs.Concatenation
import FrontEnd.Proofs.Diagnostics
import FrontEnd.Proofs.Dump
import FrontEnd.Proofs.Dump.Captions
import FrontEnd.Proofs.Dump.Gaps
import FrontEnd.Proofs.Dump.Heading
import FrontEnd.Proofs.Dump.Literal
import FrontEnd.Proofs.Dump.Mending
import FrontEnd.Proofs.Dump.Number
import FrontEnd.Proofs.Dump.Outline
import FrontEnd.Proofs.Dump.Quoted
import FrontEnd.Proofs.Dump.Source
import FrontEnd.Proofs.Dump.Tree
import FrontEnd.Proofs.Equality
import FrontEnd.Proofs.Grammar.Acceptance
import FrontEnd.Proofs.Grammar.Completeness
import FrontEnd.Proofs.Grammar.Derivation
import FrontEnd.Proofs.Grammar.FirstToken
import FrontEnd.Proofs.Grammar.Reading
import FrontEnd.Proofs.Grammar.Runs
import FrontEnd.Proofs.Grammar.Soundness
import FrontEnd.Proofs.Layout
import FrontEnd.Proofs.Lexical.Alone
import FrontEnd.Proofs.Lexical.Boundary
import FrontEnd.Proofs.Lexical.Concatenation
import FrontEnd.Proofs.Lexical.Constant
import FrontEnd.Proofs.Lexical.Horizon
import FrontEnd.Proofs.Lexical.Language
import FrontEnd.Proofs.Lexical.Lexed
import FrontEnd.Proofs.Lexical.Lines
import FrontEnd.Proofs.Lexical.LongestMatch
import FrontEnd.Proofs.Lexical.Spaced
import FrontEnd.Proofs.Lexical.Viability
import FrontEnd.Proofs.Nesting.Depth
import FrontEnd.Proofs.Nesting.Limit
import FrontEnd.Proofs.Nesting.Machine
import FrontEnd.Proofs.Nesting.Opening
import FrontEnd.Proofs.Nesting.Rules
import FrontEnd.Proofs.Nesting.Script
import FrontEnd.Proofs.Nesting.Scripted
import FrontEnd.Proofs.Nesting.Termination
import FrontEnd.Proofs.Precedence
import FrontEnd.Proofs.Prefix.Completion
import FrontEnd.Proofs.Prefix.ErrorPlace
import FrontEnd.Proofs.Prefix.Expression
import FrontEnd.Proofs.Prefix.Lookahead
import FrontEnd.Proofs.Prefix.Program
import FrontEnd.Proofs.Prefix.Statement
import FrontEnd.Proofs.Printing.Constant
import FrontEnd.Proofs.Printing.Digits
import FrontEnd.Proofs.Printing.Printer
import FrontEnd.Proofs.Printing.RoundTrip
import FrontEnd.Proofs.Quotation
import FrontEnd.Proofs.Report.Place
import FrontEnd.Proofs.Report.Position
import FrontEnd.Proofs.Report.Rows
import FrontEnd.Proofs.Report.Snippet
import FrontEnd.Proofs.Session.Cursor
import FrontEnd.Proofs.Session.Delimited
import FrontEnd.Proofs.Session.Depth
import FrontEnd.Proofs.Session.Lexing
import FrontEnd.Proofs.Session.Parsing
import FrontEnd.Proofs.Session.Tiling
import FrontEnd.Proofs.Syntax.Equivalence
import FrontEnd.Proofs.Syntax.Nesting
import FrontEnd.Reading
import FrontEnd.Report
import FrontEnd.Session.Cursor
import FrontEnd.Session.Lexing
import FrontEnd.Session.Parsing
import FrontEnd.Syntax
import FrontEnd.Syntax.Equivalence
import FrontEnd.Token
import FrontEnd.Token.Scan
import FrontEnd.Token.Scan.Lemmas
import FrontEnd.Token.Stream
