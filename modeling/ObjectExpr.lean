import ObjectExpr.Command
import ObjectExpr.Command.Arguments
import ObjectExpr.Command.Directory
import ObjectExpr.Command.Help
import ObjectExpr.Document
import ObjectExpr.EnvFile
import ObjectExpr.EnvFile.Assignment
import ObjectExpr.EnvFile.Line
import ObjectExpr.Environment
import ObjectExpr.Expression
import ObjectExpr.Expression.Build
import ObjectExpr.Expression.Parser
import ObjectExpr.Indexed
import ObjectExpr.Input
import ObjectExpr.Json
import ObjectExpr.Lexer
import ObjectExpr.Main
import ObjectExpr.Number.Binary64
import ObjectExpr.Number.Decimal
import ObjectExpr.Number.Layout
import ObjectExpr.Number.Shortest
import ObjectExpr.ParseError
import ObjectExpr.Proofs.Concatenation
import ObjectExpr.Proofs.EnvFile.Assignments
import ObjectExpr.Proofs.EnvFile.Loading
import ObjectExpr.Proofs.EnvFile.Run
import ObjectExpr.Proofs.Equality
import ObjectExpr.Proofs.Grammar.Acceptance
import ObjectExpr.Proofs.Grammar.Blame
import ObjectExpr.Proofs.Grammar.Comparison
import ObjectExpr.Proofs.Grammar.Derivation
import ObjectExpr.Proofs.Grammar.Faults
import ObjectExpr.Proofs.Grammar.FieldLists
import ObjectExpr.Proofs.Grammar.Limit
import ObjectExpr.Proofs.Grammar.Reading
import ObjectExpr.Proofs.Grammar.Shorthand
import ObjectExpr.Proofs.Grammar.Spelling
import ObjectExpr.Proofs.Grammar.Words
import ObjectExpr.Proofs.Json.Decoding
import ObjectExpr.Proofs.Json.Documents
import ObjectExpr.Proofs.Json.Spelling
import ObjectExpr.Proofs.Lexer.Calls
import ObjectExpr.Proofs.Lexer.Munch
import ObjectExpr.Proofs.Lexer.Placed
import ObjectExpr.Proofs.Lexer.RawText
import ObjectExpr.Proofs.Lexer.Rejoined
import ObjectExpr.Proofs.Lexer.Seam
import ObjectExpr.Proofs.Lexer.Spaced
import ObjectExpr.Proofs.Lexer.Tiling
import ObjectExpr.Proofs.LineByLine
import ObjectExpr.Proofs.Literals
import ObjectExpr.Proofs.Number.Comparison
import ObjectExpr.Proofs.Number.Numeral
import ObjectExpr.Proofs.Number.Rounding
import ObjectExpr.Proofs.Number.Texts
import ObjectExpr.Proofs.Remainder
import ObjectExpr.Proofs.Repetition
import ObjectExpr.Proofs.Reports
import ObjectExpr.Proofs.RoundTrip
import ObjectExpr.Proofs.Splitting
import ObjectExpr.Proofs.Text.Lines
import ObjectExpr.Proofs.Tree.Equality
import ObjectExpr.Proofs.Tree.Fields
import ObjectExpr.Proofs.Tree.Height
import ObjectExpr.Proofs.Tree.Index
import ObjectExpr.Proofs.Tree.LastWrite
import ObjectExpr.Proofs.Tree.Matching
import ObjectExpr.Proofs.Tree.Nodes
import ObjectExpr.Proofs.Tree.Paths
import ObjectExpr.Proofs.Tree.Regrouping
import ObjectExpr.Proofs.Tree.Reordering
import ObjectExpr.Proofs.Tree.Shape
import ObjectExpr.Proofs.Tree.Spreading
import ObjectExpr.Proofs.Tree.Union
import ObjectExpr.Proofs.Value.Equality
import ObjectExpr.Proofs.Value.Plain
import ObjectExpr.Proofs.Value.Production
import ObjectExpr.Proofs.Variables
import ObjectExpr.Request
import ObjectExpr.Scalar
import ObjectExpr.Text.Alphanumeric
import ObjectExpr.Text.Blank
import ObjectExpr.Text.Combining
import ObjectExpr.Text.Lines
import ObjectExpr.Text.Quoted
import ObjectExpr.Text.Ranges
import ObjectExpr.Text.Unprintable
import ObjectExpr.Text.Utf8
import ObjectExpr.Token
import ObjectExpr.Token.Scan
import ObjectExpr.Tree
import ObjectExpr.Value
import ObjectExpr.Yaml.Block
import ObjectExpr.Yaml.Scalar
