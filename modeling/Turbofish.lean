import Turbofish.Fault
import Turbofish.Keyword
import Turbofish.Marked
import Turbofish.Node
import Turbofish.Output
import Turbofish.Printing.Node
import Turbofish.Printing.Script
import Turbofish.Printing.Tree
import Turbofish.Proofs.AngleList
import Turbofish.Proofs.ArgumentKinds
import Turbofish.Proofs.BoundList
import Turbofish.Proofs.Brackets.Depth
import Turbofish.Proofs.Brackets.Operators
import Turbofish.Proofs.Brackets.Printing
import Turbofish.Proofs.Brackets.Scan
import Turbofish.Proofs.Brackets.Word
import Turbofish.Proofs.CommaList
import Turbofish.Proofs.Conforming
import Turbofish.Proofs.Copy
import Turbofish.Proofs.Induction
import Turbofish.Proofs.Layout.Append
import Turbofish.Proofs.Layout.Cleanup
import Turbofish.Proofs.Layout.Commas
import Turbofish.Proofs.Layout.Kept
import Turbofish.Proofs.Layout.Separated
import Turbofish.Proofs.Layout.Spacing
import Turbofish.Proofs.Lexing.Escapes
import Turbofish.Proofs.Lexing.Legible
import Turbofish.Proofs.Lexing.Lexemes
import Turbofish.Proofs.Lexing.Printing
import Turbofish.Proofs.Lexing.Tokens
import Turbofish.Proofs.Malformed
import Turbofish.Proofs.NormalForm
import Turbofish.Proofs.NormalForm.Printing
import Turbofish.Proofs.Order.Equality
import Turbofish.Proofs.Order.Key
import Turbofish.Proofs.Order.Sorted
import Turbofish.Proofs.Order.Total
import Turbofish.Proofs.Parts
import Turbofish.Proofs.Printed
import Turbofish.Proofs.QualifiedPath
import Turbofish.Proofs.Reading.ArgLists
import Turbofish.Proofs.Reading.Args
import Turbofish.Proofs.Reading.Complete
import Turbofish.Proofs.Reading.Exprs
import Turbofish.Proofs.Reading.Form
import Turbofish.Proofs.Reading.Kinds
import Turbofish.Proofs.Reading.Paths
import Turbofish.Proofs.Reading.Role
import Turbofish.Proofs.Reading.Types
import Turbofish.Proofs.Reading.Unambiguous
import Turbofish.Proofs.Reading.Words
import Turbofish.Proofs.Script.Additive
import Turbofish.Proofs.Script.Calls
import Turbofish.Proofs.Script.Congruent
import Turbofish.Proofs.Script.Failure
import Turbofish.Proofs.Script.Marked
import Turbofish.Proofs.Script.Parts
import Turbofish.Proofs.Script.Placed
import Turbofish.Proofs.Script.Regular
import Turbofish.Proofs.Script.Trees
import Turbofish.Proofs.Sessions.Balanced
import Turbofish.Proofs.Sessions.Flag
import Turbofish.Proofs.Sessions.Setting
import Turbofish.Proofs.Sessions.Stack
import Turbofish.Proofs.Tracing.Entries
import Turbofish.Proofs.Tracing.Fault
import Turbofish.Proofs.Tracing.Nested
import Turbofish.Proofs.Tracing.Run
import Turbofish.Proofs.Tracing.Transparent
import Turbofish.Proofs.Unlocated
import Turbofish.Proofs.Unlocated.Printing
import Turbofish.Proofs.Unlocated.Script
import Turbofish.Span
import Turbofish.Span.Ledger
import Turbofish.Syntax.Clone
import Turbofish.Syntax.Describe
import Turbofish.Syntax.Edit
import Turbofish.Syntax.Lifetime
import Turbofish.Syntax.Order
import Turbofish.Syntax.Tree
import Turbofish.Syntax.Word
import Turbofish.Text
import Turbofish.Text.Escaped
import Turbofish.Token
import Turbofish.Token.Buffer
import Turbofish.Token.Layout
import Turbofish.Trace.Record
import Turbofish.Trace.Run
import Turbofish.Trace.Session
import Turbofish.Trace.State
