import SysY.Build.Cache
import SysY.Build.Compile
import SysY.Build.Entry
import SysY.Build.ProgressView
import SysY.Build.Request
import SysY.Build.Stage
import SysY.Build.Timer
import SysY.Build.Watch
import SysY.Calendar
import SysY.Cli.Command
import SysY.Cli.Flag
import SysY.Cli.Run
import SysY.Cli.Session
import SysY.Const.Eval
import SysY.Const.Layout
import SysY.Const.Value
import SysY.Diag.Bag
import SysY.Diag.Code
import SysY.Diag.Diagnostic
import SysY.Diag.Error
import SysY.Diag.Render
import SysY.Diag.Short
import SysY.Diag.Style
import SysY.Disk
import SysY.Failure
import SysY.Hash.Sha256
import SysY.Koopa.Interned
import SysY.Koopa.Program
import SysY.Koopa.Text
import SysY.Koopa.Ty
import SysY.Koopa.Validate
import SysY.Koopa.Value
import SysY.Lower.Decl
import SysY.Lower.Expr
import SysY.Lower.State
import SysY.Lower.Stmt
import SysY.Lower.Unit
import SysY.Main
import SysY.Manifest
import SysY.Path
import SysY.Release
import SysY.Source.Files
import SysY.Source.Normal
import SysY.Source.Position
import SysY.Source.Span
import SysY.Symbol
import SysY.Symbol.Table
import SysY.Syntax
import SysY.Syntax.Arena
import SysY.Syntax.Arena.Nodes
import SysY.Syntax.Arena.Parser
import SysY.Syntax.Dump
import SysY.Syntax.Parser
import SysY.Syntax.Spans
import SysY.Text.Bytes
import SysY.Text.Canonical
import SysY.Text.Canonical.Table
import SysY.Text.Cells
import SysY.Text.Cells.Table
import SysY.Text.Cluster
import SysY.Text.Cluster.Table
import SysY.Text.CodePoints
import SysY.Text.Json
import SysY.Text.Printable
import SysY.Text.Quoted
import SysY.Text.Words
import SysY.Token
import SysY.Token.Cursor
import SysY.Token.Lexer
import SysY.Token.Literal
import SysY.Token.Scan
import SysY.Toml
import SysY.Toml.Number
import SysY.Toml.Reader
import SysY.Trace.Event
import SysY.Trace.Ring
import SysY.Trace.Tracer
import SysY.Ty
import SysY.Ty.Resolve
import SysY.Version
import SysY.Version.Constraint
import SysY.Proofs.Lower.Output
import SysY.Proofs.Meaning.Constant
import SysY.Proofs.Meaning.Expr
import SysY.Proofs.Build.Storage
import SysY.Proofs.Build.Transparent
import SysY.Proofs.Build.Outputs
import SysY.Proofs.Build.Words
import SysY.Proofs.Lower.Moments
import SysY.Proofs.Lower.Reachable
import SysY.Proofs.Meaning.Folding
import SysY.Proofs.Syntax.Complete
import SysY.Proofs.Syntax.Exact
import SysY.Proofs.Meaning.Calls
import SysY.Proofs.Meaning.Local
import SysY.Proofs.Meaning.Stmt
import SysY.Proofs.Syntax.Lexical
import SysY.Proofs.Syntax.Nodes
import SysY.Proofs.Syntax.Nesting
import SysY.Proofs.Syntax.Reprint
import SysY.Proofs.Lower.DeadCode
import SysY.Proofs.Lower.Sizes
import SysY.Proofs.Syntax.Dump
import SysY.Proofs.Syntax.Arena.WellFounded
import SysY.Proofs.Lower.Immutable
import SysY.Proofs.Lower.Loops
import SysY.Proofs.Lower.Functions
import SysY.Proofs.Meaning.Body
import SysY.Proofs.Meaning.Invoke
import SysY.Proofs.Meaning.Load
import SysY.Proofs.Meaning.Preserved
import SysY.Proofs.Token.Tiling
import SysY.Proofs.Token.Literal
import SysY.Proofs.Token.Lookahead
import SysY.Proofs.Token.Laying
import SysY.Proofs.Const.Layout
import SysY.Proofs.Lower.RowMajor
import SysY.Proofs.Build.Notices
import SysY.Proofs.Koopa.Distinct
import SysY.Proofs.Koopa.Verdict
import SysY.Proofs.Symbol.Stack
import SysY.Proofs.Syntax.Respaced
import SysY.Proofs.Source.Position
import SysY.Proofs.Lower.Previous
import SysY.Proofs.Lower.Library
import SysY.Proofs.Trace.Ring
import SysY.Proofs.Koopa.Interned
import SysY.Proofs.Diag.Short
import SysY.Proofs.Diag.Underline
