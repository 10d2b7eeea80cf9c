import Covenant.Abi.Entry
import Covenant.Abi.Signature
import Covenant.Command
import Covenant.Compilation
import Covenant.Error
import Covenant.Evm.Assembly
import Covenant.Evm.Deployment
import Covenant.Evm.Disassembly
import Covenant.Evm.Dispatcher
import Covenant.Evm.Machine
import Covenant.Evm.Opcode
import Covenant.Expr.Basic
import Covenant.Expr.Json
import Covenant.Expr.Operator
import Covenant.Expr.Outline
import Covenant.Expr.Parser
import Covenant.Expr.Printer
import Covenant.Expr.Relocate
import Covenant.Ident
import Covenant.Json.Basic
import Covenant.Json.Printer
import Covenant.Keccak
import Covenant.Limits
import Covenant.Main
import Covenant.Outline
import Covenant.Parser.Basic
import Covenant.Program.Basic
import Covenant.Program.Json
import Covenant.Program.Outline
import Covenant.Program.Parser
import Covenant.Program.Printer
import Covenant.Program.Relocate
import Covenant.Rules.Expr
import Covenant.Rules.Program
import Covenant.Rules.Stmt
import Covenant.Source.Position
import Covenant.Source.Span
import Covenant.Stmt.Basic
import Covenant.Stmt.Json
import Covenant.Stmt.Outline
import Covenant.Stmt.Parser
import Covenant.Stmt.Printer
import Covenant.Stmt.Relocate
import Covenant.Text.Blank
import Covenant.Text.Extender
import Covenant.Text.Hex
import Covenant.Text.Printable
import Covenant.Text.Quoted
import Covenant.Text.Range
import Covenant.Token.Basic
import Covenant.Token.Kind
import Covenant.Token.Lexer
import Covenant.Token.Shape
import Covenant.Token.Spelling
import Covenant.Trace
import Covenant.TypeName.Basic
import Covenant.TypeName.Parser
import Covenant.TypeName.Printer
import Covenant.Proofs.Evm.Assembling
import Covenant.Proofs.Evm.Deploying
import Covenant.Proofs.Expr.StringLiterals
import Covenant.Proofs.Token.Comments
import Covenant.Proofs.Token.Lexemes
import Covenant.Proofs.Compilation.Independence
import Covenant.Proofs.Evm.DispatcherImage
import Covenant.Proofs.Evm.Dispatching
import Covenant.Proofs.Expr.Completeness
import Covenant.Proofs.Expr.Parsing
import Covenant.Proofs.Rules.Acceptance
import Covenant.Proofs.Compilation.Layout
import Covenant.Proofs.Parser.Budget
import Covenant.Proofs.Program.Budget
import Covenant.Proofs.Compilation.Depth
import Covenant.Proofs.Program.Grammar
import Covenant.Proofs.Program.Reading
import Covenant.Proofs.Program.Parsing
import Covenant.Proofs.Token.Writing
import Covenant.Proofs.Expr.Printing
import Covenant.Proofs.Stmt.Rereading
import Covenant.Proofs.Program.Rereading
import Covenant.Proofs.Program.Printing
import Covenant.Proofs.Evm.CodeSize
import Covenant.Proofs.Evm.Disassembling
import Covenant.Proofs.Evm.SelectorTable
import Covenant.Proofs.Token.Lines
import Covenant.Proofs.Checked.Compilation
import Covenant.Proofs.Token.Tiling
import Covenant.Proofs.Parser.Nesting
import Covenant.Proofs.Expr.Height
import Covenant.Proofs.Expr.Tower
import Covenant.Proofs.Program.Nesting
import Covenant.Proofs.Program.DepthLimit
import Covenant.Proofs.Program.TypeNesting
import Covenant.Proofs.Source.Order
import Covenant.Proofs.Token.LongestMatch
import Covenant.Proofs.Token.Continuation
import Covenant.Proofs.Parser.Prompt
import Covenant.Proofs.Token.Places
import Covenant.Proofs.Program.Prompt
import Covenant.Proofs.Program.Places
import Covenant.Proofs.Compilation.Places
import Covenant.Proofs.Program.Signatures
import Covenant.Proofs.Evm.StackUse
import Covenant.Proofs.Evm.Reaching
import Covenant.Proofs.Json.Programs
import Covenant.Proofs.Evm.Lossless
import Covenant.Proofs.Outline.Lines
import Covenant.Proofs.Outline.Labels
import Covenant.Proofs.Outline.Trees
import Covenant.Proofs.Outline.Plain
import Covenant.Proofs.Outline.Programs
import Covenant.Proofs.Parser.Moments
import Covenant.Proofs.Program.Moments
import Covenant.Proofs.Program.Recursion
import Covenant.Proofs.Program.Progress
import Covenant.Proofs.Command.Listing
