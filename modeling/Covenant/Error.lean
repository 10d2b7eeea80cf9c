import Covenant.Expr.Basic
import Covenant.Program.Basic
import Covenant.Text.Quoted
import Covenant.Token.Kind

/-! Why a compilation stops, and the messages that say so. -/

namespace Covenant

inductive LexError where
  | unexpectedChar (c : Char)
  | unterminatedString
  | lineBreakInString
  | invalidEscape (c : Char)
  | secondDecimalPoint
deriving DecidableEq

def LexError.message : LexError → String
  | unexpectedChar c => s!"unexpected character {Text.quotedChar c}"
  | unterminatedString => "unterminated string literal"
  | lineBreakInString => "unterminated string literal (unexpected newline)"
  | invalidEscape c => "invalid escape sequence \\" ++ c.toString
  | secondDecimalPoint => "malformed number literal (second decimal point)"

/-- The parts of the head of a counting loop that can be missing. -/
inductive ForPart where
  | counter | assign | bound
deriving DecidableEq

def ForPart.describe : ForPart → String
  | counter => "a loop variable"
  | assign => "'=' after the loop variable"
  | bound => "'to'"

inductive ParseError where
  | unexpected (actual expected : Token.Kind)
  | notAnExpression (actual : Token.Kind)
  | badElse (actual : Token.Kind)
  | badFor (expected : ForPart) (actual : Token.Kind)
  | repeatedModifier (modifier : Modifier)
  | emptyProgram
deriving DecidableEq

def ParseError.message : ParseError → String
  | unexpected actual expected =>
      s!"expected token {expected.describe}, but got {actual.describe}"
  | notAnExpression actual => s!"unexpected token {actual.describe} in expression"
  | badElse actual => "expected '\x7b' or 'if' after 'else', but got " ++ actual.describe
  | badFor expected actual =>
      s!"malformed for loop: expected {expected.describe}, but got {actual.describe}"
  | repeatedModifier modifier => s!"modifier '{modifier.keyword.spelling}' given more than once"
  | emptyProgram => "expected at least one contract"

inductive SemanticError where
  | duplicateStateVar (name : String)
  | constructorReturns
  | missingOwner (function : String)
  | mutabilityConflict (function : String)
  | unsupportedType (type : TypeName)
  | undefinedVar (name : String)
  | invalidTarget (form : Expr.Form)
  | breakOutsideLoop
  | continueOutsideLoop
  | unexpectedReturnValue (function : String)
  | returnArity (expected actual : Nat)
  | unsupportedStatement (form : Expr.Form)
  | notCallable (form : Expr.Form)
  | emptyTuple
deriving DecidableEq

def SemanticError.message : SemanticError → String
  | duplicateStateVar name => s!"duplicate state variable '{name}'"
  | constructorReturns => "constructor cannot have a return type"
  | missingOwner function =>
      s!"function '{function}' is onlyOwner, but no 'owner: address' variable found"
  | mutabilityConflict function =>
      s!"function '{function}' cannot be payable and view/pure at the same time"
  | unsupportedType type => s!"unknown or unsupported type '{type.render}'"
  | undefinedVar name => s!"undefined variable '{name}'"
  | invalidTarget form => s!"cannot assign to {form.name}"
  | breakOutsideLoop => "'break' used outside of a loop"
  | continueOutsideLoop => "'continue' used outside of a loop"
  | unexpectedReturnValue function =>
      s!"function '{function}' does not expect a return value, but return expression found"
  | returnArity expected actual =>
      s!"return type has {expected} element(s), but {actual} were returned"
  | unsupportedStatement form =>
      s!"unsupported statement: {form.name} (only calls may stand alone)"
  | notCallable form => s!"unsupported expression: {form.name} is not callable"
  | emptyTuple => "tuples must have at least one element"

inductive ResourceError where
  | sourceTooLarge (len limit : Nat)
  | nestingTooDeep (limit : Nat)
  | codeTooLarge (len limit : Nat)
  /-- A loop of the parser goes on where no token is left for one more round. No loop ever does. -/
  | endless
deriving DecidableEq

def ResourceError.message : ResourceError → String
  | sourceTooLarge len limit => s!"source is {len} bytes long, the limit is {limit}"
  | nestingTooDeep limit => s!"nesting is deeper than {limit} levels"
  | codeTooLarge len limit =>
      s!"generated code is {len} bytes long, jump targets are limited to {limit}"
  | endless => "a loop takes more rounds than there are tokens"

/-- The reason a compilation stopped. Nothing is produced besides it. -/
inductive CompileError where
  | lex (error : Located LexError)
  | parse (error : Located ParseError)
  | semantic (error : Located SemanticError)
  | resource (error : ResourceError)
  /-- Code pushes a label that no instruction binds. Code generated for a contract never does. -/
  | unboundLabel (label : Nat)
deriving DecidableEq

def CompileError.message : CompileError → String
  | lex ⟨pos, error⟩ => s!"lex error: {Located.describe ⟨pos, error.message⟩}"
  | parse ⟨pos, error⟩ => s!"parse error: {Located.describe ⟨pos, error.message⟩}"
  | semantic ⟨pos, error⟩ => s!"semantic error: {Located.describe ⟨pos, error.message⟩}"
  | resource error => s!"resource limit exceeded: {error.message}"
  | unboundLabel label => s!"label {label} is not bound"

end Covenant
