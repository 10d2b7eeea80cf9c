import Covenant.Expr.Basic
import Covenant.Proofs.Parser.CommaList

/-! The grammar of expressions: which tokens derive which tree. Nothing here looks at how
expressions are read. -/

namespace Covenant

namespace Expr

/-- The sorts of phrase, from the loosest to the tightest. -/
inductive Phrase where
  | expr
  /-- Operators of these levels, the loosest first, and what binds tighter. -/
  | binary (levels : List BinaryOp.Level)
  | unary
  | primary
  /-- A name and the accesses after it. -/
  | chain

/-- A phrase and the expression that it derives. -/
structure Written where
  tokens : List Token
  value : Expr

/-- The value of a property with the two tokens before it. -/
structure WrittenProperty extends Written where
  key : Token
  colon : Token

namespace WrittenProperty

def phrase (property : WrittenProperty) : List Token :=
  property.key :: property.colon :: property.tokens

def pair (property : WrittenProperty) : String × Expr :=
  (property.key.text, property.value)

end WrittenProperty

/-- A leaf has the place of its token. A phrase that starts with an operator or a bracket has the
place of this token, any other the place of its leftmost operand. -/
inductive Derives : Phrase → List Token → Expr → Prop where
  | choice {condition yes no : List Token} {question colon : Token} {test first second : Expr} :
      Derives (.binary BinaryOp.Level.all) condition test →
      question.kind = .symbol .question → Derives .expr yes first →
      colon.kind = .symbol .colon → Derives .expr no second →
        Derives .expr (condition ++ question :: (yes ++ colon :: no))
          (.ternary test.pos test first second)
  | noChoice {tokens : List Token} {value : Expr} :
      Derives (.binary BinaryOp.Level.all) tokens value → Derives .expr tokens value
  | operator {op : BinaryOp} {levels : List BinaryOp.Level} {left right : List Token} {sign : Token}
      {first second : Expr} :
      Derives (.binary (op.level :: levels)) left first → sign.kind = .symbol op.symbol →
      Derives (.binary levels) right second →
        Derives (.binary (op.level :: levels)) (left ++ sign :: right)
          (.binary first.pos op first second)
  | noOperator {level : BinaryOp.Level} {levels : List BinaryOp.Level} {tokens : List Token}
      {value : Expr} :
      Derives (.binary levels) tokens value → Derives (.binary (level :: levels)) tokens value
  | operand {tokens : List Token} {value : Expr} :
      Derives .unary tokens value → Derives (.binary []) tokens value
  | sign {op : UnaryOp} {sign : Token} {tokens : List Token} {value : Expr} :
      sign.kind = .symbol op.symbol → Derives .unary tokens value →
        Derives .unary (sign :: tokens) (.unary sign.pos op value)
  | noSign {tokens : List Token} {value : Expr} :
      Derives .primary tokens value → Derives .unary tokens value
  | number {token : Token} :
      token.kind = .number → Derives .primary [token] (.literal token.pos (.number token.text))
  | string {token : Token} {escaped : Bool} :
      token.kind = .string escaped →
        Derives .primary [token] (.literal token.pos (.string token.stringValue))
  | true_ {token : Token} :
      token.kind = .keyword .true_ → Derives .primary [token] (.literal token.pos (.bool true))
  | false_ {token : Token} :
      token.kind = .keyword .false_ → Derives .primary [token] (.literal token.pos (.bool false))
  | chain {tokens : List Token} {value : Expr} :
      Derives .chain tokens value → Derives .primary tokens value
  | array {opening closing : Token} {elements : List Written} {comma : Bool} {inner : List Token} :
      opening.kind = .symbol .lbracket →
      (∀ element ∈ elements, Derives .expr element.tokens element.value) →
      Joined (elements.map Written.tokens) comma inner → closing.kind = .symbol .rbracket →
        Derives .primary (opening :: (inner ++ [closing]))
          (.array opening.pos (elements.map Written.value))
  | object {opening closing : Token} {properties : List WrittenProperty} {comma : Bool}
      {inner : List Token} :
      opening.kind = .symbol .lbrace →
      (∀ property ∈ properties, property.key.kind = .identifier) →
      (∀ property ∈ properties, property.colon.kind = .symbol .colon) →
      (∀ property ∈ properties, Derives .expr property.tokens property.value) →
      Joined (properties.map WrittenProperty.phrase) comma inner →
      closing.kind = .symbol .rbrace →
        Derives .primary (opening :: (inner ++ [closing]))
          (.object opening.pos (properties.map WrittenProperty.pair))
  | group {opening closing : Token} {tokens : List Token} {value : Expr} :
      opening.kind = .symbol .lparen → Derives .expr tokens value →
      closing.kind = .symbol .rparen → Derives .primary (opening :: (tokens ++ [closing])) value
  | tuple {opening closing : Token} {elements : List Written} {comma : Bool} {inner : List Token} :
      opening.kind = .symbol .lparen →
      (∀ element ∈ elements, Derives .expr element.tokens element.value) →
      Joined (elements.map Written.tokens) comma inner → comma = true ∨ elements = [] →
      closing.kind = .symbol .rparen →
        Derives .primary (opening :: (inner ++ [closing]))
          (.tuple opening.pos (elements.map Written.value))
  | name {token : Token} :
      token.kind = .identifier → Derives .chain [token] (.ident token.pos token.text)
  | member {object : List Token} {dot name : Token} {base : Expr} :
      Derives .chain object base → dot.kind = .symbol .dot → name.kind = .identifier →
        Derives .chain (object ++ [dot, name]) (.member base.pos base name.text)
  | index {object key : List Token} {opening closing : Token} {base value : Expr} :
      Derives .chain object base → opening.kind = .symbol .lbracket → Derives .expr key value →
      closing.kind = .symbol .rbracket →
        Derives .chain (object ++ opening :: (key ++ [closing])) (.index base.pos base value)
  | call {object : List Token} {opening closing : Token} {base : Expr} {arguments : List Written}
      {comma : Bool} {inner : List Token} :
      Derives .chain object base → opening.kind = .symbol .lparen →
      (∀ argument ∈ arguments, Derives .expr argument.tokens argument.value) →
      Joined (arguments.map Written.tokens) comma inner → closing.kind = .symbol .rparen →
        Derives .chain (object ++ opening :: (inner ++ [closing]))
          (.call base.pos base (arguments.map Written.value))

theorem Derives.ne_nil {phrase : Phrase} {tokens : List Token} {value : Expr}
    (derives : Derives phrase tokens value) : tokens ≠ [] := by
  induction derives with
  | noChoice _ nonempty | noOperator _ nonempty | operand _ nonempty | noSign _ nonempty
  | chain _ nonempty => exact nonempty
  | choice | operator | sign | number | string | true_ | false_ | array | object | group | tuple
  | name | member | index | call => simp

end Expr

end Covenant
