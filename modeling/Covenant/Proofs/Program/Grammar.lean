import Covenant.Program.Printer
import Covenant.Proofs.Expr.Grammar

/-! The grammar of types, statements and declarations: which tokens derive which tree. Nothing here
looks at how they are read. -/

namespace Covenant

/-! Tokens that are names, and names that are reserved in one place only. -/

def Token.ident (token : Token) : Ident :=
  ⟨token.text, token.pos⟩

structure Token.IsWord (word : String) (token : Token) : Prop where
  kind : token.kind = .identifier
  text : token.text = word

/-! Phrases of one sort after another. -/

inductive Repeated {α : Type} (Item : List Token → α → Prop) : List Token → List α → Prop where
  | nil : Repeated Item [] []
  | cons {first rest : List Token} {value : α} {values : List α} :
      Item first value → Repeated Item rest values →
        Repeated Item (first ++ rest) (value :: values)

/-- With commas between them, and perhaps one after the last. -/
inductive Separated {α : Type} (Item : List Token → α → Prop) : List Token → List α → Prop where
  | nil : Separated Item [] []
  | last {tokens : List Token} {value : α} : Item tokens value → Separated Item tokens [value]
  | cons {first rest : List Token} {comma : Token} {value : α} {values : List α} :
      Item first value → comma.kind = .symbol .comma → Separated Item rest values →
        Separated Item (first ++ comma :: rest) (value :: values)

/-! Types. -/

namespace TypeName

/-- A name with any number of empty brackets after it. -/
inductive Arrays : List Token → TypeName → Prop where
  | name {name : Token} :
      name.kind = .identifier → name.text ≠ "mapping" → Arrays [name] (.named name.text)
  | brackets {tokens : List Token} {opening closing : Token} {element : TypeName} :
      Arrays tokens element → opening.kind = .symbol .lbracket →
      closing.kind = .symbol .rbracket → Arrays (tokens ++ [opening, closing]) (.array element)

inductive Derives : List Token → TypeName → Prop where
  | arrays {tokens : List Token} {type : TypeName} : Arrays tokens type → Derives tokens type
  | mapping {word opening key arrow closing : Token} {tokens : List Token} {value : TypeName} :
      word.IsWord "mapping" → opening.kind = .symbol .lparen → key.kind = .identifier →
      arrow.kind = .symbol .arrow → Derives tokens value → closing.kind = .symbol .rparen →
        Derives (word :: opening :: key :: arrow :: (tokens ++ [closing]))
          (.mapping key.text value)

end TypeName

/-! Statements. -/

namespace Stmt

/-- The statements that end with an expression or a word. -/
inductive Simple : List Token → Stmt → Prop where
  | break_ {word : Token} : word.kind = .keyword .break_ → Simple [word] (.break_ word.pos)
  | continue_ {word : Token} :
      word.kind = .keyword .continue_ → Simple [word] (.continue_ word.pos)
  | return_ {word : Token} :
      word.kind = .keyword .return_ → Simple [word] (.return_ word.pos none)
  | returnValue {word : Token} {tokens : List Token} {value : Expr} :
      word.kind = .keyword .return_ → Expr.Derives .expr tokens value →
        Simple (word :: tokens) (.return_ word.pos (some value))
  | expr {first : Token} {rest : List Token} {value : Expr} :
      Expr.Derives .expr (first :: rest) value → Simple (first :: rest) (.expr first.pos value)
  | assign {first sign : Token} {rest tokens : List Token} {target value : Expr} :
      Expr.Derives .expr (first :: rest) target → sign.kind = .symbol .assign →
      Expr.Derives .expr tokens value →
        Simple (first :: rest ++ sign :: tokens) (.assign first.pos ⟨target, value⟩)

/-- A semicolon that may be left out. -/
inductive Ending : List Token → Prop where
  | none : Ending []
  | semicolon {token : Token} : token.kind = .symbol .semicolon → Ending [token]

/-- What a loop adds to its counter, which is one unless it is given. -/
inductive Step (counter : Token) : List Token → Expr → Prop where
  | one : Step counter [] (.literal counter.pos (.number "1"))
  | given {word : Token} {tokens : List Token} {value : Expr} :
      word.IsWord "step" → Expr.Derives .expr tokens value → Step counter (word :: tokens) value

inductive Phrase where
  | block
  | body
  | stmt
  /-- A statement that starts with `if`. -/
  | branch

/-- All phrases derive lists of statements; a statement derives a list of one. -/
inductive Derives : Phrase → List Token → List Stmt → Prop where
  | block {opening closing : Token} {tokens : List Token} {body : List Stmt} :
      opening.kind = .symbol .lbrace → Derives .body tokens body →
      closing.kind = .symbol .rbrace → Derives .block (opening :: (tokens ++ [closing])) body
  | nil : Derives .body [] []
  | cons {first rest : List Token} {stmt : Stmt} {body : List Stmt} :
      Derives .stmt first [stmt] → Derives .body rest body →
        Derives .body (first ++ rest) (stmt :: body)
  | simple {tokens ending : List Token} {stmt : Stmt} :
      Simple tokens stmt → Ending ending → Derives .stmt (tokens ++ ending) [stmt]
  | while_ {word : Token} {condition block ending : List Token} {test : Expr} {body : List Stmt} :
      word.kind = .keyword .while_ → Expr.Derives .expr condition test →
      Derives .block block body → Ending ending →
        Derives .stmt (word :: (condition ++ (block ++ ending))) [.while_ word.pos test body]
  | for_ {word counter sign bound : Token} {initial final step block : List Token}
      {start stop increment : Expr} {body : List Stmt} :
      word.kind = .keyword .for_ → counter.kind = .identifier → sign.kind = .symbol .assign →
      Expr.Derives .expr initial start → bound.IsWord "to" → Expr.Derives .expr final stop →
      Step counter step increment → Derives .block block body →
        Derives .stmt (word :: counter :: sign :: (initial ++ bound :: (final ++ (step ++ block))))
          [.for_ word.pos counter.ident start stop (countBy counter.ident increment) body]
  | branch {tokens : List Token} {stmt : Stmt} :
      Derives .branch tokens [stmt] → Derives .stmt tokens [stmt]
  | if_ {word : Token} {condition block : List Token} {test : Expr} {yes : List Stmt} :
      word.kind = .keyword .if_ → Expr.Derives .expr condition test → Derives .block block yes →
        Derives .branch (word :: (condition ++ block)) [.if_ word.pos test yes none]
  | ifElse {word other : Token} {condition block otherwise : List Token} {test : Expr}
      {yes no : List Stmt} {phrase : Phrase} :
      word.kind = .keyword .if_ → Expr.Derives .expr condition test → Derives .block block yes →
      other.kind = .keyword .else_ → phrase = .block ∨ phrase = .branch →
      Derives phrase otherwise no →
        Derives .branch (word :: (condition ++ (block ++ other :: otherwise)))
          [.if_ word.pos test yes (some no)]

end Stmt

/-! Declarations. -/

inductive TypedName : List Token → Ident → TypeName → Prop where
  | mk {name colon : Token} {tokens : List Token} {type : TypeName} :
      name.kind = .identifier → colon.kind = .symbol .colon → TypeName.Derives tokens type →
        TypedName (name :: colon :: tokens) name.ident type

inductive StorageLocation.Derives : List Token → Option StorageLocation → Prop where
  | none : Derives [] none
  | some {word : Token} {location : StorageLocation} :
      word.kind = .keyword location.keyword → Derives [word] (some location)

inductive StateVar.Derives : List Token → StateVar → Prop where
  | mk {typed place : List Token} {semicolon : Token} {name : Ident} {type : TypeName}
      {location : Option StorageLocation} :
      TypedName typed name type → StorageLocation.Derives place location →
      semicolon.kind = .symbol .semicolon →
        Derives (typed ++ (place ++ [semicolon])) ⟨name, type, location⟩

inductive Field.Derives : List Token → Field → Prop where
  | mk {typed : List Token} {semicolon : Token} {name : Ident} {type : TypeName} :
      TypedName typed name type → semicolon.kind = .symbol .semicolon →
        Derives (typed ++ [semicolon]) ⟨name, type⟩

inductive Struct.Derives : List Token → Struct → Prop where
  | mk {word name opening closing : Token} {tokens : List Token} {fields : List Field} :
      word.kind = .keyword .struct → name.kind = .identifier → opening.kind = .symbol .lbrace →
      Repeated Field.Derives tokens fields → closing.kind = .symbol .rbrace →
        Derives (word :: name :: opening :: (tokens ++ [closing])) ⟨name.ident, fields⟩

inductive Parameter.Derives : List Token → Parameter → Prop where
  | required {typed : List Token} {name : Ident} {type : TypeName} :
      TypedName typed name type → Derives typed ⟨name, type, none⟩
  | optional {typed tokens : List Token} {sign : Token} {name : Ident} {type : TypeName}
      {value : Expr} :
      TypedName typed name type → sign.kind = .symbol .assign → Expr.Derives .expr tokens value →
        Derives (typed ++ sign :: tokens) ⟨name, type, some value⟩

/-- No modifier is given twice. -/
inductive Modifiers.Derives : List Token → Modifiers → Prop where
  | none : Derives [] .none
  | add {tokens : List Token} {word : Token} {modifiers : Modifiers} {modifier : Modifier} :
      Derives tokens modifiers → word.kind = .keyword modifier.keyword →
      modifiers.has modifier = false → Derives (tokens ++ [word]) (modifiers.add modifier)

inductive ReturnType.Name : List Token → String → Prop where
  | mk {name : Token} : name.kind = .identifier → Name [name] name.text

inductive ReturnType.Derives : List Token → Option ReturnType → Prop where
  | none : Derives [] none
  | single {arrow name : Token} :
      arrow.kind = .symbol .arrow → name.kind = .identifier →
        Derives [arrow, name] (some (.single name.text))
  | tuple {arrow opening closing : Token} {tokens : List Token} {names : List String} :
      arrow.kind = .symbol .arrow → opening.kind = .symbol .lparen → Separated Name tokens names →
      closing.kind = .symbol .rparen →
        Derives (arrow :: opening :: (tokens ++ [closing])) (some (.tuple names))

inductive Function.Derives : List Token → Function → Prop where
  | mk {word name opening closing : Token} {inner words result block : List Token}
      {parameters : List Parameter} {modifiers : Modifiers} {returns : Option ReturnType}
      {body : List Stmt} :
      word.kind = .keyword .def_ → name.kind = .identifier → opening.kind = .symbol .lparen →
      Separated Parameter.Derives inner parameters → closing.kind = .symbol .rparen →
      Modifiers.Derives words modifiers → ReturnType.Derives result returns →
      Stmt.Derives .block block body →
        Derives (word :: name :: opening :: (inner ++ closing :: (words ++ (result ++ block))))
          ⟨name.ident, parameters, returns, modifiers, body⟩

/-- Members of all sorts, taken apart into the state variables, the functions and the structures. -/
inductive Members :
    List Token → List StateVar → List Function → List Struct → Prop where
  | nil : Members [] [] [] []
  | stateVar {first rest : List Token} {var : StateVar} {vars : List StateVar}
      {functions : List Function} {structs : List Struct} :
      StateVar.Derives first var → Members rest vars functions structs →
        Members (first ++ rest) (var :: vars) functions structs
  | function {first rest : List Token} {function : Function} {vars : List StateVar}
      {functions : List Function} {structs : List Struct} :
      Function.Derives first function → Members rest vars functions structs →
        Members (first ++ rest) vars (function :: functions) structs
  | struct {first rest : List Token} {struct : Struct} {vars : List StateVar}
      {functions : List Function} {structs : List Struct} :
      Struct.Derives first struct → Members rest vars functions structs →
        Members (first ++ rest) vars functions (struct :: structs)

inductive Contract.Derives : List Token → Contract → Prop where
  | mk {word name opening closing : Token} {tokens : List Token} {vars : List StateVar}
      {functions : List Function} {structs : List Struct} :
      word.kind = .keyword .contract → name.kind = .identifier → opening.kind = .symbol .lbrace →
      Members tokens vars functions structs → closing.kind = .symbol .rbrace →
        Derives (word :: name :: opening :: (tokens ++ [closing]))
          ⟨name.ident, vars, functions, structs⟩

inductive Program.Derives : List Token → Program → Prop where
  | mk {tokens : List Token} {contracts : List Contract} :
      Repeated Contract.Derives tokens contracts → contracts ≠ [] → Derives tokens ⟨contracts⟩

end Covenant
