/-! The kinds of token: reserved words, operators and brackets, and the classes whose text varies. -/

namespace Covenant

inductive Keyword where
  | contract | def_ | struct | if_ | else_ | while_ | for_ | return_ | break_ | continue_
  | payable | view | pure | onlyOwner | memory | storage | true_ | false_
deriving DecidableEq

namespace Keyword

def all : List Keyword :=
  [contract, def_, struct, if_, else_, while_, for_, return_, break_, continue_,
    payable, view, pure, onlyOwner, memory, storage, true_, false_]

def spelling : Keyword → String
  | contract => "contract"
  | def_ => "def"
  | struct => "struct"
  | if_ => "if"
  | else_ => "else"
  | while_ => "while"
  | for_ => "for"
  | return_ => "return"
  | break_ => "break"
  | continue_ => "continue"
  | payable => "payable"
  | view => "view"
  | pure => "pure"
  | onlyOwner => "onlyOwner"
  | memory => "memory"
  | storage => "storage"
  | true_ => "true"
  | false_ => "false"

def name : Keyword → String
  | contract => "Contract"
  | def_ => "Def"
  | struct => "Struct"
  | if_ => "If"
  | else_ => "Else"
  | while_ => "While"
  | for_ => "For"
  | return_ => "Return"
  | break_ => "Break"
  | continue_ => "Continue"
  | payable => "Payable"
  | view => "View"
  | pure => "Pure"
  | onlyOwner => "OnlyOwner"
  | memory => "Memory"
  | storage => "Storage"
  | true_ => "True"
  | false_ => "False"

end Keyword

inductive Symbol where
  | lbrace | rbrace | lbracket | rbracket | lparen | rparen
  | colon | semicolon | comma | dot | arrow | fatArrow | assign
  | plus | minus | star | slash | percent | caret | amp | pipe | tilde | bang | question
  | less | greater | lessEq | greaterEq | eqEq | notEq | andAnd | orOr
deriving DecidableEq

namespace Symbol

def spelling : Symbol → String
  | lbrace => "\x7b"
  | rbrace => "\x7d"
  | lbracket => "["
  | rbracket => "]"
  | lparen => "("
  | rparen => ")"
  | colon => ":"
  | semicolon => ";"
  | comma => ","
  | dot => "."
  | arrow => "->"
  | fatArrow => "=>"
  | assign => "="
  | plus => "+"
  | minus => "-"
  | star => "*"
  | slash => "/"
  | percent => "%"
  | caret => "^"
  | amp => "&"
  | pipe => "|"
  | tilde => "~"
  | bang => "!"
  | question => "?"
  | less => "<"
  | greater => ">"
  | lessEq => "<="
  | greaterEq => ">="
  | eqEq => "=="
  | notEq => "!="
  | andAnd => "&&"
  | orOr => "||"

def name : Symbol → String
  | lbrace => "LBrace"
  | rbrace => "RBrace"
  | lbracket => "LBracket"
  | rbracket => "RBracket"
  | lparen => "LParen"
  | rparen => "RParen"
  | colon => "Colon"
  | semicolon => "Semicolon"
  | comma => "Comma"
  | dot => "Dot"
  | arrow => "Arrow"
  | fatArrow => "FatArrow"
  | assign => "Assign"
  | plus => "Plus"
  | minus => "Minus"
  | star => "Star"
  | slash => "Slash"
  | percent => "Percent"
  | caret => "Caret"
  | amp => "Amp"
  | pipe => "Pipe"
  | tilde => "Tilde"
  | bang => "Bang"
  | question => "Question"
  | less => "Less"
  | greater => "Greater"
  | lessEq => "LessEq"
  | greaterEq => "GreaterEq"
  | eqEq => "EqEq"
  | notEq => "NotEq"
  | andAnd => "AndAnd"
  | orOr => "OrOr"

/-- The symbol of one character. -/
def ofChar? : Char → Option Symbol
  | '{' => some lbrace
  | '}' => some rbrace
  | '[' => some lbracket
  | ']' => some rbracket
  | '(' => some lparen
  | ')' => some rparen
  | ':' => some colon
  | ';' => some semicolon
  | ',' => some comma
  | '.' => some dot
  | '=' => some assign
  | '+' => some plus
  | '-' => some minus
  | '*' => some star
  | '/' => some slash
  | '%' => some percent
  | '^' => some caret
  | '&' => some amp
  | '|' => some pipe
  | '~' => some tilde
  | '!' => some bang
  | '?' => some question
  | '<' => some less
  | '>' => some greater
  | _ => none

/-- The symbols of two characters. -/
def pairs : List Symbol :=
  [arrow, fatArrow, eqEq, notEq, lessEq, greaterEq, andAnd, orOr]

def ofPair? : Char → Char → Option Symbol
  | '-', '>' => some arrow
  | '=', '>' => some fatArrow
  | '=', '=' => some eqEq
  | '!', '=' => some notEq
  | '<', '=' => some lessEq
  | '>', '=' => some greaterEq
  | '&', '&' => some andAnd
  | '|', '|' => some orOr
  | _, _ => none

end Symbol

namespace Token

inductive Kind where
  | keyword (word : Keyword)
  | symbol (sign : Symbol)
  | identifier
  | number
  /-- A string literal, with whether it uses an escape. -/
  | string (escaped : Bool)
  | eof
deriving DecidableEq

namespace Kind

/-- The spelling shared by all tokens of the kind, if there is one. -/
def lexeme? : Kind → Option String
  | keyword word => some word.spelling
  | symbol sign => some sign.spelling
  | _ => none

/-- The kind as error messages show it. -/
def describe : Kind → String
  | keyword word => s!"'{word.spelling}'"
  | symbol sign => s!"'{sign.spelling}'"
  | identifier => "identifier"
  | number => "number literal"
  | string _ => "string literal"
  | eof => "end of input"

/-- The kind as token listings show it. -/
def name : Kind → String
  | keyword word => word.name
  | symbol sign => sign.name
  | identifier => "Identifier"
  | number => "Number"
  | string false => "String"
  | string true => "EscapedString"
  | eof => "Eof"

/-- The words that are not identifiers. The braces may also be spelled out. -/
def reserved : List (String × Kind) :=
  Keyword.all.map (fun word => (word.spelling, keyword word)) ++
    [("begin", symbol .lbrace), ("end", symbol .rbrace)]

def ofWord (word : String) : Kind :=
  (reserved.lookup word).getD identifier

end Kind

end Token

end Covenant
