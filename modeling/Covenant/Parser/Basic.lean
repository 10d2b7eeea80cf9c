import Covenant.Error
import Covenant.Limits
import Covenant.Token.Lexer

/-! The state of a parse and the steps all routines are made of. A routine either succeeds or fails
for good: nothing is tried again after a failure. -/

namespace Covenant

structure Parser.State where
  /-- The tokens not read yet. -/
  rest : List Token
  /-- How many levels are open. -/
  depth : Nat

abbrev Parser (α : Type) := EStateM CompileError Parser.State α

namespace Parser

/-! Reading tokens. The token that ends the input is never passed. -/

def State.next (state : State) : Token :=
  state.rest.headD (.endOfInput .start)

def peek : Parser Token := fun state =>
  .ok state.next state

def advance : Parser Token := fun state =>
  if state.next.kind = .eof then .ok state.next state
  else .ok state.next { state with rest := state.rest.tail }

def fail {α : Type} (pos : Position) (error : ParseError) : Parser α :=
  throw (.parse ⟨pos, error⟩)

/-- Passes the next token if it is of this kind. -/
def take (kind : Token.Kind) : Parser Bool := do
  if (← peek).kind = kind then
    let _ ← advance
    return true
  else
    return false

/-- Passes the next token, which has to be of this kind. -/
def consume (kind : Token.Kind) : Parser Token := do
  let token ← peek
  if token.kind = kind then advance
  else fail token.pos (.unexpected token.kind kind)

def ident : Parser Ident := do
  let token ← consume .identifier
  return ⟨token.text, token.pos⟩

/-- Whether the next token is the identifier `word`, which is reserved in this place only. -/
def isWord (word : String) : Parser Bool := do
  let token ← peek
  return token.kind = .identifier && token.text == word

def takeWord (word : String) : Parser Bool := do
  if ← isWord word then
    let _ ← advance
    return true
  else
    return false

/-- Whether the next token is of the kind `closing`, or the input ends. -/
def atEnd (closing : Token.Kind) : Parser Bool := do
  let token ← peek
  return token.kind = .eof || token.kind = closing

/-! Nesting. No more than `limit` levels are open at a time. -/

def tooDeep {α : Type} (limit : Nat) : Parser α :=
  throw (.resource (.nestingTooDeep limit))

/-- Opens a level. -/
def descend (limit : Nat) : Parser Unit := fun state =>
  if limit ≤ state.depth then tooDeep limit state
  else .ok () { state with depth := state.depth + 1 }

/-- Closes a level. -/
def State.ascend (state : State) : State :=
  { state with depth := state.depth - 1 }

/-- Runs a routine one level deeper. The level is closed again whether or not the routine succeeds. -/
def nested {α : Type} (limit : Nat) (routine : Parser α) : Parser α := fun state =>
  match descend limit state with
  | .error error state => .error error state
  | .ok () state =>
      match routine state with
      | .ok value state => .ok value state.ascend
      | .error error state => .error error state.ascend

/-- Closes all levels that a successful routine has left open. -/
def levelled {α : Type} (routine : Parser α) : Parser α := fun state =>
  match routine state with
  | .ok value after => .ok value { after with depth := state.depth }
  | .error error after => .error error after

/-! Repetition. Every round but the last passes a token, so the tokens left bound the rounds. A loop
that takes more rounds all the same fails with an error of its own. -/

def endless {α : Type} : Parser α :=
  throw (.resource .endless)

/-- One round, and `rounds` unless it was the last. -/
def unrolled {α : Type} (step : α → Parser (ForInStep α)) (rounds : α → Parser α) (value : α) :
    Parser α := do
  match ← step value with
  | .done value => return value
  | .yield value => rounds value

/-- Repeats `step` until it is done. Each round after the first takes a token of `bound`. -/
def repeatWithin {α : Type} (step : α → Parser (ForInStep α)) : List Token → α → Parser α
  | [], value => unrolled step (fun _ => endless) value
  | _ :: bound, value => unrolled step (repeatWithin step bound) value

def iterate {α : Type} (step : α → Parser (ForInStep α)) (value : α) : Parser α := fun state =>
  repeatWithin step state.rest value state

/-- One more item, if `closing` does not come first. The items so far stand latest first. -/
def manyRound {α : Type} (closing : Token.Kind) (item : Parser α) (items : List α) :
    Parser (ForInStep (List α)) := do
  if ← atEnd closing then
    return .done items
  else
    return .yield ((← item) :: items)

/-- Items up to `closing`, which is not passed. -/
def many {α : Type} (closing : Token.Kind) (item : Parser α) : Parser (List α) := do
  let items ← iterate (manyRound closing item) []
  return items.reverse

/-- One more item of a comma list, if `closing` does not come first. The items so far stand latest
first. -/
def commaRound {α : Type} (closing : Token.Kind) (item : Parser α) (list : List α × Bool) :
    Parser (ForInStep (List α × Bool)) := do
  if ← atEnd closing then
    return .done list
  else
    let value ← item
    if ← take (.symbol .comma) then
      return .yield (value :: list.1, true)
    else
      return .done (value :: list.1, list.2)

/-- Items with commas between them, up to `closing`, which is not passed; a comma may also follow the
last item. The flag tells whether there is a comma at all. -/
def commaList {α : Type} (closing : Token.Kind) (item : Parser α) : Parser (List α × Bool) := do
  let (items, comma) ← iterate (commaRound closing item) ([], false)
  return (items.reverse, comma)

/-- A comma list with the symbol that closes it. -/
def closedList {α : Type} (closing : Symbol) (item : Parser α) : Parser (List α × Bool) := do
  let list ← commaList (.symbol closing) item
  let _ ← consume (.symbol closing)
  return list

/-! Whole inputs. -/

def run {α : Type} (routine : Parser α) (tokens : List Token) : Except CompileError α :=
  match routine ⟨tokens, 0⟩ with
  | .ok value _ => .ok value
  | .error error _ => .error error

/-- The tokens of a source within its limits. The length is checked before anything else. -/
def tokens (limits : Limits) (source : String) : Except CompileError (List Token) :=
  if limits.sourceBytes < source.utf8ByteSize then
    throw (.resource (.sourceTooLarge source.utf8ByteSize limits.sourceBytes))
  else
    (Token.lex source).mapError .lex

def runSource {α : Type} (limits : Limits) (routine : Parser α) (source : String) :
    Except CompileError α := do
  run routine (← tokens limits source)

end Parser

end Covenant
