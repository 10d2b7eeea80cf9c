import Covenant.Stmt.Parser
import Covenant.TypeName.Parser

/-! Reading declarations and whole programs. -/

namespace Covenant.Parser

def storageLocation? : Parser (Option StorageLocation) := do
  if ← take (.keyword .memory) then
    return some .memory
  else if ← take (.keyword .storage) then
    return some .storage
  else
    return none

/-- A name and its type, with a colon between them. -/
def typedName (limit : Nat) : Parser (Ident × TypeName) := do
  let name ← ident
  let _ ← consume (.symbol .colon)
  return (name, ← typeName limit)

def stateVar (limit : Nat) : Parser StateVar := do
  let (name, type) ← typedName limit
  let location ← storageLocation?
  let _ ← consume (.symbol .semicolon)
  return ⟨name, type, location⟩

def field (limit : Nat) : Parser Field := do
  let (name, type) ← typedName limit
  let _ ← consume (.symbol .semicolon)
  return ⟨name, type⟩

def struct (limit : Nat) : Parser Struct := do
  let _ ← consume (.keyword .struct)
  let name ← ident
  let _ ← consume (.symbol .lbrace)
  let fields ← many (.symbol .rbrace) (field limit)
  let _ ← consume (.symbol .rbrace)
  return ⟨name, fields⟩

def parameter (limit : Nat) : Parser Parameter := do
  let (name, type) ← typedName limit
  if ← take (.symbol .assign) then
    return ⟨name, type, some (← expr limit)⟩
  else
    return ⟨name, type, none⟩

def modifier? : Token.Kind → Option Modifier
  | .keyword word => Modifier.ofKeyword? word
  | _ => none

/-- One more modifier, if there is one. -/
def modifierRound (modifiers : Modifiers) : Parser (ForInStep Modifiers) := do
  let token ← peek
  match modifier? token.kind with
  | none => return .done modifiers
  | some modifier =>
      if modifiers.has modifier then
        fail token.pos (.repeatedModifier modifier)
      else
        let _ ← advance
        return .yield (modifiers.add modifier)

/-- Modifiers in any order, each at most once. -/
def modifiers : Parser Modifiers :=
  iterate modifierRound .none

def returnType? : Parser (Option ReturnType) := do
  if ← take (.symbol .arrow) then
    if ← take (.symbol .lparen) then
      let (names, _) ← closedList .rparen ident
      return some (.tuple (names.map (·.name)))
    else
      return some (.single (← ident).name)
  else
    return none

def function (limit : Nat) : Parser Function := do
  let _ ← consume (.keyword .def_)
  let name ← ident
  let _ ← consume (.symbol .lparen)
  let (parameters, _) ← closedList .rparen (parameter limit)
  let modifiers ← modifiers
  let returns ← returnType?
  let body ← block limit
  return ⟨name, parameters, returns, modifiers, body⟩

/-- What a contract can declare. -/
inductive Member where
  | stateVar (value : StateVar)
  | function (value : Function)
  | struct (value : Struct)

namespace Member

def stateVar? : Member → Option StateVar
  | stateVar value => some value
  | _ => none

def function? : Member → Option Function
  | function value => some value
  | _ => none

def struct? : Member → Option Struct
  | struct value => some value
  | _ => none

end Member

def member (limit : Nat) : Parser Member := do
  match (← peek).kind with
  | .keyword .def_ => return .function (← function limit)
  | .keyword .struct => return .struct (← struct limit)
  | _ => return .stateVar (← stateVar limit)

/-- A contract. Its members are kept apart by sort, each sort in source order. -/
def contract (limit : Nat) : Parser Contract := do
  let _ ← consume (.keyword .contract)
  let name ← ident
  let _ ← consume (.symbol .lbrace)
  let members ← many (.symbol .rbrace) (member limit)
  let _ ← consume (.symbol .rbrace)
  return ⟨name, members.filterMap Member.stateVar?, members.filterMap Member.function?,
    members.filterMap Member.struct?⟩

def program (limit : Nat) : Parser Program := do
  let contracts ← many .eof (contract limit)
  let token ← consume .eof
  if contracts.isEmpty then
    fail token.pos .emptyProgram
  else
    return ⟨contracts⟩

end Covenant.Parser

/-- Reads a source as a program. -/
def Covenant.Program.parse (limits : Covenant.Limits) (source : String) :
    Except Covenant.CompileError Covenant.Program :=
  Covenant.Parser.runSource limits (Covenant.Parser.program limits.depth) source
