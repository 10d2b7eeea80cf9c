import Covenant.Stmt.Basic
import Covenant.TypeName.Basic

/-! Programs: contracts with their state, structures and functions. -/

namespace Covenant

inductive StorageLocation where
  | memory | storage
deriving DecidableEq

def StorageLocation.render : StorageLocation → String
  | memory => "memory"
  | storage => "storage"

structure StateVar where
  name : Ident
  type : TypeName
  location : Option StorageLocation

structure Field where
  name : Ident
  type : TypeName

structure Struct where
  name : Ident
  fields : List Field

structure Parameter where
  name : Ident
  type : TypeName
  default : Option Expr

inductive ReturnType where
  | single (name : String)
  | tuple (names : List String)
deriving DecidableEq

def ReturnType.render : ReturnType → String
  | single name => name
  | tuple names => "(" ++ String.intercalate "," names ++ ")"

inductive Modifier where
  | payable | view | pure | onlyOwner
deriving DecidableEq

namespace Modifier

def keyword : Modifier → Keyword
  | payable => .payable
  | view => .view
  | pure => .pure
  | onlyOwner => .onlyOwner

def ofKeyword? : Keyword → Option Modifier
  | .payable => some payable
  | .view => some view
  | .pure => some pure
  | .onlyOwner => some onlyOwner
  | _ => none

theorem ofKeyword?_eq_some_iff {word : Keyword} {modifier : Modifier} :
    ofKeyword? word = some modifier ↔ word = modifier.keyword := by
  cases modifier <;> cases word <;> decide

end Modifier

/-- Which modifiers a function has. Their order in the source is not kept. -/
structure Modifiers where
  payable : Bool
  view : Bool
  pure : Bool
  onlyOwner : Bool
deriving DecidableEq

namespace Modifiers

def none : Modifiers := ⟨false, false, false, false⟩

def has (modifiers : Modifiers) : Modifier → Bool
  | .payable => modifiers.payable
  | .view => modifiers.view
  | .pure => modifiers.pure
  | .onlyOwner => modifiers.onlyOwner

def add (modifiers : Modifiers) : Modifier → Modifiers
  | .payable => { modifiers with payable := true }
  | .view => { modifiers with view := true }
  | .pure => { modifiers with pure := true }
  | .onlyOwner => { modifiers with onlyOwner := true }

@[simp] theorem has_none (modifier : Modifier) : none.has modifier = false := by
  cases modifier <;> rfl

@[simp] theorem has_add (modifiers : Modifiers) (modifier other : Modifier) :
    (modifiers.add modifier).has other = (decide (other = modifier) || modifiers.has other) := by
  cases modifier <;> cases other <;> rfl

end Modifiers

structure Function where
  name : Ident
  parameters : List Parameter
  returns : Option ReturnType
  modifiers : Modifiers
  body : List Stmt

namespace Function

/-- A function of this name sets the contract up and cannot be called. A tree has no flag of its own
for this: only those are meant whose flag would agree with the name, as in all that the parser
builds. -/
def isConstructor (function : Function) : Bool :=
  function.name.name == "constructor"

end Function

structure Contract where
  name : Ident
  stateVars : List StateVar
  functions : List Function
  structs : List Struct

/-- The functions that can be called, in declaration order. -/
def Contract.callable (contract : Contract) : List Function :=
  contract.functions.filter fun function => !function.isConstructor

structure Program where
  contracts : List Contract

end Covenant
