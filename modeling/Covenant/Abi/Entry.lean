import Covenant.Json.Basic
import Covenant.Program.Basic

/-! The interface description of a contract: what a caller has to know about each function. -/

namespace Covenant.Abi

inductive EntryKind where
  | function | constructor
deriving DecidableEq

def EntryKind.render : EntryKind → String
  | function => "function"
  | constructor => "constructor"

inductive Mutability where
  | payable | view | pure | nonpayable
deriving DecidableEq

namespace Mutability

def render : Mutability → String
  | payable => "payable"
  | view => "view"
  | pure => "pure"
  | nonpayable => "nonpayable"

/-- `payable` wins over `view`, and `view` over `pure`. -/
def ofModifiers (modifiers : Modifiers) : Mutability :=
  if modifiers.payable then payable
  else if modifiers.view then view
  else if modifiers.pure then pure
  else nonpayable

end Mutability

/-- A value that goes in or comes out. -/
structure Slot where
  name : String
  type : String
deriving DecidableEq

structure Entry where
  /-- Empty for a constructor. -/
  name : String
  kind : EntryKind
  mutability : Mutability
  inputs : List Slot
  outputs : List Slot
deriving DecidableEq

/-- A result is one value without a name, also where it is a tuple. A constructor has none, and of its
modifiers only `payable` counts. -/
def Entry.ofFunction (function : Function) : Entry :=
  let inputs := function.parameters.map fun parameter =>
    ⟨parameter.name.name, parameter.type.render⟩
  if function.isConstructor then
    ⟨"", .constructor, if function.modifiers.payable then .payable else .nonpayable, inputs, []⟩
  else
    ⟨function.name.name, .function, .ofModifiers function.modifiers, inputs,
      function.returns.toList.map fun type => ⟨"", type.render⟩⟩

def ofContract (contract : Contract) : List Entry :=
  contract.functions.map Entry.ofFunction

def Slot.toJson (slot : Slot) : Json :=
  .object [("name", .string slot.name), ("type", .string slot.type)]

def Entry.toJson (entry : Entry) : Json :=
  .object
    [("name", .string entry.name),
      ("type", .string entry.kind.render),
      ("stateMutability", .string entry.mutability.render),
      ("inputs", .array (entry.inputs.map Slot.toJson)),
      ("outputs", .array (entry.outputs.map Slot.toJson))]

end Covenant.Abi
