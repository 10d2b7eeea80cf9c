import Covenant.Abi.Entry
import Covenant.Evm.Deployment
import Covenant.Evm.Dispatcher
import Covenant.Program.Parser
import Covenant.Rules.Program

/-! From a source to the interface descriptions and codes of its contracts. -/

namespace Covenant

structure Compiled where
  name : String
  abi : List Abi.Entry
  creation : List UInt8
  runtime : List UInt8
deriving DecidableEq

/-- Codes are written as hexadecimal text. -/
def Compiled.toJson (compiled : Compiled) : Json :=
  .object
    [("contractName", .string compiled.name),
      ("abi", .array (compiled.abi.map Abi.Entry.toJson)),
      ("creationBytecode", .string (Hex.encode compiled.creation)),
      ("runtimeBytecode", .string (Hex.encode compiled.runtime))]

/-- The output for a contract whose functions have the selectors that `select` gives. -/
def Contract.generateWith (select : String → Selector) (contract : Contract) :
    Except CompileError Compiled := do
  let runtime ← Evm.runtimeCodeWith select contract
  let creation ← Evm.creationCode runtime
  return ⟨contract.name.name, Abi.ofContract contract, creation, runtime⟩

/-- The outputs for all contracts, in declaration order. -/
def Program.generateWith (select : String → Selector) (program : Program) :
    Except CompileError (List Compiled) :=
  program.contracts.mapM (Contract.generateWith select)

def Program.generate (program : Program) : Except CompileError (List Compiled) :=
  program.generateWith Selector.ofSignature

def compile (limits : Limits) (source : String) : Except CompileError (List Compiled) := do
  let program ← Program.parse limits source
  program.check.mapError .semantic
  program.generate

end Covenant
