import Covenant.Evm.Assembly

/-! The code that runs once, to put a contract on chain: it copies the code that stands right after it
to memory and returns it. -/

namespace Covenant.Evm

namespace Deployment

/-- How many bytes precede the code of the contract. -/
def preambleLen : Nat := 14

def preamble (size : UInt32) : List Instr :=
  [.pushFixed .push2 size, .pushFixed .push1 (UInt32.ofNat preambleLen), .push 0, .op .codecopy,
    .pushFixed .push2 size, .push 0, .op .return_]

def assembly (size : Nat) : Assembly :=
  ⟨0, (preamble (UInt32.ofNat size)).toArray⟩

end Deployment

/-- The size of the code of the contract is pushed in two bytes. -/
def creationCode (runtime : List UInt8) : Except CompileError (List UInt8) := do
  if runtime.length ≤ maxJumpTarget then
    let preamble ← (Deployment.assembly runtime.length).assemble
    return preamble ++ runtime
  else
    throw (.resource (.codeTooLarge runtime.length maxJumpTarget))

end Covenant.Evm
