import Covenant.Abi.Signature
import Covenant.Evm.Assembly

/-! The code that a contract keeps on chain: it compares the selector of a call with those of the
functions, in declaration order, and goes on with the stub of the first that agrees. Bodies of
functions are not part of it: a stub refuses value that its function does not take, loads the
arguments, and returns a zero word if the function has a result. -/

namespace Covenant.Evm

namespace Dispatcher

/-! Labels, for a contract with `count` functions. -/

/-- The stub of a function. -/
def entry (index : Nat) : Nat := index

/-- Where a call goes that no function takes. -/
def unmatched (count : Nat) : Nat := count

/-- Where a call without data goes. -/
def noData (count : Nat) : Nat := count + 1

/-- Where a stub goes on that takes no value. -/
def accepted (count index : Nat) : Nat := count + 2 + index

def labels (count : Nat) : Nat := 2 * count + 2

/-! Pieces of code. -/

def refuse : List Instr :=
  [.push 0, .op .dup1, .op .revert]

/-- Sets up memory, singles out calls without data, and leaves the selector of the call on the stack. -/
def head (count : Nat) : List Instr :=
  [.push 0x80, .push 0x40, .op .mstore,
    .op .calldatasize, .op .iszero, .pushLabel (noData count), .op .jumpi,
    .push 0, .op .calldataload, .push 0xE0, .op .shr]

def comparison (selector : Selector) (index : Nat) : List Instr :=
  [.op .dup1, .pushFixed .push4 selector, .op .eq, .pushLabel (entry index), .op .jumpi]

def fallthrough (count : Nat) : List Instr :=
  .jumpDest (unmatched count) :: refuse ++ [.jumpDest (noData count), .op .stop]

/-- Refuses a call that carries value. -/
def valueGuard (count index : Nat) : List Instr :=
  [.op .callvalue, .op .dup1, .op .iszero, .pushLabel (accepted count index), .op .jumpi] ++
    refuse ++ [.jumpDest (accepted count index), .op .pop]

/-- Arguments are words of 32 bytes after the selector. Offsets stop at the greatest word. -/
def argumentOffset (index : Nat) : UInt32 :=
  UInt32.ofNat (min (4 + 32 * index) 0xFFFFFFFF)

def loads (parameters : Nat) : List Instr :=
  (List.range parameters).flatMap fun index =>
    [.push (argumentOffset index), .op .calldataload]

def finish (hasResult : Bool) : List Instr :=
  if hasResult then
    [.push 0, .push 0, .op .mstore, .push 0x20, .push 0, .op .return_]
  else
    [.op .stop]

def stub (count : Nat) (function : Function) (index : Nat) : List Instr :=
  .jumpDest (entry index) ::
    (if function.modifiers.payable then [] else valueGuard count index) ++
    loads function.parameters.length ++ finish function.returns.isSome

/-- The code for functions whose selectors `select` gives. -/
def instrs (select : String → Selector) (functions : List Function) : List Instr :=
  let count := functions.length
  head count ++
    functions.zipIdx.flatMap (fun (function, index) => comparison (select function.signature) index) ++
    fallthrough count ++
    functions.zipIdx.flatMap (fun (function, index) => stub count function index)

def assembly (select : String → Selector) (functions : List Function) : Assembly :=
  ⟨labels functions.length, (instrs select functions).toArray⟩

end Dispatcher

/-- The code of a contract, for selectors that `select` gives. -/
def runtimeCodeWith (select : String → Selector) (contract : Contract) :
    Except CompileError (List UInt8) :=
  (Dispatcher.assembly select contract.callable).assemble

def runtimeCode (contract : Contract) : Except CompileError (List UInt8) :=
  runtimeCodeWith Selector.ofSignature contract

end Covenant.Evm
