import Covenant.Compilation

/-! What a compilation can report on its way. Events stop where the compilation does. -/

namespace Covenant.Trace

inductive Severity where
  | debug | trace
deriving DecidableEq

/-- The parts of the compiler that report something. -/
inductive Stage where
  | lexer | parser | rules | selectors | assembler | dispatcher | compiler
deriving DecidableEq

structure Event where
  severity : Severity
  stage : Stage
  message : String
deriving DecidableEq

/-- The events of the items, in order, up to the first item that fails. -/
def untilFailure {α β : Type} (events : α → List Event) (result : α → Except CompileError β) :
    List α → List Event
  | [] => []
  | item :: items =>
      events item ++
        match result item with
        | .error _ => []
        | .ok _ => untilFailure events result items

def assembled (assembly : Evm.Assembly) : Event :=
  ⟨.trace, .assembler,
    s!"assembled {assembly.instrs.size} instructions into {assembly.layout.size} bytes"⟩

def selected (function : Function) : Event :=
  let signature := function.signature
  ⟨.trace, .selectors,
    s!"selector of {signature} is {(Selector.ofSignature signature).render}"⟩

def checkEvents (contract : Contract) : List Event :=
  match contract.check with
  | .error _ => []
  | .ok () => [⟨.debug, .rules, s!"checked contract {contract.name.name}"⟩]

def creationEvents (runtime : List UInt8) : List Event :=
  match Evm.creationCode runtime with
  | .error _ => []
  | .ok _ => [assembled (Evm.Deployment.assembly runtime.length)]

def generateEvents (contract : Contract) : List Event :=
  let functions := contract.callable
  functions.map selected ++
    match Evm.runtimeCode contract with
    | .error _ => []
    | .ok runtime =>
        [assembled (Evm.Dispatcher.assembly Selector.ofSignature functions),
          ⟨.debug, .dispatcher,
            s!"runtime code of {contract.name.name}: {runtime.length} bytes, {functions.length} dispatch entries"⟩] ++
          creationEvents runtime

/-- The events after a program has been read. -/
def ofProgram (program : Program) : List Event :=
  ⟨.debug, .parser, s!"parsed {program.contracts.length} contract(s)"⟩ ::
    untilFailure checkEvents (fun contract => contract.check.mapError .semantic) program.contracts ++
    match program.check with
    | .error _ => []
    | .ok () =>
        untilFailure generateEvents (Contract.generateWith Selector.ofSignature) program.contracts ++
          match program.generate with
          | .error _ => []
          | .ok compiled => [⟨.debug, .compiler, s!"compiled {compiled.length} contract(s)"⟩]

/-- The events of a compilation. -/
def ofSource (limits : Limits) (source : String) : List Event :=
  match Parser.tokens limits source with
  | .error _ => []
  | .ok tokens =>
      ⟨.debug, .lexer, s!"lexed {tokens.length} tokens"⟩ ::
        match Parser.run (Parser.program limits.depth) tokens with
        | .error _ => []
        | .ok program => ofProgram program

end Covenant.Trace
