import Covenant.Compilation
import Covenant.Evm.Disassembly
import Covenant.Json.Printer
import Covenant.Program.Json
import Covenant.Program.Outline

/-! The commands of the compiler, as functions from the content of a file to what is printed. -/

namespace Covenant

inductive Command where
  /-- The output for every contract as JSON, and a listing of each code if `listing` is set. -/
  | compile (listing : Bool)
  | tokens
  /-- The program as a text tree or as JSON. -/
  | ast (tree : Bool)

/-- What a command leaves behind. -/
structure Report where
  status : Nat
  stdout : String
  stderr : String
deriving DecidableEq

namespace Report

def success (stdout : String) : Report :=
  ⟨0, stdout, ""⟩

/-- What was printed before the failure stays. -/
def failure (stdout message : String) : Report :=
  ⟨1, stdout, "error: " ++ message ++ "\n"⟩

end Report

namespace Command

/-- Why a command stops on a source that can be read. -/
inductive Failure where
  | compile (error : CompileError)
  /-- The text of a generated code is not one of bytes. -/
  | notHex
deriving DecidableEq

def Failure.message : Failure → String
  | compile error => error.message
  | notHex => "generated bytecode is not valid hex"

/-- The state is what has been printed so far. -/
abbrev Printing (α : Type) := EStateM Failure String α

def print (text : String) : Printing Unit :=
  modify (· ++ text)

def orStop {α : Type} : Except CompileError α → Printing α
  | .ok value => pure value
  | .error error => throw (.compile error)

def padLeft (width : Nat) (text : String) : String :=
  String.ofList (List.replicate (width - text.length) ' ') ++ text

def padRight (width : Nat) (text : String) : String :=
  text ++ String.ofList (List.replicate (width - text.length) ' ')

/-- A line of the list of tokens: place, kind and text. -/
def tokenLine (token : Token) : String :=
  padLeft 9 token.pos.render ++ " " ++ padRight 14 token.kind.name ++ " " ++ token.text ++ "\n"

/-- Lists a code, which is read back from the text that the output shows of it. -/
def listing (compiled : Compiled) : Printing Unit :=
  match Hex.decode? (Hex.encode compiled.runtime) with
  | none => throw .notHex
  | some code => do
      print s!"\n{compiled.name} (runtime):\n"
      print (Evm.listing code)

/-- Prints what a command says about a source. Listing tokens knows no limits. -/
def output (command : Command) (limits : Limits) (source : String) : Printing Unit :=
  match command with
  | compile withListing => do
      let contracts ← orStop (Covenant.compile limits source)
      print ((Json.array (contracts.map Compiled.toJson)).render ++ "\n")
      if withListing then
        contracts.forM listing
  | tokens => do
      let tokens ← orStop ((Token.lex source).mapError .lex)
      print (String.join (tokens.map tokenLine))
  | ast tree => do
      let program ← orStop (Program.parse limits source)
      print (if tree then Outline.renderAll program.outlines else program.toJson.render ++ "\n")

/-- Runs a command on a file, which may be missing and need not hold text. -/
def run (command : Command) (limits : Limits) (path : String) (content : Option ByteArray) : Report :=
  match content with
  | none => .failure "" s!"{path}: No such file or directory (os error 2)"
  | some bytes =>
      match String.fromUTF8? bytes with
      | none => .failure "" s!"{path}: stream did not contain valid UTF-8"
      | some source =>
          match (command.output limits source).run "" with
          | .ok () stdout => .success stdout
          | .error failure stdout => .failure stdout failure.message

end Command

end Covenant
