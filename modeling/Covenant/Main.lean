import Covenant.Command
import Covenant.Trace

/-! The command line. -/

namespace Covenant

structure Arguments where
  command : Option Command := none
  path : Option String := none
  limits : Limits := {}
  verbose : Bool := false

namespace Arguments

def usage : String :=
  "usage: covenant (compile [--asm] | tokens | ast [--tree]) FILE\n" ++
  "       [--max-source-len N] [--max-depth N] [--verbose]\n"

/-- A limit is written in decimal digits and fits in 64 bits. -/
def number (text : String) : Except String Nat :=
  match text.toNat?.filter fun n => text.all Char.isDigit && n < 0x10000000000000000 with
  | some n => pure n
  | none => throw s!"not a limit: {text}\n"

/-- Reads the arguments that are left, in any order. -/
def parse (arguments : Arguments) : List String → Except String Arguments
  | [] => pure arguments
  | "--max-source-len" :: value :: rest => do
      let limits := { arguments.limits with sourceBytes := ← number value }
      parse { arguments with limits := limits } rest
  | "--max-depth" :: value :: rest => do
      let limits := { arguments.limits with depth := ← number value }
      parse { arguments with limits := limits } rest
  | "--verbose" :: rest | "-v" :: rest => parse { arguments with verbose := true } rest
  | word :: rest =>
      match word, arguments.command, arguments.path with
      | "compile", none, _ => parse { arguments with command := some (.compile false) } rest
      | "tokens", none, _ => parse { arguments with command := some .tokens } rest
      | "ast", none, _ => parse { arguments with command := some (.ast false) } rest
      | "--asm", some (.compile _), _ =>
          parse { arguments with command := some (.compile true) } rest
      | "--tree", some (.ast _), _ => parse { arguments with command := some (.ast true) } rest
      | path, some _, none => parse { arguments with path := some path } rest
      | word, _, _ => throw s!"unexpected argument: {word}\n"

end Arguments

/-- The content of a file, unless it is not there. -/
def readContent (path : String) : IO (Option ByteArray) := do
  try
    return some (← IO.FS.readBinFile path)
  catch
    | .noFileOrDirectory _ _ _ => return none
    | error => throw error

def reportEvents (limits : Limits) (content : Option ByteArray) : IO Unit :=
  match content.bind String.fromUTF8? with
  | none => pure ()
  | some source =>
      (Trace.ofSource limits source).forM fun event =>
        match event.severity with
        | .debug => IO.eprintln event.message
        | .trace => pure ()

end Covenant

open Covenant in
def main (args : List String) : IO UInt32 := do
  match Arguments.parse {} args with
  | .error message =>
      IO.eprint (message ++ Arguments.usage)
      return 2
  | .ok arguments =>
      match arguments.command, arguments.path with
      | some command, some path =>
          let content ← readContent path
          if arguments.verbose then
            reportEvents arguments.limits content
          let report := command.run arguments.limits path content
          IO.print report.stdout
          IO.eprint report.stderr
          return UInt32.ofNat report.status
      | _, _ =>
          IO.eprint Arguments.usage
          return 2
