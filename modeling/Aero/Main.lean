import Aero.Command.Session

/-!
The command line program. Inline blocks of C and C++ are refused, for no compiler is run.
-/

namespace Aero.Command

def usage : String :=
  "Usage: aero [-v]... <COMMAND>\n\n" ++ "Commands:\n" ++
    "  build <INPUTS>... [-o <DIR>] [--config <FILE>] [--opt-level <LEVEL>]\n" ++
    "  check <INPUT> [--config <FILE>]\n" ++
    "  hash <INPUT> [--full] [--config <FILE>]"

def reasonOf (e : IO.Error) : String :=
  match e with
  | .noFileOrDirectory .. => FileError.missing.message
  | .alreadyExists .. => FileError.exists.message
  | e => toString e

def outcome {α : Type} (act : IO α) : IO (Except String α) := do
  try
    return .ok (← act)
  catch e => return .error (reasonOf e)

def systemHost (environment : String → Option String) : Host IO where
  read path := outcome (IO.FS.readFile path.text)
  has path := do
    match ← outcome (IO.FS.readBinFile path.text) with
    | .ok _ => return true
    | .error reason => return reason ≠ FileError.missing.message
  makeDirectories path := outcome (IO.FS.createDirAll path.text)
  write path text := outcome (IO.FS.writeFile path.text text)
  environment := environment
  compiler := fun _ _ _ => .notStarted FileError.missing.message
  print := IO.println
  tell := IO.eprintln

end Aero.Command

open Aero.Command in
def main (args : List String) : IO UInt32 := do
  match parse? args with
  | none => do
      IO.eprintln usage
      return 2
  | some (.error .help) => do
      IO.println usage
      return 0
  | some (.error .version) => do
      IO.println version
      return 0
  | some (.ok call) => do
      let cc ← IO.getEnv "AERO_CC"
      let cxx ← IO.getEnv "AERO_CXX"
      let environment := ([("AERO_CC", cc), ("AERO_CXX", cxx)].lookup · |>.join)
      return (← run (systemHost environment) call).toUInt32
