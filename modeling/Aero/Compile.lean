import Aero.File
import Aero.IR.Printer
import Aero.IR.Verifier
import Aero.Lowering.Function
import Aero.Config.Decode
import Aero.Syntax.Decode

/-!
Compilation of a file: its options are checked, it is lowered, and the module is verified.
-/

namespace Aero

structure Compilation where
  module : IR.Module
  warnings : List Diagnostic

inductive CompileError where
  | rejected (diagnostics : List Diagnostic)
  | illFormed (defects : List IR.Defect)

def CompileError.message : CompileError → String
  | rejected diagnostics => Diagnostic.summary diagnostics
  | illFormed defects =>
      "IR verification failed:\n" ++ "\n".intercalate (defects.map fun d => "  " ++ d.message)

/-- The name of the module made of a file: the stem of the file name and a suffix. -/
def moduleName (fileName suffix : String) : String :=
  (Path.ofString fileName).stem?.getD "module" ++ suffix

def File.lowered (file : File) (env : Lowering.Env) : Lowering.Output :=
  Lowering.run env file (moduleName file.name env.config.module.suffix)

def compile (env : Lowering.Env) (file : File) : Except CompileError Compilation × List LogLine :=
  match env.config.problem? with
  | some problem => (.error (.rejected [problem.diagnostic]), [])
  | none =>
      let output := file.lowered env
      let module := output.module
      let log := output.log.toList
      let verified := if env.config.module.verify then module.defects else []
      let notes := if env.config.module.verify then module.unreachableNotes else []
      if Diagnostic.hasErrors output.diagnostics then (.error (.rejected output.diagnostics), log)
      else if !verified.isEmpty then (.error (.illFormed verified), log ++ notes)
      else
        let summary : LogLine :=
          ⟨.debug, "translated " ++ module.name ++ " (" ++ toString module.functions.length ++
            " functions, " ++ toString output.diagnostics.length ++ " warnings)"⟩
        (.ok ⟨module, output.diagnostics⟩, log ++ notes ++ [summary])

inductive Error where
  | unreadable (path : Path) (reason : String)
  | malformedProgram (path : Path)
  | malformedConfig (path : Path)
  | uncompiled (e : CompileError)

def Error.message : Error → String
  | unreadable path reason => "cannot read '" ++ path.text ++ "': " ++ reason
  | malformedProgram path => "malformed AST in '" ++ path.text ++ "'"
  | malformedConfig path => "invalid config '" ++ path.text ++ "'"
  | uncompiled e => e.message

/-- The program in a file, given its text or why it cannot be read. A program without a name is
named after its file. -/
def loadProgram (path : Path) (content : Except String String) : Except Error File := do
  match content with
  | .error reason => throw (.unreadable path reason)
  | .ok text =>
      match File.parse? text with
      | none => throw (.malformedProgram path)
      | some file =>
          return if file.name.isEmpty then { file with name := path.fileName?.getD "" } else file

/-- The options in a file, given its text or why it cannot be read. Environment variables come
before the file. -/
def loadConfig (path : Path) (content : Except String String)
    (environment : String → Option String) : Except Error Config := do
  match content with
  | .error reason => throw (.unreadable path reason)
  | .ok text =>
      match Config.parse? text with
      | none => throw (.malformedConfig path)
      | some config => return config.withEnvironment environment

/-- The compilation of a program, if there is one, and the log of making it. -/
def compileProgram (env : Lowering.Env) (program : Except Error File) : Except Error Compilation × List LogLine :=
  match program with
  | .error e => (.error e, [])
  | .ok file =>
      let (result, log) := compile env file
      (result.mapError .uncompiled, log)

end Aero
