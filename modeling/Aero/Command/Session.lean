import Aero.Command.Arguments
import Aero.Hash
import Aero.Compile

/-!
The commands: `build` writes the modules of programs, `check` only looks for faults, and `hash` shows the identities of
a module and its functions. A session runs them on a tree of files in memory.
-/

namespace Aero.Command

/-- The files, the environment and the output that commands work with. -/
structure Host (m : Type → Type) where
  read : Path → m (Except String String)
  has : Path → m Bool
  makeDirectories : Path → m (Except String Unit)
  write : Path → String → m (Except String Unit)
  environment : String → Option String
  compiler : Inline.Compiler
  /-- Prints a line of the result. -/
  print : String → m Unit
  /-- Prints a line about the work. -/
  tell : String → m Unit

/-- Work that can end early with an exit status. -/
abbrev Work (m : Type → Type) := ExceptT Nat m

variable {m : Type → Type} [Monad m]

def tell (h : Host m) (line : String) : Work m Unit := (h.tell line : m Unit)

def tellLog (h : Host m) (verbosity : Nat) (log : List LogLine) : Work m Unit :=
  (log.filter (·.level.detail ≤ verbosity)).forM fun line => tell h line.text

def abort {α : Type} (h : Host m) (e : Error) : Work m α := do
  tell h ("error: " ++ e.message)
  throw 1

def configPath (input : Path) : Path := (input.parent?.getD (.ofString ".")).join "aero.toml"

/-- The file with options for an input: the given one, or else the one next to it if it is there. -/
def configFor (h : Host m) (config : Option Path) (input : Path) : Work m (Option Path) := do
  match config with
  | some path => return some path
  | none =>
      let candidate := configPath input
      if ← (h.has candidate : m Bool) then return some candidate else return none

def resolveConfig (h : Host m) (verbosity : Nat) (config : Option Path) (input : Path)
    (optLevel : Option Nat) : Work m Config := do
  let config ←
    match ← configFor h config input with
    | none => pure (Config.withEnvironment {} h.environment)
    | some path => do
        match loadConfig path (← (h.read path : m _)) h.environment with
        | .error e => abort h e
        | .ok config => do
            tellLog h verbosity [⟨.debug, "loaded config from " ++ path.text⟩]
            pure config
  match optLevel with
  | some level => return { config with module := { config.module with optLevel := level } }
  | none => return config

def envFor (h : Host m) (config : Config) : Lowering.Env :=
  { config := config, compiler := h.compiler }

def tellDiagnostics (h : Host m) (input : Path) (ds : List Diagnostic) : Work m Unit :=
  ds.forM fun d => tell h (input.text ++ ": " ++ d.text)

def tellResult (h : Host m) (input : Path) (result : Except Error Compilation) : Work m Unit :=
  match result with
  | .ok t => tellDiagnostics h input t.warnings
  | .error (.uncompiled (.rejected ds)) => tellDiagnostics h input ds
  | .error e => tell h (input.text ++ ": error: " ++ e.message)

def compileInput (h : Host m) (verbosity : Nat) (config : Config) (input : Path)
    (program : Except Error File) : Work m (Except Error Compilation) := do
  let (result, log) := compileProgram (envFor h config) program
  tellLog h verbosity log
  tellResult h input result
  return result

/-! ### Building -/

/-- Where the module of an input is written: in a directory, or else next to the input. -/
def outputPath (input : Path) (directory : Option Path) : Path :=
  let name := input.stem?.getD "module" ++ ".ir"
  match directory with
  | some directory => directory.join name
  | none => input.withFileName name

def buildInput (h : Host m) (verbosity : Nat) (output config : Option Path)
    (optLevel : Option Nat) (input : Path) : Work m Bool := do
  let config ← resolveConfig h verbosity config input optLevel
  let program := loadProgram input (← (h.read input : m _))
  match ← compileInput h verbosity config input program with
  | .error _ => return false
  | .ok t =>
      let path := outputPath input output
      match ← (h.write path t.module.text : m _) with
      | .ok () => do
          tell h ("Wrote " ++ path.text)
          return true
      | .error reason => do
          tell h ("error: cannot write '" ++ path.text ++ "': " ++ reason)
          return false

def prepareOutput (h : Host m) (output : Option Path) : Work m Unit := do
  match output with
  | none => pure ()
  | some directory =>
      match ← (h.makeDirectories directory : m _) with
      | .ok () => pure ()
      | .error reason => do
          tell h ("error: cannot create '" ++ directory.text ++ "': " ++ reason)
          throw 1

def build (h : Host m) (verbosity : Nat) (inputs : List Path) (output config : Option Path)
    (optLevel : Option Nat) : Work m Unit := do
  prepareOutput h output
  let built ← inputs.mapM (buildInput h verbosity output config optLevel)
  let failures := built.count false
  if 0 < failures then
    tell h (toString failures ++ " of " ++ toString inputs.length ++ " file(s) failed")
    throw 1

/-! ### Checking and hashing -/

/-- The compilation of the one input of a command, without which the work ends. -/
def compileOnly (h : Host m) (verbosity : Nat) (config : Config) (input : Path) : Work m Compilation := do
  match loadProgram input (← (h.read input : m _)) with
  | .error e => abort h e
  | .ok file =>
      match ← compileInput h verbosity config input (.ok file) with
      | .error _ => throw 1
      | .ok t => return t

/-- Looks for faults in an input. The module is verified in any case. -/
def check (h : Host m) (verbosity : Nat) (input : Path) (config : Option Path) : Work m Unit := do
  let config ← resolveConfig h verbosity config input none
  let config := { config with module := { config.module with verify := true } }
  discard (compileOnly h verbosity config input)
  tell h ("OK: " ++ input.text)

def hash (h : Host m) (verbosity : Nat) (input : Path) (full : Bool) (config : Option Path) : Work m Unit := do
  let config ← resolveConfig h verbosity config input none
  let t ← compileOnly h verbosity config input
  let shown (c : ContentHash) : String := if full then c.hex else c.text
  tell h ("Module: " ++ shown (.ofModule t.module) ++ " " ++ t.module.name)
  (ContentHash.ofFunctions t.module).forM fun (name, c) =>
    (h.print ("  " ++ shown c ++ " " ++ name) : m Unit)

def run (h : Host m) (call : Invocation) : m Nat := do
  let work : Work m Unit :=
    match call.task with
    | .build inputs output config optLevel => build h call.verbosity inputs output config optLevel
    | .check input config => check h call.verbosity input config
    | .hash input full config => hash h call.verbosity input full config
  match ← work.run with
  | .ok () => return 0
  | .error status => return status

structure Session where
  tree : FileTree
  out : List String := []
  told : List String := []

def Session.change (act : FileTree → Except FileError FileTree) : StateM Session (Except String Unit) := fun s =>
  match act s.tree with
  | .ok tree => (.ok (), { s with tree := tree })
  | .error e => (.error e.message, s)

def Session.host (environment : String → Option String) (compiler : Inline.Compiler) : Host (StateM Session) where
  read path := return ((← get).tree.read path).mapError FileError.message
  has path := return (← get).tree.has path
  makeDirectories path := change (·.makeDirectories path)
  write path text := change (·.write path text)
  environment := environment
  compiler := compiler
  print line := modify fun s => { s with out := s.out ++ [line] }
  tell line := modify fun s => { s with told := s.told ++ [line] }

def version : String := "aero 0.1.0"

/-- Carries out a command on a tree of files; yields the exit status and what is left. -/
def Invocation.runOn (call : Invocation) (environment : String → Option String)
    (compiler : Inline.Compiler) (tree : FileTree) : Nat × Session :=
  (run (Session.host environment compiler) call).run { tree := tree }

end Aero.Command
