import Aero.IR.Builder

/-!
Options. Every option has a default, and `Config.problem?` tells what is wrong with a choice.
-/

namespace Aero

structure ModuleOptions where
  /-- Follows the stem of the file name in the name of the module. -/
  suffix : String := ".vexar"
  optLevel : Nat := 0
  /-- Whether the user's `main` is renamed and called from a new `main`. -/
  synthesizeEntry : Bool := true
  userEntry : String := "user_main"
  verify : Bool := true
deriving DecidableEq, Repr

structure RuntimeOptions where
  trackedAllocation : Bool := true
  /-- The exit status when an index is out of bounds. -/
  faultExitCode : Int := 139
  /-- The largest number of elements of a sized array or an array literal. -/
  maxArrayLen : Nat := 1000000
  /-- Whether a function that falls off its end collects garbage first. -/
  scopeCleanup : Bool := true
deriving DecidableEq, Repr

structure InlineOptions where
  cCompiler : String := "clang"
  cxxCompiler : String := "clang++"
deriving DecidableEq, Repr

structure Config where
  module : ModuleOptions := {}
  runtime : RuntimeOptions := {}
  inline : InlineOptions := {}
deriving DecidableEq, Repr

namespace Config

inductive Problem where
  | optLevel (level : Nat)
  | emptySuffix
  | userEntry (name : String)
deriving DecidableEq, Repr

def Problem.diagnostic : Problem → Diagnostic
  | optLevel level =>
      { severity := .error
        message := "invalid opt_level " ++ toString level
        help := some "opt_level must be between 0 and 5" }
  | emptySuffix => { severity := .error, message := "module suffix must not be empty" }
  | userEntry name =>
      { severity := .error, message := "invalid user entry name '" ++ name ++ "'" }

def problem? (c : Config) : Option Problem :=
  if (IR.OptLevel.ofNat? c.module.optLevel).isNone then some (.optLevel c.module.optLevel)
  else if c.module.suffix.isEmpty then some .emptySuffix
  else if c.module.userEntry.isEmpty || c.module.userEntry = "main" then
    some (.userEntry c.module.userEntry)
  else none

/-- The level of optimisation; an unknown one counts as none. -/
def optLevel (c : Config) : IR.OptLevel := (IR.OptLevel.ofNat? c.module.optLevel).getD .o0

def alloc (c : Config) : IR.AllocStrategy :=
  if c.runtime.trackedAllocation then .tracked else .untracked

def compilerFor? (c : Config) (lang : String) : Option String :=
  if lang = "c" then some c.inline.cCompiler
  else if lang = "cxx" || lang = "cpp" || lang = "c++" then some c.inline.cxxCompiler
  else none

/-- The compilers that environment variables name, where they are set and not empty. -/
def withEnvironment (c : Config) (lookup? : String → Option String) : Config :=
  let chosen (name default : String) : String :=
    ((lookup? name).filter (!·.isEmpty)).getD default
  { c with
    inline := {
      cCompiler := chosen "AERO_CC" c.inline.cCompiler
      cxxCompiler := chosen "AERO_CXX" c.inline.cxxCompiler } }

end Config

end Aero
