import Aero.Config
import Aero.Inline
import Aero.Lowering.Builtin

/-!
The state of lowering. A `Lower` action emits code and may fail with a diagnostic; what it has
emitted until then stays, so that a failed function can be dropped and the next one be tried.
-/

namespace Aero.Lowering

open IR

structure ParamSig where
  name : String
  /-- The type of the value; objects are passed by address. -/
  ty : Ty
  array : Option ArrayShape := none
deriving DecidableEq

/-- The parameters in the lowered function: the value, and a length for each dimension of an
array. -/
def ParamSig.params (p : ParamSig) : List Param :=
  let value : Param := ⟨p.name, if p.ty.isStruct then .ptr else p.ty⟩
  match p.array.map ArrayShape.rank with
  | none => [value]
  | some 1 => [value, ⟨p.name ++ ".len", .i32⟩]
  | some _ => [value, ⟨p.name ++ ".rows", .i32⟩, ⟨p.name ++ ".cols", .i32⟩]

structure FnSig where
  symbol : String
  params : List ParamSig
  ret : Ty
deriving DecidableEq

/-- What lowering is given and never changes. -/
structure Env where
  config : Config := {}
  builtins : BuiltinTable := .standard
  compiler : Inline.Compiler

/-- What lowering has found and made so far. -/
structure State where
  builder : Builder
  scopes : Scopes := {}
  functions : List (String × FnSig) := []
  /-- The methods by their symbols; the object is the first parameter. -/
  methods : List (String × FnSig) := []
  /-- The exits of the loops around the current statement, innermost first. -/
  loopExits : List BlockId := []
  returnTy : Ty := .void
  symbols : Nat := 0
  /-- The buffers that the program has asked for by itself, with the function that does. Lowering never reads
  them: they are kept to tell these buffers from the others in proofs. -/
  requested : List (Option Nat × Value) := []
  diagnostics : List Diagnostic := []

/-- A computation that emits code and may fail. -/
abbrev Lower := ReaderT Env (EStateM Diagnostic State)

instance : MonadLift Build Lower where
  monadLift act := fun _ s =>
    let (a, b) := act s.builder
    .ok a { s with builder := b }

def state : Lower State := fun _ s => .ok s s

def update (change : State → State) : Lower Unit := fun _ s => .ok () (change s)

def fail {α : Type} (problem : Problem) (span : Span) : Lower α :=
  throw (problem.diagnostic span)

/-- Runs an action and yields how it ended. -/
def attempt {α : Type} (act : Lower α) : Lower (Except Diagnostic α) := fun env s =>
  match act env s with
  | .ok a s => .ok (.ok a) s
  | .error d s => .ok (.error d) s

/-- Ends as a finished action has ended. -/
def resume {α : Type} : Except Diagnostic α → Lower α
  | .ok a => pure a
  | .error d => throw d

def note (level : LogLevel) (message : String) : Lower Unit :=
  update fun s => { s with builder := s.builder.note level message }

def report (d : Diagnostic) : Lower Unit :=
  update fun s => { s with diagnostics := s.diagnostics ++ [d] }

def warn (problem : Problem) (span : Span) : Lower Unit := do
  let d := problem.diagnostic span .warning
  note .debug d.text
  report d

/-- Runs an action in a scope of its own, which is left however the action ends. -/
def withScope {α : Type} (act : Lower α) : Lower α := do
  update fun s => { s with scopes := s.scopes.push }
  let result ← attempt act
  update fun s => { s with scopes := s.scopes.pop }
  resume result

/-- Runs the body of a loop, whose exit `break` leads to. -/
def withLoopExit {α : Type} (exit : BlockId) (act : Lower α) : Lower α := do
  update fun s => { s with loopExits := exit :: s.loopExits }
  let result ← attempt act
  update fun s => { s with loopExits := s.loopExits.tail }
  resume result

def isTerminated : Lower Bool := return (← state).builder.isTerminated

def freshSymbol (stem : String) : Lower String := do
  update fun s => { s with symbols := s.symbols + 1 }
  return stem ++ "__" ++ toString (← state).symbols

def lookup (name : String) (span : Span) : Lower Slot := do
  match (← state).scopes.resolve? name with
  | some slot => return slot
  | none => fail (.undefinedVariable name) span

/-- The type that a type name without dimensions stands for. -/
def resolveScalar (name : String) (span : Span) : Lower Ty := do
  match scalarType? name with
  | some ty => return ty
  | none =>
      match (← state).builder.custom? name with
      | some custom => return custom.ty
      | none => fail (.unknownType name) span

end Aero.Lowering
