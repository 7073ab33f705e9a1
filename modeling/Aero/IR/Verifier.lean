import Aero.IR.Module
import Aero.Diagnostic

/-!
Control flow and well-formedness of modules. Every block of a definition ends in a terminator with known targets,
returns have the declared type, calls name declared functions and pass as many arguments as these take, phis name
predecessors, and stores fit the addresses whose type is known.
-/

namespace Aero.IR.Function

def successors (f : Function) (id : BlockId) : List BlockId :=
  (f.blocks.filter (·.id = id)).flatMap Block.successors

def hasEdge (f : Function) (source target : BlockId) : Bool :=
  (f.successors source).contains target

def edgeCount (f : Function) : Nat := (f.blocks.flatMap Block.successors).length

/-- Everything that can be reached from `pending` without going through `seen`, and `seen` itself;
`fuel` bounds the identifiers that are looked at. -/
def explore (f : Function) : (fuel : Nat) → (pending seen : List BlockId) → List BlockId
  | 0, _, seen => seen
  | _, [], seen => seen
  | fuel + 1, id :: pending, seen =>
      if seen.contains id then explore f fuel pending seen
      else explore f fuel (f.successors id ++ pending) (id :: seen)

/-- The identifiers reachable from the entry, in increasing order. Branches are followed even to
identifiers that name no block. -/
def reachable (f : Function) : List BlockId :=
  match f.entry? with
  | none => []
  | some entry => (explore f (f.edgeCount + 1) [entry] []).mergeSort

end Aero.IR.Function

namespace Aero.IR

inductive Defect where
  | noTerminator (func block : String)
  | unknownTarget (func block : String) (target : BlockId)
  | returnType (func : String) (expected found : Ty)
  | unknownCallee (func callee : String)
  | argCount (func callee : String) (expected found : Nat)
  | storeType (func block : String) (expected found : Ty)
  | phiPredecessor (func block incoming : String)
deriving DecidableEq

def Defect.message : Defect → String
  | noTerminator func block => "block '" ++ block ++ "' in @" ++ func ++ " has no terminator"
  | unknownTarget func block target =>
      "block '" ++ block ++ "' in @" ++ func ++ " branches to unknown block " ++ BlockId.text target
  | returnType func expected found =>
      "@" ++ func ++ " returns " ++ found.text ++ " but is declared to return " ++ expected.text
  | unknownCallee func callee => "@" ++ func ++ " calls undeclared function @" ++ callee
  | argCount func callee expected found =>
      "@" ++ func ++ " calls @" ++ callee ++ " with " ++ toString found ++ " arguments, expected " ++ toString expected
  | storeType func block expected found =>
      "store in block '" ++ block ++ "' of @" ++ func ++ " writes " ++ found.text ++ " into a " ++
        expected.text ++ " slot"
  | phiPredecessor func block incoming =>
      "phi in block '" ++ block ++ "' of @" ++ func ++ " names non-predecessor '" ++ incoming ++ "'"

namespace Module

/-- The type at the end of a path of indices into a value of a type. -/
def elementTy? (m : Module) : Ty → List Value → Option Ty
  | ty, [] => some ty
  | .array elem _, _ :: path => m.elementTy? elem path
  | .struct name, index :: path => do
      let i ← index.int?
      if i < 0 then none
      else
        let st ← m.struct? name
        let field ← st.fields[i.toInt.toNat]?
        m.elementTy? field path
  | _, _ :: _ => none

/-- The register an instruction makes an address, with the type of what it addresses. -/
def slotOf? (m : Module) : Instr → Option (Reg × Ty)
  | .alloca dst ty => some (dst, ty)
  | .gep dst base _ indices => (m.elementTy? base (indices.drop 1)).map (dst, ·)
  | _ => none

def endDefects (f : Function) (b : Block) : List Defect :=
  match b.term with
  | none => [.noTerminator f.name b.label]
  | some t =>
      let unknown := t.successors.filter fun id => (f.block? id).isNone
      unknown.map (.unknownTarget f.name b.label ·) ++
        match t with
        | .ret value =>
            let found := value.elim .void Value.ty
            if found = f.ret then [] else [.returnType f.name f.ret found]
        | _ => []

def callDefects (m : Module) (f : Function) (callee : String) (args : List Value) : List Defect :=
  match m.function? callee with
  | none => [.unknownCallee f.name callee]
  | some target =>
      let expected := target.params.length
      let fits := if target.variadic then expected ≤ args.length else args.length = expected
      if fits then [] else [.argCount f.name callee expected args.length]

/-- Defects of an instruction in a block; `slots` are the addresses of the function whose type is
known, the latest first. -/
def instrDefects (m : Module) (f : Function) (slots : List (Reg × Ty)) (b : Block) : Instr → List Defect
  | .call _ callee args _ => callDefects m f callee args
  | .store value ptr =>
      match ptr.reg?.bind fun r => (slots.find? (·.1 = r)).map (·.2) with
      | some expected =>
          if expected = value.ty then [] else [.storeType f.name b.label expected value.ty]
      | none => []
  | .phi _ _ incoming =>
      (incoming.filter fun (_, source) => !f.hasEdge source b.id).map fun (_, source) =>
        .phiPredecessor f.name b.label (f.labelOf source)
  | _ => []

/-- The addresses of a function whose type is known, the latest first. -/
def slots (m : Module) (f : Function) : List (Reg × Ty) := (f.instrs.filterMap m.slotOf?).reverse

def functionDefects (m : Module) (f : Function) : List Defect :=
  let slots := m.slots f
  f.blocks.flatMap fun b => endDefects f b ++ b.instrs.flatMap (instrDefects m f slots b)

/-- The defects of all definitions of a module; a module without any is well formed. -/
def defects (m : Module) : List Defect :=
  (m.functions.filter (!·.isDeclaration)).flatMap m.functionDefects

/-- Remarks on blocks that no path reaches, which are allowed. -/
def unreachableNotes (m : Module) : List LogLine :=
  (m.functions.filter (!·.isDeclaration)).flatMap fun f =>
    let reachable := f.reachable
    (f.blocks.filter fun b => !reachable.contains b.id).map fun b =>
      ⟨.debug, "@" ++ f.name ++ ": block '" ++ b.label ++ "' is unreachable"⟩

end Module

end Aero.IR
