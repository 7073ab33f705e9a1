import Aero.Lowering.State

/-!
Inline blocks. Assembly takes the variables it refers to as operands; C and C++ code is compiled as
a function of its own, which is attached to the module and called.
-/

namespace Aero.Lowering

open IR

def inlineInput (name : String) (span : Span) : Lower Value := do
  let slot ← lookup name span
  let onStack := slot.array.any (·.storage = .stack)
  if slot.ty.isStruct || onStack then fail (.inlineVariable name) span
  else Build.load slot.ty slot.ptr

def compileInline (compiler file source : String) (span : Span) : Lower String := do
  note .debug (compiler ++ " -S -emit-llvm -O2 " ++ file)
  match (← read).compiler compiler file source with
  | .notStarted reason => fail (.compilerNotRun compiler reason) span
  | .failed output => fail (.compilerFailed compiler (Aero.Text.trim output)) span
  | .unreadable reason => fail (.compilerOutput reason) span
  | .compiled code => return code

def attachForeign (unit : ForeignUnit) : Build Unit :=
  modify fun b => { b with module := { b.module with foreign := b.module.foreign ++ [unit] } }

/-- The declaration of the function of an inline block, which takes some values. -/
def foreignDeclaration (symbol : String) (ret : Inline.ReturnKind) (inputs : List Value) : Function :=
  let params := (inputs.map (·.ty)).zipIdx.map fun (ty, i) => (⟨Inline.paramName i, ty⟩ : Param)
  { name := symbol, params := params, ret := ret.ty }

def callForeign (symbol : String) (ret : Inline.ReturnKind) (inputs : List Value) : Build Unit := do
  discard (Build.declareFunction (foreignDeclaration symbol ret inputs))
  let result ← Build.call symbol inputs
  match ret with
  | .int | .char | .bool => discard (Build.intCast result .i32 (ret ≠ .bool))
  | _ => pure ()

/-- Compiles an inline block as a function, which is attached to the module and called. -/
def foreignBlock (lang compiler code : String) (names : List String) (inputs : List Value)
    (span : Span) : Lower Unit := do
  let symbol ← freshSymbol "__aero_inline"
  let ret := Inline.returnKind code
  let body := Inline.substitute code names Inline.paramName
  let source := Inline.source lang symbol (inputs.map (·.ty)) ret body
  note .debug ("compiling inline " ++ lang ++ " block @" ++ symbol ++ " with " ++ compiler)
  let code ← compileInline compiler (Inline.fileName lang) source span
  attachForeign ⟨lang, symbol, code⟩
  callForeign symbol ret inputs

def inlineBlock (lang code : String) (volatile : Bool) (span : Span) : Lower Unit := do
  let names := Inline.references code
  let inputs ← names.mapM (inlineInput · span)
  if lang = "asm" || lang = "assembly" then
    let text := Inline.substitute code names fun i => "$" ++ toString i
    note .trace ("inline asm with " ++ toString inputs.length ++ " operand(s)")
    Build.inlineAsm text (",".intercalate (inputs.map fun _ => "r")) inputs volatile
  else
    match (← read).config.compilerFor? lang with
    | some compiler => foreignBlock lang compiler code names inputs span
    | none => fail (.inlineLanguage lang) span

end Aero.Lowering
