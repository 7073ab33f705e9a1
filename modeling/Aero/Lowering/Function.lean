import Aero.Lowering.Stmt

/-!
Structs, functions and whole files. All are declared before any body is lowered, so that a body can refer to what
follows it. A body that fails is dropped, and its function stays declared; each failure adds one error, and the rest is
lowered all the same.
-/

namespace Aero.Lowering

open IR

def methodSymbol (struct name : String) : String := struct ++ "__" ++ name

/-! ### Structs -/

def fieldType (struct : String) (earlier : List (String × Ty)) (field : Binding) : Lower Ty := do
  let name := field.name.node
  if field.ty.node.isArray then fail (.arrayField struct name) field.ty.span
  else if earlier.any (·.1 = name) then fail (.duplicateField struct name) field.name.span
  else if field.ty.node.name = struct then fail (.structInItself struct) field.ty.span
  else
    let ty ← resolveScalar field.ty.node.name field.ty.span
    if ty.isVoid then fail .voidField field.ty.span else return ty

def fieldTypes (struct : String) (earlier : List (String × Ty)) : List Binding → Lower (List (String × Ty))
  | [] => pure earlier
  | field :: fields => do
      let ty ← fieldType struct earlier field
      fieldTypes struct (earlier ++ [(field.name.node, ty)]) fields

def declareStruct (s : StructDef) : Lower Unit := do
  let name := s.name.node
  if ((← state).builder.custom? name).isSome || (scalarType? name).isSome then
    fail (.typeDefined name) s.name.span
  else
    let fields ← fieldTypes name [] s.fields
    note .debug ("struct " ++ name ++ " with " ++ toString fields.length ++ " field(s)")
    discard (Build.defineType name fields)

/-! ### Signatures -/

def paramShape (t : TypeName) (span : Span) : Lower (Option ArrayShape) := do
  if t.dims.isEmpty then return none
  else if maxArrayDims < t.dims.length then fail .tooManyParamDims span
  else
    let elem ← resolveScalar t.name span
    return some (.param elem t.dims.length)

def paramSig (p : Binding) : Lower ParamSig := do
  match ← paramShape p.ty.node p.ty.span with
  | some shape => return { name := p.name.node, ty := .ptr, array := some shape }
  | none =>
      let ty ← resolveScalar p.ty.node.name p.ty.span
      if ty.isVoid then fail (.voidParam p.name.node) p.ty.span
      else return { name := p.name.node, ty := ty }

def returnType (name : String) (t : Option (Spanned TypeName)) : Lower Ty := do
  match t with
  | none => return .void
  | some t =>
      if t.node.isArray then fail (.returnsArray name) t.span
      else
        let ty ← resolveScalar t.node.name t.span
        if ty.isStruct then fail (.returnsStruct name) t.span else return ty

def symbolOf (options : ModuleOptions) (struct : Option String) (name : String) : String :=
  match struct with
  | some struct => methodSymbol struct name
  | none => if name = "main" && options.synthesizeEntry then options.userEntry else name

/-- What is wrong with the name of a function or, with a struct, of a method. -/
def nameProblem? (builtins : BuiltinTable) (s : State) (struct : Option String)
    (name symbol : String) : Option Problem :=
  match struct with
  | none =>
      if (Primitive.ofName? name).isSome || builtins.contains name then some (.reservedName name)
      else if (s.functions.lookup name).isSome then some (.functionDefined name)
      else none
  | some _ => if (s.methods.lookup symbol).isSome then some (.methodDefined symbol) else none

/-- The signature of a function or, with a struct, of a method, which takes the object first. -/
def signature (struct : Option String) (f : FnDef) (symbol : String) : Lower FnSig := do
  let self := struct.toList.map fun struct => ({ name := "self", ty := .struct struct } : ParamSig)
  let params ← f.params.mapM paramSig
  let ret ← returnType f.name.node f.returnTy
  return ⟨symbol, self ++ params, ret⟩

def FnSig.declaration (sig : FnSig) : Function :=
  { name := sig.symbol, params := sig.params.flatMap ParamSig.params, ret := sig.ret }

/-- Makes a function or, with a struct, a method known to callers. -/
def register (struct : Option String) (name : String) (sig : FnSig) : Lower Unit := do
  match struct with
  | some struct =>
      discard (Build.addMethod struct name sig.symbol)
      update fun s => { s with methods := s.methods ++ [(sig.symbol, sig)] }
  | none => update fun s => { s with functions := s.functions ++ [(name, sig)] }

def declareFunction (struct : Option String) (f : FnDef) : Lower FnSig := do
  let env ← read
  let symbol := symbolOf env.config.module struct f.name.node
  match nameProblem? env.builtins (← state) struct f.name.node symbol with
  | some problem => fail problem f.name.span
  | none =>
      let sig ← signature struct f symbol
      if ← Build.declareFunction sig.declaration then
        register struct f.name.node sig
        note .trace ("declared @" ++ symbol ++ "/" ++ toString sig.params.length)
        return sig
      else fail (.functionDefined symbol) f.name.span

/-! ### Bodies -/

/-- The slot of a parameter, given the value passed and the lengths that follow it. -/
def paramSlot (param : ParamSig) (value : Value) (extents : List Value) : Build Slot := do
  if param.ty.isStruct then return { ptr := value, ty := param.ty }
  else
    let slot ← newSlot value param.ty param.array
    return { slot with extents := extents }

/-- Where the name of a parameter is written. The object of a method is not written, so its position
counts as that of the first parameter. -/
def paramSpan (f : FnDef) (sig : FnSig) (position : Nat) : Span :=
  match f.params[position - (sig.params.length - f.params.length)]? with
  | some p => p.name.span
  | none => f.name.span

/-- Declares the parameters from a position on, which the remaining values are passed for. -/
def declareParams (f : FnDef) (sig : FnSig) : Nat → List ParamSig → List Value → Lower Unit
  | i, param :: params, value :: values => do
      let rank := (param.array.map ArrayShape.rank).getD 0
      let slot ← paramSlot param value (values.take rank)
      match (← state).scopes.declare? param.name slot with
      | some scopes =>
          update fun s => { s with scopes := scopes }
          declareParams f sig (i + 1) params (values.drop rank)
      | none => fail (.duplicateParam param.name) (paramSpan f sig i)
  | _, _, _ => pure ()

def fallThrough (sig : FnSig) : Lower Unit := do
  if (← read).config.runtime.scopeCleanup then Build.gcCollect
  if sig.ret.isVoid then Build.retVoid
  else
    note .trace ("@" ++ sig.symbol ++ " falls through, returning zero")
    Build.ret (Build.zero sig.ret)

def lowerBody (f : FnDef) (sig : FnSig) (values : List Value) : Lower Unit := do
  declareParams f sig 0 sig.params values
  lowerStmts f.body.node.stmts
  if !(← isTerminated) then fallThrough sig

def State.enter (s : State) (ret : Ty) : State :=
  { s with scopes := s.scopes.reset.push, loopExits := [], returnTy := ret }

def defineFunction (f : FnDef) (sig : FnSig) : Lower Unit := do
  match ← Build.defineFunction sig.symbol with
  | none => fail (.functionNotFound sig.symbol) f.name.span
  | some values =>
      note .debug ("lowering @" ++ sig.symbol)
      update (·.enter sig.ret)
      let result ← attempt (lowerBody f sig values)
      if let .error _ := result then Build.discardBody
      update fun s => { s with scopes := s.scopes.reset }
      Build.endFunction
      resume result

/-! ### Entry -/

def exitStatus (entry : Option FnSig) : Lower Value := do
  match entry with
  | none => return Build.int32 1
  | some sig =>
      if !sig.params.isEmpty then
        note .warn "user main takes parameters, not calling it"
        return Build.int32 1
      else
        let result ← Build.call sig.symbol []
        match sig.ret with
        | .int _ => Build.intCast result .i32 true
        | .void => return Build.int32 0
        | ty =>
            note .debug ("user entry returns " ++ sourceName ty ++ ", exiting with 1")
            return Build.int32 1

/-- The code of the entry of the program, which calls the user's. -/
def lowerEntry (userEntry : String) : Lower Unit := do
  Build.cleanupAtExit
  let entry := ((← state).functions.lookup "main").filter (·.symbol = userEntry)
  let status ← exitStatus entry
  Build.ret status

def synthesizeEntry : Lower Unit := do
  let userEntry := (← read).config.module.userEntry
  if ← Build.declareFunction { name := "main", params := [], ret := .i32 } then
    discard (Build.defineFunction "main")
    lowerEntry userEntry
    Build.endFunction
  else warn (.entryTaken userEntry) .none

/-! ### Files -/

structure Output where
  module : Module
  diagnostics : List Diagnostic
  log : Array LogLine

def orReport {α : Type} (act : Lower α) : Lower (Option α) := do
  match ← attempt act with
  | .ok a => return some a
  | .error d =>
      report d
      return none

def structsOf (file : File) : List StructDef :=
  file.items.filterMap fun item =>
    match item.node with
    | .struct s => some s
    | .fn _ => none

/-- The functions and methods of a file, each method with its struct. -/
def functionsOf (file : File) : List (Option String × FnDef) :=
  file.items.flatMap fun item =>
    match item.node with
    | .fn f => [(none, f)]
    | .struct s => s.methods.map fun m => (some s.name.node, m)

def declareFunctions : List (Option String × FnDef) → Lower (List (FnDef × FnSig))
  | [] => pure []
  | (struct, f) :: rest => do
      let declared ← orReport (declareFunction struct f)
      let others ← declareFunctions rest
      return (declared.map fun sig => (f, sig)).toList ++ others

def defineOrReport (f : FnDef) (sig : FnSig) : Lower Unit := do
  match ← attempt (defineFunction f sig) with
  | .ok () => pure ()
  | .error d =>
      note .debug ("discarding body of @" ++ sig.symbol ++ ": " ++ d.message)
      report d

def lowerFile (file : File) : Lower Unit := do
  note .debug ("translating '" ++ file.name ++ "' into " ++ (← state).builder.module.name)
  (structsOf file).forM fun s => discard (orReport (declareStruct s))
  let declared ← declareFunctions (functionsOf file)
  declared.forM fun (f, sig) => defineOrReport f sig
  if (← read).config.module.synthesizeEntry then synthesizeEntry

def State.start (config : Config) (moduleName : String) : State :=
  { builder := .start moduleName config.alloc config.optLevel }

def run (env : Env) (file : File) (moduleName : String) : Output :=
  let s :=
    match lowerFile file env (.start env.config moduleName) with
    | .ok _ s | .error _ s => s
  ⟨s.builder.module, s.diagnostics, s.builder.log⟩

end Aero.Lowering
