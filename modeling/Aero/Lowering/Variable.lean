import Aero.Lowering.Expr
import Aero.Syntax.TypeName

/-!
Variables: the storage of a declared name, and assignment.
-/

namespace Aero.Lowering

open IR

structure DeclaredType where
  ty : Ty
  array : Option ArrayShape := none
  /-- The number of elements of a buffer, if it is only known at run time. -/
  len : Option Value := none

inductive Dim where
  | const (size : Nat)
  | dynamic (size : Value)
  | unsized

def literalDim? : Expr → Option Nat
  | .literal (.number x) => if 0.0 ≤ x && isIntegral x then some x.toUInt64.toNat else none
  | _ => none

/-- The size of a dimension; a size that is not a literal is evaluated. -/
def resolveDim : ArrayDim → Lower Dim
  | .unsized => pure .unsized
  | .sized size =>
      match literalDim? size.node with
      | some n => pure (.const n)
      | none => do
          let v ← lower size
          if !v.ty.isInt then fail .sizeNotInteger size.span
          else
            match v.int? with
            | none => return .dynamic v
            | some n =>
                if n < 0 then fail (.arraySize n.toInt) size.span
                else return .const n.toInt.toNat

/-- The size of a dimension, which is positive and not above the limit if it is constant. -/
def boundedDim (dim : ArrayDim) (span : Span) : Lower Dim := do
  let limit := (← read).config.runtime.maxArrayLen
  match ← resolveDim dim with
  | .const n => if n = 0 || limit < n then fail (.arraySize n) span else return .const n
  | dim => return dim

def constDims? : List Dim → Option (List Nat)
  | [] => some []
  | .const n :: dims => (constDims? dims).map (n :: ·)
  | _ :: _ => none

/-- The type of an array with some sizes. Constant sizes give a fixed array, and a single size that
is not constant gives a buffer. -/
def arrayType (elem : Ty) (dims : List Dim) (span : Span) : Lower DeclaredType :=
  match constDims? dims, dims with
  | some sizes, _ =>
      pure { ty := sizes.foldr (fun n ty => .array ty n) elem, array := some (.fixed elem sizes) }
  | none, [.dynamic len] => pure { ty := .ptr, array := some (.heap elem), len := some len }
  | none, [_] => pure { ty := .ptr, array := some (.heap elem) }
  | none, _ => fail .dynamicDims span

def resolveDeclared (t : TypeName) (span : Span) : Lower DeclaredType := do
  let base ← resolveScalar t.name span
  if t.dims.isEmpty then return { ty := base }
  else if maxArrayDims < t.dims.length then fail (.tooManyDims t.dims.length) span
  else if base.isVoid then fail .arrayOfVoid span
  else if base.isStruct then fail (.arrayOfStruct t.name) span
  else
    let dims ← t.dims.mapM (boundedDim · span)
    arrayType base dims span

/-- Stores the elements of an array literal into a fixed array, from the part of it that a path
leads to. Elements that the literal does not reach are left alone. -/
def fillFixed (base : Value) (baseTy : Ty) : (ty : Ty) → (path : List Value) → List (Spanned Expr) → Span → Lower Unit
  | .array elem len, path, elems, span =>
      if len < elems.length then fail (.tooManyElements elems.length len) span
      else
        elems.zipIdx.forM fun (e, i) =>
          let path := path ++ [Build.int32 (Int64.ofNat i)]
          if elem.isArray then
            match e.node with
            | .array inner => fillFixed base baseTy elem path inner e.span
            | _ => fail .notNestedLiteral e.span
          else do
            let v ← lower e
            let v ← coerce v elem .arrayElement e.span
            let ptr ← Build.gep baseTy base (Build.int32 0 :: path)
            Build.store v ptr
  | _, _, _, span => fail .literalForNonArray span

def pointerValue (e : Spanned Expr) (context : Coercion) : Lower Value := do
  let v ← lower e
  if v.ty.isPtr then return v
  else fail (.mismatch context (.notPointer v.ty)) e.span

def newSlot (value : Value) (ty : Ty) (array : Option ArrayShape) : Build Slot := do
  let ptr ← Build.alloca ty
  Build.store value ptr
  return { ptr := ptr, ty := ty, array := array }

def inferredType? : Ty → Option Ty
  | .float => some .double
  | .int bits => some (.int bits)
  | .ptr => some .ptr
  | .double => some .double
  | _ => none

def inferredSlot (name : Spanned String) (init : Option (Spanned Expr)) (span : Span) : Lower Slot := do
  match init with
  | none => fail (.autoWithoutInit name.node) span
  | some ⟨.array elems, initSpan⟩ =>
      let (buffer, elem) ← arrayLiteral (operands elems) none initSpan
      newSlot buffer .ptr (some (.heap elem))
  | some init =>
      let value ← lower init
      match inferredType? value.ty with
      | none => fail (.notInferable name.node value.ty) init.span
      | some ty =>
          let value ← coerce value ty (.initial name.node) init.span
          newSlot value ty none

def fixedSlot (name : Spanned String) (ty : Ty) (shape : ArrayShape) (init : Option (Spanned Expr)) : Lower Slot := do
  let ptr ← Build.alloca ty
  match init with
  | none => pure ()
  | some ⟨.array elems, span⟩ => fillFixed ptr ty ty [] elems span
  | some _ => fail (.arrayWithoutLiteral name.node) name.span
  return { ptr := ptr, ty := ty, array := some shape }

def heapSlot (name : Spanned String) (shape : ArrayShape) (len : Option Value)
    (init : Option (Spanned Expr)) : Lower Slot := do
  let buffer ←
    match init, len with
    | some ⟨.array elems, span⟩, _ => do
        let (buffer, _) ← arrayLiteral (operands elems) (some shape.elem) span
        pure buffer
    | some init, _ => pointerValue init (.initial name.node)
    | none, some len => Build.heapArray shape.elem len
    | none, none => pure .null
  newSlot buffer .ptr (some shape)

/-- The slot of a scalar, which is zero if it is not initialised. -/
def scalarSlot (name : Spanned String) (ty : Ty) (init : Option (Spanned Expr)) : Lower Slot := do
  let value ←
    match init with
    | some ⟨.array _, span⟩ => fail (.literalForScalar name.node) span
    | some init => do
        let v ← lower init
        coerce v ty (.initial name.node) init.span
    | none => pure (Build.zero ty)
  newSlot value ty none

def objectSlot (name : Spanned String) (struct : String) (init : Option (Spanned Expr)) : Lower Slot := do
  if init.isSome then fail (.structWithInit name.node) name.span
  else
    let ptr ← Build.alloca (.struct struct)
    note .trace ("object " ++ name.node ++ " of type " ++ struct)
    return { ptr := ptr, ty := .struct struct }

def declaredSlot (name : Spanned String) (t : Spanned TypeName) (init : Option (Spanned Expr)) : Lower Slot := do
  let declared ← resolveDeclared t.node t.span
  match declared.ty, declared.array with
  | .void, _ => fail (.voidVariable name.node) t.span
  | .struct struct, _ => objectSlot name struct init
  | ty, none => scalarSlot name ty init
  | ty, some shape =>
      if shape.storage = .stack then fixedSlot name ty shape init
      else heapSlot name shape declared.len init

def declareVariable (name : Spanned String) (ty : Option (Spanned TypeName))
    (init : Option (Spanned Expr)) (span : Span) : Lower Unit := do
  if (← state).scopes.isDeclaredHere name.node then
    fail (.variableDeclared name.node) name.span
  else
    let slot ←
      match ty.filter (!·.node.isAuto) with
      | some t => declaredSlot name t init
      | none => inferredSlot name init span
    note .trace ("declare " ++ name.node ++ ": " ++ slot.ty.text)
    update fun s => { s with scopes := (s.scopes.declare? name.node slot).getD s.scopes }

def assignArray (name : String) (slot : Slot) (shape : ArrayShape) (value : Spanned Expr) : Lower Unit := do
  match value.node, shape.storage with
  | .array elems, .stack => fillFixed slot.ptr slot.ty slot.ty [] elems value.span
  | _, .stack => fail (.arrayAssigned name) value.span
  | .array elems, _ =>
      let (buffer, _) ← arrayLiteral (operands elems) (some shape.elem) value.span
      Build.store buffer slot.ptr
  | _, _ =>
      let v ← pointerValue value .assignment
      Build.store v slot.ptr

def assignmentContext : Place → Coercion
  | .index _ _ => .arrayElement
  | _ => .assignment

/-- The width that a byte of a string takes: any integer but a truth value. -/
def isByteSource : Ty → Bool
  | .int bits => 1 < bits
  | _ => false

def assignPlace (place : Spanned Place) (value : Spanned Expr) : Lower Unit := do
  let target ← lowerPlace .assign place.span place.node
  let v ← lower value
  let v ←
    if target.stringByte then
      if isByteSource v.ty then Build.intCast v .i8 true
      else fail .stringAssignment value.span
    else coerce v target.ty (assignmentContext place.node) value.span
  Build.store v target.ptr

def arrayPlace? (place : Spanned Place) : Lower (Option (String × Slot × ArrayShape)) := do
  match place.node with
  | .var name =>
      let slot ← lookup name place.span
      return slot.array.map fun shape => (name, slot, shape)
  | _ => return none

def assign (place : Spanned Place) (value : Spanned Expr) : Lower Unit := do
  match ← arrayPlace? place with
  | some (name, slot, shape) => assignArray name slot shape value
  | none => assignPlace place value

def compoundAssign (op : BinOp) (place : Spanned Place) (value : Spanned Expr) (span : Span) : Lower Unit := do
  if !op.isArithmetic then fail (.compoundOperator op) span
  else
    let target ← lowerPlace .compound place.span place.node
    let current ← Build.load target.ty target.ptr
    let rhs ← lower value
    let result ← binaryValues op current rhs span
    let refused := Problem.mismatch .compoundAssignment (.storage result.ty target.ty)
    if result.ty.isPtr && !target.ty.isPtr then fail refused span
    else
      let result ←
        if target.stringByte then
          if isByteSource result.ty then Build.intCast result .i8 true else fail refused span
        else coerce result target.ty .compoundAssignment span
      Build.store result target.ptr

end Aero.Lowering
