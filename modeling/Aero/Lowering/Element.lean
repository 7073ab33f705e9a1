import Aero.Lowering.Arithmetic

/-!
Elements of arrays and strings. The index of an element is checked against the length: a constant
index of a fixed array when it is lowered, any other one at run time, where a failed check prints a
message and exits.
-/

namespace Aero.Lowering

open IR

/-- An expression and the code that computes its value. -/
structure Operand where
  expr : Expr
  span : Span
  value : Lower Value

inductive Fault where
  | array
  | string
deriving DecidableEq, Repr

namespace Fault

def failLabel : Fault → String
  | array => "array_bounds_error"
  | string => "bounds_error"

def passLabel : Fault → String
  | array => "valid_array_access"
  | string => "valid_access"

def message : Fault → String
  | array => "Segmentation fault: array index out of bounds\n"
  | string => "Segmentation fault: string index out of bounds\n"

end Fault

/-- Checks an index against a length and goes on where it is below it. Both are compared as unsigned
numbers of 64 bits; the length is extended with zeros, so that an unknown length of minus one admits
every index that is not negative. -/
def boundsCheck (index len : Value) (fault : Fault) : Lower Unit := do
  let index ← Build.intCast index .i64 true
  let len ← Build.intCast len .i64 false
  let outside ← Build.icmp .uge index len
  let failed ← Build.appendBlock fault.failLabel
  let passed ← Build.appendBlock fault.passLabel
  Build.condBr outside failed passed
  Build.position failed
  discard (Build.printf fault.message [])
  let status := Build.int32 (Int64.ofInt (← read).config.runtime.faultExitCode)
  discard (Build.callPrimitive .exit [status])
  Build.unreachable
  Build.position passed
  note .trace ("emitted " ++ fault.failLabel ++ " bounds check")

def indexValue (index : Operand) : Lower Value := do
  let v ← index.value
  if v.ty.isInt then Build.intCast v .i64 true
  else fail (.indexNotInteger v.ty) index.span

def refuseNegative (index : Value) (span : Span) : Lower Unit :=
  match index.int? with
  | some i => if i < 0 then fail (.negativeIndex i.toInt) span else pure ()
  | none => pure ()

def openIndex (index : Operand) : Lower Value := do
  let i ← indexValue index
  refuseNegative i index.span
  return i

/-- Checks an index of a fixed array, a constant one at once. -/
def checkFixed (index : Value) (len : Nat) (access : Access) (span : Span) : Lower Unit :=
  match index.int? with
  | some i =>
      if i.toInt < 0 || (len : Int) ≤ i.toInt then
        fail (.indexOutOfBounds i.toInt len access) span
      else pure ()
  | none => boundsCheck index (Build.int32 (Int64.ofNat len)) .array

def fixedIndices (access : Access) : List (Option Nat) → List Operand → Lower (List Value)
  | dim :: dims, index :: indices => do
      let i ← indexValue index
      checkFixed i (dim.getD 0) access index.span
      return i :: (← fixedIndices access dims indices)
  | _, _ => pure []

def heapCount (buffer : Value) (elem : Ty) : Build Value := do
  let bytes ← Build.trackedSize buffer
  let size := (← get).module.sizeOf elem
  Build.div bytes (Build.int32 (max size 1).toInt64)

def checkExtent (index : Value) (extent : Option Value) : Lower Unit :=
  match extent with
  | some len => boundsCheck index len .array
  | none => pure ()

def stringPlace (s : Value) (indices : List Operand) (access : Access) (span : Span) : Lower PlaceRef :=
  match indices with
  | [index] => do
      let i ← openIndex index
      let len ← Build.strlen s
      boundsCheck i len .string
      let ptr ← Build.gep .i8 s [i]
      return { ptr := ptr, ty := .i8, stringByte := true }
  | _ => fail (.stringIndexCount access) span

def fixedPlace (slot : Slot) (shape : ArrayShape) (indices : List Operand) (access : Access) : Lower PlaceRef := do
  let indices ← fixedIndices access shape.dims indices
  let ptr ← Build.gep slot.ty slot.ptr (Build.int32 0 :: indices)
  return { ptr := ptr, ty := shape.elem }

/-- The place of an element of a buffer, whose length is known if it is tracked. -/
def heapPlace (slot : Slot) (elem : Ty) (index : Operand) : Lower PlaceRef := do
  let base ← Build.load .ptr slot.ptr
  let i ← openIndex index
  if ← Build.isTracked then
    let count ← heapCount base elem
    boundsCheck i count .array
  let ptr ← Build.gep elem base [i]
  return { ptr := ptr, ty := elem }

def paramPlace (slot : Slot) (elem : Ty) (index : Operand) : Lower PlaceRef := do
  let base ← Build.load .ptr slot.ptr
  let i ← openIndex index
  checkExtent i slot.extents[0]?
  let ptr ← Build.gep elem base [i]
  return { ptr := ptr, ty := elem }

def rowsPlace (slot : Slot) (elem : Ty) (row column : Operand) : Lower PlaceRef := do
  let table ← Build.load .ptr slot.ptr
  let i ← openIndex row
  checkExtent i slot.extents[0]?
  let j ← openIndex column
  checkExtent j slot.extents[1]?
  let entry ← Build.gep .ptr table [i]
  let base ← Build.load .ptr entry
  let ptr ← Build.gep elem base [j]
  return { ptr := ptr, ty := elem }

def elementPlace (name : String) (slot : Slot) (indices : List Operand) (access : Access)
    (span : Span) : Lower PlaceRef :=
  match slot.array with
  | none =>
      if slot.ty.isPtr then do
        let s ← Build.load .ptr slot.ptr
        stringPlace s indices access span
      else fail (.notArray name) span
  | some shape =>
      if indices.length ≠ shape.rank then
        fail (.indexCount name shape.rank indices.length) span
      else
        match shape.storage, indices with
        | .stack, _ => fixedPlace slot shape indices access
        | .heap, [index] => heapPlace slot shape.elem index
        | .param, [index] => paramPlace slot shape.elem index
        | .rows, [row, column] => rowsPlace slot shape.elem row column
        | _, _ => fail (.indexCount name shape.rank indices.length) span

/-- The value of an element. Anything but a variable is indexed as a string. -/
def loadElement (base : Operand) (indices : List Operand) (span : Span) : Lower Value := do
  let place ←
    match base.expr with
    | .var name => do
        let slot ← lookup name base.span
        elementPlace name slot indices .read span
    | _ => do
        let v ← base.value
        if v.ty.isPtr then stringPlace v indices .read span
        else fail (.notIndexable v.ty) base.span
  Build.load place.ty place.ptr

end Aero.Lowering
