import Aero.Lowering.Element

/-!
Whole arrays: array literals, lengths, and how an array is passed to a parameter.
-/

namespace Aero.Lowering

open IR

def isArrayLiteral : Expr → Bool
  | .array _ => true
  | _ => false

def storeElement (buffer : Value) (elem : Ty) (i : Nat) (value : Value) (span : Span) : Lower Unit := do
  let value ← coerce value elem .arrayElement span
  let ptr ← Build.gep elem buffer [Build.int32 (Int64.ofNat i)]
  Build.store value ptr

/-- Evaluates and stores the elements of an array literal from a position on. -/
def storeElements (buffer : Value) (elem : Ty) : Nat → List Operand → Lower Unit
  | _, [] => pure ()
  | i, e :: es => do
      let value ← e.value
      storeElement buffer elem i value e.span
      storeElements buffer elem (i + 1) es

/-- A buffer with the elements of an array literal, and their type: the given one, or else that of
the first element. -/
def arrayLiteral (elems : List Operand) (hint : Option Ty) (span : Span) : Lower (Value × Ty) :=
  match elems with
  | [] => fail .emptyLiteral span
  | first :: others => do
      if (← read).config.runtime.maxArrayLen < elems.length then
        fail (.literalTooLarge elems.length) span
      else if elems.any fun e => isArrayLiteral e.expr then fail .nestedLiteral span
      else
        let value ← first.value
        let elem := hint.getD value.ty
        if elem.isVoid || elem.isStruct then fail (.elementType elem) first.span
        else
          let buffer ← Build.heapArray elem (Build.int64 (Int64.ofNat elems.length))
          storeElement buffer elem 0 value first.span
          storeElements buffer elem 1 others
          return (buffer, elem)

def unknownLen : Value := Build.int32 (-1)

/-- The number of elements of a buffer, as far as it is tracked. -/
def bufferLen (buffer : Value) (elem : Ty) : Lower Value := do
  if ← Build.isTracked then heapCount buffer elem else return unknownLen

def arrayLen (name : String) (slot : Slot) (shape : ArrayShape) (span : Span) : Lower Value := do
  match shape.storage, shape.dims.head?.join, slot.extents with
  | .stack, some n, _ => return Build.int32 (Int64.ofNat n)
  | .heap, _, _ =>
      if ← Build.isTracked then
        let base ← Build.load .ptr slot.ptr
        heapCount base shape.elem
      else fail (.unknownLength name) span
  | .param, _, len :: _ | .rows, _, len :: _ => return len
  | _, _, _ => fail (.unknownLength name) span

/-- Sets an entry of a table of rows, and goes on to the next. -/
def setRow (slot : Slot) (table counter i : Value) : Build Unit := do
  let row ← Build.gep slot.ty slot.ptr [Build.int32 0, i, Build.int32 0]
  let entry ← Build.gep .ptr table [i]
  Build.store row entry
  let next ← Build.add i (Build.int32 1)
  Build.store next counter

def fillRows (slot : Slot) (table counter : Value) (rows : Nat) : Build Unit := do
  let header ← Build.appendBlock "rows.header"
  let body ← Build.appendBlock "rows.body"
  let exit ← Build.appendBlock "rows.exit"
  Build.br header
  Build.position header
  let i ← Build.load .i32 counter
  let more ← Build.icmp .slt i (Build.int32 (Int64.ofNat rows))
  Build.condBr more body exit
  Build.position body
  setRow slot table counter i
  Build.br header
  Build.position exit

def rowTable (slot : Slot) (rows : Nat) : Build Value := do
  let table ← Build.trackedMalloc (Build.int64 (Int64.ofNat (rows * 8))) 2
  let counter ← Build.alloca .i32
  Build.store (Build.int32 0) counter
  fillRows slot table counter rows
  return table

/-- What is passed for an array variable: its address, and the length of each dimension. -/
def arrayVariable (slot : Slot) (shape : ArrayShape) : Lower (List Value) := do
  let lens := shape.dims.map fun dim => Build.int32 (Int64.ofNat (dim.getD 0))
  match shape.storage, shape.dims with
  | .stack, [_] => do
      let ptr ← Build.gep slot.ty slot.ptr [Build.int32 0, Build.int32 0]
      return ptr :: lens
  | .stack, dims => do
      let table ← rowTable slot (dims.head?.join.getD 0)
      return table :: lens
  | .heap, _ => do
      let base ← Build.load .ptr slot.ptr
      let len ← bufferLen base shape.elem
      return [base, len]
  | .param, _ | .rows, _ => do
      let base ← Build.load .ptr slot.ptr
      let missing := shape.rank - slot.extents.length
      return base :: slot.extents ++ List.replicate missing unknownLen

/-- What is passed for an array parameter. A pointer that is not known to be an array has an unknown
length. -/
def arrayArgument (arg : Operand) (param : ArrayShape) (context : Coercion) : Lower (List Value) := do
  match arg.expr with
  | .var name =>
      let slot ← lookup name arg.span
      match slot.array with
      | none =>
          if slot.ty.isPtr && param.rank = 1 then
            let v ← Build.load .ptr slot.ptr
            return [v, unknownLen]
          else fail (.mismatch context .notArray) arg.span
      | some shape =>
          if shape.rank ≠ param.rank then fail (.mismatch context .rank) arg.span
          else if shape.elem ≠ param.elem then fail (.mismatch context .element) arg.span
          else arrayVariable slot shape
  | expr =>
      let v ← arg.value
      if !(v.ty.isPtr && param.rank = 1) then fail (.mismatch context .notArray) arg.span
      else if isArrayLiteral expr then
        let len ← bufferLen v param.elem
        return [v, len]
      else return [v, unknownLen]

end Aero.Lowering
