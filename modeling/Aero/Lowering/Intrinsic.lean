import Aero.Lowering.Array

/-!
What the builtin functions do. They are given their arguments unevaluated, so that some can look at
a variable before its value.
-/

namespace Aero.Lowering

open IR

def noValue : Value := .undef .void

/-- Prints a value by the format of its type, and what is to follow it. -/
def printValue (v : Value) (ending : String) (span : Span) : Lower Value :=
  match v.ty with
  | .int 1 => do
      let yes ← Build.constString ("true" ++ ending)
      let no ← Build.constString ("false" ++ ending)
      let text ← Build.select v yes no
      Build.printf "%s" [text]
  | .int 8 => do Build.printf ("%c" ++ ending) [← Build.intCast v .i32 true]
  | .int 64 => Build.printf ("%ld" ++ ending) [v]
  | .int _ => do Build.printf ("%d" ++ ending) [← Build.intCast v .i32 true]
  | .float | .double => do Build.printf ("%.6f" ++ ending) [← Build.fpCast v .double]
  | .ptr => Build.printf ("%s" ++ ending) [v]
  | ty => fail (.notPrintable ty) span

def print (arg : Operand) (ending : String) : Lower Value := do
  let v ← arg.value
  printValue v ending arg.span

/-- Reads a word of at most 255 bytes, after a prompt if there is one. -/
def input (prompt : Option Operand) : Lower Value := do
  if let some prompt := prompt then discard (print prompt "")
  let buffer ← Build.trackedMalloc (Build.int64 256) 1
  let format ← Build.constString "%255s"
  discard (Build.callPrimitive .scanf [format, buffer])
  return buffer

def slotTypeName (slot : Slot) : String :=
  match slot.array, slot.ty with
  | some shape, _ => shape.describe
  | none, .struct struct => struct
  | none, ty => sourceName ty

/-- The name of the type of an argument; a variable is not evaluated. -/
def typeOf (arg : Operand) : Lower Value := do
  match arg.expr with
  | .var name =>
      let slot ← lookup name arg.span
      Build.constString (slotTypeName slot)
  | _ =>
      let v ← arg.value
      Build.constString (sourceName v.ty)

/-- The value as a string; a truth value is written as a number. -/
def toText (v : Value) (span : Span) : Lower Value :=
  match v.ty with
  | .ptr => pure v
  | .int 8 => do Text.formatted "%c" (← Build.intCast v .i32 true)
  | .int 64 => Text.formatted "%ld" v
  | .int _ => do Text.formatted "%d" (← Build.intCast v .i32 true)
  | .float | .double => do Text.formatted "%.6f" (← Build.fpCast v .double)
  | ty => fail (.notConvertible ty "string") span

def toInt (v : Value) (span : Span) : Lower Value :=
  match v.ty with
  | .ptr => Build.callPrimitive .atoi [v]
  | .int _ | .float | .double => coerce v .i32 .operand span
  | ty => fail (.notConvertible ty "int") span

def toFloat (v : Value) (span : Span) : Lower Value :=
  match v.ty with
  | .ptr => do
      let x ← Build.callPrimitive .atof [v]
      Build.fpCast x .float
  | .int _ | .float | .double => coerce v .float .operand span
  | ty => fail (.notConvertible ty "float") span

def toChar (v : Value) (span : Span) : Lower Value :=
  match v.ty with
  | .ptr => Build.load .i8 v
  | .int _ => Build.intCast v .i8 true
  | .float | .double => Build.fpToSi v .i8
  | ty => fail (.notConvertible ty "char") span

/-- Ends the program with a status, which is zero if none is given. -/
def exit (status : Option Operand) (span : Span) : Lower Value := do
  let status ←
    match status with
    | some arg => do
        let v ← arg.value
        coerce v .i32 (.argument 0 "exit") span
    | none => pure (Build.int32 0)
  Build.callPrimitive .exit [status]

def textLen (s : Value) : Build Value := do
  let len ← Build.strlen s
  Build.intCast len .i32 false

def valueLen (arg : Operand) (span : Span) : Lower Value := do
  let v ← arg.value
  if v.ty.isPtr then textLen v else fail (.lengthOperand v.ty) span

/-- The number of columns of a variable that is a fixed array with rows. -/
def columns? (slot : Slot) : Option Nat :=
  match slot.array with
  | some ⟨_, [_, inner], .stack⟩ => some (inner.getD 0)
  | _ => none

/-- The length of an array or a string. A variable that is neither has length one, and a row of a
fixed array is not evaluated. -/
def length (arg : Operand) (span : Span) : Lower Value := do
  match arg.expr with
  | .var name =>
      let slot ← lookup name arg.span
      match slot.array with
      | some shape => arrayLen name slot shape span
      | none =>
          if slot.ty.isPtr then
            let s ← Build.load .ptr slot.ptr
            textLen s
          else if slot.ty.isStruct then fail (.lengthOfStruct name) arg.span
          else return Build.int32 1
  | .index ⟨.var name, nameSpan⟩ [_] =>
      let slot ← lookup name nameSpan
      match columns? slot with
      | some n => return Build.int32 (Int64.ofNat n)
      | none => valueLen arg span
  | _ => valueLen arg span

def sizeArg (arg : Operand) (function : String) : Lower Value := do
  let v ← arg.value
  if v.ty.isInt then Build.intCast v .i64 true else fail (.sizeArgument function) arg.span

def recordRequest (ptr : Value) : Lower Unit :=
  update fun s => { s with requested := s.requested ++ [(s.builder.current, ptr)] }

/-- A buffer that the program looks after by itself. -/
def requestBuffer (arg : Operand) : Lower Value := do
  let size ← sizeArg arg "malloc"
  let ptr ← Build.malloc size
  recordRequest ptr
  return ptr

def stripParens (span : Span) : Expr → Spanned Expr
  | .paren ⟨inner, span⟩ => stripParens span inner
  | e => ⟨e, span⟩

/-- The name and shape of the fixed array that an expression is, if it is a variable. -/
def fixedArray? (e : Spanned Expr) : Lower (Option (String × ArrayShape)) := do
  match e.node with
  | .var name =>
      let slot ← lookup name e.span
      return (slot.array.filter (·.storage = .stack)).map fun shape => (name, shape)
  | _ => return none

/-- A pointer that can be freed, which the address of a fixed array is not. -/
def heapArg (arg : Operand) (function : String) : Lower Value := do
  match ← fixedArray? (stripParens arg.span arg.expr) with
  | some (name, shape) => fail (.heapArgument function name shape.describe) arg.span
  | none =>
      let v ← arg.value
      if v.ty.isPtr then return v else fail (.pointerArgument function v.ty) arg.span

def freeBuffer (arg : Operand) : Lower Value := do
  let ptr ← heapArg arg "free"
  Build.untrack ptr
  Build.free ptr
  return noValue

def freeDeep (table rows : Operand) (span : Span) : Lower Value := do
  let table ← heapArg table "free_deep"
  let rows ← rows.value
  if rows.ty.isInt then
    Build.freeRows table rows
    return noValue
  else fail .rowCount span

def lowerBuiltin (handler : Handler) (args : List Operand) (span : Span) : Lower Value := do
  match handler, args with
  | .print, arg :: _ => print arg ""
  | .println, arg :: _ => print arg "\n"
  | .input, args => input args.head?
  | .typeOf, arg :: _ => typeOf arg
  | .toText, arg :: _ => toText (← arg.value) span
  | .toInt, arg :: _ => toInt (← arg.value) span
  | .toFloat, arg :: _ => toFloat (← arg.value) span
  | .toChar, arg :: _ => toChar (← arg.value) span
  | .toBool, arg :: _ => toBool (← arg.value) span
  | .exit, args => exit args.head? span
  | .length, arg :: _ => length arg span
  | .malloc, arg :: _ => requestBuffer arg
  | .mallocTracked, arg :: _ => do
      let size ← sizeArg arg "malloc_tracked"
      Build.trackedMalloc size 1
  | .free, arg :: _ => freeBuffer arg
  | .freeDeep, table :: rows :: _ => freeDeep table rows span
  | .gcCollect, _ => do
      Build.gcCollect
      return noValue
  | _, _ => fail .missingArgument span

end Aero.Lowering
