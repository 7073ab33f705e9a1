import Aero.Lowering.State

/-!
Strings at run time, and conversions between types: those that happen of themselves where a value meets a type, and
those that a cast asks for. A string is the address of bytes that end with a zero byte; each operation that makes one
allocates a buffer for it.
-/

namespace Aero.Lowering.Text

open IR

def numberBuffer : Int64 := 32

def formatted (format : String) (value : Value) : Build Value := do
  let buffer ← Build.trackedMalloc (Build.int64 numberBuffer) 1
  let format ← Build.constString format
  discard (Build.callPrimitive .sprintf [buffer, format, value])
  return buffer

def ofChar (c : Value) : Build Value := do
  let buffer ← Build.trackedMalloc (Build.int64 2) 1
  Build.store c buffer
  let stop ← Build.gep .i8 buffer [Build.int32 1]
  Build.store (Build.int8 0) stop
  return buffer

/-- The text of a scalar: a word for a truth value, the character, or the digits of a number. A
string is its own text. -/
def ofValue (value : Value) : Build Value :=
  match value.ty with
  | .int 1 => do
      let yes ← Build.constString "true"
      let no ← Build.constString "false"
      Build.select value yes no
  | .int 8 => ofChar value
  | .int 64 => formatted "%ld" value
  | .int _ => do formatted "%d" (← Build.intCast value .i32 true)
  | .float | .double => do formatted "%.6f" (← Build.fpCast value .double)
  | _ => pure value

def concat (a b : Value) : Build Value := do
  let lenA ← Build.strlen a
  let lenB ← Build.strlen b
  let total ← Build.add lenA lenB
  let size ← Build.add total (Build.int64 1)
  let buffer ← Build.trackedMalloc size 1
  discard (Build.callPrimitive .strcpy [buffer, a])
  discard (Build.callPrimitive .strcat [buffer, b])
  return buffer

def append (s c : Value) : Build Value := do
  let len ← Build.strlen s
  let size ← Build.add len (Build.int64 2)
  let buffer ← Build.trackedMalloc size 1
  discard (Build.callPrimitive .strcpy [buffer, s])
  let last ← Build.gep .i8 buffer [len]
  Build.store c last
  let stop ← Build.add len (Build.int64 1)
  let stop ← Build.gep .i8 buffer [stop]
  Build.store (Build.int8 0) stop
  return buffer

def storeAt (buffer : Value) (i : Int64) (c : Value) : Build Unit := do
  let ptr ← Build.gep .i8 buffer [Build.int32 i]
  Build.store c ptr

def ofPair (a b : Value) : Build Value := do
  let buffer ← Build.trackedMalloc (Build.int64 3) 1
  storeAt buffer 0 a
  storeAt buffer 1 b
  storeAt buffer 2 (Build.int8 0)
  return buffer

/-- The sum of two values of which one is a string. -/
def add (l r : Value) : Build Value := do
  if l.ty.isPtr && r.ty.isChar then append l r
  else
    let l ← ofValue l
    let r ← ofValue r
    concat l r

end Aero.Lowering.Text

namespace Aero.Lowering

open IR

def isNonzero (value : Value) : Build Value := Build.icmp .ne value (Build.zero value.ty)

def isNonzeroFloat (value : Value) : Build Value := Build.fcmp .one value (Build.zero value.ty)

/-- The number at the start of a string. -/
def floatOfText (value : Value) (target : Ty) : Build Value := do
  let x ← Build.callPrimitive .strtod [value, .null]
  Build.fpCast x target

/-- The value converted to a type, or the problem of its context. -/
def coerce (value : Value) (target : Ty) (context : Coercion) (span : Span) : Lower Value :=
  if value.ty = target then pure value
  else
    match value.ty, target with
    | .int _, .int 1 | .ptr, .int 1 => isNonzero value
    | .float, .int 1 | .double, .int 1 => isNonzeroFloat value
    | .int _, .int _ => Build.intCast value target true
    | .int _, .float | .int _, .double => Build.siToFp value target
    | .float, .int _ | .double, .int _ => Build.fpToSi value target
    | .float, .double | .double, .float => Build.fpCast value target
    | .ptr, .int _ => do
        let n ← Build.callPrimitive .atoi [value]
        Build.intCast n target true
    | .ptr, .float | .ptr, .double => floatOfText value target
    | .int _, .ptr | .float, .ptr | .double, .ptr => Text.ofValue value
    | source, target => fail (.mismatch context (.conversion source target)) span

def toBool (value : Value) (span : Span) : Lower Value :=
  match value.ty with
  | .int 1 => pure value
  | .int _ | .ptr => isNonzero value
  | .float | .double => isNonzeroFloat value
  | _ => fail .notBoolean span

def promotePair (lhs rhs : Value) (span : Span) : Lower (Value × Value) :=
  match promoted? lhs.ty rhs.ty with
  | none => fail (.incompatibleOperands lhs.ty rhs.ty) span
  | some target => do
      let l ← coerce lhs target .operand span
      let r ← coerce rhs target .operand span
      return (l, r)

def isCastTarget (name : String) : Bool :=
  ["int", "long", "short", "float", "double", "char", "bool", "string"].contains name

/-- The value converted to another type by a cast. Of a string, an integer takes the first
character. -/
def castValue (value : Value) (target : Ty) (span : Span) : Lower Value :=
  match value.ty, target with
  | _, .int 1 => toBool value span
  | .int 8, .ptr => Text.ofChar value
  | .int _, .ptr | .float, .ptr | .double, .ptr => Text.ofValue value
  | .ptr, .int _ => do
      let c ← Build.load .i8 value
      Build.intCast c target true
  | .ptr, .float | .ptr, .double => floatOfText value target
  | .int _, .int _ | .int _, .float | .int _, .double | .float, .int _ | .float, .double
  | .double, .int _ | .double, .float => coerce value target .operand span
  | source, target => fail (.castUnsupported source target) span

/-- A cast of what an action computes. The target is looked at first. -/
def cast (target : Spanned String) (operand : Lower Value) (span : Span) : Lower Value :=
  match (scalarType? target.node).filter fun _ => isCastTarget target.node with
  | none => fail (.castTarget target.node) target.span
  | some ty => do
      let value ← operand
      if value.ty = ty then
        warn .castNotNeeded span
        return value
      else castValue value ty span

/-- A returned value at the return type; strings are never converted. -/
def coerceReturn (value : Value) (ret : Ty) (span : Span) : Lower Value :=
  if value.ty ≠ ret && (value.ty.isPtr || ret.isPtr) then
    fail (.mismatch .returned (.conversion value.ty ret)) span
  else coerce value ret .returned span

end Aero.Lowering
