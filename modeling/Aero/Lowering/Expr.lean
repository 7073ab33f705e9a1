import Aero.Lowering.Call
import Aero.Lowering.Intrinsic

/-!
Expressions. Parts are evaluated from left to right, and every part is evaluated. Only in guards of branches and loops
is the right side of a connective evaluated only if the left side leaves the outcome open.
-/

namespace Aero.Lowering

open IR

/-- A constant. Whole numbers are of type `int` and others of type `double`; a character is one
byte. -/
def lowerLiteral (l : Literal) (span : Span) : Lower Value :=
  match l with
  | .number x => pure (if isIntegral x then Build.int32 x.toInt64 else .ofDouble x)
  | .str s => Build.constString s
  | .char c =>
      if c.toNat < 256 then pure (Build.int8 (Int64.ofNat c.toNat)) else fail (.charRange c) span
  | .bool b => pure (.ofBool b)

/-- The value of a variable. A fixed array stands for the address of its first element. -/
def lowerVar (name : String) (span : Span) : Lower Value := do
  let slot ← lookup name span
  match slot.ty with
  | .struct struct => fail (.structAsValue name struct) span
  | .array elem len =>
      let zeros := List.replicate ((Ty.array elem len).rank + 1) (Build.int32 0)
      Build.gep slot.ty slot.ptr zeros
  | ty => Build.load ty slot.ptr

def variablePlace (name : String) (span : Span) : Lower PlaceRef := do
  let slot ← lookup name span
  if slot.ty.isStruct then fail (.structAssigned name) span
  else if slot.ty.isArray then fail (.arrayAssigned name) span
  else return { ptr := slot.ptr, ty := slot.ty }

/-- A call of a builtin function, or else of a function of the program. -/
def lowerCall (name : Spanned String) (args : List Operand) (span : Span) : Lower Value := do
  match (← read).builtins.get? name.node with
  | some builtin =>
      match builtin.arityProblem? args.length with
      | some problem => fail problem span
      | none =>
          note .trace ("builtin " ++ builtin.name ++ "(" ++ toString args.length ++ " args)")
          lowerBuiltin builtin.handler args span
  | none => callFunction name args span

/-- The place of a byte of the string that a place holds. -/
def nestedPlace (base : PlaceRef) (baseSpan : Span) (indices : List Operand) (access : Access)
    (span : Span) : Lower PlaceRef := do
  if base.ty.isPtr then
    let s ← Build.load .ptr base.ptr
    stringPlace s indices access span
  else fail (.notIndexable base.ty) baseSpan

mutual

def lowerExpr (span : Span) : Expr → Lower Value
  | .literal l => lowerLiteral l span
  | .var name => lowerVar name span
  | .paren ⟨inner, span⟩ => lowerExpr span inner
  | .binary op ⟨l, lspan⟩ ⟨r, rspan⟩ => do
      let l ← lowerExpr lspan l
      let r ← lowerExpr rspan r
      binaryValues op l r span
  | .unary op ⟨e, espan⟩ => do
      let v ← lowerExpr espan e
      unaryValue op v span
  | .step op ⟨place, pspan⟩ => do
      let target ← lowerPlace .compound pspan place
      stepPlace op target span
  | .cast target ⟨e, espan⟩ => cast target (lowerExpr espan e) span
  | .call name args => lowerCall name (operands args) span
  | .methodCall receiver method args => callMethod receiver method (operands args) span
  | .field object name => loadField object name
  | .array elems => do
      let (buffer, _) ← arrayLiteral (operands elems) none span
      return buffer
  | .index ⟨base, bspan⟩ indices =>
      loadElement ⟨base, bspan, lowerExpr bspan base⟩ (operands indices) span

def operands : List (Spanned Expr) → List Operand
  | [] => []
  | ⟨e, span⟩ :: es => ⟨e, span, lowerExpr span e⟩ :: operands es

def lowerPlace (access : Access) (span : Span) : Place → Lower PlaceRef
  | .var name => variablePlace name span
  | .field ⟨object, ospan⟩ name => do
      let object ← placeObject ospan object
      fieldPlace object name
  | .index ⟨.var name, nspan⟩ indices => do
      let slot ← lookup name nspan
      elementPlace name slot (operands indices) access span
  | .index ⟨.field object name, bspan⟩ indices => do
      let base ← lowerPlace access bspan (.field object name)
      nestedPlace base bspan (operands indices) access span
  | .index ⟨.index base inner, bspan⟩ indices => do
      let base ← lowerPlace access bspan (.index base inner)
      nestedPlace base bspan (operands indices) access span

end

def lower (e : Spanned Expr) : Lower Value := lowerExpr e.span e.node

/-! ### Guards -/

inductive Connective where
  | and
  | or
deriving DecidableEq, Repr

namespace Connective

def rhsLabel : Connective → String
  | and => "land.rhs"
  | or => "lor.rhs"

def endLabel : Connective → String
  | and => "land.end"
  | or => "lor.end"

def skipped : Connective → Bool
  | and => false
  | or => true

/-- Goes to the right side, or past it if the left side settles the outcome. -/
def branch (op : Connective) (l : Value) (rhs past : BlockId) : Build Unit :=
  match op with
  | and => Build.condBr l rhs past
  | or => Build.condBr l past rhs

end Connective

def currentBlock : Lower BlockId := do
  match (← state).builder.insert with
  | some block => return block
  | none => fail .guardOutsideBlock .none

/-- Evaluates the left side, and the right side where the outcome is still open. -/
def shortCircuit (op : Connective) (lhs rhs : Lower Value) : Lower Value := do
  let l ← lhs
  let lhsEnd ← currentBlock
  let rhsBlock ← Build.appendBlock op.rhsLabel
  let endBlock ← Build.appendBlock op.endLabel
  op.branch l rhsBlock endBlock
  Build.position rhsBlock
  let r ← rhs
  let rhsEnd ← currentBlock
  Build.br endBlock
  Build.moveBlockToEnd endBlock
  Build.position endBlock
  Build.phi .i1 [(.ofBool op.skipped, lhsEnd), (r, rhsEnd)]

def lowerGuard (span : Span) : Expr → Lower Value
  | .paren ⟨inner, span⟩ => lowerGuard span inner
  | .binary .and ⟨l, lspan⟩ ⟨r, rspan⟩ =>
      shortCircuit .and (lowerGuard lspan l) (lowerGuard rspan r)
  | .binary .or ⟨l, lspan⟩ ⟨r, rspan⟩ =>
      shortCircuit .or (lowerGuard lspan l) (lowerGuard rspan r)
  | .unary .not ⟨e, espan⟩ => do
      let b ← lowerGuard espan e
      Build.not b
  | e => do
      let v ← lowerExpr span e
      toBool v span

def guard (e : Spanned Expr) : Lower Value := lowerGuard e.span e.node

end Aero.Lowering
