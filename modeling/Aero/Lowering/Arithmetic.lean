import Aero.Lowering.Conversion

/-!
Operators on values. Both operands of a binary operator are evaluated before; a sum with a string
joins texts.
-/

namespace Aero.Lowering

open IR

def intPredicate : BinOp → IntPredicate
  | .eq => .eq
  | .ne => .ne
  | .lt => .slt
  | .le => .sle
  | .gt => .sgt
  | _ => .sge

def floatPredicate : BinOp → FloatPredicate
  | .eq => .oeq
  | .ne => .one
  | .lt => .olt
  | .le => .ole
  | .gt => .ogt
  | _ => .oge

def isOperand (v : Value) : Bool := !(v.ty.isVoid || v.ty.isStruct || v.ty.isArray)

def arithmetic (op : Value → Value → Build Value) (l r : Value) (span : Span) : Lower Value := do
  let (l, r) ← promotePair l r span
  op l r

def compare (op : BinOp) (l r : Value) (span : Span) : Lower Value :=
  if l.ty.isPtr && r.ty.isPtr then do
    let order ← Build.callPrimitive .strcmp [l, r]
    Build.icmp (intPredicate op) order (Build.int32 0)
  else if l.ty.isPtr || r.ty.isPtr then fail (.notComparable l.ty r.ty) span
  else do
    let (l, r) ← promotePair l r span
    if l.ty.isFp then Build.fcmp (floatPredicate op) l r
    else Build.icmp (intPredicate op) l r

def bitwise (op : BinOp) (instr : BinaryOp) (l r : Value) (span : Span) : Lower Value :=
  if l.ty.isFp || r.ty.isFp then fail (.bitwiseOnFloats op) span
  else if l.ty.isPtr || r.ty.isPtr then fail (.bitwiseOnPointers op) span
  else arithmetic (Build.binary instr) l r span

/-- A connective of truth values; both sides are evaluated. -/
def logical (instr : BinaryOp) (l r : Value) (span : Span) : Lower Value := do
  let l ← toBool l span
  let r ← toBool r span
  Build.binary instr l r

def sum (l r : Value) (span : Span) : Lower Value :=
  if l.ty.isChar && r.ty.isChar then Text.ofPair l r
  else if l.ty.isPtr || r.ty.isPtr then Text.add l r
  else arithmetic Build.add l r span

def remainder (l r : Value) (span : Span) : Lower Value :=
  if l.ty.isFp || r.ty.isFp then fail .moduloOfFloats span
  else arithmetic Build.rem l r span

def binaryValues (op : BinOp) (l r : Value) (span : Span) : Lower Value :=
  if !isOperand l then fail (.invalidOperand op l.ty) span
  else if !isOperand r then fail (.invalidOperand op r.ty) span
  else
    match op with
    | .and => logical .and l r span
    | .or => logical .or l r span
    | .add => sum l r span
    | .sub => arithmetic Build.sub l r span
    | .mul => arithmetic Build.mul l r span
    | .div => arithmetic Build.div l r span
    | .mod => remainder l r span
    | .bitAnd => bitwise op .and l r span
    | .bitOr => bitwise op .or l r span
    | .bitXor => bitwise op .xor l r span
    | .shl => bitwise op .shl l r span
    | .shr => bitwise op .ashr l r span
    | .eq | .ne | .lt | .le | .gt | .ge => compare op l r span

def unaryValue (op : UnaryOp) (v : Value) (span : Span) : Lower Value :=
  match op with
  | .neg => if v.ty.isNumeric then Build.neg v else fail (.unaryOperand op v.ty) span
  | .plus => if v.ty.isNumeric then pure v else fail (.unaryOperand op v.ty) span
  | .not => do
      let b ← toBool v span
      Build.not b

def one (ty : Ty) : Value :=
  match ty with
  | .float => .ofSingle 1.0
  | .double => .ofDouble 1.0
  | _ => .ofInt ty 1

structure PlaceRef where
  ptr : Value
  ty : Ty
  /-- The place is a byte of a string, which takes characters only. -/
  stringByte : Bool := false
deriving DecidableEq

def stepPlace (op : StepOp) (target : PlaceRef) (span : Span) : Lower Value :=
  if !target.ty.isNumeric || target.ty.isBool then fail .stepOperand span
  else do
    let current ← Build.load target.ty target.ptr
    let next ←
      match op with
      | .inc => Build.add current (one target.ty)
      | .dec => Build.sub current (one target.ty)
    Build.store next target.ptr
    return next

end Aero.Lowering
