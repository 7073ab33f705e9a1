import Aero.IR.Instr

/-!
Constant folding. An operation on constants gives a constant when its result is defined; a division by zero, an
overflowing division and a shift beyond the width stay operations.
-/

namespace Aero.IR

/-- `a - b * trunc (a / b)`, with the sign of `a`. It is not a number if `a` is infinite or `b` is
zero. -/
def floatRem (a b : Float) : Float :=
  if a.isNaN || b.isNaN || a.isInf || b == 0.0 then 0.0 / 0.0
  else if b.isInf then a
  else
    let (m, p) := Decimal.parts a
    let (n, q) := Decimal.parts b
    let unit := min p q
    let rest := (m * Nat.pow 2 (p - unit).toNat) % (n * Nat.pow 2 (q - unit).toNat)
    let magnitude := (Float.ofNat rest).scaleB unit
    if Decimal.isNegative a then -magnitude else magnitude

/-- A 64-bit word cut to a width: a truth value is its lowest bit, and any other width is read as a
signed number. -/
def normalize (v : Int64) (bits : Nat) : Int64 :=
  if bits = 1 then v &&& 1
  else if 64 ≤ bits then v
  else
    let shift := Int64.ofNat (64 - bits)
    (v <<< shift) >>> shift

/-- The integer constant of a type that agrees with a word in the type's bits. -/
def Value.ofInt (ty : Ty) (v : Int64) : Value := ⟨.int (normalize v (ty.width?.getD 64)), ty⟩

def lowMask (bits : Nat) : UInt64 :=
  UInt64.ofNat (Nat.pow 2 (min bits 64) - 1)

def unsignedAt (bits : Nat) (v : Int64) : UInt64 := v.toUInt64 &&& lowMask bits

def IntPredicate.holds (pred : IntPredicate) (bits : Nat) (a b : Int64) : Bool :=
  match pred with
  | .eq => a = b
  | .ne => a ≠ b
  | .slt => a < b
  | .sle => a ≤ b
  | .sgt => b < a
  | .sge => b ≤ a
  | .ult => unsignedAt bits a < unsignedAt bits b
  | .uge => unsignedAt bits b ≤ unsignedAt bits a

def FloatPredicate.holds (pred : FloatPredicate) (a b : Float) : Bool :=
  match pred with
  | .oeq => a == b
  | .one => a != b && !a.isNaN && !b.isNaN
  | .olt => a < b
  | .ole => a ≤ b
  | .ogt => b < a
  | .oge => b ≤ a

def BinaryOp.onFloats? : BinaryOp → Float → Float → Option Float
  | .fadd, a, b => some (a + b)
  | .fsub, a, b => some (a - b)
  | .fmul, a, b => some (a * b)
  | .fdiv, a, b => some (a / b)
  | .frem, a, b => some (floatRem a b)
  | _, _, _ => none

def isShift (bits : Nat) (b : Int64) : Bool := 0 ≤ b.toInt && b.toInt < bits

/-- Whether a quotient of 64-bit words is defined. -/
def isDivision (a b : Int64) : Bool := b ≠ 0 && !(b = -1 && a = Int64.minValue)

/-- An integer operation on words, before its result is cut to the width. -/
def BinaryOp.onInts? (op : BinaryOp) (bits : Nat) (a b : Int64) : Option Int64 :=
  match op with
  | .add => some (a + b)
  | .sub => some (a - b)
  | .mul => some (a * b)
  | .and => some (a &&& b)
  | .or => some (a ||| b)
  | .xor => some (a ^^^ b)
  | .shl => if isShift bits b then some (a <<< b) else none
  | .ashr => if isShift bits b then some (a >>> b) else none
  | .sdiv => if isDivision a b then some (a / b) else none
  | .srem => if isDivision a b then some (a % b) else none
  | _ => none

def BinaryOp.isFloating : BinaryOp → Bool
  | .fadd | .fsub | .fmul | .fdiv | .frem => true
  | _ => false

/-- A floating-point constant of a type; any type but `float` counts as `double`. -/
def Value.ofFloat (ty : Ty) (x : Float) : Value :=
  if ty = .float then .ofSingle x else .ofDouble x

/-- The constant a two-operand operation gives, of its left operand's type. -/
def foldBinary? (op : BinaryOp) (lhs rhs : Value) : Option Value :=
  if op.isFloating then do
    let a ← lhs.float?
    let b ← rhs.float?
    let r ← op.onFloats? a b
    return .ofFloat lhs.ty r
  else do
    let a ← lhs.int?
    let b ← rhs.int?
    let bits ← lhs.ty.width?
    let r ← op.onInts? bits a b
    return .ofInt lhs.ty r

/-- The constant an integer comparison gives; operands without a width compare as words. -/
def foldIcmp? (pred : IntPredicate) (lhs rhs : Value) : Option Value := do
  let a ← lhs.int?
  let b ← rhs.int?
  return .ofBool (pred.holds (lhs.ty.width?.getD 64) a b)

def foldFcmp? (pred : FloatPredicate) (lhs rhs : Value) : Option Value := do
  let a ← lhs.float?
  let b ← rhs.float?
  return .ofBool (pred.holds a b)

/-- The constant a conversion gives. A number that is out of range as an integer goes to the nearest
word first, and NaN to zero. -/
def foldCast? (op : CastOp) (value : Value) (target : Ty) : Option Value :=
  match op with
  | .trunc | .sext => value.int?.map fun v => .ofInt target v
  | .zext => do
      let v ← value.int?
      let bits ← value.ty.width?
      return .ofInt target (unsignedAt bits v).toInt64
  | .sitofp => value.int?.map fun v => .ofFloat target v.toFloat
  | .fptosi => value.float?.map fun x => .ofInt target x.toInt64
  | .fpext | .fptrunc => value.float?.map fun x => .ofFloat target x

end Aero.IR
