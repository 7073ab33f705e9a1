import Aero.Decimal

/-!
Types of the intermediate representation, and the operands of instructions: constants, registers and the addresses of
globals. Pointers are opaque, so a load, a store or an address computation names the type it works on.
-/

namespace Aero.IR

/-- A type of values: integers have a width in bits, and a struct is named. -/
inductive Ty where
  | void
  | int (bits : Nat)
  | float
  | double
  | ptr
  | array (elem : Ty) (len : Nat)
  | struct (name : String)
deriving DecidableEq, Repr, Inhabited

namespace Ty

abbrev i1 : Ty := .int 1

abbrev i8 : Ty := .int 8

abbrev i16 : Ty := .int 16

abbrev i32 : Ty := .int 32

abbrev i64 : Ty := .int 64

def isInt : Ty → Bool
  | int _ => true
  | _ => false

def isBool (t : Ty) : Bool := t = i1

def isChar (t : Ty) : Bool := t = i8

def isFp : Ty → Bool
  | float | double => true
  | _ => false

def isPtr (t : Ty) : Bool := t = .ptr

def isArray : Ty → Bool
  | array _ _ => true
  | _ => false

def isStruct : Ty → Bool
  | struct _ => true
  | _ => false

def isVoid (t : Ty) : Bool := t = .void

def isNumeric (t : Ty) : Bool := t.isInt || t.isFp

def width? : Ty → Option Nat
  | int bits => some bits
  | _ => none

def structName? : Ty → Option String
  | struct name => some name
  | _ => none

def arrayParts? : Ty → Option (Ty × Nat)
  | array elem len => some (elem, len)
  | _ => none

/-- The innermost element type of a nest of arrays. -/
def scalarElem : Ty → Ty
  | array elem _ => elem.scalarElem
  | t => t

def rank : Ty → Nat
  | array elem _ => elem.rank + 1
  | _ => 0

def text : Ty → String
  | void => "void"
  | int bits => "i" ++ toString bits
  | float => "float"
  | double => "double"
  | ptr => "ptr"
  | array elem len => "[" ++ toString len ++ " x " ++ elem.text ++ "]"
  | struct name => "%" ++ name

end Ty

abbrev Reg := Nat

inductive ValueKind where
  | int (v : Int64)
  | float (v : Float)
  | null
  | undef
  | reg (r : Reg)
  | global (name : String)
deriving DecidableEq

structure Value where
  kind : ValueKind
  ty : Ty
deriving DecidableEq

/-- The nearest single-precision number, held as a double. -/
def toSingle (x : Float) : Float := x.toFloat32.toFloat

namespace Value

def ofBool (b : Bool) : Value := ⟨.int (if b then 1 else 0), .i1⟩

def ofSingle (x : Float) : Value := ⟨.float (toSingle x), .float⟩

def ofDouble (x : Float) : Value := ⟨.float x, .double⟩

def null : Value := ⟨.null, .ptr⟩

def undef (ty : Ty) : Value := ⟨.undef, ty⟩

def ofReg (r : Reg) (ty : Ty) : Value := ⟨.reg r, ty⟩

def global (name : String) : Value := ⟨.global name, .ptr⟩

def int? (v : Value) : Option Int64 :=
  match v.kind with
  | .int n => some n
  | _ => none

def float? (v : Value) : Option Float :=
  match v.kind with
  | .float x => some x
  | _ => none

def reg? (v : Value) : Option Reg :=
  match v.kind with
  | .reg r => some r
  | _ => none

def isConst (v : Value) : Bool :=
  match v.kind with
  | .int _ | .float _ | .null => true
  | _ => false

/-- Floating-point constants show a point or an exponent, and stay positional from a ten-thousandth
up to before ten to the sixteenth. -/
def numberLayout : Decimal.Layout :=
  { positional := some (-4, 16), keepPoint := true, plusSign := false, tie := .up }

end Value

def Reg.text (r : Reg) : String := "%v" ++ toString r

/-- The spelling of an operand; truth values are words. -/
def Value.text (v : Value) : String :=
  match v.kind with
  | .int n =>
      if v.ty.isBool then (if n = 0 then "false" else "true") else toString n.toInt
  | .float x => numberLayout.render x
  | .null => "null"
  | .undef => "undef"
  | .reg r => Reg.text r
  | .global name => "@" ++ name

/-- An operand after its type, as in `i32 %v3`. -/
def Value.typed (v : Value) : String := v.ty.text ++ " " ++ v.text

end Aero.IR
