import Aero.Lowering.Scope
import Aero.Proofs.Machine
import Aero.Syntax.TypeName
import Mathlib.Algebra.Ring.Int.Defs

/-!
What programs on whole numbers mean. Expressions are evaluated from left to right, names are looked up
from the innermost scope on, and results are cut to the width of their type. There is no meaning where
a quotient or a shift is not defined, or where a program leaves the part of the language that works on
whole numbers only.
-/

namespace Aero.Evaluation

open IR Lowering

/-- Names with the places of their variables, innermost scope first, and what the places hold. -/
structure Store where
  scopes : List (List (String × Nat)) := []
  cells : List Word := []

namespace Store

def push (m : Store) : Store := { m with scopes := [] :: m.scopes }

def pop (m : Store) : Store := { m with scopes := m.scopes.tail }

def place? (m : Store) (name : String) : Option Nat :=
  m.scopes.findSome? fun scope => (scope.find? (·.1 = name)).map (·.2)

def declare? (m : Store) (name : String) (x : Word) : Option Store :=
  match m.scopes with
  | scope :: scopes =>
    if scope.any (·.1 = name) then none
    else some ⟨((name, m.cells.length) :: scope) :: scopes, m.cells ++ [x]⟩
  | [] => none

def set (m : Store) (place : Nat) (x : Word) : Store := { m with cells := m.cells.set place x }

end Store

abbrev Compute (α : Type) : Type := Store → Option (α × Store)

/-! ### Expressions -/

def intWidth? : String → Option Nat
  | "bool" => some 1
  | "char" => some 8
  | "short" => some 16
  | "int" => some 32
  | "long" => some 64
  | _ => none

/-- Whole-number literals are of type `int`, and a character is one byte. -/
def literal? : Literal → Option Word
  | .number x => if isIntegral x then some (.ofInt 32 x.toInt64.toInt) else none
  | .char c => if c.toNat < 256 then some (.ofInt 8 c.toNat) else none
  | .bool b => some (.ofBool b)
  | .str _ => none

/-- Whether a quotient of signed numbers is defined and fits their width. -/
def divides (width : Nat) (a b : Int) : Bool := b ≠ 0 && !(a = -(2 ^ (width - 1)) && b = -1)

def onBits (width : Nat) (op : BitVec width → BitVec width → BitVec width) (a b : Int) : Int :=
  (op (.ofInt width a) (.ofInt width b)).toInt

/-- An arithmetic operation at a width, before its result is cut to the width. -/
def arithmetic? (op : BinOp) (width : Nat) (a b : Int) : Option Int :=
  match op with
  | .add => some (a + b)
  | .sub => some (a - b)
  | .mul => some (a * b)
  | .div => if divides width a b then some (a.tdiv b) else none
  | .mod => if divides width a b then some (a.tmod b) else none
  | .bitAnd => some (onBits width (· &&& ·) a b)
  | .bitOr => some (onBits width (· ||| ·) a b)
  | .bitXor => some (onBits width (· ^^^ ·) a b)
  | .shl => if 0 ≤ b ∧ b < width then some (a * 2 ^ b.toNat) else none
  | .shr => if 0 ≤ b ∧ b < width then some (a / 2 ^ b.toNat) else none
  | _ => none

def comparison? (op : BinOp) (a b : Int) : Option Bool :=
  match op with
  | .eq => some (a = b)
  | .ne => some (a ≠ b)
  | .lt => some (a < b)
  | .le => some (a ≤ b)
  | .gt => some (b < a)
  | .ge => some (b ≤ a)
  | _ => none

def commonWidth (x y : Word) : Nat := max (max x.width y.width) 32

/-- An operator between two numbers. The sum of two characters is a text. -/
def binary? (op : BinOp) (x y : Word) : Option Word :=
  match op with
  | .and => some (.ofBool (x.isTrue && y.isTrue))
  | .or => some (.ofBool (x.isTrue || y.isTrue))
  | op =>
    if op = .add ∧ x.width = 8 ∧ y.width = 8 then none
    else if op.isComparison then (comparison? op x.value y.value).map .ofBool
    else
      let width := commonWidth x y
      (arithmetic? op width x.value y.value).map (.ofInt width)

/-- An operator before a number, which keeps its width unless it is a truth value. -/
def unary (op : UnaryOp) (x : Word) : Word :=
  match op with
  | .neg => .ofInt x.width (-x.value)
  | .plus => x
  | .not => .ofBool (!x.isTrue)

def step? (op : StepOp) (x : Word) : Option Word :=
  if x.width = 1 then none
  else
    match op with
    | .inc => some (.ofInt x.width (x.value + 1))
    | .dec => some (.ofInt x.width (x.value - 1))

def modify (name : String) (change : Word → Option Word) : Compute Word := fun m => do
  let place ← m.place? name
  let x ← change (← m.cells[place]?)
  return (x, m.set place x)

/-- Both operands of an operator are evaluated. -/
def expr : Expr → Compute Word
  | .literal l => fun m => do return (← literal? l, m)
  | .var name => fun m => do return (← m.cells[← m.place? name]?, m)
  | .paren ⟨inner, _⟩ => expr inner
  | .binary op ⟨l, _⟩ ⟨r, _⟩ => fun m => do
      let (x, m) ← expr l m
      let (y, m) ← expr r m
      return (← binary? op x y, m)
  | .unary op ⟨e, _⟩ => fun m => do
      let (x, m) ← expr e m
      return (unary op x, m)
  | .step op ⟨.var name, _⟩ => modify name (step? op)
  | .cast target ⟨e, _⟩ => fun m => do
      let width ← intWidth? target.node
      let (x, m) ← expr e m
      return (x.convert width, m)
  | _ => fun _ => none

/-- In a guard, the right side of a connective is evaluated only if the left side leaves the outcome
open. -/
def guard : Expr → Compute Bool
  | .paren ⟨inner, _⟩ => guard inner
  | .binary .and ⟨l, _⟩ ⟨r, _⟩ => fun m => do
      let (b, m) ← guard l m
      if b then guard r m else return (false, m)
  | .binary .or ⟨l, _⟩ ⟨r, _⟩ => fun m => do
      let (b, m) ← guard l m
      if b then return (true, m) else guard r m
  | .unary .not ⟨e, _⟩ => fun m => do
      let (b, m) ← guard e m
      return (!b, m)
  | e => fun m => do
      let (x, m) ← expr e m
      return (x.isTrue, m)

/-! ### Statements -/

/-- How a statement ends. -/
inductive Flow where
  /-- The next statement is reached. -/
  | next
  /-- The innermost loop is left. -/
  | leave
  | ret (value : Option Datum)

def andThen (first second : Compute Flow) : Compute Flow := fun m => do
  let (flow, m) ← first m
  match flow with
  | .next => second m
  | flow => return (flow, m)

def inScope (act : Compute Flow) : Compute Flow := fun m => do
  let (flow, m) ← act m.push
  return (flow, m.pop)

/-- The body of the first branch whose guard holds, or else the last part. -/
def choose (otherwise : Compute Flow) : List (Compute Bool × Compute Flow) → Compute Flow
  | [] => otherwise
  | (guard, body) :: arms => fun m => do
      let (b, m) ← guard m
      if b then body m else choose otherwise arms m

/-- A loop that begins its body fewer times than a bound. -/
def loop (guard : Compute Bool) (body : Compute Flow) (step : Store → Option Store) : Nat → Compute Flow
  | 0, _ => none
  | bound + 1, m => do
      let (b, m) ← guard m
      if !b then return (.next, m)
      else
        let (flow, m) ← body m
        match flow with
        | .next => loop guard body step bound (← step m)
        | .leave => return (.next, m)
        | .ret value => return (.ret value, m)

def zero? : Ty → Option Datum
  | .void => none
  | .int width => some (.int (.ofInt width 0))
  | .float => some (.float (toSingle 0.0))
  | .double => some (.float 0.0)
  | .array .. | .struct .. => some .undef
  | .ptr => some .null

def returned? (ret : Ty) (x : Word) : Option Datum :=
  match ret with
  | .int width => some (.int (x.convert width))
  | .float => some (.float (toSingle x.toFloat))
  | .double => some (.float x.toFloat)
  | _ => none

def typeWidth? (t : TypeName) : Option Nat := if t.isArray then none else intWidth? t.name

/-- The first value of a variable of some width, which is zero if none is written. -/
def valueAt (width : Nat) : Option Expr → Compute Word
  | some e => fun m => do
      let (x, m) ← expr e m
      return (x.convert width, m)
  | none => fun m => some (.ofInt width 0, m)

/-- The first value of a declared variable. Without a type, the value has the width it comes with. -/
def initial (ty : Option TypeName) (init : Option Expr) : Compute Word :=
  match ty.filter (!·.isAuto), init with
  | some t, init => fun m => do valueAt (← typeWidth? t) init m
  | none, some e => expr e
  | none, none => fun _ => none

def assign (name : String) (value : Compute Word) : Store → Option Store := fun m => do
  let place ← m.place? name
  let (x, m) ← value m
  return m.set place (x.convert (← m.cells[place]?).width)

/-- The current value of a variable is read before the other operand is evaluated. -/
def combine (op : BinOp) (name : String) (value : Compute Word) : Store → Option Store := fun m => do
  let place ← m.place? name
  let current ← m.cells[place]?
  let (y, m) ← value m
  let x ← binary? op current y
  return m.set place (x.convert current.width)

def after : Option (Spanned Expr) → Store → Option Store
  | some e => fun m => (expr e.node m).map (·.2)
  | none => some

/-- The guard of a loop; without one the loop goes on. -/
def during : Option (Spanned Expr) → Compute Bool
  | some e => guard e.node
  | none => fun m => some (true, m)

section

variable (bound : Nat) (ret : Ty)

mutual

/-- A statement of a function with a return type, in which every loop stays below a bound. -/
def stmt : Stmt → Compute Flow
  | .declare name ty init => fun m => do
      let (x, m) ← initial (ty.map (·.node)) (init.map (·.node)) m
      return (.next, ← m.declare? name.node x)
  | .assign ⟨.var name, _⟩ value => fun m => do return (.next, ← assign name (expr value.node) m)
  | .compoundAssign op ⟨.var name, _⟩ value => fun m =>
    if op.isArithmetic then do return (.next, ← combine op name (expr value.node) m) else none
  | .expr e => fun m => do return (.next, (← expr e.node m).2)
  | .ifElse branches none => choose (fun m => some (.next, m)) (arms branches)
  | .ifElse branches (some ⟨other, _⟩) => choose (block other) (arms branches)
  | .whileLoop cond ⟨body, _⟩ => loop (guard cond.node) (block body) some bound
  | .forLoop none cond step ⟨body, _⟩ =>
    inScope (loop (during cond) (block body) (after step) bound)
  | .forLoop (some ⟨init, _⟩) cond step ⟨body, _⟩ =>
    inScope (andThen (stmt init) (loop (during cond) (block body) (after step) bound))
  | .breakLoop => fun m => some (.leave, m)
  | .ret none => fun m => some (.ret (zero? ret), m)
  | .ret (some e) => fun m => do
      let (x, m) ← expr e.node m
      return (.ret (some (← returned? ret x)), m)
  | .block ⟨body, _⟩ => block body
  | _ => fun _ => none

def block : StmtBlock → Compute Flow
  | ⟨body⟩ => inScope (stmts body)

def stmts : List (Spanned Stmt) → Compute Flow
  | [] => fun m => some (.next, m)
  | ⟨first, _⟩ :: rest => andThen (stmt first) (stmts rest)

def arms : List Branch → List (Compute Bool × Compute Flow)
  | [] => []
  | ⟨cond, ⟨body, _⟩⟩ :: rest => (guard cond.node, block body) :: arms rest

end

end

/-! ### Functions -/

def bind? : List Binding → List Word → Store → Option Store
  | [], [], m => some m
  | p :: params, x :: args, m => do
      let width ← typeWidth? p.ty.node
      if x.width = width then bind? params args (← m.declare? p.name.node x) else none
  | _, _, _ => none

def returnType? (f : FnDef) : Option Ty :=
  match f.returnTy with
  | none => some .void
  | some t => if t.node.isArray then none else scalarType? t.node.name

/-- The value of a call, if every loop stays below a bound. A function that ends without a `return`
gives zero. -/
def call (bound : Nat) (f : FnDef) (args : List Word) : Option (Option Datum) := do
  let ret ← returnType? f
  let m ← bind? f.params args (Store.push {})
  match (← stmts bound ret f.body.node.stmts m).1 with
  | .next => some (zero? ret)
  | .leave => none
  | .ret value => some value

end Aero.Evaluation
