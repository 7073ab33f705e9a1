import Aero.IR.Value

/-!
Source types, and names in scope. A stack of frames maps names to the slots that hold their values; the outermost frame
is always there.
-/

namespace Aero.Lowering

open IR

def scalarType? (name : String) : Option Ty :=
  match name with
  | "int" => some .i32
  | "long" => some .i64
  | "short" => some .i16
  | "float" => some .float
  | "double" => some .double
  | "char" => some .i8
  | "bool" => some .i1
  | "string" => some .ptr
  | "void" => some .void
  | _ => if name.toList.getLast? = some '*' then some .ptr else none

def sourceName : Ty → String
  | .int 32 => "int"
  | .int 64 => "long"
  | .int 16 => "short"
  | .int 8 => "char"
  | .int 1 => "bool"
  | .float => "float"
  | .double => "double"
  | .ptr => "string"
  | .void => "void"
  | _ => "unknown"

def isIntegral (x : Float) : Bool :=
  !x.isNaN && !x.isInf && x == x.floor && x.abs ≤ 2147483647.0

def promoted? (lhs rhs : Ty) : Option Ty :=
  if lhs = .double || rhs = .double then
    if lhs.isNumeric && rhs.isNumeric then some .double else none
  else if lhs = .float || rhs = .float then
    if lhs.isNumeric && rhs.isNumeric then some .float else none
  else
    match lhs.width?, rhs.width? with
    | some a, some b => some (.int (max (max a b) 32))
    | _, _ => none

def maxArrayDims : Nat := 2

/-- How the elements of an array are held. -/
inductive ArrayStorage where
  /-- The slot is the array. -/
  | stack
  /-- The slot points at a buffer on the heap. -/
  | heap
  /-- The slot points at the elements of an array of the caller. -/
  | param
  /-- The slot points at a table of rows. -/
  | rows
deriving DecidableEq, Repr

/-- Elements and dimensions of an array; a size that is only known at run time is absent. -/
structure ArrayShape where
  elem : Ty
  dims : List (Option Nat)
  storage : ArrayStorage
deriving DecidableEq, Repr

namespace ArrayShape

def fixed (elem : Ty) (dims : List Nat) : ArrayShape := ⟨elem, dims.map some, .stack⟩

def heap (elem : Ty) : ArrayShape := ⟨elem, [none], .heap⟩

def param (elem : Ty) (rank : Nat) : ArrayShape :=
  if rank = 2 then ⟨elem, [none, none], .rows⟩ else ⟨elem, [none], .param⟩

def rank (s : ArrayShape) : Nat := s.dims.length

def describe (s : ArrayShape) : String :=
  sourceName s.elem ++ String.join (s.dims.map fun dim => "[" ++ (dim.elim "" fun n => toString n) ++ "]")

end ArrayShape

structure Slot where
  ptr : Value
  ty : Ty
  array : Option ArrayShape := none
  /-- The lengths that an array parameter came with, one for each dimension. -/
  extents : List Value := []
deriving DecidableEq

/-- The names declared in one block, latest first. -/
abbrev Frame := List (String × Slot)

/-- The frames in scope, innermost first, and the frame around all of them. -/
structure Scopes where
  inner : List Frame := []
  outermost : Frame := []

namespace Scopes

def push (s : Scopes) : Scopes := { s with inner := [] :: s.inner }

def pop (s : Scopes) : Scopes := { s with inner := s.inner.tail }

def depth (s : Scopes) : Nat := s.inner.length + 1

def reset (s : Scopes) : Scopes := { s with inner := [] }

def top (s : Scopes) : Frame := s.inner.head?.getD s.outermost

def isDeclaredHere (s : Scopes) (name : String) : Bool := s.top.any (·.1 = name)

/-- The scopes with a name added to the innermost frame, unless it is there already. -/
def declare? (s : Scopes) (name : String) (slot : Slot) : Option Scopes :=
  if s.isDeclaredHere name then none
  else
    match s.inner with
    | frame :: inner => some { s with inner := ((name, slot) :: frame) :: inner }
    | [] => some { s with outermost := (name, slot) :: s.outermost }

/-- The slot of a name, from the innermost frame that declares it. -/
def resolve? (s : Scopes) (name : String) : Option Slot :=
  (s.inner ++ [s.outermost]).findSome? fun frame => (frame.find? (·.1 = name)).map (·.2)

end Scopes

end Aero.Lowering
