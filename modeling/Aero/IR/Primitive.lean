import Aero.IR.Module

/-!
The functions that lowered code may call without defining them: the C library and the allocation
tracker. Each has one fixed signature.
-/

namespace Aero.IR

/-- A library function or an operation of the allocation tracker. -/
inductive Primitive where
  | malloc | free | printf | scanf | sprintf | strlen | strcpy | strcat | strcmp | atoi | atof
  | strtod | exit | atexit
  | gcRegister | gcUnregister | gcCollect | gcCleanup | gcGetSize | freePtrArray
deriving DecidableEq, Repr

/-- Parameter types, return type, and whether more arguments may follow. -/
structure Signature where
  params : List Ty
  ret : Ty
  variadic : Bool := false
deriving DecidableEq, Repr

namespace Primitive

def all : List Primitive :=
  [malloc, free, printf, scanf, sprintf, strlen, strcpy, strcat, strcmp, atoi, atof, strtod, exit,
    atexit, gcRegister, gcUnregister, gcCollect, gcCleanup, gcGetSize, freePtrArray]

def name : Primitive → String
  | malloc => "malloc"
  | free => "free"
  | printf => "printf"
  | scanf => "scanf"
  | sprintf => "sprintf"
  | strlen => "strlen"
  | strcpy => "strcpy"
  | strcat => "strcat"
  | strcmp => "strcmp"
  | atoi => "atoi"
  | atof => "atof"
  | strtod => "strtod"
  | exit => "exit"
  | atexit => "atexit"
  | gcRegister => "gc_register"
  | gcUnregister => "gc_unregister"
  | gcCollect => "gc_collect"
  | gcCleanup => "gc_cleanup"
  | gcGetSize => "gc_get_size"
  | freePtrArray => "free_ptr_array"

def ofName? (s : String) : Option Primitive := all.find? (·.name = s)

def signature : Primitive → Signature
  | malloc => ⟨[.i64], .ptr, false⟩
  | free => ⟨[.ptr], .void, false⟩
  | printf | scanf => ⟨[.ptr], .i32, true⟩
  | sprintf => ⟨[.ptr, .ptr], .i32, true⟩
  | strlen => ⟨[.ptr], .i64, false⟩
  | strcpy | strcat => ⟨[.ptr, .ptr], .ptr, false⟩
  | strcmp => ⟨[.ptr, .ptr], .i32, false⟩
  | atoi => ⟨[.ptr], .i32, false⟩
  | atof => ⟨[.ptr], .double, false⟩
  | strtod => ⟨[.ptr, .ptr], .double, false⟩
  | exit => ⟨[.i32], .void, false⟩
  | atexit => ⟨[.ptr], .i32, false⟩
  | gcRegister => ⟨[.ptr, .i64, .i32], .void, false⟩
  | gcUnregister => ⟨[.ptr], .void, false⟩
  | gcCollect | gcCleanup => ⟨[], .void, false⟩
  | gcGetSize => ⟨[.ptr], .i64, false⟩
  | freePtrArray => ⟨[.ptr, .i32], .void, false⟩

/-- The declaration of a primitive; its parameters are named by position. -/
def declaration (p : Primitive) : Function :=
  { name := p.name
    params := p.signature.params.zipIdx.map fun (ty, i) => ⟨"a" ++ toString i, ty⟩
    ret := p.signature.ret
    variadic := p.signature.variadic }

end Primitive

end Aero.IR
