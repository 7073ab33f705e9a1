import Aero.Lowering.Problem
import Aero.Text

/-!
The functions that every program can call. A table gives each a name, the number of arguments it
takes, and the operation that it stands for.
-/

namespace Aero.Lowering

inductive Arity where
  | exact (count : Nat)
  | range (least most : Nat)
deriving DecidableEq, Repr

namespace Arity

def accepts : Arity → Nat → Bool
  | exact count, n => n = count
  | range least most, n => least ≤ n && n ≤ most

def least : Arity → Nat
  | exact count => count
  | range least _ => least

def text : Arity → String
  | exact count => toString count
  | range least most => toString least ++ " to " ++ toString most

def describe : Arity → String
  | exact count => "Exact(" ++ toString count ++ ")"
  | range least most => "Range(" ++ toString least ++ ", " ++ toString most ++ ")"

end Arity

inductive Handler where
  | print | println | input | typeOf | toText | toInt | toFloat | toChar | toBool | exit | length
  | malloc | mallocTracked | free | freeDeep | gcCollect
deriving DecidableEq, Repr

structure Builtin where
  name : String
  arity : Arity
  handler : Handler
deriving DecidableEq, Repr

namespace Builtin

def arityProblem? (b : Builtin) (count : Nat) : Option Problem :=
  if b.arity.accepts count then none
  else if count = 0 && 0 < b.arity.least then some (.noArguments b.name)
  else some (.functionArity b.name b.arity.text count)

def describe (b : Builtin) : String :=
  "Builtin \x7b name: " ++ Text.quoted b.name ++ ", arity: " ++ b.arity.describe ++ " \x7d"

end Builtin

/-- Builtins by name; of each name there is one. -/
structure BuiltinTable where
  entries : List Builtin := []
deriving DecidableEq, Repr

namespace BuiltinTable

def register (t : BuiltinTable) (b : Builtin) : BuiltinTable :=
  ⟨t.entries.filter (·.name ≠ b.name) ++ [b]⟩

def ofList (bs : List Builtin) : BuiltinTable := bs.foldl register {}

def get? (t : BuiltinTable) (name : String) : Option Builtin := t.entries.find? (·.name = name)

def contains (t : BuiltinTable) (name : String) : Bool := (t.get? name).isSome

def size (t : BuiltinTable) : Nat := t.entries.length

def names (t : BuiltinTable) : List String :=
  (t.entries.map (·.name)).mergeSort fun a b => a ≤ b

def standard : BuiltinTable :=
  ofList [ ⟨"print", .exact 1, .print⟩, ⟨"println", .exact 1, .println⟩,
      ⟨"input", .range 0 1, .input⟩, ⟨"type", .exact 1, .typeOf⟩,
      ⟨"toString", .exact 1, .toText⟩, ⟨"str", .exact 1, .toText⟩,
      ⟨"int", .exact 1, .toInt⟩, ⟨"float", .exact 1, .toFloat⟩,
      ⟨"char", .exact 1, .toChar⟩, ⟨"bool", .exact 1, .toBool⟩,
      ⟨"exit", .range 0 1, .exit⟩, ⟨"len", .exact 1, .length⟩,
      ⟨"arraysize", .exact 1, .length⟩, ⟨"malloc", .exact 1, .malloc⟩,
      ⟨"malloc_tracked", .exact 1, .mallocTracked⟩, ⟨"free", .exact 1, .free⟩,
      ⟨"free_deep", .exact 2, .freeDeep⟩, ⟨"gc_collect", .exact 0, .gcCollect⟩ ]

end BuiltinTable

end Aero.Lowering
