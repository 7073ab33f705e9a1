import Aero.Diagnostic

/-!
Programs as trees: operators, expressions and places, statements, and the functions and structs of a file.
-/

namespace Aero

inductive BinOp where
  | add | sub | mul | div | mod
  | eq | ne | lt | le | gt | ge
  | and | or
  | bitAnd | bitOr | bitXor | shl | shr
deriving DecidableEq, Repr

namespace BinOp

def all : List BinOp :=
  [add, sub, mul, div, mod, eq, ne, lt, le, gt, ge, and, or, bitAnd, bitOr, bitXor, shl, shr]

def symbol : BinOp → String
  | add => "+"
  | sub => "-"
  | mul => "*"
  | div => "/"
  | mod => "%"
  | eq => "=="
  | ne => "!="
  | lt => "<"
  | le => "<="
  | gt => ">"
  | ge => ">="
  | and => "&&"
  | or => "||"
  | bitAnd => "&"
  | bitOr => "|"
  | bitXor => "^"
  | shl => "<<"
  | shr => ">>"

def ofSymbol? (s : String) : Option BinOp := all.find? (·.symbol = s)

def isComparison : BinOp → Bool
  | eq | ne | lt | le | gt | ge => true
  | _ => false

def isLogical : BinOp → Bool
  | and | or => true
  | _ => false

/-- Whether an operator may be joined with an assignment. -/
def isArithmetic : BinOp → Bool
  | add | sub | mul | div | mod => true
  | _ => false

end BinOp

inductive UnaryOp where
  | neg | plus | not
deriving DecidableEq, Repr

namespace UnaryOp

def all : List UnaryOp := [neg, plus, not]

def symbol : UnaryOp → String
  | neg => "-"
  | plus => "+"
  | not => "!"

def ofSymbol? (s : String) : Option UnaryOp := all.find? (·.symbol = s)

end UnaryOp

inductive StepOp where
  | inc | dec
deriving DecidableEq, Repr

namespace StepOp

def all : List StepOp := [inc, dec]

def symbol : StepOp → String
  | inc => "++"
  | dec => "--"

def ofSymbol? (s : String) : Option StepOp := all.find? (·.symbol = s)

end StepOp

inductive Literal where
  | number (x : Float)
  | str (s : String)
  | char (c : Char)
  | bool (b : Bool)
deriving DecidableEq

mutual

inductive Expr where
  | literal (value : Literal)
  | var (name : String)
  | paren (inner : Spanned Expr)
  | binary (op : BinOp) (lhs rhs : Spanned Expr)
  | unary (op : UnaryOp) (operand : Spanned Expr)
  | step (op : StepOp) (place : Spanned Place)
  | cast (target : Spanned String) (operand : Spanned Expr)
  | call (name : Spanned String) (args : List (Spanned Expr))
  | methodCall (receiver : Spanned Expr) (method : Spanned String) (args : List (Spanned Expr))
  | field (object : Spanned Expr) (name : Spanned String)
  | array (elems : List (Spanned Expr))
  | index (base : Spanned Expr) (indices : List (Spanned Expr))

/-- What can be assigned to. -/
inductive Place where
  | var (name : String)
  | field (object : Spanned Place) (name : Spanned String)
  | index (base : Spanned Place) (indices : List (Spanned Expr))

end

/-- One dimension of an array type: of unknown size, or sized by an expression. -/
inductive ArrayDim where
  | unsized
  | sized (size : Spanned Expr)

/-- A type as it is written: a name and array dimensions. -/
structure TypeName where
  name : String
  dims : List ArrayDim := []

mutual

inductive Stmt where
  /-- A new variable, of the given or an inferred type. -/
  | declare (name : Spanned String) (ty : Option (Spanned TypeName)) (init : Option (Spanned Expr))
  | assign (place : Spanned Place) (value : Spanned Expr)
  | compoundAssign (op : BinOp) (place : Spanned Place) (value : Spanned Expr)
  | expr (value : Spanned Expr)
  | ifElse (branches : List Branch) (otherwise : Option (Spanned StmtBlock))
  | whileLoop (cond : Spanned Expr) (body : Spanned StmtBlock)
  | forLoop (init : Option (Spanned Stmt)) (cond step : Option (Spanned Expr))
      (body : Spanned StmtBlock)
  | breakLoop
  | ret (value : Option (Spanned Expr))
  | block (body : Spanned StmtBlock)
  | inline (lang code : String) (volatile : Bool)

structure StmtBlock where
  stmts : List (Spanned Stmt)

structure Branch where
  cond : Spanned Expr
  body : Spanned StmtBlock

end

structure Binding where
  name : Spanned String
  ty : Spanned TypeName

/-- A function or a method; without a return type it returns nothing. -/
structure FnDef where
  name : Spanned String
  params : List Binding
  returnTy : Option (Spanned TypeName)
  body : Spanned StmtBlock

structure StructDef where
  name : Spanned String
  fields : List Binding
  methods : List FnDef

inductive Item where
  | fn (definition : FnDef)
  | struct (definition : StructDef)

structure File where
  name : String
  items : List (Spanned Item)

end Aero
