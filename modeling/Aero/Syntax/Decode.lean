import Aero.Json.Reader
import Aero.Syntax.Tree

/-!
Programs from JSON. Records may be given by name or by position, and objects and arrays that matter
nest at most `nestingLimit` deep; each decoder takes the number of levels that are left.
-/

namespace Aero.Decode

/-- How deep the objects and arrays of a program may nest. -/
def nestingLimit : Nat := 127

def record? (names : List String) : (levels : Nat) → Json → Option (Nat × List (Option Json))
  | levels + 1, j => (j.fields? names).map (levels, ·)
  | 0, _ => none

def list? {α : Type} (elem : Nat → Json → Option α) : (levels : Nat) → Json → Option (List α)
  | levels + 1, .array elems => elems.mapM (elem levels)
  | _, _ => none

/-- The name and content of an alternative and the levels left for the content. -/
def alternative? : (levels : Nat) → Json → Option (Nat × String × Option Json)
  | levels, .str (some name) => some (levels, name, none)
  | levels + 1, j => (j.variant?).map (levels, ·)
  | 0, _ => none

def span? (levels : Nat) (j : Json) : Option Span := do
  match ← record? ["file_id", "start", "end", "line", "column"] levels j with
  | (_, [file, start, stop, line, column]) =>
      return {
        file := ← Json.orElse 0 (Json.unsigned? UInt16.size) file
        start := ← Json.orElse 0 (Json.unsigned? UInt32.size) start
        stop := ← Json.orElse 0 (Json.unsigned? UInt32.size) stop
        line := ← Json.orElse 0 (Json.unsigned? UInt32.size) line
        column := ← Json.orElse 0 (Json.unsigned? UInt32.size) column }
  | _ => none

/-- The node of a spanned thing, still to be decoded, its span, and the levels left. -/
def spannedParts? (levels : Nat) (j : Json) : Option (Nat × Json × Span) := do
  match ← record? ["node", "span"] levels j with
  | (levels, [some node, span]) => return (levels, node, ← Json.orElse {} (span? levels) span)
  | _ => none

/-- A spanned thing whose node holds nothing spanned of its kind. -/
def spanned? {α : Type} (node? : Nat → Json → Option α) (levels : Nat) (j : Json) : Option (Spanned α) := do
  let (levels, node, span) ← spannedParts? levels j
  return ⟨← node? levels node, span⟩

def name? (levels : Nat) (j : Json) : Option (Spanned String) :=
  spanned? (fun _ => Json.string?) levels j

/-- A name that is an alternative without content, among some. -/
def bare? {α : Type} (ofName? : String → Option α) (levels : Nat) (j : Json) : Option α := do
  let (_, name, content) ← alternative? levels j
  if Json.isBare content then ofName? name else none

def binOp? (levels : Nat) (j : Json) : Option BinOp := bare? BinOp.ofSymbol? levels j

def unaryOp? (levels : Nat) (j : Json) : Option UnaryOp := bare? UnaryOp.ofSymbol? levels j

def stepOp? (levels : Nat) (j : Json) : Option StepOp := bare? StepOp.ofSymbol? levels j

def char? (j : Json) : Option Char := do
  match (← j.string?).toList with
  | [c] => some c
  | _ => none

def literal? (levels : Nat) (j : Json) : Option Literal := do
  match ← alternative? levels j with
  | (_, "number", some v) => return .number (← v.float?)
  | (_, "str", some v) => return .str (← v.string?)
  | (_, "char", some v) => return .char (← char? v)
  | (_, "bool", some v) => return .bool (← v.bool?)
  | _ => none

def leaf? (levels : Nat) (name : String) (content : Json) : Option Expr :=
  match name with
  | "literal" => (literal? levels content).map Expr.literal
  | "var" => content.string?.map Expr.var
  | _ => none

mutual

def expr? : (levels : Nat) → Json → Option (Spanned Expr)
  | levels + 1, j => do
      let (_, node, span) ← spannedParts? (levels + 1) j
      return ⟨← exprNode? levels node, span⟩
  | 0, _ => none

/-- An expression, which is an alternative with content. -/
def exprNode? : (levels : Nat) → Json → Option Expr
  | levels + 1, j =>
    match j.variant?, levels with
    | some ("paren", some content), levels => (expr? levels content).map Expr.paren
    | some ("array_init", some content), levels => (exprs? levels content).map Expr.array
    | some ("bin_op", some content), levels + 1 =>
        match content.fields? ["op", "lhs", "rhs"] with
        | some [some op, some lhs, some rhs] => do
            let op ← binOp? levels op
            return .binary op (← expr? levels lhs) (← expr? levels rhs)
        | _ => none
    | some ("unary", some content), levels + 1 =>
        match content.fields? ["op", "operand"] with
        | some [some op, some operand] => do
            return .unary (← unaryOp? levels op) (← expr? levels operand)
        | _ => none
    | some ("step", some content), levels + 1 =>
        match content.fields? ["op", "place"] with
        | some [some op, some place] => do
            return .step (← stepOp? levels op) (← place? levels place)
        | _ => none
    | some ("cast", some content), levels + 1 =>
        match content.fields? ["target", "expr"] with
        | some [some target, some operand] => do
            return .cast (← name? levels target) (← expr? levels operand)
        | _ => none
    | some ("call", some content), levels + 1 =>
        match content.fields? ["name", "args"] with
        | some [some name, some args] => do
            return .call (← name? levels name) (← exprs? levels args)
        | _ => none
    | some ("method_call", some content), levels + 1 =>
        match content.fields? ["receiver", "method", "args"] with
        | some [some receiver, some method, some args] => do
            let receiver ← expr? levels receiver
            return .methodCall receiver (← name? levels method) (← exprs? levels args)
        | _ => none
    | some ("field_access", some content), levels + 1 =>
        match content.fields? ["expr", "field"] with
        | some [some object, some field] => do
            return .field (← expr? levels object) (← name? levels field)
        | _ => none
    | some ("index", some content), levels + 1 =>
        match content.fields? ["expr", "indices"] with
        | some [some base, some indices] => do
            return .index (← expr? levels base) (← exprs? levels indices)
        | _ => none
    | some (name, some content), levels => leaf? levels name content
    | _, _ => none
  | 0, _ => none

def exprs? : (levels : Nat) → Json → Option (List (Spanned Expr))
  | levels + 1, .array elems => elems.mapM (expr? levels)
  | _, _ => none

def place? : (levels : Nat) → Json → Option (Spanned Place)
  | levels + 1, j => do
      let (_, node, span) ← spannedParts? (levels + 1) j
      return ⟨← placeNode? levels node, span⟩
  | 0, _ => none

/-- A place. The two parts of a field or an element are an array of two. -/
def placeNode? : (levels : Nat) → Json → Option Place
  | levels + 1, j =>
    match j.variant?, levels with
    | some ("var", some content), _ => content.string?.map Place.var
    | some ("field", some (.array [object, field])), levels + 1 => do
        return .field (← place? levels object) (← name? levels field)
    | some ("index", some (.array [base, indices])), levels + 1 => do
        return .index (← place? levels base) (← exprs? levels indices)
    | _, _ => none
  | 0, _ => none

end

def dim? (levels : Nat) (j : Json) : Option ArrayDim := do
  match ← alternative? levels j with
  | (_, "unsized", content) => if Json.isBare content then some .unsized else none
  | (levels, "sized", some size) => return .sized (← expr? levels size)
  | _ => none

def typeName? (levels : Nat) (j : Json) : Option TypeName := do
  match ← record? ["name", "dims"] levels j with
  | (levels, [some name, dims]) =>
      return ⟨← name.string?, ← Json.orElse [] (list? dim? levels) dims⟩
  | _ => none

def inline? (j : Json) : Option Stmt := do
  match ← j.fields? ["lang", "code", "volatile"] with
  | [some lang, some code, volatile] =>
      return .inline (← lang.string?) (← code.string?) (← Json.orElse false Json.bool? volatile)
  | _ => none

mutual

def stmt? : (levels : Nat) → Json → Option (Spanned Stmt)
  | levels + 1, j => do
      let (_, node, span) ← spannedParts? (levels + 1) j
      return ⟨← stmtNode? levels node, span⟩
  | 0, _ => none

def stmtNode? (levels : Nat) (j : Json) : Option Stmt :=
    match j.variant?, levels with
    | some ("break", none), _ => some .breakLoop
    | some ("break", some .null), _ + 1 => some .breakLoop
    | some ("expr", some content), levels + 1 => (expr? levels content).map Stmt.expr
    | some ("return", some content), levels + 1 =>
        (Json.orNull (expr? levels) (some content)).map Stmt.ret
    | some ("block", some content), levels + 1 => (block? levels content).map Stmt.block
    | some ("var", some content), levels + 2 =>
        match content.fields? ["name", "ty", "init"] with
        | some [some name, ty, init] => do
            let ty ← Json.orNull (spanned? typeName? levels) ty
            return .declare (← name? levels name) ty (← Json.orNull (expr? levels) init)
        | _ => none
    | some ("assign", some content), levels + 2 =>
        match content.fields? ["place", "value"] with
        | some [some place, some value] => do
            return .assign (← place? levels place) (← expr? levels value)
        | _ => none
    | some ("compound_assign", some content), levels + 2 =>
        match content.fields? ["op", "place", "value"] with
        | some [some op, some place, some value] => do
            let op ← binOp? levels op
            return .compoundAssign op (← place? levels place) (← expr? levels value)
        | _ => none
    | some ("if", some content), levels + 2 =>
        match content.fields? ["branches", "else_block"] with
        | some [some branches, otherwise] => do
            let branches ← branches? levels branches
            let otherwise ← match otherwise with
              | none | some .null => some none
              | some body => (block? levels body).map some
            return .ifElse branches otherwise
        | _ => none
    | some ("while", some content), levels + 2 =>
        match content.fields? ["cond", "body"] with
        | some [some cond, some body] => do
            return .whileLoop (← expr? levels cond) (← block? levels body)
        | _ => none
    | some ("for", some content), levels + 2 =>
        match content.fields? ["init", "cond", "step", "body"] with
        | some [init, cond, step, some body] => do
            let init ← match init with
              | none | some .null => some none
              | some init => (stmt? levels init).map some
            let cond ← Json.orNull (expr? levels) cond
            let step ← Json.orNull (expr? levels) step
            return .forLoop init cond step (← block? levels body)
        | _ => none
    | some ("inline", some content), _ + 2 => inline? content
    | _, _ => none

def block? : (levels : Nat) → Json → Option (Spanned StmtBlock)
  | levels + 3, j => do
      let (_, node, span) ← spannedParts? (levels + 3) j
      match ← node.fields? ["stmts"] with
      | [some (.array elems)] => return ⟨⟨← elems.mapM (stmt? levels)⟩, span⟩
      | _ => none
  | _, _ => none

def branches? : (levels : Nat) → Json → Option (List Branch)
  | levels + 1, .array elems =>
      elems.mapM fun j =>
        match levels with
        | levels + 1 =>
            match j.fields? ["cond", "body"] with
            | some [some cond, some body] => do
                return ⟨← expr? levels cond, ← block? levels body⟩
            | _ => none
        | 0 => none
  | _, _ => none

end

def binding? (levels : Nat) (j : Json) : Option Binding := do
  match ← record? ["name", "ty"] levels j with
  | (levels, [some name, some ty]) =>
      return ⟨← name? levels name, ← spanned? typeName? levels ty⟩
  | _ => none

def fnDef? (levels : Nat) (j : Json) : Option FnDef := do
  match ← record? ["name", "params", "return_ty", "body"] levels j with
  | (levels, [some name, params, returnTy, some body]) =>
      return {
        name := ← name? levels name
        params := ← Json.orElse [] (list? binding? levels) params
        returnTy := ← Json.orNull (spanned? typeName? levels) returnTy
        body := ← block? levels body }
  | _ => none

def structDef? (levels : Nat) (j : Json) : Option StructDef := do
  match ← record? ["name", "fields", "methods"] levels j with
  | (levels, [some name, some fields, methods]) =>
      return {
        name := ← name? levels name
        fields := ← list? binding? levels fields
        methods := ← Json.orElse [] (list? fnDef? levels) methods }
  | _ => none

def item? (levels : Nat) (j : Json) : Option Item := do
  match ← alternative? levels j with
  | (levels, "fn", some content) => return .fn (← fnDef? levels content)
  | (levels, "struct", some content) => return .struct (← structDef? levels content)
  | _ => none

def file? (levels : Nat) (j : Json) : Option File := do
  match ← record? ["name", "items"] levels j with
  | (levels, [name, some items]) =>
      return ⟨← Json.orElse "" Json.string? name, ← list? (spanned? item?) levels items⟩
  | _ => none

end Aero.Decode

def Aero.File.ofJson? (j : Aero.Json) : Option Aero.File :=
  Aero.Decode.file? Aero.Decode.nestingLimit j

def Aero.File.parse? (text : String) : Option Aero.File :=
  (Aero.Json.parse? text).bind Aero.File.ofJson?
