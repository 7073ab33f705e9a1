import Aero.Json.Value
import Aero.Syntax.Tree

/-!
Programs as JSON. Every field is written by name, in order, also where it has its default.
-/

namespace Aero.Encode

def alternative (name : String) (content : Json) : Json := .ofMembers [(name, content)]

def span (s : Span) : Json :=
  .ofMembers [("file_id", .ofNat s.file), ("start", .ofNat s.start), ("end", .ofNat s.stop),
    ("line", .ofNat s.line), ("column", .ofNat s.column)]

def withSpan (node : Json) (s : Span) : Json := .ofMembers [("node", node), ("span", span s)]

def name (n : Spanned String) : Json := withSpan (.ofString n.node) n.span

def literal : Literal → Json
  | .number x => alternative "number" (.ofFloat x)
  | .str s => alternative "str" (.ofString s)
  | .char c => alternative "char" (.ofString (String.singleton c))
  | .bool b => alternative "bool" (.bool b)

mutual

def exprNode : Expr → Json
  | .literal value => alternative "literal" (literal value)
  | .var n => alternative "var" (.ofString n)
  | .paren ⟨inner, s⟩ => alternative "paren" (withSpan (exprNode inner) s)
  | .binary op ⟨lhs, s⟩ ⟨rhs, t⟩ =>
      alternative "bin_op" (.ofMembers [("op", .ofString op.symbol),
        ("lhs", withSpan (exprNode lhs) s), ("rhs", withSpan (exprNode rhs) t)])
  | .unary op ⟨operand, s⟩ =>
      alternative "unary" (.ofMembers [("op", .ofString op.symbol), ("operand", withSpan (exprNode operand) s)])
  | .step op ⟨place, s⟩ =>
      alternative "step" (.ofMembers [("op", .ofString op.symbol), ("place", withSpan (placeNode place) s)])
  | .cast target ⟨operand, s⟩ =>
      alternative "cast" (.ofMembers [("target", name target), ("expr", withSpan (exprNode operand) s)])
  | .call n args =>
      alternative "call" (.ofMembers [("name", name n), ("args", .array (exprs args))])
  | .methodCall ⟨receiver, s⟩ method args =>
      alternative "method_call" (.ofMembers [("receiver", withSpan (exprNode receiver) s),
        ("method", name method), ("args", .array (exprs args))])
  | .field ⟨object, s⟩ n =>
      alternative "field_access" (.ofMembers [("expr", withSpan (exprNode object) s), ("field", name n)])
  | .array elems => alternative "array_init" (.array (exprs elems))
  | .index ⟨base, s⟩ indices =>
      alternative "index" (.ofMembers [("expr", withSpan (exprNode base) s), ("indices", .array (exprs indices))])

def placeNode : Place → Json
  | .var n => alternative "var" (.ofString n)
  | .field ⟨object, s⟩ n =>
      alternative "field" (.array [withSpan (placeNode object) s, name n])
  | .index ⟨base, s⟩ indices =>
      alternative "index" (.array [withSpan (placeNode base) s, .array (exprs indices)])

def exprs : List (Spanned Expr) → List Json
  | [] => []
  | ⟨e, s⟩ :: rest => withSpan (exprNode e) s :: exprs rest

end

def expr (e : Spanned Expr) : Json := withSpan (exprNode e.node) e.span

def place (p : Spanned Place) : Json := withSpan (placeNode p.node) p.span

def dim : ArrayDim → Json
  | .unsized => .ofString "unsized"
  | .sized size => alternative "sized" (expr size)

def dims (ds : List ArrayDim) : Json := .array (ds.map dim)

def typeName (t : TypeName) : Json :=
  .ofMembers [("name", .ofString t.name), ("dims", dims t.dims)]

def spannedTypeName (t : Spanned TypeName) : Json := withSpan (typeName t.node) t.span

mutual

def stmtNode : Stmt → Json
  | .declare n ty init =>
      alternative "var" (.ofMembers [("name", name n), ("ty", .ofOption spannedTypeName ty),
        ("init", .ofOption expr init)])
  | .assign p value =>
      alternative "assign" (.ofMembers [("place", place p), ("value", expr value)])
  | .compoundAssign op p value =>
      alternative "compound_assign" (.ofMembers [("op", .ofString op.symbol), ("place", place p),
        ("value", expr value)])
  | .expr value => alternative "expr" (expr value)
  | .ifElse bs otherwise =>
      alternative "if" (.ofMembers [("branches", .array (branches bs)), ("else_block", match otherwise with
          | some ⟨body, s⟩ => withSpan (blockNode body) s
          | none => .null)])
  | .whileLoop cond ⟨body, s⟩ =>
      alternative "while" (.ofMembers [("cond", expr cond), ("body", withSpan (blockNode body) s)])
  | .forLoop init cond step ⟨body, s⟩ =>
      alternative "for" (.ofMembers [
        ("init", match init with
          | some ⟨stmt, t⟩ => withSpan (stmtNode stmt) t
          | none => .null),
        ("cond", .ofOption expr cond), ("step", .ofOption expr step),
        ("body", withSpan (blockNode body) s)])
  | .breakLoop => .ofString "break"
  | .ret value => alternative "return" (.ofOption expr value)
  | .block ⟨body, s⟩ => alternative "block" (withSpan (blockNode body) s)
  | .inline lang code volatile =>
      alternative "inline" (.ofMembers [("lang", .ofString lang), ("code", .ofString code),
        ("volatile", .bool volatile)])

def blockNode : StmtBlock → Json
  | ⟨body⟩ => .ofMembers [("stmts", .array (stmts body))]

def stmts : List (Spanned Stmt) → List Json
  | [] => []
  | ⟨stmt, s⟩ :: rest => withSpan (stmtNode stmt) s :: stmts rest

def branches : List Branch → List Json
  | [] => []
  | ⟨cond, ⟨body, s⟩⟩ :: rest =>
      .ofMembers [("cond", expr cond), ("body", withSpan (blockNode body) s)] :: branches rest

end

def block (b : Spanned StmtBlock) : Json := withSpan (blockNode b.node) b.span

def binding (b : Binding) : Json :=
  .ofMembers [("name", name b.name), ("ty", spannedTypeName b.ty)]

def fnDef (f : FnDef) : Json :=
  .ofMembers [("name", name f.name), ("params", .array (f.params.map binding)),
    ("return_ty", .ofOption spannedTypeName f.returnTy), ("body", block f.body)]

def structDef (d : StructDef) : Json :=
  .ofMembers [("name", name d.name), ("fields", .array (d.fields.map binding)),
    ("methods", .array (d.methods.map fnDef))]

def item : Item → Json
  | .fn f => alternative "fn" (fnDef f)
  | .struct d => alternative "struct" (structDef d)

end Aero.Encode

def Aero.File.toJson (f : Aero.File) : Aero.Json :=
  .ofMembers [("name", .ofString f.name),
    ("items", .array (f.items.map fun i => Aero.Encode.withSpan (Aero.Encode.item i.node) i.span))]
