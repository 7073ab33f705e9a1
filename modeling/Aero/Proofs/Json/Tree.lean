import Aero.Proofs.Json.Form
import Aero.Syntax.Encode

/-!
The forms of programs. A field is optional where its record has a default for it, if it holds that default; the encoding
of a program writes every record of its form by name.
-/

namespace Aero

variable {α : Type} {encode : α → Json}

namespace Form

abbrev needed (name : String) (content : Form) : Field := ⟨name, false, content⟩

abbrev text (s : String) : Form := .scalar (.text s)

abbrev counter (name : String) (size n : Nat) : Field := ⟨name, n = 0, .scalar (.count size n)⟩

def span (s : Span) : Form :=
  .record [counter "file_id" UInt16.size s.file, counter "start" UInt32.size s.start,
    counter "end" UInt32.size s.stop, counter "line" UInt32.size s.line, counter "column" UInt32.size s.column]

def withSpan (node : Form) (s : Span) : Form := .record [needed "node" node, ⟨"span", s = {}, span s⟩]

def name (n : Spanned String) : Form := withSpan (text n.node) n.span

def literal : Literal → Form
  | .number x => .tagged "number" (.scalar (.number x))
  | .str s => .tagged "str" (text s)
  | .char c => .tagged "char" (text (String.singleton c))
  | .bool b => .tagged "bool" (.scalar (.flag b))

mutual

def exprNode : Expr → Form
  | .literal value => .tagged "literal" (literal value)
  | .var n => .tagged "var" (text n)
  | .paren ⟨inner, s⟩ => .tagged "paren" (withSpan (exprNode inner) s)
  | .binary op ⟨lhs, s⟩ ⟨rhs, t⟩ =>
    .tagged "bin_op" (.record [needed "op" (text op.symbol), needed "lhs" (withSpan (exprNode lhs) s),
      needed "rhs" (withSpan (exprNode rhs) t)])
  | .unary op ⟨operand, s⟩ =>
    .tagged "unary" (.record [needed "op" (text op.symbol), needed "operand" (withSpan (exprNode operand) s)])
  | .step op ⟨place, s⟩ =>
    .tagged "step" (.record [needed "op" (text op.symbol), needed "place" (withSpan (placeNode place) s)])
  | .cast target ⟨operand, s⟩ =>
    .tagged "cast" (.record [needed "target" (name target), needed "expr" (withSpan (exprNode operand) s)])
  | .call n args => .tagged "call" (.record [needed "name" (name n), needed "args" (.list (exprs args))])
  | .methodCall ⟨receiver, s⟩ method args =>
    .tagged "method_call" (.record [needed "receiver" (withSpan (exprNode receiver) s),
      needed "method" (name method), needed "args" (.list (exprs args))])
  | .field ⟨object, s⟩ n =>
    .tagged "field_access" (.record [needed "expr" (withSpan (exprNode object) s), needed "field" (name n)])
  | .array elems => .tagged "array_init" (.list (exprs elems))
  | .index ⟨base, s⟩ indices =>
    .tagged "index" (.record [needed "expr" (withSpan (exprNode base) s), needed "indices" (.list (exprs indices))])

/-- The two parts of a field or an element have no names. -/
def placeNode : Place → Form
  | .var n => .tagged "var" (text n)
  | .field ⟨object, s⟩ n => .tagged "field" (.list [withSpan (placeNode object) s, name n])
  | .index ⟨base, s⟩ indices => .tagged "index" (.list [withSpan (placeNode base) s, .list (exprs indices)])

def exprs : List (Spanned Expr) → List Form
  | [] => []
  | ⟨e, s⟩ :: rest => withSpan (exprNode e) s :: exprs rest

end

def expr (e : Spanned Expr) : Form := withSpan (exprNode e.node) e.span

def place (p : Spanned Place) : Form := withSpan (placeNode p.node) p.span

def dim : ArrayDim → Form
  | .unsized => text "unsized"
  | .sized size => .tagged "sized" (expr size)

def typeName (t : TypeName) : Form :=
  .record [needed "name" (text t.name), ⟨"dims", t.dims.isEmpty, .list (t.dims.map dim)⟩]

def spannedTypeName (t : Spanned TypeName) : Form := withSpan (typeName t.node) t.span

abbrev maybe {α : Type} (name : String) (form : α → Form) (o : Option α) : Field :=
  ⟨name, o.isNone, ofOption form o⟩

mutual

def stmtNode : Stmt → Form
  | .declare n ty init =>
    .tagged "var" (.record [needed "name" (name n), maybe "ty" spannedTypeName ty, maybe "init" expr init])
  | .assign p value => .tagged "assign" (.record [needed "place" (place p), needed "value" (expr value)])
  | .compoundAssign op p value =>
    .tagged "compound_assign" (.record [needed "op" (text op.symbol), needed "place" (place p),
      needed "value" (expr value)])
  | .expr value => .tagged "expr" (expr value)
  | .ifElse bs otherwise =>
    .tagged "if" (.record [needed "branches" (.list (branches bs)),
      ⟨"else_block", otherwise.isNone, match otherwise with
        | some ⟨body, s⟩ => withSpan (blockNode body) s
        | none => .scalar .absent⟩])
  | .whileLoop cond ⟨body, s⟩ =>
    .tagged "while" (.record [needed "cond" (expr cond), needed "body" (withSpan (blockNode body) s)])
  | .forLoop init cond step ⟨body, s⟩ =>
    .tagged "for" (.record [
      ⟨"init", init.isNone, match init with
        | some ⟨stmt, t⟩ => withSpan (stmtNode stmt) t
        | none => .scalar .absent⟩,
      maybe "cond" expr cond, maybe "step" expr step, needed "body" (withSpan (blockNode body) s)])
  | .breakLoop => text "break"
  | .ret value => .tagged "return" (ofOption expr value)
  | .block ⟨body, s⟩ => .tagged "block" (withSpan (blockNode body) s)
  | .inline lang code volatile =>
    .tagged "inline" (.record [needed "lang" (text lang), needed "code" (text code),
      ⟨"volatile", !volatile, .scalar (.flag volatile)⟩])

def blockNode : StmtBlock → Form
  | ⟨body⟩ => .record [needed "stmts" (.list (stmts body))]

def stmts : List (Spanned Stmt) → List Form
  | [] => []
  | ⟨stmt, s⟩ :: rest => withSpan (stmtNode stmt) s :: stmts rest

def branches : List Branch → List Form
  | [] => []
  | ⟨cond, ⟨body, s⟩⟩ :: rest =>
    .record [needed "cond" (expr cond), needed "body" (withSpan (blockNode body) s)] :: branches rest

end

def block (b : Spanned StmtBlock) : Form := withSpan (blockNode b.node) b.span

def binding (b : Binding) : Form := .record [needed "name" (name b.name), needed "ty" (spannedTypeName b.ty)]

def fnDef (f : FnDef) : Form :=
  .record [needed "name" (name f.name), ⟨"params", f.params.isEmpty, .list (f.params.map binding)⟩,
    maybe "return_ty" spannedTypeName f.returnTy, needed "body" (block f.body)]

def structDef (d : StructDef) : Form :=
  .record [needed "name" (name d.name), needed "fields" (.list (d.fields.map binding)),
    ⟨"methods", d.methods.isEmpty, .list (d.methods.map fnDef)⟩]

def item : Item → Form
  | .fn f => .tagged "fn" (fnDef f)
  | .struct d => .tagged "struct" (structDef d)

def spannedItem (i : Spanned Item) : Form := withSpan (item i.node) i.span

end Form

def File.form (f : File) : Form :=
  .record [⟨"name", f.name = "", Form.text f.name⟩, Form.needed "items" (.list (f.items.map Form.spannedItem))]

namespace Form

variable {form : α → Form}

/-! ### The encoding by name -/

mutual

/-- The value of a form in which every field is written by its name. -/
@[simp] def toJson : Form → Json
  | scalar s => s.toJson
  | list elems => .array (allToJson elems)
  | tagged name content => .ofMembers [(name, content.toJson)]
  | record fields => .ofMembers (members fields)

@[simp] def allToJson : List Form → List Json
  | [] => []
  | form :: rest => form.toJson :: allToJson rest

@[simp] def members : List Field → List (String × Json)
  | [] => []
  | ⟨name, _, content⟩ :: rest => (name, content.toJson) :: members rest

end

mutual

theorem written_byName : (form : Form) → form.Written form.toJson
  | scalar s => .scalar s
  | list elems => .list (written_each elems)
  | tagged name content => .tagged name (written_byName content)
  | record fields => by
    obtain ⟨hnames, hvalues⟩ := written_members fields
    have hwritten := Written.byName hvalues
    rwa [← hnames, List.zip_map', List.map_id'] at hwritten

theorem written_each : (forms : List Form) → List.Forall₂ Written forms (allToJson forms)
  | [] => .nil
  | form :: rest => .cons (written_byName form) (written_each rest)

theorem written_members : (fields : List Field) → (members fields).map Prod.fst = fields.map Field.name ∧
    List.Forall₂ Written (fields.map Field.content) ((members fields).map Prod.snd)
  | [] => ⟨rfl, .nil⟩
  | ⟨name, _, content⟩ :: rest =>
    ⟨congrArg (name :: ·) (written_members rest).1, .cons (written_byName content) (written_members rest).2⟩

end

attribute [local simp] Encode.alternative Scalar.toJson

@[simp] theorem toJson_withSpan (form : Form) (s : Span) :
    (withSpan form s).toJson = Encode.withSpan form.toJson s := rfl

@[simp] theorem toJson_name (n : Spanned String) : (name n).toJson = Encode.name n := rfl

theorem toJson_literal (l : Literal) : (literal l).toJson = Encode.literal l := by cases l <;> rfl

mutual

theorem toJson_exprNode : (e : Expr) → (exprNode e).toJson = Encode.exprNode e
  | .literal l => by simp [exprNode, Encode.exprNode, toJson_literal]
  | .var _ => rfl
  | .paren ⟨e, _⟩ | .unary _ ⟨e, _⟩ | .cast _ ⟨e, _⟩ | .field ⟨e, _⟩ _ => by
    simp [exprNode, Encode.exprNode, toJson_exprNode e]
  | .step _ ⟨p, _⟩ => by simp [exprNode, Encode.exprNode, toJson_placeNode p]
  | .binary _ ⟨l, _⟩ ⟨r, _⟩ => by simp [exprNode, Encode.exprNode, toJson_exprNode l, toJson_exprNode r]
  | .call _ es | .array es => by simp [exprNode, Encode.exprNode, toJson_exprs es]
  | .methodCall ⟨e, _⟩ _ es | .index ⟨e, _⟩ es => by
    simp [exprNode, Encode.exprNode, toJson_exprNode e, toJson_exprs es]

theorem toJson_placeNode : (p : Place) → (placeNode p).toJson = Encode.placeNode p
  | .var _ => rfl
  | .field ⟨p, _⟩ _ => by simp [placeNode, Encode.placeNode, toJson_placeNode p]
  | .index ⟨p, _⟩ es => by simp [placeNode, Encode.placeNode, toJson_placeNode p, toJson_exprs es]

theorem toJson_exprs : (es : List (Spanned Expr)) → allToJson (exprs es) = Encode.exprs es
  | [] => rfl
  | ⟨e, _⟩ :: rest => by simp [exprs, Encode.exprs, toJson_exprNode e, toJson_exprs rest]

end

@[simp] theorem toJson_expr (e : Spanned Expr) : (expr e).toJson = Encode.expr e := by
  simp [expr, Encode.expr, toJson_exprNode]

@[simp] theorem toJson_place (p : Spanned Place) : (place p).toJson = Encode.place p := by
  simp [place, Encode.place, toJson_placeNode]

theorem allToJson_map (h : ∀ a, (form a).toJson = encode a)
    (as : List α) : allToJson (as.map form) = as.map encode := by
  induction as with
  | nil => rfl
  | cons a as ih => simp [h, ih]

theorem toJson_ofOption (h : ∀ a, (form a).toJson = encode a)
    (o : Option α) : (ofOption form o).toJson = .ofOption encode o := by
  cases o with
  | none => rfl
  | some a => exact h a

theorem toJson_dim (d : ArrayDim) : (dim d).toJson = Encode.dim d := by
  cases d with
  | unsized => rfl
  | sized size => simp [dim, Encode.dim]

theorem toJson_spannedTypeName (t : Spanned TypeName) : (spannedTypeName t).toJson = Encode.spannedTypeName t := by
  simp [spannedTypeName, Encode.spannedTypeName, typeName, Encode.typeName, Encode.dims, allToJson_map toJson_dim]

mutual

theorem toJson_stmtNode : (s : Stmt) → (stmtNode s).toJson = Encode.stmtNode s
  | .declare _ _ _ | .assign _ _ | .compoundAssign _ _ _ | .expr _ | .breakLoop | .ret _ | .inline _ _ _ => by
    simp [stmtNode, Encode.stmtNode, toJson_ofOption toJson_expr, toJson_ofOption toJson_spannedTypeName]
  | .ifElse bs none => by simp [stmtNode, Encode.stmtNode, toJson_branches bs]
  | .ifElse bs (some ⟨b, _⟩) => by simp [stmtNode, Encode.stmtNode, toJson_branches bs, toJson_blockNode b]
  | .whileLoop _ ⟨b, _⟩ | .block ⟨b, _⟩ => by simp [stmtNode, Encode.stmtNode, toJson_blockNode b]
  | .forLoop none _ _ ⟨b, _⟩ => by simp [stmtNode, Encode.stmtNode, toJson_ofOption toJson_expr, toJson_blockNode b]
  | .forLoop (some ⟨init, _⟩) _ _ ⟨b, _⟩ => by
    simp [stmtNode, Encode.stmtNode, toJson_ofOption toJson_expr, toJson_stmtNode init, toJson_blockNode b]

theorem toJson_blockNode : (b : StmtBlock) → (blockNode b).toJson = Encode.blockNode b
  | ⟨body⟩ => by simp [blockNode, Encode.blockNode, toJson_stmts body]

theorem toJson_stmts : (ss : List (Spanned Stmt)) → allToJson (stmts ss) = Encode.stmts ss
  | [] => rfl
  | ⟨stmt, _⟩ :: rest => by simp [stmts, Encode.stmts, toJson_stmtNode stmt, toJson_stmts rest]

theorem toJson_branches : (bs : List Branch) → allToJson (branches bs) = Encode.branches bs
  | [] => rfl
  | ⟨_, ⟨b, _⟩⟩ :: rest => by simp [branches, Encode.branches, toJson_blockNode b, toJson_branches rest]

end

theorem toJson_binding (b : Binding) : (binding b).toJson = Encode.binding b := by
  simp [binding, Encode.binding, toJson_spannedTypeName]

theorem toJson_fnDef (f : FnDef) : (fnDef f).toJson = Encode.fnDef f := by
  simp [fnDef, Encode.fnDef, allToJson_map toJson_binding, toJson_ofOption toJson_spannedTypeName, block, Encode.block,
    toJson_blockNode]

theorem toJson_item (i : Spanned Item) : (spannedItem i).toJson = Encode.withSpan (Encode.item i.node) i.span := by
  have hitem : (item i.node).toJson = Encode.item i.node := by
    cases i.node with
    | fn f => simp [item, Encode.item, toJson_fnDef]
    | struct d =>
      simp [item, Encode.item, structDef, Encode.structDef, allToJson_map toJson_binding, allToJson_map toJson_fnDef]
  simp [spannedItem, hitem]

theorem written_toJson (f : File) : f.form.Written f.toJson := by
  have hencode : f.form.toJson = f.toJson := by
    simp [File.form, File.toJson, allToJson_map toJson_item]
  exact hencode ▸ written_byName f.form

end Form

end Aero
