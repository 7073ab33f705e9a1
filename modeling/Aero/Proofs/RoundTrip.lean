import Aero.Proofs.Json.Tree

/-!
Files are read back from JSON. Each decoder gives a part of a program back from whatever the form of that part is
written as. Main statement: a file whose scalars are read back is decoded from every value that its form may be written
as, as long as the value nests no deeper than the decoder goes; its encoding by name is one of them, and the records in
the others are arrays of their fields. The values are read back from their texts too.
-/

namespace Aero.Form

open Decode Option

variable {s : Span} {α : Type} {form : Form} {given : Option Json} {j : Json} {left size n levels : Nat}
  {o : Option α} {a : α}

/-! ### Scalars -/

theorem reads_text {s : String} : Reads (fun _ => Json.string?) (text s) s := by
  intro levels j hj _
  rw [hj.scalar_inv]
  rfl

theorem reads_flag {b : Bool} : Reads (fun _ => Json.bool?) (.scalar (.flag b)) b := by
  intro levels j hj _
  rw [hj.scalar_inv]
  rfl

theorem reads_number {x : Float} (h : (Scalar.number x).Exact) :
    Reads (fun _ => Json.float?) (.scalar (.number x)) x := by
  intro levels j hj _
  have hnumber : Json.ofFloat x = .number (.ofFloat x) := by
    rw [Json.ofFloat, if_neg (by rw [h.1]; exact Bool.false_ne_true)]
  rw [hj.scalar_inv, Scalar.toJson, hnumber]
  exact h.2.2

theorem reads_count (h : n < size) :
    Reads (fun _ => Json.unsigned? size) (.scalar (.count size n)) n := by
  intro levels j hj _
  rw [hj.scalar_inv]
  have hrange : (n : Int) ≤ (size : Int) - 1 := by omega
  simpa [Scalar.toJson, Json.ofNat, Json.unsigned?, Json.intIn?, Json.Number.int?_ofInt] using hrange

theorem reads_bare {ofName? : String → Option α} {name : String} (h : ofName? name = some a) :
    Reads (bare? ofName?) (text name) a := by
  intro levels j hj _
  rw [hj.scalar_inv]
  exact h

theorem reads_binOp {op : BinOp} : Reads binOp? (text op.symbol) op :=
  reads_bare (by cases op <;> decide)

theorem reads_unaryOp {op : UnaryOp} : Reads unaryOp? (text op.symbol) op :=
  reads_bare (by cases op <;> decide)

theorem reads_stepOp {op : StepOp} : Reads stepOp? (text op.symbol) op :=
  reads_bare (by cases op <;> decide)

/-! ### Spans -/

theorem reads_counter {name : String} (h : n < size)
    (hgiven : Gives left (counter name size n) given) : Json.orElse 0 (Json.unsigned? size) given = some n :=
  (reads_count h).orElse 0 of_decide_eq_true hgiven

theorem record?_succ {names : List String} {given : List (Option Json)}
    (h : j.fields? names = some given) : record? names (left + 1) j = some (left, given) := by
  rw [record?, h]
  rfl

theorem reads_span (h : (span s).Exact) : Reads span? (span s) s := by
  intro levels j hj hdepth
  obtain ⟨hfile, hstart, hstop, hline, hcolumn, -⟩ := h
  obtain ⟨left, given, rfl, hgiven, hfields⟩ :=
    hj.fields ["file_id", "start", "end", "line", "column"] rfl (by decide) hdepth
  rcases hfields with _ | ⟨gfile, _ | ⟨gstart, _ | ⟨gstop, _ | ⟨gline, _ | ⟨gcolumn, ⟨⟩⟩⟩⟩⟩⟩
  simp only [span?, record?_succ hgiven, reads_counter hfile gfile, reads_counter hstart gstart,
    reads_counter hstop gstop, reads_counter hline gline, reads_counter hcolumn gcolumn, bind_eq_bind, bind_some]
  rfl

/-- What is written with a span is taken apart into its node and the span. -/
theorem spannedParts?_written (h : (span s).Exact)
    (hj : (withSpan form s).Written j) (hdepth : j.depth ≤ levels) :
    ∃ left node, levels = left + 1 ∧ spannedParts? levels j = some (left, node, s) ∧ form.Written node ∧
      node.depth ≤ left := by
  obtain ⟨left, given, rfl, hgiven, hfields⟩ := hj.fields ["node", "span"] rfl (by decide) hdepth
  rcases hfields with _ | ⟨gnode, _ | ⟨gspan, ⟨⟩⟩⟩
  rcases gnode with ⟨node, rfl, hnode, hnodeDepth⟩ | ⟨-, hoptional⟩
  · have hspan := (reads_span h).orElse {} of_decide_eq_true gspan
    refine ⟨left, node, rfl, ?_, hnode, hnodeDepth⟩
    simp only [spannedParts?, record?_succ hgiven, hspan, bind_eq_bind, bind_some]
    rfl
  · exact Bool.noConfusion hoptional

theorem reads_spanned {node? : Nat → Json → Option α}
    (hnode : Reads node? form a) (hspan : (span s).Exact) : Reads (spanned? node?) (withSpan form s) ⟨a, s⟩ := by
  intro levels j hj hdepth
  obtain ⟨left, node, rfl, hparts, hwritten, hnodeDepth⟩ := spannedParts?_written hspan hj hdepth
  simp only [spanned?, hparts, hnode left node hwritten hnodeDepth, bind_eq_bind, bind_some]
  rfl

theorem reads_name {n : Spanned String} (h : (name n).Exact) : Reads name? (name n) n :=
  reads_spanned reads_text h.2.1

theorem alternative?_tagged (left : Nat) (name : String) (c : Json) :
    alternative? (left + 1) (.object [(some name, c)]) = some (left, name, some c) := rfl

theorem reads_char {c : Char} : Reads (fun _ => char?) (text (String.singleton c)) c := by
  intro levels j hj hdepth
  have hstring := reads_text levels j hj hdepth
  simp [char?, hstring]

theorem reads_literal {l : Literal} (h : (literal l).Exact) : Reads literal? (literal l) l := by
  cases l with
  | number x => exact (reads_number h).alternative fun _ _ hx => by simp [literal?, alternative?_tagged, hx]
  | str s => exact reads_text.alternative fun _ _ hs => by simp [literal?, alternative?_tagged, hs]
  | char x => exact reads_char.alternative fun _ _ hx => by simp [literal?, alternative?_tagged, hx]
  | bool b => exact reads_flag.alternative fun _ _ hb => by simp [literal?, alternative?_tagged, hb]

/-! ### Expressions -/

theorem reads_expr {e : Expr} (hnode : Reads exprNode? (exprNode e) e) (hspan : (span s).Exact) :
    Reads expr? (withSpan (exprNode e) s) ⟨e, s⟩ := by
  intro levels j hj hdepth
  obtain ⟨left, node, rfl, hparts, hwritten, hnodeDepth⟩ := spannedParts?_written hspan hj hdepth
  rw [expr?]
  simp [hparts, hnode left node hwritten hnodeDepth]

theorem reads_place {p : Place} (hnode : Reads placeNode? (placeNode p) p) (hspan : (span s).Exact) :
    Reads place? (withSpan (placeNode p) s) ⟨p, s⟩ := by
  intro levels j hj hdepth
  obtain ⟨left, node, rfl, hparts, hwritten, hnodeDepth⟩ := spannedParts?_written hspan hj hdepth
  rw [place?]
  simp [hparts, hnode left node hwritten hnodeDepth]

theorem reads_exprs {es : List (Spanned Expr)} (h : List.Forall₂ (Reads expr?) (exprs es) es) :
    Reads exprs? (.list (exprs es)) es := by
  have hlist : exprs? = list? expr? := by
    funext levels j
    unfold exprs? list?
    rfl
  rw [hlist]
  exact .list h

attribute [local simp] exprNode?.eq_def placeNode?.eq_def Json.variant?

mutual

theorem reads_exprNode : (e : Expr) → (exprNode e).Exact → Reads exprNode? (exprNode e) e
  | .literal _, h => (reads_literal h).alternative fun _ _ hvalue => by simp [leaf?, hvalue]
  | .var x, _ => reads_text.alternative fun _ _ hx => by simp [leaf?, hx]
  | .paren ⟨inner, _⟩, ⟨hinner, hspan, _⟩ =>
    (reads_expr (reads_exprNode inner hinner) hspan).alternative fun _ _ he => by simp [he]
  | .binary op ⟨lhs, _⟩ ⟨rhs, _⟩, ⟨_, ⟨hlhs, hlspan, _⟩, ⟨hrhs, hrspan, _⟩, _⟩ =>
    .triple (by decide) reads_binOp (reads_expr (reads_exprNode lhs hlhs) hlspan)
      (reads_expr (reads_exprNode rhs hrhs) hrspan) fun _ _ _ _ _ hgiven hop hl hr => by simp [hgiven, hop, hl, hr]
  | .unary op ⟨operand, _⟩, ⟨_, ⟨hoperand, hspan, _⟩, _⟩ =>
    .pair (by decide) reads_unaryOp (reads_expr (reads_exprNode operand hoperand) hspan)
      fun _ _ _ _ hgiven hop he => by simp [hgiven, hop, he]
  | .step op ⟨place, _⟩, ⟨_, ⟨hplace, hspan, _⟩, _⟩ =>
    .pair (by decide) reads_stepOp (reads_place (reads_placeNode place hplace) hspan)
      fun _ _ _ _ hgiven hop hp => by simp [hgiven, hop, hp]
  | .cast _ ⟨operand, _⟩, ⟨hname, ⟨hoperand, hspan, _⟩, _⟩ =>
    .pair (by decide) (reads_name hname) (reads_expr (reads_exprNode operand hoperand) hspan)
      fun _ _ _ _ hgiven hn he => by simp [hgiven, hn, he]
  | .call _ args, ⟨hname, hargs, _⟩ =>
    .pair (by decide) (reads_name hname) (reads_exprs (reads_eachExpr args hargs)) fun _ _ _ _ hgiven hn hargs => by
    simp [hgiven, hn, hargs]
  | .methodCall ⟨receiver, _⟩ _ args, ⟨⟨hreceiver, hspan, _⟩, hname, hargs, _⟩ =>
    .triple (by decide) (reads_expr (reads_exprNode receiver hreceiver) hspan) (reads_name hname)
      (reads_exprs (reads_eachExpr args hargs)) fun _ _ _ _ _ hgiven he hn hargs => by simp [hgiven, he, hn, hargs]
  | .field ⟨object, _⟩ _, ⟨⟨hobject, hspan, _⟩, hname, _⟩ =>
    .pair (by decide) (reads_expr (reads_exprNode object hobject) hspan) (reads_name hname)
      fun _ _ _ _ hgiven he hn => by simp [hgiven, he, hn]
  | .array elems, h => (reads_exprs (reads_eachExpr elems h)).alternative fun _ _ hargs => by simp [hargs]
  | .index ⟨base, _⟩ indices, ⟨⟨hbase, hspan, _⟩, hindices, _⟩ =>
    .pair (by decide) (reads_expr (reads_exprNode base hbase) hspan) (reads_exprs (reads_eachExpr indices hindices))
      fun _ _ _ _ hgiven he hargs => by simp [hgiven, he, hargs]

theorem reads_placeNode : (p : Place) → (placeNode p).Exact → Reads placeNode? (placeNode p) p
  | .var x, _ => reads_text.alternative fun _ _ hx => by simp [hx]
  | .field ⟨object, _⟩ _, ⟨⟨hobject, hspan, _⟩, hname, _⟩ =>
    .couple (reads_place (reads_placeNode object hobject) hspan) (reads_name hname) fun _ _ _ hp hn => by simp [hp, hn]
  | .index ⟨base, _⟩ indices, ⟨⟨hbase, hspan, _⟩, hindices, _⟩ =>
    .couple (reads_place (reads_placeNode base hbase) hspan) (reads_exprs (reads_eachExpr indices hindices))
      fun _ _ _ hp hargs => by simp [hp, hargs]

theorem reads_eachExpr : (es : List (Spanned Expr)) → AllExact (exprs es) → List.Forall₂ (Reads expr?) (exprs es) es
  | [], _ => .nil
  | ⟨e, _⟩ :: rest, ⟨⟨he, hspan, _⟩, hrest⟩ =>
    .cons (reads_expr (reads_exprNode e he) hspan) (reads_eachExpr rest hrest)

end

theorem reads_spannedExpr {e : Spanned Expr} (h : (expr e).Exact) : Reads expr? (expr e) e :=
  reads_expr (reads_exprNode e.node h.1) h.2.1

theorem reads_spannedPlace {p : Spanned Place} (h : (place p).Exact) : Reads place? (place p) p :=
  reads_place (reads_placeNode p.node h.1) h.2.1

/-! ### Types -/

theorem reads_each {elem : Nat → Json → Option α} {form : α → Form} (h : ∀ a, (form a).Exact → Reads elem (form a) a) :
    (as : List α) → AllExact (as.map form) → List.Forall₂ (Reads elem) (as.map form) as
  | [], _ => .nil
  | a :: as, ⟨ha, has⟩ => .cons (h a ha) (reads_each h as has)

theorem reads_dim (d : ArrayDim) (h : (dim d).Exact) : Reads dim? (dim d) d := by
  intro levels j hj hdepth
  cases d with
  | unsized =>
    rw [hj.scalar_inv]
    rfl
  | sized size =>
    obtain ⟨left, c, rfl, rfl, hc, hcDepth⟩ := hj.tagged_inv hdepth
    simp [dim?, alternative?_tagged, reads_spannedExpr h left c hc hcDepth]

theorem reads_typeName {t : TypeName} (h : (typeName t).Exact) : Reads typeName? (typeName t) t := by
  intro levels j hj hdepth
  obtain ⟨left, given, rfl, hgiven, hfields⟩ := hj.fields ["name", "dims"] rfl (by decide) hdepth
  rcases hfields with _ | ⟨gname, _ | ⟨gdims, ⟨⟩⟩⟩
  obtain ⟨_, rfl, hname⟩ := reads_text.required gname
  have hdims := (Reads.list (reads_each reads_dim t.dims h.2.1)).orElse [] List.isEmpty_iff.mp gdims
  simp [typeName?, record?_succ hgiven, hname, hdims]

theorem reads_spannedTypeName {t : Spanned TypeName} (h : (spannedTypeName t).Exact) :
    Reads (spanned? typeName?) (spannedTypeName t) t :=
  reads_spanned (reads_typeName h.1) h.2.1

/-! ### Statements, definitions and files -/

theorem exact_of_option {form : α → Form} (h : (ofOption form o).Exact) (a : α) (ha : o = some a) : (form a).Exact := by
  rw [ha] at h
  exact h

theorem reads_maybe {decode : Nat → Json → Option α} {node : α → Form} {span : α → Span} {name : String}
    (h : ∀ a, (withSpan (node a) (span a)).Exact → Reads decode (withSpan (node a) (span a)) a)
    (hexact : (ofOption (fun a => withSpan (node a) (span a)) o).Exact)
    (hgiven : Gives left (maybe name (fun a => withSpan (node a) (span a)) o) given) :
    Json.orNull (decode left) given = some o :=
  Reads.orNull (fun a ha => h a (exact_of_option hexact a ha)) (fun _ => ⟨_, rfl⟩) isNone_iff_eq_none.mp hgiven

theorem reads_stmt {stmt : Stmt} (hnode : Reads stmtNode? (stmtNode stmt) stmt) (hspan : (span s).Exact) :
    Reads stmt? (withSpan (stmtNode stmt) s) ⟨stmt, s⟩ := by
  intro levels j hj hdepth
  obtain ⟨left, node, rfl, hparts, hwritten, hnodeDepth⟩ := spannedParts?_written hspan hj hdepth
  rw [stmt?]
  simp [hparts, hnode left node hwritten hnodeDepth]

theorem reads_braces {body : List (Spanned Stmt)} (h : List.Forall₂ (Reads stmt?) (stmts body) body)
    (hspan : (span s).Exact) : Reads block? (withSpan (blockNode ⟨body⟩) s) ⟨⟨body⟩, s⟩ := by
  intro levels j hj hdepth
  obtain ⟨left, node, rfl, hparts, hwritten, hnodeDepth⟩ := spannedParts?_written hspan hj hdepth
  obtain ⟨left, given, rfl, hgiven, hfields⟩ := hwritten.fields ["stmts"] rfl (by decide) hnodeDepth
  rcases hfields with _ | ⟨gstmts, ⟨⟩⟩
  rcases gstmts with ⟨elems, rfl, helems, helemsDepth⟩ | ⟨-, hoptional⟩
  · obtain ⟨left, js, rfl, rfl, hjs⟩ := helems.list_inv helemsDepth
    have hread := mapM_of_forall₂ (forall₂_reads h hjs)
    rw [block?]
    simp [hparts, hgiven, hread]
  · exact Bool.noConfusion hoptional

attribute [local simp] stmtNode?.eq_def Json.variant?

section Statements

variable {n : Spanned String} {ty : Option (Spanned TypeName)} {init cond step : Option (Spanned Expr)}
  {e : Spanned Expr} {b : Spanned StmtBlock}

theorem reads_declare (hn : (name n).Exact) (hty : (ofOption spannedTypeName ty).Exact)
    (hinit : (ofOption expr init).Exact) : Reads stmtNode? (stmtNode (.declare n ty init)) (.declare n ty init) := by
  intro levels j hj hdepth
  obtain ⟨left, c, given, rfl, rfl, hgiven, hfields⟩ := hj.tagged_fields ["name", "ty", "init"] rfl (by decide) hdepth
  rcases hfields with _ | ⟨gn, _ | ⟨gty, _ | ⟨ginit, ⟨⟩⟩⟩⟩
  obtain ⟨_, rfl, hn⟩ := (reads_name hn).required gn
  have hty := reads_maybe (fun _ => reads_spannedTypeName) hty gty
  have hinit := reads_maybe (fun _ => reads_spannedExpr) hinit ginit
  simp [hgiven, hn, hty, hinit]

theorem reads_ret (h : (ofOption expr init).Exact) : Reads stmtNode? (stmtNode (.ret init)) (.ret init) := by
  intro levels j hj hdepth
  obtain ⟨left, c, rfl, rfl, hc, hcDepth⟩ := hj.tagged_inv hdepth
  have hgiven : Gives left (maybe "value" expr init) (some c) := .inl ⟨c, rfl, hc, hcDepth⟩
  have hvalue := reads_maybe (fun _ => reads_spannedExpr) h hgiven
  simp [hvalue]

theorem reads_inline {lang code : String} {volatile : Bool} :
    Reads stmtNode? (stmtNode (.inline lang code volatile)) (.inline lang code volatile) := by
  intro levels j hj hdepth
  obtain ⟨left, c, given, rfl, rfl, hgiven, hfields⟩ :=
    hj.tagged_fields ["lang", "code", "volatile"] rfl (by decide) hdepth
  rcases hfields with _ | ⟨glang, _ | ⟨gcode, _ | ⟨gvolatile, ⟨⟩⟩⟩⟩
  obtain ⟨_, rfl, hlang⟩ := reads_text.required glang
  obtain ⟨_, rfl, hcode⟩ := reads_text.required gcode
  have hvolatile := reads_flag.orElse false (by simp) gvolatile
  simp [inline?, hgiven, hlang, hcode, hvolatile]

/-! ### Branches -/

def branch? : (levels : Nat) → Json → Option Branch
  | levels + 1, j =>
    match j.fields? ["cond", "body"] with
    | some [some cond, some body] => do
        return ⟨← expr? levels cond, ← block? levels body⟩
    | _ => none
  | 0, _ => none

theorem branches?_eq : branches? = list? branch? := by
  funext levels j
  unfold branches? list?
  split
  · next levels elems =>
    congr 1
    cases levels <;> rfl
  · rfl

theorem reads_branch (he : (expr e).Exact) (hb : Reads block? (block b) b) :
    Reads branch? (.record [needed "cond" (expr e), needed "body" (block b)]) ⟨e, b⟩ := by
  intro levels j hj hdepth
  obtain ⟨left, given, rfl, hgiven, hfields⟩ := hj.fields ["cond", "body"] rfl (by decide) hdepth
  rcases hfields with _ | ⟨ge, _ | ⟨gb, ⟨⟩⟩⟩
  obtain ⟨_, rfl, he⟩ := (reads_spannedExpr he).required ge
  obtain ⟨_, rfl, hb⟩ := hb.required gb
  simp [branch?, hgiven, he, hb]

theorem reads_ifElse {bs : List Branch} {otherwise : Option (Spanned StmtBlock)}
    (hbs : List.Forall₂ (Reads branch?) (branches bs) bs) (hb : ∀ b, otherwise = some b → Reads block? (block b) b) :
    Reads stmtNode? (stmtNode (.ifElse bs otherwise)) (.ifElse bs otherwise) := by
  have hform : stmtNode (.ifElse bs otherwise) = .tagged "if" (.record [needed "branches" (.list (branches bs)),
      maybe "else_block" block otherwise]) := by
    cases otherwise <;> rfl
  intro levels j hj hdepth
  rw [hform] at hj
  obtain ⟨left, c, given, rfl, rfl, hgiven, hfields⟩ :=
    hj.tagged_fields ["branches", "else_block"] rfl (by decide) hdepth
  rcases hfields with _ | ⟨gbs, _ | ⟨gb, ⟨⟩⟩⟩
  obtain ⟨_, rfl, hbs⟩ := (Reads.list hbs).required gbs
  rw [← branches?_eq] at hbs
  rcases gb.option isNone_iff_eq_none.mp (fun _ => ⟨_, rfl⟩) hb with
    ⟨rfl, rfl | rfl⟩ | ⟨b, body, rfl, rfl, hnull, hread⟩
  · simp [hgiven, hbs]
  · simp [hgiven, hbs]
  · simp [hgiven, hbs, hread]

theorem reads_forLoop {stmt : Option (Spanned Stmt)}
    (hstmt : ∀ s, stmt = some s → Reads stmt? (withSpan (stmtNode s.node) s.span) s)
    (hcond : (ofOption expr cond).Exact) (hstep : (ofOption expr step).Exact) (hb : Reads block? (block b) b) :
    Reads stmtNode? (stmtNode (.forLoop stmt cond step b)) (.forLoop stmt cond step b) := by
  have hform : stmtNode (.forLoop stmt cond step b) = .tagged "for" (.record [
      maybe "init" (fun s => withSpan (stmtNode s.node) s.span) stmt, maybe "cond" expr cond, maybe "step" expr step,
      needed "body" (block b)]) := by
    cases stmt <;> rfl
  intro levels j hj hdepth
  rw [hform] at hj
  obtain ⟨left, c, given, rfl, rfl, hgiven, hfields⟩ :=
    hj.tagged_fields ["init", "cond", "step", "body"] rfl (by decide) hdepth
  rcases hfields with _ | ⟨gstmt, _ | ⟨gcond, _ | ⟨gstep, _ | ⟨gb, ⟨⟩⟩⟩⟩⟩
  have hcond := reads_maybe (fun _ => reads_spannedExpr) hcond gcond
  have hstep := reads_maybe (fun _ => reads_spannedExpr) hstep gstep
  obtain ⟨_, rfl, hb⟩ := hb.required gb
  rcases gstmt.option isNone_iff_eq_none.mp (fun _ => ⟨_, rfl⟩) hstmt with
    ⟨rfl, rfl | rfl⟩ | ⟨s, init, rfl, rfl, hnull, hread⟩
  · simp [hgiven, hcond, hstep, hb]
  · simp [hgiven, hcond, hstep, hb]
  · simp [hgiven, hcond, hstep, hb, hread]

end Statements

mutual

theorem reads_stmtNode : (s : Stmt) → (stmtNode s).Exact → Reads stmtNode? (stmtNode s) s
  | .declare _ _ _, ⟨hname, hty, hinit, _⟩ => reads_declare hname hty hinit
  | .assign _ _, ⟨hplace, hvalue, _⟩ =>
    .pair (by decide) (reads_spannedPlace hplace) (reads_spannedExpr hvalue) fun _ _ _ _ hgiven hp he => by
    simp [hgiven, hp, he]
  | .compoundAssign op _ _, ⟨_, hplace, hvalue, _⟩ =>
    .triple (by decide) reads_binOp (reads_spannedPlace hplace) (reads_spannedExpr hvalue)
      fun _ _ _ _ _ hgiven hop hp he => by simp [hgiven, hop, hp, he]
  | .expr _, h => (reads_spannedExpr h).alternative fun _ _ he => by simp [he]
  | .ifElse bs none, ⟨hbs, _⟩ =>
    reads_ifElse (reads_eachBranch bs hbs) fun _ h => absurd h (some_ne_none _).symm
  | .ifElse bs (some ⟨body, _⟩), ⟨hbs, ⟨hbody, hspan, _⟩, _⟩ =>
    reads_ifElse (reads_eachBranch bs hbs) fun _ h => some.inj h ▸ reads_block body hbody hspan
  | .whileLoop _ ⟨body, _⟩, ⟨hcond, ⟨hbody, hspan, _⟩, _⟩ =>
    .pair (by decide) (reads_spannedExpr hcond) (reads_block body hbody hspan) fun _ _ _ _ hgiven he hb => by
    simp [hgiven, he, hb]
  | .forLoop none _ _ ⟨body, _⟩, ⟨_, hcond, hstep, ⟨hbody, hspan, _⟩, _⟩ =>
    reads_forLoop (fun _ h => absurd h (some_ne_none _).symm) hcond hstep (reads_block body hbody hspan)
  | .forLoop (some ⟨stmt, _⟩) _ _ ⟨body, _⟩, ⟨⟨hstmt, hstmtSpan, _⟩, hcond, hstep, ⟨hbody, hspan, _⟩, _⟩ =>
    reads_forLoop (fun _ h => some.inj h ▸ reads_stmt (reads_stmtNode stmt hstmt) hstmtSpan) hcond hstep
      (reads_block body hbody hspan)
  | .breakLoop, _ => fun levels j hj hdepth => by
    rw [hj.scalar_inv, stmtNode?.eq_def]
    rfl
  | .ret _, h => reads_ret h
  | .block ⟨body, _⟩, ⟨hbody, hspan, _⟩ => (reads_block body hbody hspan).alternative fun _ _ hb => by simp [hb]
  | .inline lang code volatile, _ => reads_inline

theorem reads_block : (b : StmtBlock) → (blockNode b).Exact → {s : Span} → (span s).Exact →
    Reads block? (withSpan (blockNode b) s) ⟨b, s⟩
  | ⟨body⟩, ⟨hbody, _⟩, _, hspan => reads_braces (reads_eachStmt body hbody) hspan

theorem reads_eachStmt : (ss : List (Spanned Stmt)) → AllExact (stmts ss) → List.Forall₂ (Reads stmt?) (stmts ss) ss
  | [], _ => .nil
  | ⟨stmt, _⟩ :: rest, ⟨⟨hstmt, hspan, _⟩, hrest⟩ =>
    .cons (reads_stmt (reads_stmtNode stmt hstmt) hspan) (reads_eachStmt rest hrest)

theorem reads_eachBranch : (bs : List Branch) → AllExact (branches bs) → List.Forall₂ (Reads branch?) (branches bs) bs
  | [], _ => .nil
  | ⟨_, ⟨body, _⟩⟩ :: rest, ⟨⟨hcond, ⟨hbody, hspan, _⟩, _⟩, hrest⟩ =>
    .cons (reads_branch (b := ⟨body, _⟩) hcond (reads_block body hbody hspan)) (reads_eachBranch rest hrest)

end

/-! ### Definitions -/

theorem reads_binding (b : Binding) (h : (binding b).Exact) : Reads binding? (binding b) b := by
  intro levels j hj hdepth
  obtain ⟨left, given, rfl, hgiven, hfields⟩ := hj.fields ["name", "ty"] rfl (by decide) hdepth
  rcases hfields with _ | ⟨gname, _ | ⟨gty, ⟨⟩⟩⟩
  obtain ⟨_, rfl, hname⟩ := (reads_name h.1).required gname
  obtain ⟨_, rfl, hty⟩ := (reads_spannedTypeName h.2.1).required gty
  simp [binding?, record?_succ hgiven, hname, hty]

theorem reads_fnDef (f : FnDef) (h : (fnDef f).Exact) : Reads fnDef? (fnDef f) f := by
  intro levels j hj hdepth
  obtain ⟨hname, hparams, hreturn, hbody, -⟩ := h
  obtain ⟨left, given, rfl, hgiven, hfields⟩ :=
    hj.fields ["name", "params", "return_ty", "body"] rfl (by decide) hdepth
  rcases hfields with _ | ⟨gname, _ | ⟨gparams, _ | ⟨greturn, _ | ⟨gbody, ⟨⟩⟩⟩⟩⟩
  obtain ⟨_, rfl, hname⟩ := (reads_name hname).required gname
  have hparams := (Reads.list (reads_each reads_binding f.params hparams)).orElse [] List.isEmpty_iff.mp gparams
  have hreturn := reads_maybe (fun _ => reads_spannedTypeName) hreturn greturn
  obtain ⟨_, rfl, hbody⟩ := (reads_block f.body.node hbody.1 hbody.2.1).required gbody
  simp [fnDef?, record?_succ hgiven, hname, hparams, hreturn, hbody]

theorem reads_structDef {d : StructDef} (h : (structDef d).Exact) : Reads structDef? (structDef d) d := by
  intro levels j hj hdepth
  obtain ⟨hname, hmembers, hmethods, -⟩ := h
  obtain ⟨left, given, rfl, hgiven, hfields⟩ := hj.fields ["name", "fields", "methods"] rfl (by decide) hdepth
  rcases hfields with _ | ⟨gname, _ | ⟨gmembers, _ | ⟨gmethods, ⟨⟩⟩⟩⟩
  obtain ⟨_, rfl, hname⟩ := (reads_name hname).required gname
  obtain ⟨_, rfl, hmembers⟩ := (Reads.list (reads_each reads_binding d.fields hmembers)).required gmembers
  have hmethods := (Reads.list (reads_each reads_fnDef d.methods hmethods)).orElse [] List.isEmpty_iff.mp gmethods
  simp [structDef?, record?_succ hgiven, hname, hmembers, hmethods]

theorem reads_item {i : Item} (h : (item i).Exact) : Reads item? (item i) i := by
  cases i with
  | fn f => exact (reads_fnDef f h).alternative fun _ _ hf => by simp [item?, alternative?_tagged, hf]
  | struct d => exact (reads_structDef h).alternative fun _ _ hd => by simp [item?, alternative?_tagged, hd]

theorem reads_spannedItem (i : Spanned Item) (h : (spannedItem i).Exact) : Reads (spanned? item?) (spannedItem i) i :=
  reads_spanned (reads_item h.1) h.2.1

theorem reads_file {f : File} (h : f.form.Exact) : Reads file? f.form f := by
  intro levels j hj hdepth
  obtain ⟨left, given, rfl, hgiven, hfields⟩ := hj.fields ["name", "items"] rfl (by decide) hdepth
  rcases hfields with _ | ⟨gname, _ | ⟨gitems, ⟨⟩⟩⟩
  have hname := reads_text.orElse "" of_decide_eq_true gname
  obtain ⟨_, rfl, hitems⟩ := (Reads.list (reads_each reads_spannedItem f.items h.2.1)).required gitems
  simp [file?, record?_succ hgiven, hname, hitems]

/-! ### Round trips -/

/-- A file is decoded from its encoding by name, and from the values in which some of the records are written by
position, with or without optional fields at their ends. -/
theorem file_decodes (f : File) (hexact : f.form.Exact) : f.form.Written f.toJson ∧
      ∀ j, f.form.Written j → j.depth ≤ Decode.nestingLimit →
        File.ofJson? j = some f ∧ File.parse? j.text = some f := by
  refine ⟨written_toJson f, fun j hj hdepth => ?_⟩
  have hdecode : File.ofJson? j = some f := reads_file hexact Decode.nestingLimit j hj hdepth
  refine ⟨hdecode, ?_⟩
  rw [File.parse?, Json.parse?_text (hj.plain hexact)]
  exact hdecode

theorem written_unspanned (h : form.Written j) : (withSpan form {}).Written (.array [j]) :=
  .byPosition 1 (.cons h .nil) (by simp)

def returnsHalf : FnDef :=
  { name := ⟨"main", { line := 1, column := 4 }⟩
    params := []
    returnTy := none
    body := ⟨⟨[⟨.ret (some ⟨.literal (.number 0.5), {}⟩), {}⟩]⟩, {}⟩ }

/-- The function with some records written by name and the others by position. -/
def returnsHalfMixed : Json :=
  .array [.array [.ofString "main", .array [.ofNat 0, .ofNat 0, .ofNat 0, .ofNat 1, .ofNat 4]], .array [], .null,
    .array [.ofMembers [("stmts", .array [.array [.ofMembers [("return", .array [
      .ofMembers [("literal", .ofMembers [("number", .ofFloat 0.5)])]])]]])]]]

theorem written_returnsHalf : (fnDef returnsHalf).Written returnsHalfMixed := by
  have hspan : (span { line := 1, column := 4 }).Written (.array [.ofNat 0, .ofNat 0, .ofNat 0, .ofNat 1, .ofNat 4]) :=
    .byPosition 5 (.cons (.scalar _) (.cons (.scalar _) (.cons (.scalar _) (.cons (.scalar _)
      (.cons (.scalar _) .nil))))) (by decide)
  have hname : (name returnsHalf.name).Written
      (.array [.ofString "main", .array [.ofNat 0, .ofNat 0, .ofNat 0, .ofNat 1, .ofNat 4]]) :=
    .byPosition 2 (.cons (.scalar _) (.cons hspan .nil)) (by decide)
  have hvalue := written_unspanned (written_byName (exprNode (.literal (.number 0.5))))
  have hstmt := written_unspanned (.tagged "return" hvalue)
  have hbody : (blockNode returnsHalf.body.node).Written _ :=
    .byName (.cons (.list (.cons hstmt .nil)) .nil)
  exact .byPosition 4 (.cons hname (.cons (.list .nil) (.cons (.scalar .absent)
    (.cons (written_unspanned hbody) .nil)))) (by decide)

theorem exact_half : (Scalar.number 0.5).Exact :=
  ⟨by decide +kernel, ⟨by decide +kernel, by decide +kernel, by decide +kernel, by decide +kernel⟩, by decide +kernel⟩

theorem returnsHalf_decodes :
    File.ofJson? (.array [.ofString "", .array [.array [.ofMembers [("fn", returnsHalfMixed)]]]]) =
        some ⟨"", [⟨.fn returnsHalf, {}⟩]⟩ ∧
      File.parse? (Json.text (.array [.ofString "", .array [.array [.ofMembers [("fn", returnsHalfMixed)]]]])) =
        some ⟨"", [⟨.fn returnsHalf, {}⟩]⟩ := by
  have hexact : (File.form ⟨"", [⟨.fn returnsHalf, {}⟩]⟩).Exact := by
    have hhalf := exact_half
    simp [returnsHalf, File.form, spannedItem, item, fnDef, name, withSpan, span, block, blockNode, stmts, stmtNode,
      ofOption, expr, exprNode, literal, Exact, AllExact, FieldsExact, Scalar.Exact, UInt32.size] at hhalf ⊢
    exact hhalf
  have hitem := written_unspanned (.tagged "fn" written_returnsHalf)
  have hwritten : (File.form ⟨"", [⟨.fn returnsHalf, {}⟩]⟩).Written
      (.array [.ofString "", .array [.array [.ofMembers [("fn", returnsHalfMixed)]]]]) :=
    .byPosition 2 (.cons (.scalar (.text "")) (.cons (.list (.cons hitem .nil)) .nil)) (by decide)
  exact (file_decodes _ hexact).2 _ hwritten (by decide +kernel)

end Aero.Form
