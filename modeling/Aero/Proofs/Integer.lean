import Aero.Proofs.Compute
import Aero.Proofs.Soundness

/-!
Expressions on whole numbers. The width of such an expression can be told from its text and the types in scope. Its
code is always made and stays in the block where it begins. A run of the code leaves the value of the expression in an
operand and changes memory by the steps of the expression only, unless evaluation comes to a quotient or a shift that
has no result.
-/

namespace Aero

open Option

variable {width place bits : Nat} {x y : IR.Word} {name : String} {vars : String → Option Nat} {op : BinOp}
  {span : Span}

namespace Evaluation

open IR

variable {m : Store}

/-- The width of the result of an operator. The sum of two characters is no number. -/
def binaryWidth? (op : BinOp) (a b : Nat) : Option Nat :=
  match op with
  | .and | .or => some 1
  | op =>
    if op = .add ∧ a = 8 ∧ b = 8 then none
    else if op.isComparison then some 1
    else some (max (max a b) 32)

/-- The width of an expression on whole numbers, given the widths of variables. -/
def width? (vars : String → Option Nat) : Expr → Option Nat
  | .literal l => (literal? l).map Word.width
  | .var name => vars name
  | .paren ⟨inner, _⟩ => width? vars inner
  | .binary op ⟨l, _⟩ ⟨r, _⟩ => do binaryWidth? op (← width? vars l) (← width? vars r)
  | .unary op ⟨e, _⟩ => do
      let width ← width? vars e
      return if op = .not then 1 else width
  | .step _ ⟨.var name, _⟩ => (vars name).filter (· ≠ 1)
  | .cast target ⟨e, _⟩ => do
      let _ ← width? vars e
      intWidth? target.node
  | _ => none

/-- An operator has no result: a quotient by zero, one that does not fit, or a shift beyond the width. -/
def undefined (op : BinOp) (x y : Word) : Prop :=
  match op with
  | .div | .mod => divides (commonWidth x y) x.value y.value = false
  | .shl | .shr => ¬ (0 ≤ y.value ∧ y.value < commonWidth x y)
  | _ => False

/-- Evaluation comes to an operator that has no result. -/
def Faults : Expr → Store → Prop
  | .paren ⟨e, _⟩, m | .unary _ ⟨e, _⟩, m | .cast _ ⟨e, _⟩, m => Faults e m
  | .binary op ⟨l, _⟩ ⟨r, _⟩, m => Faults l m ∨ ∃ x m1, expr l m = some (x, m1) ∧
      (Faults r m1 ∨ ∃ y m2, expr r m1 = some (y, m2) ∧ undefined op x y)
  | _, _ => False

/-- Variables of a store have the widths that are given for them. -/
def Store.Typed (m : Store) (vars : String → Option Nat) : Prop :=
  ∀ name width, vars name = some width → ∃ place x, m.place? name = some place ∧ m.cells[place]? = some x ∧
    x.width = width

theorem binary?_defined (hwidth : binaryWidth? op x.width y.width = some width)
    (h : ¬ undefined op x y) : ∃ z, binary? op x y = some z ∧ z.width = width := by
  cases op with
  | and | or | eq | ne | lt | le | gt | ge =>
    cases hwidth
    exact ⟨_, rfl, rfl⟩
  | add =>
    obtain ⟨hchars, hwidth⟩ := ite_none_left_eq_some.mp hwidth
    cases hwidth
    exact ⟨_, if_neg hchars, rfl⟩
  | sub | mul | bitAnd | bitOr | bitXor =>
    cases hwidth
    exact ⟨_, rfl, rfl⟩
  | div | mod =>
    cases hwidth
    have hdivides : divides (commonWidth x y) x.value y.value = true := Bool.not_eq_false _ ▸ h
    exact ⟨_, congrArg (Option.map (Word.ofInt (commonWidth x y))) (if_pos hdivides), rfl⟩
  | shl | shr =>
    cases hwidth
    exact ⟨_, congrArg (Option.map (Word.ofInt (commonWidth x y))) (if_pos (not_not.mp h)), rfl⟩

theorem step?_defined (op : StepOp) (h : x.width ≠ 1) : ∃ y, step? op x = some y ∧ y.width = x.width := by
  cases op <;> exact ⟨_, if_neg h, rfl⟩

theorem Store.Typed.set (h : m.Typed vars)
    (hx : m.cells[place]? = some x) (hwidth : y.width = x.width) : (m.set place y).Typed vars := by
  intro name width hname
  obtain ⟨other, z, hother, hz, hwidth'⟩ := h name width hname
  by_cases heq : place = other
  · subst heq
    rw [hx] at hz
    cases hz
    obtain ⟨hlt, _⟩ := List.getElem?_eq_some_iff.mp hx
    exact ⟨place, y, hother, List.getElem?_set_self hlt, hwidth.trans hwidth'⟩
  · exact ⟨other, z, hother, (List.getElem?_set_ne heq).trans hz, hwidth'⟩

/-- Unless evaluation comes to an operator without a result, an expression has a value of its width. -/
theorem expr_defined : ∀ e {m : Store} {width : Nat}, width? vars e = some width → m.Typed vars → ¬ Faults e m →
    ∃ x m', expr e m = some (x, m') ∧ x.width = width ∧ m'.Typed vars
  | .literal l, m, width, hwidth, hm, _ => by
      obtain ⟨x, hx, hxw⟩ := map_eq_some_iff.mp hwidth
      refine ⟨x, m, ?_, hxw, hm⟩
      rw [expr, hx]
      rfl
  | .var name, m, width, hwidth, hm, _ => by
      obtain ⟨place, x, hplace, hx, hxw⟩ := hm name width hwidth
      refine ⟨x, m, ?_, hxw, hm⟩
      simp only [expr, hplace, bind_eq_bind, bind_some, hx]
      rfl
  | .paren ⟨inner, _⟩, m, width, hwidth, hm, hok => by
      exact expr_defined inner hwidth hm hok
  | .binary op ⟨l, _⟩ ⟨r, _⟩, m, width, hwidth, hm, hok => by
      simp only [width?, bind_eq_bind, bind_eq_some_iff] at hwidth
      obtain ⟨a, ha, b, hb, hwidth⟩ := hwidth
      obtain ⟨x, m1, hx, rfl, hm1⟩ := expr_defined l ha hm fun h => hok (.inl h)
      obtain ⟨y, m2, hy, rfl, hm2⟩ := expr_defined r hb hm1 fun h => hok (.inr ⟨x, m1, hx, .inl h⟩)
      obtain ⟨z, hz, hzw⟩ := binary?_defined hwidth fun h => hok (.inr ⟨x, m1, hx, .inr ⟨y, m2, hy, h⟩⟩)
      refine ⟨z, m2, ?_, hzw, hm2⟩
      simp only [expr, hx, hy, hz, bind_eq_bind, bind_some]
      rfl
  | .unary op ⟨e, _⟩, m, width, hwidth, hm, hok => by
      simp only [width?, bind_eq_bind, bind_eq_some_iff] at hwidth
      obtain ⟨a, ha, hwidth⟩ := hwidth
      cases hwidth
      obtain ⟨x, m1, hx, rfl, hm1⟩ := expr_defined e ha hm hok
      refine ⟨unary op x, m1, ?_, by cases op <;> rfl, hm1⟩
      simp only [expr, hx]
      rfl
  | .step op ⟨.var name, _⟩, m, width, hwidth, hm, _ => by
      obtain ⟨hname, hne⟩ := filter_eq_some_iff.mp hwidth
      obtain ⟨place, x, hplace, hx, rfl⟩ := hm name width hname
      obtain ⟨y, hy, hyw⟩ := step?_defined op (of_decide_eq_true hne)
      refine ⟨y, m.set place y, ?_, hyw, hm.set hx hyw⟩
      simp only [expr, modify, hplace, hx, hy, bind_eq_bind, bind_some]
      rfl
  | .cast target ⟨e, _⟩, m, width, hwidth, hm, hok => by
      simp only [width?, bind_eq_bind, bind_eq_some_iff] at hwidth
      obtain ⟨a, ha, hwidth⟩ := hwidth
      obtain ⟨x, m1, hx, _, hm1⟩ := expr_defined e ha hm hok
      refine ⟨x.convert width, m1, ?_, Word.convert_width_eq x width, hm1⟩
      simp only [expr, hwidth, hx]
      rfl

end Evaluation

/-! ### Code in one block -/

namespace IR

/-- No block is added to the function, and work goes on in the same one. -/
structure Builder.Stays (b b' : Builder) : Prop where
  current_eq : b'.current = b.current
  insert_eq : b'.insert = b.insert
  blocks_eq : b'.function?.map (·.blocks.map Block.id) = b.function?.map (·.blocks.map Block.id)

namespace Builder.Stays

variable {b b' b'' : Builder}

theorem refl : b.Stays b := ⟨rfl, rfl, rfl⟩

theorem trans (h : b.Stays b') (h' : b'.Stays b'') : b.Stays b'' :=
  ⟨h'.current_eq.trans h.current_eq, h'.insert_eq.trans h.insert_eq, h'.blocks_eq.trans h.blocks_eq⟩

variable (b : Builder)

theorem modifyFunction {change : Function → Function}
    (hchange : ∀ f, (change f).blocks.map Block.id = f.blocks.map Block.id) : b.Stays (b.modifyFunction change) := by
  unfold Builder.modifyFunction
  split
  · next i hcurrent =>
    refine ⟨rfl, rfl, ?_⟩
    simp only [function?, hcurrent, bind_some, List.getElem?_modify_eq]
    cases b.module.functions[i]? with
    | none => rfl
    | some f => exact congrArg some (hchange f)
  · exact .refl

theorem modifyBlock {change : Block → Block} (hchange : ∀ block, (change block).id = block.id) :
    b.Stays (b.modifyBlock change) := by
  unfold Builder.modifyBlock
  split
  · next id _ =>
    refine modifyFunction b fun f => ?_
    unfold Function.modifyBlock
    split
    · refine List.ext_getElem? fun j => ?_
      rw [List.getElem?_map, List.getElem?_map, List.getElem?_modify]
      cases f.blocks[j]? with
      | none => rfl
      | some block =>
        refine congrArg some ?_
        split
        · exact hchange block
        · rfl
    · rfl
  · exact .refl

theorem freshReg : b.Stays (Build.freshReg b).2 := by
  unfold Build.freshReg
  split
  · exact modifyFunction b fun _ => rfl
  · exact .refl

theorem push (i : Instr) : b.Stays (Build.push i b).2 := by
  simp only [Build.push, Build.modify_run]
  split
  · exact ⟨rfl, rfl, rfl⟩
  · exact .refl
  · split
    · exact ⟨rfl, rfl, rfl⟩
    · exact modifyBlock b fun _ => rfl

theorem emit (ty : Ty) (make : Reg → Instr) : b.Stays (Build.emit ty make b).2 :=
  (freshReg b).trans (push _ _)

theorem foldOr (folded : Option Value) (ty : Ty) (make : Reg → Instr) : b.Stays (Build.foldOr folded ty make b).2 := by
  cases folded with
  | none => exact emit b ty make
  | some v => exact .refl

end Builder.Stays

end IR

namespace Lowering

open IR IR.Build IR.Site Evaluation

variable {α β : Type} {env : Env} {s : State} {P : α → Prop} {Q : β → Prop} {v l r : Value} {a b : Nat}

/-- An action succeeds, in the block where it begins and with the same scopes after it, and a condition holds of its
result. -/
def Gives (env : Env) (act : Lower α) (s : State) (P : α → Prop) : Prop :=
  ∃ a s', act env s = .ok a s' ∧ P a ∧ s'.scopes = s.scopes ∧ s.builder.Stays s'.builder

namespace Gives

theorem pure {x : α} (h : P x) : Gives env (pure x) s P := ⟨x, s, rfl, h, rfl, .refl⟩

theorem lift {act : Build α} (hact : P (act s.builder).1) (hstays : s.builder.Stays (act s.builder).2) :
    Gives env (liftM act) s P :=
  ⟨_, _, liftM_run rfl, hact, rfl, hstays⟩

theorem state_bind {next : State → Lower α} (h : Gives env (next s) s P) : Gives env (state >>= next) s P := h

theorem bind {act : Lower α} {next : α → Lower β} (h : Gives env act s P)
    (hnext : ∀ x s', P x → s'.scopes = s.scopes → Gives env (next x) s' Q) : Gives env (act >>= next) s Q := by
  obtain ⟨x, s', hrun, hx, hscopes, hstays⟩ := h
  obtain ⟨y, s'', hrun', hy, hscopes', hstays'⟩ := hnext x s' hx hscopes
  refine ⟨y, s'', ?_, hy, hscopes'.trans hscopes, hstays.trans hstays'⟩
  rw [bind_run, hrun]
  exact hrun'

end Gives

/-! ### Operators succeed -/

theorem gives_icmp {pred : IntPredicate} : Gives env (liftM (icmp pred l r)) s (·.ty = .i1) :=
  .lift (icmp_ty rfl) (.foldOr ..)

theorem gives_binary {op : BinaryOp} (hop : op.isFloating = false) (hl : l.ty = .int a) :
    Gives env (liftM (binary op l r)) s (·.ty = .int a) :=
  .lift ((binary_ty hop rfl).trans hl) (.foldOr ..)

theorem gives_load (ty : Ty) (ptr : Value) : Gives env (liftM (load ty ptr)) s (·.ty = ty) :=
  .lift rfl (.emit ..)

theorem gives_intCast (hv : v.ty = .int a) : Gives env (liftM (intCast v (.int bits) true)) s (·.ty = .int bits) := by
  have hmap : ∀ {op : CastOp}, (foldCast? op v (.int bits) = v.int?.map fun k => .ofInt (.int bits) k) →
      Gives env (liftM (Build.cast op v (.int bits))) s (·.ty = .int bits) := by
    intro op hop
    refine .lift (foldOr_ty rfl fun u hu => ?_) (.foldOr ..)
    rw [hop] at hu
    obtain ⟨_, _, rfl⟩ := map_eq_some_iff.mp hu
    rfl
  unfold intCast
  simp only [hv, Ty.width?]
  split
  · next heq => exact .pure (heq ▸ hv)
  · split
    · exact hmap rfl
    · split
      · exact hmap rfl
      · refine .lift (foldOr_ty rfl fun u hu => ?_) (.foldOr ..)
        simp only [foldCast?, bind_eq_bind, bind_eq_some_iff] at hu
        obtain ⟨_, _, _, _, hu⟩ := hu
        cases hu
        rfl

theorem gives_coerce (hv : v.ty = .int a) {context : Coercion} :
    Gives env (coerce v (.int bits) context span) s (·.ty = .int bits) := by
  by_cases heq : a = bits
  · unfold coerce
    rw [if_pos (heq ▸ hv)]
    exact .pure (heq ▸ hv)
  · rw [coerce_int context span hv heq]
    split
    · next hone => exact hone ▸ gives_icmp
    · exact gives_intCast hv

theorem gives_toBool (hv : v.ty = .int a) : Gives env (toBool v span) s (·.ty = .i1) := by
  by_cases hone : a = 1
  · subst hone
    rw [toBool, hv]
    exact .pure hv
  · rw [toBool_int span hv hone]
    exact gives_icmp

theorem gives_promotePair (hl : l.ty = .int a) (hr : r.ty = .int b) : Gives env (promotePair l r span) s fun p =>
      p.1.ty = .int (max (max a b) 32) ∧ p.2.ty = .int (max (max a b) 32) := by
  rw [promotePair, hl, hr]
  refine (gives_coerce hl).bind fun l' s1 hl' _ => ?_
  exact (gives_coerce hr).bind fun r' s2 hr' _ => .pure ⟨hl', hr'⟩

theorem gives_arith {floating integral : BinaryOp} (hintegral : integral.isFloating = false) (hl : l.ty = .int a) :
    Gives env (liftM (arith floating integral l r)) s (·.ty = .int a) := by
  rw [arith, hl]
  exact gives_binary hintegral hl

theorem gives_arithmetic {make : Value → Value → Build Value}
    (hmake : ∀ {l r : Value} {a : Nat} {s : State}, l.ty = .int a → Gives env (liftM (make l r)) s (·.ty = .int a))
    (hl : l.ty = .int a) (hr : r.ty = .int b) (span : Span) :
    Gives env (arithmetic make l r span) s (·.ty = .int (max (max a b) 32)) := by
  refine (gives_promotePair hl hr).bind ?_
  rintro ⟨l', r'⟩ s1 ⟨hl', _⟩ _
  exact hmake hl'

theorem gives_logical {instr : BinaryOp} (hinstr : instr.isFloating = false) (hl : l.ty = .int a) (hr : r.ty = .int b) :
    Gives env (logical instr l r span) s (·.ty = .i1) := by
  refine (gives_toBool hl).bind fun l' s1 hl' _ => ?_
  exact (gives_toBool hr).bind fun r' s2 hr' _ => gives_binary hinstr hl'

theorem gives_compare (hl : l.ty = .int a) (hr : r.ty = .int b) : Gives env (compare op l r span) s (·.ty = .i1) := by
  unfold compare
  rw [hl, hr]
  refine (gives_promotePair hl hr).bind ?_
  rintro ⟨l', r'⟩ s1 ⟨hl', _⟩ _
  change Gives env (if l'.ty.isFp = true then _ else _) s1 _
  rw [hl']
  exact gives_icmp

theorem gives_binaryValues (hwidth : binaryWidth? op a b = some width)
    (hl : l.ty = .int a) (hr : r.ty = .int b) (span : Span) :
    Gives env (binaryValues op l r span) s (·.ty = .int width) := by
  have hlOperand : isOperand l = true := by rw [isOperand, hl]; rfl
  have hrOperand : isOperand r = true := by rw [isOperand, hr]; rfl
  unfold binaryValues
  rw [hlOperand, hrOperand]
  cases op with
  | and | or =>
    cases hwidth
    exact gives_logical rfl hl hr
  | eq | ne | lt | le | gt | ge =>
    cases hwidth
    exact gives_compare hl hr
  | add =>
    obtain ⟨hchars, hwidth⟩ := ite_none_left_eq_some.mp hwidth
    cases hwidth
    have hsum : (l.ty.isChar && r.ty.isChar) = false := by
      refine Bool.eq_false_iff.mpr fun h => hchars ?_
      simpa [hl, hr, Ty.isChar] using h
    unfold sum
    rw [hsum, hl, hr]
    refine gives_arithmetic ?_ hl hr span
    exact fun hl => gives_arith rfl hl
  | sub | mul | div =>
    cases hwidth
    refine gives_arithmetic ?_ hl hr span
    exact fun hl => gives_arith rfl hl
  | mod =>
    cases hwidth
    unfold remainder
    rw [hl, hr]
    refine gives_arithmetic ?_ hl hr span
    exact fun hl => gives_arith rfl hl
  | bitAnd | bitOr | bitXor | shl | shr =>
    cases hwidth
    unfold bitwise
    rw [hl, hr]
    refine gives_arithmetic ?_ hl hr span
    exact fun hl => gives_binary rfl hl

theorem gives_unaryValue (op : UnaryOp) (hv : v.ty = .int a) (span : Span) :
    Gives env (unaryValue op v span) s (·.ty = .int (if op = .not then 1 else a)) := by
  cases op with
  | neg =>
    unfold unaryValue
    rw [Build.neg, hv]
    exact gives_binary rfl rfl
  | plus =>
    unfold unaryValue
    rw [hv]
    exact .pure hv
  | not => exact (gives_toBool hv).bind fun u s1 hu _ => gives_binary rfl hu

/-! ### Expressions succeed -/

def Scopes.width? (scopes : Scopes) (name : String) : Option Nat :=
  (scopes.resolve? name).bind fun slot => slot.ty.width?

theorem Scopes.width?_eq_some {scopes : Scopes} (h : scopes.width? name = some width) :
    ∃ slot, scopes.resolve? name = some slot ∧ slot.ty = .int width := by
  obtain ⟨slot, hslot, hwidth⟩ := bind_eq_some_iff.mp h
  refine ⟨slot, hslot, ?_⟩
  cases hty : slot.ty <;> rw [hty] at hwidth <;> cases hwidth
  rfl

theorem gives_lookup {slot : Slot} (h : s.scopes.resolve? name = some slot) (span : Span) :
    Gives env (lookup name span) s (· = slot) := by
  refine .state_bind ?_
  rw [h]
  exact .pure rfl

theorem gives_lowerLiteral {lit : Literal} (h : (literal? lit).map Word.width = some width)
    (span : Span) : Gives env (lowerLiteral lit span) s (·.ty = .int width) := by
  obtain ⟨x, hx, rfl⟩ := map_eq_some_iff.mp h
  cases lit with
  | number k =>
    obtain ⟨hint, hx⟩ := ite_none_right_eq_some.mp hx
    cases hx
    rw [lowerLiteral, if_pos hint]
    exact .pure rfl
  | char c =>
    obtain ⟨hchar, hx⟩ := ite_none_right_eq_some.mp hx
    cases hx
    rw [lowerLiteral, if_pos hchar]
    exact .pure rfl
  | bool _ =>
    cases hx
    exact .pure rfl
  | str _ => cases hx

theorem gives_stepPlace (op : StepOp) {place : PlaceRef} (hty : place.ty = .int a) (hne : a ≠ 1) (span : Span) :
    Gives env (stepPlace op place span) s (·.ty = .int a) := by
  have hstore : ∀ u s', u.ty = .int a →
      Gives env (do Build.store u place.ptr; return u) s' (·.ty = .int a) := fun u s' hu =>
    (Gives.lift (P := fun _ => True) trivial (.push ..)).bind fun _ _ _ _ => .pure hu
  have hok : (!place.ty.isNumeric || place.ty.isBool) = false := by
    rw [hty]
    simpa [Ty.isNumeric, Ty.isInt, Ty.isBool] using hne
  unfold stepPlace
  rw [hok]
  refine (gives_load _ _).bind fun current s1 hcurrent _ => ?_
  cases op with
  | inc | dec => exact (gives_arith rfl (hcurrent.trans hty)).bind fun u s2 hu _ => hstore u s2 hu

theorem gives_cast {target : Spanned String} {operand : Lower Value}
    (hwidth : intWidth? target.node = some width) (span : Span) (hoperand : Gives env operand s (·.ty = .int a)) :
    Gives env (cast target operand span) s (·.ty = .int width) := by
  obtain ⟨hty, htarget, _⟩ := intWidth?_scalarType? hwidth
  unfold cast
  rw [hty, filter_some, if_pos htarget]
  refine hoperand.bind fun v s1 hv _ => ?_
  split
  · next hsame =>
    refine .bind (P := fun _ => True) (α := Unit) ⟨(), _, rfl, trivial, rfl, ⟨rfl, rfl, rfl⟩⟩ fun _ _ _ _ => ?_
    exact .pure hsame
  · rw [castValue_int width span hv]
    split
    · next hone => exact hone ▸ gives_toBool hv
    · exact gives_coerce hv

/-- The code of an expression on whole numbers is made, and its operand is of the type that has the width of the
expression. -/
theorem gives_lowerExpr (span : Span) : ∀ e s {width : Nat},
    Evaluation.width? s.scopes.width? e = some width → Gives env (lowerExpr span e) s (·.ty = .int width)
  | .literal l, s, width, h => by
      exact gives_lowerLiteral h span
  | .var name, s, width, h => by
      obtain ⟨slot, hslot, hty⟩ := Scopes.width?_eq_some h
      refine (gives_lookup hslot span).bind ?_
      rintro _ s1 rfl _
      rw [hty]
      exact gives_load _ _
  | .paren ⟨inner, innerSpan⟩, s, width, h => by
      exact gives_lowerExpr innerSpan inner s h
  | .binary op ⟨l, lspan⟩ ⟨r, rspan⟩, s, width, h => by
      simp only [Evaluation.width?, bind_eq_bind, bind_eq_some_iff] at h
      obtain ⟨a, ha, b, hb, hwidth⟩ := h
      refine (gives_lowerExpr lspan l s ha).bind fun l' s1 hl hscopes => ?_
      rw [← hscopes] at hb
      exact (gives_lowerExpr rspan r s1 hb).bind fun r' s2 hr _ => gives_binaryValues hwidth hl hr span
  | .unary op ⟨e, espan⟩, s, width, h => by
      simp only [Evaluation.width?, bind_eq_bind, bind_eq_some_iff] at h
      obtain ⟨a, ha, hwidth⟩ := h
      cases hwidth
      exact (gives_lowerExpr espan e s ha).bind fun v s1 hv _ => gives_unaryValue op hv span
  | .step op ⟨.var name, pspan⟩, s, width, h => by
      obtain ⟨hname, hne⟩ := filter_eq_some_iff.mp h
      obtain ⟨slot, hslot, hty⟩ := Scopes.width?_eq_some hname
      have hplace : Gives env (variablePlace name pspan) s (·.ty = .int width) := by
        refine (gives_lookup hslot pspan).bind ?_
        rintro _ s1 rfl _
        rw [hty]
        exact .pure rfl
      exact hplace.bind fun place s1 hplace _ => gives_stepPlace op hplace (of_decide_eq_true hne) span
  | .cast target ⟨e, espan⟩, s, width, h => by
      simp only [Evaluation.width?, bind_eq_bind, bind_eq_some_iff] at h
      obtain ⟨a, ha, hwidth⟩ := h
      exact gives_cast hwidth span (gives_lowerExpr espan e s ha)

/-! ### Expressions that fail -/

theorem step_truthValue (h : s.scopes.width? name = some 1) (op : StepOp) (span nameSpan : Span) :
    lowerExpr span (.step op ⟨.var name, nameSpan⟩) env s = .error (Problem.stepOperand.diagnostic span) s := by
  obtain ⟨slot, hslot, hty⟩ := Scopes.width?_eq_some h
  have hlookup : lookup name nameSpan env s = .ok slot s := by
    rw [lookup, bind_run, show state env s = .ok s s from rfl]
    simp only [hslot]
    rfl
  have hplace : variablePlace name nameSpan env s = .ok { ptr := slot.ptr, ty := .i1 } s := by
    rw [variablePlace, bind_run, hlookup]
    simp only [hty]
    rfl
  change (variablePlace name nameSpan >>= fun place => stepPlace op place span) env s = _
  rw [bind_run, hplace]
  rfl

theorem literal_wideChar {c : Char} (h : 256 ≤ c.toNat) (span : Span) :
    lowerExpr span (.literal (.char c)) env s = .error ((Problem.charRange c).diagnostic span) s := by
  change lowerLiteral (.char c) span env s = _
  rw [lowerLiteral, if_neg (Nat.not_lt.mpr h)]
  rfl

/-! ### Variables in memory -/

section

variable [Library]

/-- The variables of a store are those in scope that are whole numbers, memory holds their values, and all other memory
is as it was. -/
structure InMemory (scopes : Scopes) (old : List Datum) (n : Nat) (m : Store) (c : Point cells) : Prop where
  known : ∀ name width, scopes.width? name = some width → ∃ place, m.place? name = some place
  slot : ∀ name place, m.place? name = some place → ∃ slot, scopes.resolve? name = some slot ∧
    SlotMatches n m.cells c slot place
  number : ∀ name place x, m.place? name = some place → m.cells[place]? = some x → c.memory[place]? = some (.int x)
  others : ∀ a, (∀ name, m.place? name ≠ some a) → c.memory[a]? = old[a]?

variable {scopes : Scopes} {old : List Datum} {n k : Nat} {m : Store} {c d : Point cells}

section

variable (h : InMemory scopes old n m c)
include h

theorem InMemory.typed : m.Typed scopes.width? := by
  intro name width hwidth
  obtain ⟨place, hplace⟩ := h.known name width hwidth
  obtain ⟨slot, hslot, hmatches⟩ := h.slot name place hplace
  obtain ⟨slot', hslot', hty⟩ := Scopes.width?_eq_some hwidth
  rw [hslot] at hslot'
  cases hslot'
  obtain ⟨x, hx, hty', _⟩ := hmatches.cell
  exact ⟨place, x, hplace, hx, Ty.int.inj (hty'.symm.trans hty)⟩

theorem InMemory.keep (hregs : ∀ r, r < n → d.regs r = c.regs r)
    (hmemory : d.memory = c.memory) (hle : n ≤ k) : InMemory scopes old k m d where
  known := h.known
  slot := by
    intro name place hplace
    obtain ⟨slot, hslot, hmatches⟩ := h.slot name place hplace
    exact ⟨slot, hslot, hmatches.keep hregs hle⟩
  number := hmemory ▸ h.number
  others := hmemory ▸ h.others

theorem InMemory.set (hplace : m.place? name = some place) (hy : m.cells[place]? = some y) (hwidth : x.width = y.width)
    (hregs : ∀ r, r < n → d.regs r = c.regs r) (hmemory : d.memory = c.memory.set place (.int x)) (hle : n ≤ k) :
    InMemory scopes old k (m.set place x) d where
  known := h.known
  slot := by
    intro name' place' hplace'
    obtain ⟨slot, hslot, hmatches⟩ := h.slot name' place' hplace'
    exact ⟨slot, hslot, (hmatches.keep hregs hle).set hy hwidth⟩
  number := by
    intro name' place' z hplace' hz
    have hlt := (List.getElem?_eq_some_iff.mp (h.number name place y hplace hy)).1
    rw [hmemory]
    by_cases heq : place = place'
    · subst heq
      have hx := List.getElem?_set_self (a := x) (List.getElem?_eq_some_iff.mp hy).1
      rw [List.getElem?_set_self hlt, some.inj (hx.symm.trans hz)]
    · rw [List.getElem?_set_ne heq]
      exact h.number name' place' z hplace' ((List.getElem?_set_ne heq).symm.trans hz)
  others := by
    intro a ha
    have hne : place ≠ a := fun heq => ha name (heq ▸ hplace)
    rw [hmemory, List.getElem?_set_ne hne]
    exact h.others a ha

end

def View.inMemory (scopes : Scopes) (old : List Datum) : View where
  holds n m c := InMemory scopes old n m c
  keep h := h.keep
  memory h := h.number _ _ _
  set h := h.set

theorem View.inMemory_sees (scopes : Scopes) (old : List Datum) : (inMemory scopes old).Sees scopes := by
  intro _ name slot hslot n m c place hm hplace
  obtain ⟨slot', hslot', hmatches⟩ := InMemory.slot hm name place hplace
  rw [hslot] at hslot'
  cases hslot'
  exact hmatches

/-- An expression on whole numbers is lowered without failure in the block where it begins. Unless evaluation comes to
an operator without a result, a run of its code leaves the value of the expression in an operand, and memory as
evaluation leaves the variables. A step of a truth value is rejected, and so is a character of more than one byte. -/
theorem lowerExpr_computes {env : Env} {s : State} {w : Site False} (hbody : Body s w) (hopen : w.Open) (span : Span) :
    (∀ e width, Evaluation.width? s.scopes.width? e = some width →
      ∃ (v : Value) (s' : State) (w' : Site False), lowerExpr span e env s = .ok v s' ∧ Body s' w' ∧
        v.ty = .int width ∧ w'.block.id = w.block.id ∧ w'.fn.blocks.map Block.id = w.fn.blocks.map Block.id ∧
        ∀ (f : Function) (c : Point cells) (m : Store), w'.Embeds f → c.At w →
          InMemory s.scopes c.memory w.fn.nextReg m c → ¬ Faults e m →
          ∃ x m' d, expr e m = some (x, m') ∧ f.Goes c d ∧ d.At w' ∧ d.int? v = some x ∧
            InMemory s.scopes c.memory w'.fn.nextReg m' d) ∧
      (∀ op name nameSpan, s.scopes.width? name = some 1 →
        lowerExpr span (.step op ⟨.var name, nameSpan⟩) env s = .error (Problem.stepOperand.diagnostic span) s) ∧
      ∀ c, 256 ≤ c.toNat →
        lowerExpr span (.literal (.char c)) env s = .error ((Problem.charRange c).diagnostic span) s := by
  refine ⟨fun e width hwidth => ?_, fun op name nameSpan hname => step_truthValue hname op span nameSpan,
    fun c hc => literal_wideChar hc span⟩
  have hgives : Gives env (lowerExpr span e) s (·.ty = .int width) := gives_lowerExpr span e s hwidth
  obtain ⟨v, s', hrun, hty, _, hstays⟩ := hgives
  have hlowers : ∀ old, ∃ w' : Site False, w ≤ w' ∧ s.Same s' ∧ s'.builder = w'.builder ∧
      Computes id (expr e) (View.inMemory s.scopes old) w v w' := by
    intro old
    have hview : Lowers env (lowerExpr span e) s w _ :=
      computes_view span e s w (View.inMemory_sees s.scopes old)
    have hview := hview.run hopen hbody
    rw [hrun] at hview
    obtain ⟨w', hle, _, hsame, hbuilder, _, hcomputes⟩ := hview
    exact ⟨w', hle, hsame, hbuilder, hcomputes⟩
  obtain ⟨w', hle, hsame, hbuilder, _⟩ := hlowers []
  rw [hbuilder, hbody.builder_eq] at hstays
  have hinsert := hstays.insert_eq
  have hblocks := hstays.blocks_eq
  rw [w'.insert_eq, w.insert_eq] at hinsert
  rw [w'.at_block.function?, w.at_block.function?] at hblocks
  refine ⟨v, s', w', hrun, hbody.same hle hsame hbuilder, hty, Option.some.inj hinsert, Option.some.inj hblocks, ?_⟩
  intro f c m hf hc hm hok
  obtain ⟨x, m', hx, _⟩ := expr_defined e hwidth hm.typed hok
  -- The code does not depend on the memory that it is run with.
  obtain ⟨w'', _, _, hbuilder', hcomputes⟩ := hlowers c.memory
  obtain ⟨hfn, hblock⟩ := eq_of_builder_eq (hbuilder'.symm.trans hbuilder)
  obtain ⟨d, hruns, hd, hm', hread⟩ := hcomputes m x m' hx f (hf.of_eq hfn.symm hblock.symm) c hc hm
  exact ⟨x, m', d, hx, hruns.goes, ⟨hblock ▸ hd.block_eq, hblock ▸ hd.done_eq⟩, hread.read, hfn ▸ hm'⟩

end

/-- Truth values have no steps, and a character is one byte. -/
theorem truthValue_has_no_step :
    let slot : Slot := { ptr := .null, ty := .i1 }
    let s : State := { builder := { module := { name := "main" } }, scopes := { inner := [[("b", slot)]] } }
    lowerExpr {} (.step .inc ⟨.var "b", {}⟩) bareEnv s = .error (Problem.stepOperand.diagnostic {}) s ∧
      lowerExpr {} (.literal (.char 'Ā')) bareEnv s = .error ((Problem.charRange 'Ā').diagnostic {}) s :=
  ⟨rfl, rfl⟩

/-! ### A function with a variable -/

/-- A module with one function, which is passed an address and has no body yet. -/
def counterState : State where
  builder :=
    { module := { name := "main", functions := [{ name := "f", params := [⟨"p", .ptr⟩], ret := .void }] } }

theorem counterState_declares :
    counterState.builder.Declares "f" 0 { name := "f", params := [⟨"p", .ptr⟩], ret := .void } :=
  ⟨rfl, rfl, rfl, rfl⟩

theorem counterState_tables : Tables False counterState where
  sound := False.elim
  registered := nofun
  functions := nofun
  methods := nofun
  fresh := False.elim
  outermost := rfl

def counterSite : Site False := counterState_declares.site #[] counterState_tables.sound

def counterSlot : Slot := { ptr := .ofReg 0 .ptr, ty := .i32 }

def counterStart : State :=
  { ({ counterState with builder := counterSite.builder }).enter .void with
    scopes := { inner := [[("x", counterSlot)]] } }

theorem counterStart_body : Body counterStart counterSite where
  tables := { counterState_tables.site counterState_declares #[] with outermost := rfl }
  builder_eq := rfl
  returnTy_eq := rfl
  inner_ne := List.cons_ne_nil _ _
  slots := by
    intro frame hframe p hp
    rw [List.mem_singleton.mp hframe] at hp
    rw [List.mem_singleton.mp hp]
    have hptr : counterSite.Val (.ofReg 0 .ptr) .ptr := by
      refine ⟨fun r hr => ?_, fun _ => rfl⟩
      cases hr
      exact ⟨Nat.one_pos, .inl Nat.one_pos⟩
    exact .plain (hptr.addr (counterState_declares.site_untold #[] _ _) .i32) nofun rfl
  exits := nofun

/-- The expression `(x * ++x) >> true`. -/
def halfOfProduct : Expr :=
  .binary .shr ⟨.binary .mul ⟨.var "x", {}⟩ ⟨.step .inc ⟨.var "x", {}⟩, {}⟩, {}⟩ ⟨.literal (.bool true), {}⟩

/-- If the variable is five, the value is half of five times six, and the variable is six afterwards. -/
theorem lowerExpr_computes_halfOfProduct :
    ∃ (v : Value) (s' : State) (w' : Site False), lowerExpr {} halfOfProduct bareEnv counterStart = .ok v s' ∧
      ∀ (f : Function) (c : Point cells), w'.Embeds f → c.At counterSite → c.regs 0 = some (.cell 0) →
        c.memory = [.int (.ofInt 32 5)] →
        ∃ d, f.Goes c d ∧ d.int? v = some (.ofInt 32 15) ∧ d.memory[0]? = some (.int (.ofInt 32 6)) := by
  obtain ⟨hcomputes, _⟩ := @lowerExpr_computes _ bareEnv counterStart counterSite counterStart_body rfl {}
  obtain ⟨v, s', w', hrun, _, _, _, _, hcomputes⟩ := hcomputes halfOfProduct 32 (by decide)
  refine ⟨v, s', w', hrun, fun f c hf hc hreg hmemory => ?_⟩
  let m : Store := ⟨[[("x", 0)]], [.ofInt 32 5]⟩
  have hplace : ∀ name place, m.place? name = some place → name = "x" ∧ place = 0 := by
    intro name place h
    by_cases hname : "x" = name
    · subst hname
      cases h
      exact ⟨rfl, rfl⟩
    · simp [m, Store.place?, hname] at h
  have hm : InMemory counterStart.scopes c.memory counterSite.fn.nextReg m c := by
    refine ⟨fun name width h => ?_, fun name place h => ?_, fun name place x h hx => ?_, fun _ _ => rfl⟩
    · by_cases hname : "x" = name
      · exact hname ▸ ⟨0, rfl⟩
      · simp [Scopes.width?, Scopes.resolve?, counterStart, hname] at h
    · obtain ⟨rfl, rfl⟩ := hplace name place h
      have hwithin : counterSlot.ptr.Within (· < counterSite.fn.nextReg) := fun _ hr => by
        cases hr
        exact Nat.one_pos
      exact ⟨counterSlot, rfl, ⟨hwithin, hreg, .ofInt 32 5, rfl, rfl, by decide, by decide⟩, rfl⟩
    · obtain ⟨rfl, rfl⟩ := hplace name place h
      cases hx
      rw [hmemory]
      rfl
  have hok : ¬ Faults halfOfProduct m := by
    rintro (hl | ⟨x, m1, hx, hr | ⟨y, m2, hy, hshift⟩⟩)
    · obtain hl | ⟨_, _, _, hr | ⟨_, _, _, hmul⟩⟩ := hl
      · exact hl
      · exact hr
      · exact hmul
    · exact hr
    · cases hx
      cases hy
      exact hshift ⟨by decide, by decide⟩
  obtain ⟨x, m', d, hx, hgoes, _, hv, hm'⟩ := hcomputes f c m hf hc hm hok
  have hvalue : expr halfOfProduct m = some (.ofInt 32 15, ⟨[[("x", 0)]], [.ofInt 32 6]⟩) := rfl
  rw [hvalue] at hx
  cases hx
  exact ⟨d, hgoes, hv, hm'.number "x" 0 _ rfl rfl⟩

end Lowering

end Aero
