import Aero.Lowering.Expr
import Aero.Proofs.Intrinsic

/-!
Objects, calls and expressions. Arguments are passed with the types of the callee's parameters, whatever the arguments
are, and the code of an expression is sound at any place in a body.
-/

namespace Aero.Lowering

open IR IR.Build IR.Site List

variable {H : Prop} {env : Env} {s : State} {w : Site H} {args : List Operand} {p : ParamSig} {span baseSpan : Span}
  {name : String} {field method : Spanned String}

/-! ### Objects -/

theorem lowers_variableObject : Lowers env (variableObject name span) s w fun o w' => w'.Val o.ptr .ptr := by
  refine lowers_lookup.bind ?_
  intro slot s1 w1 _ _ hslot
  split
  · exact .pure hslot.addr.val
  · exact .fail

theorem lowers_fieldPlace {object : Object} (hobject : w.Val object.ptr .ptr) :
    Lowers env (fieldPlace object field) s w fun p w' => PlaceOk w' p := by
  refine .of_body fun hbody => ?_
  have hregistered : w.builder.Registered := hbody.builder_eq ▸ hbody.tables.registered
  refine (Lowers.lift (emits_fieldPtr hregistered hobject)).bind ?_
  intro found s1 w1 _ _ hfound
  split
  · exact .pure ⟨hfound _ _ rfl, nofun⟩
  · exact .fail

theorem lowers_exprObject {e : Expr} : Lowers env (exprObject span e) s w fun o w' => w'.Val o.ptr .ptr := by
  fun_induction exprObject span e generalizing s w with
  | case1 span inner _ ih => exact ih
  | case2 span name => exact lowers_variableObject
  | case3 span outer _ name ih =>
    refine ih.bind ?_
    intro object s1 w1 _ _ hobject
    refine (lowers_fieldPlace hobject).bind ?_
    intro place s2 w2 _ _ hplace
    split
    · exact .pure hplace.1.val
    · exact .fail
  | case4 => exact .fail

theorem lowers_placeObject {p : Place} : Lowers env (placeObject span p) s w fun o w' => w'.Val o.ptr .ptr := by
  fun_induction placeObject span p generalizing s w with
  | case1 span name => exact lowers_variableObject
  | case2 span outer _ name ih =>
    refine ih.bind ?_
    intro object s1 w1 _ _ hobject
    refine (lowers_fieldPlace hobject).bind ?_
    intro place s2 w2 _ _ hplace
    split
    · exact .pure hplace.1.val
    · exact .fail
  | case3 => exact .fail

theorem lowers_loadField {object : Spanned Expr} : Lowers env (loadField object field) s w fun v w' => w'.Has v := by
  refine lowers_exprObject.bind ?_
  intro object s1 w1 _ _ hobject
  refine (lowers_fieldPlace hobject).bind ?_
  intro place s2 w2 _ _ hplace
  refine .otherwise fun _ => ?_
  exact .lift (emits_load hplace.1.val).left

/-! ### Arguments -/

def paramTys (params : List ParamSig) : List Ty := (params.flatMap ParamSig.params).map Param.ty

theorem ParamSig.tys_of_array {shape : ArrayShape} (hfits : p.Fits)
    (h : p.array = some shape) : p.params.map Param.ty = passedTys shape.rank := by
  obtain ⟨hty, hshape⟩ := hfits shape h
  rcases hshape with hshape | hshape <;> rw [hshape] at h ⊢ <;> simp only [ParamSig.params, h, hty] <;> rfl

theorem ParamSig.tys_of_value (h : p.array = none) :
    p.params.map Param.ty = [if p.ty.isStruct then .ptr else p.ty] := by
  simp only [ParamSig.params, h, Option.map_none, map_cons, map_nil]

theorem lowers_callArg (function : String) (position : Nat) {param : ParamSig} {arg : Operand}
    (hparam : param.Fits) (harg : OperandOk H env arg) :
    Lowers env (callArg function position param arg) s w fun vs w' => w'.Vals vs (param.params.map Param.ty) := by
  unfold callArg
  split
  · next shape harray =>
    rw [ParamSig.tys_of_array hparam harray]
    exact lowers_arrayArgument harg
  · next expected harray hty =>
    rw [ParamSig.tys_of_value harray, hty]
    refine lowers_exprObject.bind ?_
    intro object s1 w1 _ _ hobject
    split
    · exact .pure (.cons hobject .nil)
    · exact .fail
  · next harray hvalue =>
    have hstruct : param.ty.isStruct = false := by
      cases hty : param.ty with
      | struct name => exact absurd hty (hvalue name)
      | _ => rfl
    rw [ParamSig.tys_of_value harray, hstruct]
    refine (harg s w).bind ?_
    intro v s1 w1 _ _ hv
    refine (lowers_coerce hv).bind ?_
    intro v s2 w2 _ _ hv
    exact .pure (.cons hv .nil)

theorem lowers_callArgs (function : String) {params : List ParamSig}
    (position : Nat) (hparams : ∀ p ∈ params, p.Fits) (hargs : ∀ o ∈ args, OperandOk H env o)
    (hlen : args.length = params.length) : Lowers env (callArgs function position params args) s w fun vs w' =>
      w'.Vals vs (paramTys params) := by
  induction params generalizing args position s w with
  | nil =>
    exact .pure .nil
  | cons param params ih =>
    cases args with
    | nil => cases hlen
    | cons arg args =>
      refine (lowers_callArg function position (hparams param mem_cons_self)
        (hargs arg mem_cons_self)).bind ?_
      intro vs s1 w1 _ _ hvs
      refine (ih (position + 1) (fun p hp => hparams p (mem_cons_of_mem _ hp))
        (fun o ho => hargs o (mem_cons_of_mem _ ho)) (Nat.succ.inj hlen)).bind ?_
      intro rest s2 w2 hle2 _ hrest
      refine .pure ?_
      rw [paramTys, flatMap_cons, map_append]
      exact rel_append (hvs.mono hle2) hrest

/-! ### Calls -/

theorem takes_of_vals {sig : Signature} {args : List Value} (h : w.Vals args sig.params) (hH : H) : sig.Takes args := by
  have htypes := h.types hH
  exact ⟨htypes ▸ prefix_rfl, fun _ => by rw [← htypes, length_map]⟩

theorem lowers_callFunction {name : Spanned String} (hargs : ∀ o ∈ args, OperandOk H env o) :
    Lowers env (callFunction name args span) s w fun v w' => w'.Has v := by
  refine .state_bind fun hbody => ?_
  split
  · exact .fail
  · next sig hsig =>
    obtain ⟨hproto, hfits⟩ := hbody.tables.functions _ sig hsig
    rw [hbody.builder_eq] at hproto
    split
    · exact .fail
    · next hlen =>
      refine (lowers_callArgs _ 0 hfits hargs (not_not.mp hlen)).bind ?_
      intro vs s1 w1 hle1 _ hvs
      refine (Lowers.lift (emits_call (s := sig.prototype) hvs.has fun hH => ?_)).mono fun _ _ _ h => h.1.1
      exact ⟨hle1.frame.prototypes _ _ hproto, takes_of_vals hvs hH⟩

theorem lowers_callMethod {receiver : Spanned Expr} (hargs : ∀ o ∈ args, OperandOk H env o) :
    Lowers env (callMethod receiver method args span) s w fun v w' => w'.Has v := by
  refine lowers_exprObject.bind ?_
  intro object s1 w1 _ _ hobject
  refine .state_bind fun hbody => ?_
  split
  · exact .fail
  · next symbol hsymbol =>
    refine .state_bind fun _ => ?_
    split
    · exact .fail
    · next sig hsig =>
      obtain ⟨hproto, hfits, struct, params, hself⟩ := hbody.tables.methods _ sig hsig
      rw [hbody.builder_eq] at hproto hsymbol
      have htail : sig.params.tail = params := by rw [hself]; rfl
      rw [hself] at hfits
      dsimp only
      split
      · exact .fail
      · next hlen =>
        rw [htail] at hlen ⊢
        refine (lowers_callArgs _ 0 (fun p hp => hfits p (mem_cons_of_mem _ hp)) hargs
          (not_not.mp hlen)).bind ?_
        intro vs s2 w2 hle2 _ hvs
        have hall : w2.Vals (object.ptr :: vs) sig.prototype.params := by
          change w2.Vals _ (paramTys sig.params)
          rw [hself]
          exact .cons (hobject.mono hle2) hvs
        refine (Lowers.lift (emits_methodCall (s := sig.prototype) hall.has ?_)).bind ?_
        · intro hH found hfound
          rw [Builder.custom?, hle2.frame.custom_eq, ← Builder.custom?, hsymbol] at hfound
          exact Option.some.inj hfound ▸ ⟨hle2.frame.prototypes _ _ hproto, takes_of_vals hall hH⟩
        · intro result s3 w3 _ _ hresult
          split
          · exact .pure (hresult _ rfl).1
          · exact .fail

/-! ### Expressions and places -/

open IR IR.Build IR.Site

theorem lowers_lowerLiteral {l : Literal} : Lowers env (lowerLiteral l span) s w fun v w' => w'.Has v := by
  cases l with
  | number x =>
    refine .pure ?_
    split
    · exact (val_int32 _).1
    · exact has_of_reg? rfl
  | str text => exact lowers_constString
  | char c =>
    simp only [lowerLiteral]
    split
    · exact .pure (val_int8 _).1
    · exact .fail
  | bool b => exact .pure (has_of_reg? rfl)

theorem lowers_firstElement {slot : Slot} {elem : Ty} {len : Nat} (hslot : SlotOk w slot) :
    Lowers env (liftM (Build.gep slot.ty slot.ptr
      (List.replicate ((Ty.array elem len).rank + 1) (Build.int32 0)))) s w fun v w' => w'.Has v := by
  have hzeros : ∀ i ∈ List.replicate ((Ty.array elem len).rank + 1) (int32 0), w.IntVal i :=
    fun i hi => List.eq_of_mem_replicate hi ▸ (val_int32 0).int
  refine (Lowers.lift (emits_gep (t := (w.builder.module.elementTy? slot.ty
    (List.replicate (Ty.array elem len).rank (int32 0))).getD .void) hslot.addr.val hzeros
    fun found hfound => ?_)).mono fun _ _ _ h => h.1.1
  change w.builder.module.elementTy? slot.ty (List.replicate _ (int32 0)) = some found at hfound
  rw [hfound]
  rfl

theorem lowers_lowerVar : Lowers env (lowerVar name span) s w fun v w' => w'.Has v := by
  refine lowers_lookup.bind ?_
  intro slot s1 w1 _ _ hslot
  split
  · exact .fail
  · next elem len _ => exact lowers_firstElement hslot
  · exact .lift (emits_load hslot.addr.val).left

theorem lowers_variablePlace : Lowers env (variablePlace name span) s w fun p w' => PlaceOk w' p := by
  refine lowers_lookup.bind ?_
  intro slot s1 w1 _ _ hslot
  refine .otherwise fun _ => ?_
  refine .otherwise fun _ => ?_
  exact .pure ⟨hslot.addr, nofun⟩

theorem lowers_lowerCall {name : Spanned String}
    (hargs : ∀ o ∈ args, OperandOk H env o) : Lowers env (lowerCall name args span) s w fun v w' => w'.Has v := by
  refine .read_bind ?_
  split
  · split
    · exact .fail
    · exact lowers_note.bind fun _ _ _ _ _ _ => lowers_lowerBuiltin hargs
  · exact lowers_callFunction hargs

theorem lowers_nestedPlace {base : PlaceRef} {indices : List Operand}
    {access : Access} (hbase : PlaceOk w base) (hindices : ∀ o ∈ indices, OperandOk H env o) :
    Lowers env (nestedPlace base baseSpan indices access span) s w fun p w' => PlaceOk w' p := by
  refine .ite (fun _ => ?_) fun _ => .fail
  exact (lowers_loadPtr hbase.1.val).bind fun _ _ _ _ _ htext => lowers_stringPlace htext hindices

mutual

theorem lowers_lowerExpr (span : Span) : ∀ (e : Expr) (s : State) (w : Site H),
    Lowers env (lowerExpr span e) s w fun v w' => w'.Has v
  | .literal l, s, w => by
      exact lowers_lowerLiteral
  | .var name, s, w => by
      exact lowers_lowerVar
  | .paren ⟨inner, innerSpan⟩, s, w => by
      exact lowers_lowerExpr innerSpan inner s w
  | .binary op ⟨l, lspan⟩ ⟨r, rspan⟩, s, w => by
      refine (lowers_lowerExpr lspan l s w).bind ?_
      intro l s1 w1 _ _ hl
      refine (lowers_lowerExpr rspan r s1 w1).bind ?_
      intro r s2 w2 hle2 _ hr
      exact lowers_binaryValues (hl.mono hle2) hr
  | .unary op ⟨e, espan⟩, s, w => by
      exact (lowers_lowerExpr espan e s w).bind fun _ _ _ _ _ hv => lowers_unaryValue hv
  | .step op ⟨place, pspan⟩, s, w => by
      exact (lowers_lowerPlace .compound pspan place s w).bind fun _ _ _ _ _ hplace => lowers_stepPlace hplace
  | .cast target ⟨e, espan⟩, s, w => by
      exact lowers_cast (lowers_lowerExpr espan e s w)
  | .call name args, s, w => by
      exact lowers_lowerCall (operands_ok args)
  | .methodCall receiver method args, s, w => by
      exact lowers_callMethod (operands_ok args)
  | .field object name, s, w => by
      exact lowers_loadField
  | .array elems, s, w => by
      exact (lowers_arrayLiteral none span (operands_ok elems)).bind fun _ _ _ _ _ h => Lowers.pure h.1
  | .index ⟨base, bspan⟩ indices, s, w => by
      exact lowers_loadElement (fun s w => lowers_lowerExpr bspan base s w) (operands_ok indices)

theorem operands_ok : ∀ (es : List (Spanned Expr)), ∀ o ∈ operands es, OperandOk H env o
  | ⟨e, espan⟩ :: es, o, ho => by
      rcases List.mem_cons.mp ho with rfl | ho
      · exact fun s w => lowers_lowerExpr espan e s w
      · exact operands_ok es o ho

theorem lowers_lowerPlace (access : Access) (span : Span) : ∀ (p : Place) (s : State) (w : Site H),
    Lowers env (lowerPlace access span p) s w fun r w' => PlaceOk w' r
  | .var name, s, w => by
      exact lowers_variablePlace
  | .field ⟨object, ospan⟩ name, s, w => by
      exact lowers_placeObject.bind fun _ _ _ _ _ hobject => lowers_fieldPlace hobject
  | .index ⟨.var name, nspan⟩ indices, s, w => by
      exact lowers_lookup.bind
        fun _ _ _ _ _ hslot => lowers_elementPlace hslot (operands_ok indices)
  | .index ⟨.field object name, bspan⟩ indices, s, w => by
      exact (lowers_lowerPlace access bspan (.field object name) s w).bind
        fun _ _ _ _ _ hbase => lowers_nestedPlace hbase (operands_ok indices)
  | .index ⟨.index base inner, bspan⟩ indices, s, w => by
      exact (lowers_lowerPlace access bspan (.index base inner) s w).bind
        fun _ _ _ _ _ hbase => lowers_nestedPlace hbase (operands_ok indices)

end

theorem lowers_lower {e : Spanned Expr} : Lowers env (lower e) s w fun v w' => w'.Has v :=
  lowers_lowerExpr e.span e.node s w

end Aero.Lowering
