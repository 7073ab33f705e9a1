import Aero.Proofs.Parallel.Element

/-!
Expressions on two sides at once. With the names of each side, the code of an expression is the same on both sides up
to the names of the string constants in it.
-/

namespace Aero.Lowering

open IR IR.Build List

variable {g : Guise} {env : Env} {P : Common g.exact} {o o' : Operand} {os os' : List Operand} {v v' : Value}
  {span baseSpan : Span} {name function ending format : String} {field method : Spanned String}
  {e object receiver : Spanned Expr}

/-! ### Objects -/

def Object.Plain (X : Pairing) (o : Object) : Prop := X.Bare o.ptr

theorem parallel_variableObject : Parallel g env P (variableObject name span) (variableObject (g.names name) span)
      (Same (Object.Plain g.toPairing)) := by
  refine parallel_lookup.bind_same fun _ slot _ hslot => ?_
  split
  · exact Steady.pure hslot.ptr.bare
  · exact .fail

theorem steady_fieldPlace {object : Object} (hobject : object.Plain g.toPairing) :
    Steady g env P (fieldPlace object field) (Same (PlaceRef.Plain g.toPairing)) := by
  refine (Steady.lift (mirrors_fieldPtr hobject)).bind_same fun _ found _ hfound => ?_
  split
  · exact .pure ⟨(hfound _ rfl).1, (hfound _ rfl).2⟩
  · exact .fail

theorem parallel_exprObject {e : Expr} :
    Parallel g env P (exprObject span e) (exprObject span (e.rename g.names)) (Same (Object.Plain g.toPairing)) := by
  fun_induction exprObject span e generalizing P with
  | case1 span inner _ ih => exact ih
  | case2 span name => exact parallel_variableObject
  | case3 span outer _ name ih =>
    refine ih.bind_same fun _ object _ hobject => ?_
    refine .bind_same (steady_fieldPlace hobject) fun _ place _ hplace => ?_
    split
    · exact Steady.pure hplace.ptr.bare
    · exact .fail
  | case4 e span hparen hvar hfield =>
    cases e with
    | paren inner => exact absurd rfl (hparen inner.node inner.span)
    | var name => exact absurd rfl (hvar name)
    | field object name => exact absurd rfl (hfield object.node object.span name)
    | _ => exact .fail

theorem parallel_placeObject {p : Place} :
    Parallel g env P (placeObject span p) (placeObject span (p.rename g.names)) (Same (Object.Plain g.toPairing)) := by
  fun_induction placeObject span p generalizing P with
  | case1 span name => exact parallel_variableObject
  | case2 span outer _ name ih =>
    refine ih.bind_same fun _ object _ hobject => ?_
    refine .bind_same (steady_fieldPlace hobject) fun _ place _ hplace => ?_
    split
    · exact Steady.pure hplace.ptr.bare
    · exact .fail
  | case3 => exact .fail

theorem parallel_loadField :
    Parallel g env P (loadField object field) (loadField (object.map (Expr.rename g.names)) field) (Same g.Plain) := by
  refine parallel_exprObject.bind_same fun _ object _ hobject => ?_
  refine .bind_same (steady_fieldPlace hobject) fun _ place _ hplace => ?_
  exact .ite (fun _ => .fail) fun _ => .lift (mirrors_load hplace.ptr.alike hplace.ty)

/-! ### Calls -/

theorem parallel_callArg (function : String) (position : Nat) {param param' : ParamSig}
    (hty : param'.ty = param.ty) (harray : param'.array = param.array) (h : o.Twin g env o') :
    Parallel g env P (callArg function position param o) (callArg function position param' o') Value.Likes := by
  unfold callArg
  rw [hty, harray, h.span_eq, h.expr_eq]
  split
  · exact parallel_arrayArgument h
  · refine parallel_exprObject.bind_same fun _ object _ hobject => ?_
    refine .ite (fun _ => ?_) fun _ => .fail
    exact .pure fun _ _ => .cons (.plain hobject) .nil
  · refine (h.value P).bind fun _ v v' _ hv => ?_
    refine (parallel_coerce_like hv).bind fun _ v v' _ hv => ?_
    exact .pure fun _ hle => .cons (hv.mono hle) .nil

theorem parallel_callArgs (function : String) (position : Nat) {params params' : List ParamSig}
    (hparams : params'.map (ParamSig.masked g.mask) = params.map (ParamSig.masked g.mask))
    (h : OperandTwins g env os os') :
    Parallel g env P (callArgs function position params os) (callArgs function position params' os') Value.Likes := by
  induction h generalizing params params' position P with
  | nil => cases params <;> cases params' <;> exact .pure fun _ _ => .nil
  | cons ho _ ih =>
    cases params with
    | nil =>
      rw [map_eq_nil_iff.mp hparams]
      exact .pure fun _ _ => .nil
    | cons param params =>
      obtain ⟨param', rest', rfl, hhead, htail⟩ := map_eq_cons_iff.mp hparams
      have hty : (param'.masked g.mask).ty = (param.masked g.mask).ty := congrArg ParamSig.ty hhead
      have harray : (param'.masked g.mask).array = (param.masked g.mask).array := congrArg ParamSig.array hhead
      refine .bind (parallel_callArg function position hty harray ho) fun _ vs vs' _ hvs => ?_
      refine .bind (ih (position + 1) htail) fun _ rest rest' hle hrest => ?_
      exact .pure fun _ hle' =>
        rel_append (hvs.mono (le_trans hle hle')) (hrest.mono hle')

theorem FnSig.masked_eq {mask : String → String} {sig sig' : FnSig} (h : sig'.masked mask = sig.masked mask) :
    sig'.symbol = sig.symbol ∧
      sig'.params.map (ParamSig.masked mask) = sig.params.map (ParamSig.masked mask) ∧ sig'.ret = sig.ret := by
  simpa only [FnSig.masked, FnSig.mk.injEq] using h

theorem length_eq_of_map_eq {α β : Type} {f : α → β} {l l' : List α} (h : l'.map f = l.map f) :
    l'.length = l.length := by
  rw [← length_map f, h, length_map]

theorem parallel_callFunction {name : Spanned String} (h : OperandTwins g env os os') :
    Parallel g env P (callFunction name os span) (callFunction name os' span) (Same g.Bare) := by
  refine .state_bind fun s t hlike _ => ?_
  have hlookup := hlike.functions_eq name.node
  rw [← h.length_eq]
  cases hsig : s.functions.lookup name.node with
  | none =>
    rw [hsig, Option.map_none, Option.map_eq_none_iff] at hlookup
    rw [hlookup]
    exact .fail
  | some sig =>
    rw [hsig, Option.map_some, Option.map_eq_some_iff] at hlookup
    obtain ⟨sig', hsig', hmasked⟩ := hlookup
    obtain ⟨hsymbol, hparams, -⟩ := FnSig.masked_eq hmasked
    rw [hsig']
    change Parallel g env _ (if _ then _ else _) (if _ then _ else _) _
    rw [length_eq_of_map_eq hparams, hsymbol]
    refine .otherwise fun _ => ?_
    refine .bind (parallel_callArgs name.node 0 hparams h) fun _ vs vs' hle hvs => ?_
    exact .lift (mirrors_call (hle.declared _ (hlike.functions _ _ hsig)) hvs)

theorem parallel_callMethod (h : OperandTwins g env os os') : Parallel g env P (callMethod receiver method os span)
      (callMethod (receiver.map (Expr.rename g.names)) method os' span) (Same g.Bare) := by
  refine parallel_exprObject.bind_same fun _ object _ hobject => ?_
  refine .state_bind fun s t hlike _ => ?_
  rw [Builder.custom?, Builder.custom?, (g.level hlike.builder).custom_eq, ← h.length_eq]
  cases hfound : (s.builder.custom.find? (·.name = object.struct)).bind (·.method? method.node) with
  | none => exact .fail
  | some symbol =>
    refine .state_bind fun s1 t1 hlike1 hle1 => ?_
    have hlookup := hlike1.methods_eq symbol
    cases hsig : s1.methods.lookup symbol with
    | none =>
      rw [hsig, Option.map_none, Option.map_eq_none_iff] at hlookup
      rw [hlookup]
      exact .fail
    | some sig =>
      rw [hsig, Option.map_some, Option.map_eq_some_iff] at hlookup
      obtain ⟨sig', hsig', hmasked⟩ := hlookup
      have hparams : sig'.params.tail.map (.masked g.mask) = sig.params.tail.map (ParamSig.masked g.mask) := by
        rw [map_tail, map_tail, (FnSig.masked_eq hmasked).2.1]
      rw [hsig']
      change Parallel g env _ (if _ then _ else _) (if _ then _ else _) _
      rw [length_eq_of_map_eq hparams]
      refine .otherwise fun _ => ?_
      refine .bind (parallel_callArgs method.node 0 hparams h) fun P2 vs vs' hle2 hvs => ?_
      have hcustom : P2.custom = s.builder.custom :=
        (le_trans hle1 hle2).custom_eq.trans (g.custom_eq s.builder t.builder)
      refine (Parallel.lift (mirrors_methodCall (fun found hmethod => ?_) hobject hvs)).bind_same
        fun _ result _ hresult => ?_
      · rw [hcustom, hfound] at hmethod
        obtain rfl := Option.some.inj hmethod
        exact hle2.declared _ (hlike1.methods _ _ hsig)
      · split
        · exact Steady.pure (hresult _ rfl)
        · exact .fail

/-! ### Builtin functions -/

theorem parallel_printf (hv : v.Like P v') :
    Parallel g env P (liftM (printf format [v])) (liftM (printf format [v'])) (Same g.Plain) :=
  .lift (mirrors_printf (.cons hv .nil))

theorem parallel_printValue (hv : v.Like P v') :
    Parallel g env P (printValue v ending span) (printValue v' ending span) (Same g.Plain) := by
  by_cases hty : v.ty = .ptr
  · unfold printValue
    rw [hv.ty_eq, hty]
    exact parallel_printf hv
  · obtain ⟨rfl, hplain⟩ := hv.of_ty_ne hty
    have hfirm {ty : Ty} (h : v'.ty = ty) (hvoid : ty.isVoid = false) : g.Plain v' := ⟨hplain, fun _ => h ▸ hvoid⟩
    unfold printValue
    split
    · next hty =>
      refine .bind (.lift mirrors_constString) fun _ yes yes' _ hyes => ?_
      refine .bind (.lift mirrors_constString) fun _ no no' hle hno => ?_
      refine (Parallel.lift (mirrors_select (hfirm hty rfl) (hyes.mono hle) hno)).bind fun _ _ _ _ htext => ?_
      exact parallel_printf htext.like
    · next hty => exact (Steady.lift (mirrors_intCast (hfirm hty rfl) _ _)).bind_same fun _ _ _ hx =>
        parallel_printf hx.like
    · exact parallel_printf (.plain hplain)
    · next hty => exact (Steady.lift (mirrors_intCast (hfirm hty rfl) _ _)).bind_same fun _ _ _ hx =>
        parallel_printf hx.like
    · next hty => exact (Steady.lift (mirrors_fpCast (hfirm hty rfl))).bind_same fun _ _ _ hx =>
        parallel_printf hx.like
    · next hty => exact (Steady.lift (mirrors_fpCast (hfirm hty rfl))).bind_same fun _ _ _ hx =>
        parallel_printf hx.like
    · next hptr => exact absurd hptr hty
    · exact .fail

theorem parallel_print (h : o.Twin g env o') : Parallel g env P (print o ending) (print o' ending) (Same g.Plain) := by
  unfold print
  rw [h.span_eq]
  exact (h.value P).bind fun _ _ _ _ hv => parallel_printValue hv

theorem parallel_input (h : OperandTwins g env os os') :
    Parallel g env P (input os.head?) (input os'.head?) (Same g.Plain) := by
  have hword : ∀ P, Steady g env P (do
      let buffer ← Build.trackedMalloc (Build.int64 256) 1
      let format ← Build.constString "%255s"
      discard (Build.callPrimitive .scanf [format, buffer])
      return buffer) (Same g.Plain) := by
    intro P
    refine (Steady.lift (mirrors_trackedMalloc (Value.plain_int64))).bind_same fun _ buffer _ hbuffer => ?_
    refine .bind (.lift mirrors_constString) fun _ _ _ _ hformat => ?_
    exact (Parallel.lift (mirrors_callPrimitive .scanf (.cons hformat.like
      (.cons hbuffer.like .nil)) (g.ordinary rfl))).discard.seq fun _ _ => Steady.pure hbuffer
  cases h with
  | nil => exact hword P
  | cons ho _ => exact (parallel_print ho).discard.seq fun P' _ => hword P'

theorem parallel_typeOf (h : o.Twin g env o') : Parallel g env P (typeOf o) (typeOf o') Value.Like := by
  obtain ⟨e, espan, value⟩ := o
  obtain ⟨e', espan', value'⟩ := o'
  obtain ⟨(rfl : e' = e.rename g.names), (rfl : espan' = espan), hvalue⟩ := h
  have hname {P : Common g.exact} (s : String) : Steady g env P (liftM (constString s)) Value.Like :=
    (Steady.lift mirrors_constString).mono fun _ _ _ _ h => h.like
  cases e with
  | var name =>
    exact parallel_lookup.bind_same fun _ _ _ _ => hname _
  | _ =>
    refine .bind (hvalue P) fun _ v v' _ hv => ?_
    rw [hv.ty_eq]
    exact hname _

section

variable (hv : v.Like P v')
include hv

variable (span : Span)

theorem parallel_toText : Parallel g env P (toText v span) (toText v' span) Value.Like := by
  by_cases hty : v.ty = .ptr
  · unfold toText
    rw [hv.ty_eq, hty]
    exact .pure fun _ hle => hv.mono hle
  · obtain ⟨rfl, hplain⟩ := hv.of_ty_ne hty
    have hfirm {ty : Ty} (h : v'.ty = ty) (hvoid : ty.isVoid = false) : g.Plain v' := ⟨hplain, fun _ => h ▸ hvoid⟩
    refine .like (show Steady _ _ _ _ (Same g.Plain) from ?_)
    unfold toText
    split
    · next hty => exact .pure (hfirm hty rfl)
    · next hty => exact (Steady.lift (mirrors_intCast (hfirm hty rfl) _ _)).bind_same fun _ _ _ hx =>
        Steady.lift (Text.mirrors_formatted hx)
    · next hty => exact .lift (Text.mirrors_formatted (hfirm hty rfl))
    · next hty => exact (Steady.lift (mirrors_intCast (hfirm hty rfl) _ _)).bind_same fun _ _ _ hx =>
        Steady.lift (Text.mirrors_formatted hx)
    · next hty => exact (Steady.lift (mirrors_fpCast (hfirm hty rfl))).bind_same fun _ _ _ hx =>
        Steady.lift (Text.mirrors_formatted hx)
    · next hty => exact (Steady.lift (mirrors_fpCast (hfirm hty rfl))).bind_same fun _ _ _ hx =>
        Steady.lift (Text.mirrors_formatted hx)
    · exact .fail

theorem parallel_toInt : Parallel g env P (toInt v span) (toInt v' span) (Same g.Plain) := by
  have hcoerce : Parallel g env P (coerce v .i32 .operand span) (coerce v' .i32 .operand span) (Same g.Plain) :=
    parallel_coerce_same hv (by decide) fun _ => rfl
  unfold toInt
  rw [hv.ty_eq]
  cases v.ty with
  | ptr => exact .lift (mirrors_callValue .atoi (.cons hv .nil) rfl (g.ordinary rfl))
  | int bits | float | double => exact hcoerce
  | void | array elem len | struct name => exact .fail

theorem parallel_toFloat : Parallel g env P (toFloat v span) (toFloat v' span) (Same g.Plain) := by
  have hcoerce : Parallel g env P (coerce v .float .operand span) (coerce v' .float .operand span)
      (Same g.Plain) := parallel_coerce_same hv (by decide) fun _ => rfl
  unfold toFloat
  rw [hv.ty_eq]
  cases v.ty with
  | ptr =>
    exact (Parallel.lift (mirrors_callValue .atof (.cons hv .nil) rfl (g.ordinary rfl))).bind_same fun _ _ _ hx =>
      .lift (mirrors_fpCast hx)
  | int bits | float | double => exact hcoerce
  | void | array elem len | struct name => exact .fail

theorem parallel_toChar : Parallel g env P (toChar v span) (toChar v' span) (Same g.Plain) := by
  by_cases hty : v.ty = .ptr
  · unfold toChar
    rw [hv.ty_eq, hty]
    exact .lift (mirrors_load ⟨hv, fun _ => hty ▸ rfl⟩ (fun _ => rfl))
  · obtain ⟨rfl, hplain⟩ := hv.of_ty_ne hty
    have hfirm {ty : Ty} (h : v'.ty = ty) (hvoid : ty.isVoid = false) : g.Plain v' := ⟨hplain, fun _ => h ▸ hvoid⟩
    unfold toChar
    split
    · next hptr => exact absurd hptr hty
    · next hty => exact .lift (mirrors_intCast (hfirm hty rfl) _ _)
    · next hty => exact .lift (mirrors_fpToSi (hfirm hty rfl) (fun _ => rfl))
    · next hty => exact .lift (mirrors_fpToSi (hfirm hty rfl) (fun _ => rfl))
    · exact .fail

end

theorem parallel_exit (h : OperandTwins g env os os') :
    Parallel g env P (exit os.head? span) (exit os'.head? span) (Same g.Bare) := by
  have hcall : ∀ {P : Common g.exact} {v : Value}, g.Plain v →
      Steady g env P (liftM (callPrimitive .exit [v])) (Same g.Bare) :=
    fun hv => .lift (mirrors_callPrimitive .exit (.cons hv.like .nil) (g.ordinary rfl))
  cases h with
  | nil => exact hcall (Value.plain_int32)
  | cons ho _ =>
    refine (ho.value P).bind fun _ v v' _ hv => ?_
    exact (parallel_coerce_same hv (by decide) (fun _ => rfl)).bind_same
      fun _ _ _ hv => hcall hv

theorem mirrors_textLen (hv : v.Like P v') : Mirrors g.toPairing P (textLen v) (textLen v') (Same g.Plain) :=
  (mirrors_strlen hv).bind_same fun _ _ _ hlen => mirrors_intCast hlen _ _

theorem parallel_valueLen (span : Span) (h : o.Twin g env o') :
    Parallel g env P (valueLen o span) (valueLen o' span) (Same g.Plain) := by
  refine .bind (h.value P) fun _ v v' _ hv => ?_
  rw [hv.ty_eq]
  exact .ite (fun _ => .lift (mirrors_textLen hv)) fun _ => .fail

theorem parallel_length (span : Span) (h : o.Twin g env o') :
    Parallel g env P (length o span) (length o' span) (Same g.Plain) := by
  have hvalue {P : Common g.exact} := parallel_valueLen (P := P) span h
  obtain ⟨e, espan, value⟩ := o
  obtain ⟨e', espan', value'⟩ := o'
  obtain ⟨(rfl : e' = e.rename g.names), (rfl : espan' = espan), -⟩ := h
  cases e with
  | var name =>
    refine parallel_lookup.bind_same fun _ slot _ hslot => ?_
    split
    · exact parallel_arrayLen hslot
    · refine .ite (fun _ => ?_) fun _ => ?_
      · exact (Steady.lift (mirrors_load hslot.ptr.alike (fun _ => rfl))).bind_same fun _ _ _ hs =>
          .lift (mirrors_textLen hs.like)
      · exact .otherwise fun _ =>
          Steady.pure (Value.plain_int32)
  | index base indices =>
    obtain ⟨base, bspan⟩ := base
    cases base with
    | var name =>
      cases indices with
      | nil => exact hvalue
      | cons first others =>
        cases others with
        | nil =>
          refine parallel_lookup.bind_same fun _ slot _ _ => ?_
          split
          · exact Steady.pure (Value.plain_int32)
          · exact hvalue
        | cons second others =>
          exact hvalue
    | _ => exact hvalue
  | _ => exact hvalue

theorem parallel_sizeArg (h : o.Twin g env o') :
    Parallel g env P (sizeArg o function) (sizeArg o' function) (Same g.Plain) := by
  unfold sizeArg
  rw [h.span_eq]
  refine (h.value P).bind fun _ v v' _ hv => ?_
  rw [hv.ty_eq]
  refine .ite (fun hint => ?_) fun _ => .fail
  obtain ⟨rfl, hplain⟩ := hv.plain_of_ty _ hint rfl rfl
  exact .lift (mirrors_intCast hplain _ _)

/-- Requests are compared if the two bodies are bodies of one function. -/
theorem parallel_requestBuffer (h : o.Twin g env o') :
    Parallel g env P (requestBuffer o) (requestBuffer o') (Same g.Plain) := by
  refine (parallel_sizeArg h).bind_same fun _ size _ hsize => ⟨fun s t hlike _ => ?_⟩
  obtain ⟨hsame, hptr, hadv⟩ := g.request hlike.builder hsize
  refine ⟨⟨{ hlike with
    toSameCallees := hlike.toSameCallees.keep ⟨rfl, rfl⟩ ⟨rfl, rfl⟩ (g.le hadv)
    builder := g.like hadv
    same := fun hexact => ?_ }, hadv, ⟨[], by simp⟩, rfl, ⟨rfl, rfl⟩, ⟨rfl, rfl⟩⟩, ⟨rfl, rfl⟩, hsame, hptr⟩
  obtain ⟨hsymbols, hrequested⟩ := hlike.same hexact
  refine ⟨hsymbols, ?_⟩
  change t.requested ++ [((malloc size t.builder).2.current, (malloc size t.builder).1)] =
    s.requested ++ [((malloc size s.builder).2.current, (malloc size s.builder).1)]
  rw [hrequested, hsame, g.current_eq hexact (g.like hadv)]

theorem stripParens_rename (σ : String → String) (span : Span) (e : Expr) :
    stripParens span (e.rename σ) = (stripParens span e).map (Expr.rename σ) := by
  fun_induction stripParens span e with
  | case1 span inner span' ih => exact ih
  | case2 span e hparen =>
    cases e with
    | paren inner => exact absurd rfl (hparen inner.node inner.span)
    | _ => rfl

theorem parallel_heapArg (h : o.Twin g env o') :
    Parallel g env P (heapArg o function) (heapArg o' function) Value.Like := by
  have hvalue : ∀ P, Parallel g env P (do
        let v ← o.value
        if v.ty.isPtr then return v else fail (.pointerArgument function v.ty) o.span)
      (do
        let v ← o'.value
        if v.ty.isPtr then return v else fail (.pointerArgument function v.ty) o.span) Value.Like := by
    intro P
    refine (h.value P).bind fun _ v v' _ hv => ?_
    rw [hv.ty_eq]
    exact .ite (fun _ => .pure fun _ hle => hv.mono hle) fun _ => .fail
  unfold heapArg
  rw [h.span_eq, h.expr_eq, stripParens_rename]
  obtain ⟨e, espan⟩ := stripParens o.span o.expr
  cases e with
  | var name =>
    simp only [fixedArray?, Spanned.map, Expr.rename, bind_assoc]
    refine parallel_lookup.bind_same fun P' slot _ _ => ?_
    cases slot.array.filter (·.storage = .stack) with
    | none => exact hvalue P'
    | some shape => exact .fail
  | _ => exact hvalue P

theorem bare_noValue : g.Bare noValue := Value.bare_undef _

theorem parallel_freeBuffer (h : o.Twin g env o') : Parallel g env P (freeBuffer o) (freeBuffer o') (Same g.Bare) := by
  refine (parallel_heapArg h).bind fun _ ptr ptr' _ hptr => ?_
  refine (Parallel.lift (mirrors_untrack hptr)).seq fun _ hle => ?_
  exact (Parallel.lift (mirrors_free (hptr.mono hle))).seq fun _ _ => Steady.pure bare_noValue

theorem parallel_freeDeep {table table' rows rows' : Operand} (htable : table.Twin g env table')
    (hrows : rows.Twin g env rows') :
    Parallel g env P (freeDeep table rows span) (freeDeep table' rows' span) (Same g.Bare) := by
  refine (parallel_heapArg htable).bind fun P1 table table' _ htable => ?_
  refine (hrows.value P1).bind fun _ rows rows' hle hrows => ?_
  rw [hrows.ty_eq]
  refine .ite (fun hint => ?_) fun _ => .fail
  obtain ⟨rfl, hplain⟩ := hrows.plain_of_ty _ hint rfl rfl
  exact (Parallel.lift (mirrors_freeRows (htable.mono hle) hplain)).seq fun _ _ =>
    Steady.pure bare_noValue

theorem parallel_lowerBuiltin {handler : Handler} (h : OperandTwins g env os os') :
    Parallel g env P (lowerBuiltin handler os span) (lowerBuiltin handler os' span) Value.Like := by
  have hmissing : Parallel g env P (fail .missingArgument span : Lower Value) (fail .missingArgument span)
      Value.Like := .fail
  have hcollect : Steady g env P (do
        Build.gcCollect
        return noValue) (Same g.Bare) :=
    .seq (.lift mirrors_gcCollect) fun _ _ => .pure bare_noValue
  cases handler with
  | input => exact (parallel_input h).like
  | exit => exact (parallel_exit h).like_bare
  | gcCollect => cases h <;> exact .like_bare hcollect
  | _ =>
    rcases h with _ | ⟨ho, hos⟩
    · exact hmissing
    · first
      | exact (parallel_print ho).like
      | exact (parallel_print ho).like
      | exact parallel_typeOf ho
      | exact (ho.value P).bind fun _ _ _ _ hv => parallel_toText hv span
      | exact (ho.value P).bind fun _ _ _ _ hv => (parallel_toInt hv span).like
      | exact (ho.value P).bind fun _ _ _ _ hv => (parallel_toFloat hv span).like
      | exact (ho.value P).bind fun _ _ _ _ hv => (parallel_toChar hv span).like
      | exact (ho.value P).bind fun _ _ _ _ hv => (parallel_toBool hv).like
      | exact (parallel_length span ho).like
      | exact (parallel_requestBuffer ho).like
      | exact ((parallel_sizeArg ho).bind_same fun _ _ _ hsize =>
        .lift (mirrors_trackedMalloc hsize)).like
      | exact (parallel_freeBuffer ho).like_bare
      | rcases hos with _ | ⟨ho', _⟩
        · exact hmissing
        · exact (parallel_freeDeep ho ho').like_bare

/-! ### Expressions -/

theorem steady_lowerLiteral {l : Literal} : Steady g env P (lowerLiteral l span) Value.Like := by
  cases l with
  | number x =>
    refine .like (Steady.pure ?_)
    split <;> simp
  | str s => exact (Steady.lift mirrors_constString).mono fun _ _ _ _ h => h.like
  | char c =>
    exact .ite (fun _ => .like (Steady.pure (Value.plain_int8))) fun _ =>
      .fail
  | bool b => exact .like (Steady.pure (Value.plain_ofBool))

theorem parallel_lowerVar : Parallel g env P (lowerVar name span) (lowerVar (g.names name) span) (Same g.Plain) := by
  refine parallel_lookup.bind_same fun _ slot _ hslot => ?_
  split
  · exact .fail
  · refine .lift (mirrors_gep hslot.ptr.like (fun i hi => ?_) hslot.firm)
    rw [eq_of_mem_replicate hi]
    exact Value.plain_int32
  · exact .lift (mirrors_load hslot.ptr.alike hslot.firm)

theorem parallel_variablePlace : Parallel g env P (variablePlace name span) (variablePlace (g.names name) span)
      (Same (PlaceRef.Plain g.toPairing)) := by
  refine parallel_lookup.bind_same fun _ slot _ hslot => ?_
  refine .otherwise fun _ => ?_
  exact .otherwise fun _ =>
    Steady.pure ⟨hslot.ptr, hslot.firm⟩

theorem arityProblem?_rename {b : Builtin} {count : Nat} {problem : Problem}
    (h : b.arityProblem? count = some problem) (σ : String → String) : problem.rename σ = problem := by
  unfold Builtin.arityProblem? at h
  split at h
  · cases h
  · split at h
    · obtain rfl := Option.some.inj h
      rfl
    · obtain rfl := Option.some.inj h
      rfl

theorem parallel_lowerCall {name : Spanned String} (h : OperandTwins g env os os') :
    Parallel g env P (lowerCall name os span) (lowerCall name os' span) Value.Like := by
  unfold lowerCall
  rw [← h.length_eq]
  refine .read_bind ?_
  split
  · split
    · next problem hproblem =>
      exact .fail_fixed (arityProblem?_rename hproblem _)
    · exact parallel_note.seq fun _ _ => parallel_lowerBuiltin h
  · exact (parallel_callFunction h).like_bare

theorem parallel_nestedPlace {base : PlaceRef} (hbase : base.Plain g.toPairing) {access : Access}
    (h : OperandTwins g env os os') :
    Parallel g env P (nestedPlace base baseSpan os access span) (nestedPlace base baseSpan os' access span)
      (Same (PlaceRef.Plain g.toPairing)) :=
  .ite (fun _ => .bind_same (.lift (mirrors_load hbase.ptr.alike (fun _ => rfl))) fun _ _ _ hs =>
    parallel_stringPlace hs.like h) fun _ => .fail

mutual

/-- The code of an expression with the names of each side yields values that are alike. -/
theorem parallel_lowerExpr (span : Span) : ∀ e P,
    Parallel g env P (lowerExpr span e) (lowerExpr span (e.rename g.names)) Value.Like
  | .literal l, P => by
      exact steady_lowerLiteral
  | .var name, P => by
      exact parallel_lowerVar.like
  | .paren ⟨inner, innerSpan⟩, P => by
      exact parallel_lowerExpr innerSpan inner P
  | .binary op ⟨l, lspan⟩ ⟨r, rspan⟩, P => by
      refine Parallel.bind (parallel_lowerExpr lspan l P) fun P1 l l' _ hl => ?_
      refine Parallel.bind (parallel_lowerExpr rspan r P1) fun P2 r r' hle hr => ?_
      exact (parallel_binaryValues (hl.mono hle) hr).like
  | .unary op ⟨e, espan⟩, P => by
      exact Parallel.bind (parallel_lowerExpr espan e P) fun _ _ _ _ hv =>
        (parallel_unaryValue hv).like
  | .step op ⟨place, pspan⟩, P => by
      exact (parallel_lowerPlace .compound pspan place P).bind_same fun _ _ _ htarget =>
        Parallel.like (steady_stepPlace htarget)
  | .cast target ⟨e, espan⟩, P => by
      exact parallel_cast (parallel_lowerExpr espan e P)
  | .call name args, P => by
      exact parallel_lowerCall (operands_twins args)
  | .methodCall ⟨receiver, rspan⟩ method args, P => by
      exact (parallel_callMethod (operands_twins args)).like_bare
  | .field ⟨object, ospan⟩ name, P => by
      exact parallel_loadField.like
  | .array elems, P => by
      exact (parallel_arrayLiteral none span (operands_twins elems)).bind_same fun _ _ _ hbuffer =>
        Parallel.like (Steady.pure hbuffer.1)
  | .index ⟨base, bspan⟩ indices, P => by
      refine Parallel.like (parallel_loadElement ?_ (operands_twins indices))
      exact ⟨rfl, rfl, parallel_lowerExpr bspan base⟩

theorem operands_twins : ∀ es, OperandTwins g env (operands es) (operands (renameAll g.names es))
  | [] => by
      exact .nil
  | ⟨e, espan⟩ :: es => by
      exact .cons ⟨rfl, rfl, parallel_lowerExpr espan e⟩ (operands_twins es)

/-- The code of a place yields one address on both sides. -/
theorem parallel_lowerPlace (access : Access) (span : Span) : ∀ p P,
    Parallel g env P (lowerPlace access span p) (lowerPlace access span (p.rename g.names))
      (Same (PlaceRef.Plain g.toPairing))
  | .var name, P => by
      exact parallel_variablePlace
  | .field ⟨object, ospan⟩ name, P => by
      exact parallel_placeObject.bind_same fun _ _ _ hobject =>
        steady_fieldPlace hobject
  | .index ⟨.var name, nspan⟩ indices, P => by
      exact parallel_lookup.bind_same fun _ _ _ hslot =>
        parallel_elementPlace hslot (operands_twins indices)
  | .index ⟨.field object name, bspan⟩ indices, P => by
      have hbase := parallel_lowerPlace access bspan (.field object name) P
      exact hbase.bind_same fun _ _ _ hbase =>
        parallel_nestedPlace hbase (operands_twins indices)
  | .index ⟨.index base inner, bspan⟩ indices, P => by
      have hbase := parallel_lowerPlace access bspan (.index base inner) P
      exact hbase.bind_same fun _ _ _ hbase =>
        parallel_nestedPlace hbase (operands_twins indices)

end

theorem parallel_lower : Parallel g env P (lower e) (lower (e.map (Expr.rename g.names))) Value.Like :=
  parallel_lowerExpr e.span e.node P

/-! ### Guards -/

theorem steady_currentBlock : Steady g env P currentBlock (Same fun _ => True) := by
  refine .state_bind fun s t hlike _ => ?_
  rw [(g.level hlike.builder).insert_eq]
  split
  · exact Steady.pure trivial
  · exact .fail

theorem parallel_shortCircuit {op : Connective} {lhs lhs' rhs rhs' : Lower Value}
    (hlhs : ∀ P, Parallel g env P lhs lhs' (Same g.Plain)) (hrhs : ∀ P, Parallel g env P rhs rhs' (Same g.Plain)) :
    Parallel g env P (shortCircuit op lhs rhs) (shortCircuit op lhs' rhs') (Same g.Plain) := by
  refine (hlhs P).bind_same fun _ l _ hl => ?_
  refine .bind_same steady_currentBlock fun _ lhsEnd _ _ => ?_
  refine .bind_same (.lift (mirrors_appendBlock _)) fun _ rhsBlock _ _ => ?_
  refine .bind_same (.lift (mirrors_appendBlock _)) fun P4 endBlock _ _ => ?_
  have hbranch : Mirrored g.toPairing P4 (op.branch l rhsBlock endBlock) Done := by
    cases op
    · exact mirrors_condBr hl.like
    · exact mirrors_condBr hl.like
  refine .seq (.lift hbranch) fun _ _ => ?_
  refine .seq (.lift mirrors_position) fun P6 _ => ?_
  refine (hrhs P6).bind_same fun _ r _ hr => ?_
  refine steady_currentBlock.bind_same fun _ rhsEnd _ _ => ?_
  refine (Steady.lift mirrors_br).seq fun _ _ => ?_
  refine (Steady.lift mirrors_moveBlockToEnd).seq fun _ _ => ?_
  refine (Steady.lift mirrors_position).seq fun _ _ => ?_
  exact .lift (mirrors_phi (by simp [hr]) (fun _ => rfl))

theorem parallel_lowerGuard {e : Expr} :
    Parallel g env P (lowerGuard span e) (lowerGuard span (e.rename g.names)) (Same g.Plain) := by
  fun_induction lowerGuard span e generalizing P with
  | case1 span inner _ ih =>
    exact ih
  | case2 span l lspan r rspan ihl ihr =>
    exact parallel_shortCircuit (fun P => ihl) fun P => ihr
  | case3 span l lspan r rspan ihl ihr =>
    exact parallel_shortCircuit (fun P => ihl) fun P => ihr
  | case4 span e espan ih =>
    exact ih.bind_same fun _ _ _ hb => .lift (mirrors_not hb)
  | case5 span e hparen hand hor hnot =>
    have hvalue : Parallel g env P (lowerExpr span e >>= (toBool · span))
        (lowerExpr span (e.rename g.names) >>= (toBool · span)) (Same g.Plain) :=
      (parallel_lowerExpr span e P).bind fun _ _ _ _ hv => parallel_toBool hv
    -- Renaming changes no operator, so that the guard on the other side is evaluated as a value too.
    cases e with
    | paren inner => exact absurd rfl (hparen inner.node inner.span)
    | binary op l r =>
      obtain ⟨l, lspan⟩ := l
      obtain ⟨r, rspan⟩ := r
      cases op with
      | and => exact absurd rfl (hand l lspan r rspan)
      | or => exact absurd rfl (hor l lspan r rspan)
      | _ => exact hvalue
    | unary op e =>
      obtain ⟨e, espan⟩ := e
      cases op with
      | not => exact absurd rfl (hnot e espan)
      | _ => exact hvalue
    | _ => exact hvalue

theorem parallel_guard : Parallel g env P (guard e) (guard (e.map (Expr.rename g.names))) (Same g.Plain) :=
  parallel_lowerGuard

end Aero.Lowering
