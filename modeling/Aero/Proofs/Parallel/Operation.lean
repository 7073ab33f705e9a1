import Aero.Proofs.Parallel.Action

/-!
Operations on values on two sides at once. Values that are no addresses of strings are the same on both sides,
so their operations are; a string goes into conversions, comparisons and sums, which give values that are the
same again.
-/

namespace Aero.Lowering

open IR IR.Build

variable {X : Pairing} {P : Common X.exact} {v v' l l' r r' : Value} {target : Ty} {span : Span} {context : Coercion}
  {op : BinOp}

/-! ### Conversions -/

theorem mirrors_isNonzero (hv : X.Alike P v v') : Mirrors X P (isNonzero v) (isNonzero v') (Same X.Plain) := by
  rw [isNonzero, isNonzero, hv.like.ty_eq]
  exact mirrors_icmp hv (Value.plain_zero hv.firm).alike

theorem mirrors_isNonzeroFloat (hv : X.Plain v) : Mirrored X P (isNonzeroFloat v) (Same X.Plain) :=
  mirrors_fcmp hv (Value.plain_zero hv.firm)

theorem mirrors_floatOfText (hv : v.Like P v') :
    Mirrors X P (floatOfText v target) (floatOfText v' target) (Same X.Plain) :=
  (mirrors_callValue .strtod (.cons hv (.cons Value.plain_null.like .nil)) rfl (X.ordinary rfl)).bind_same
    fun _ _ _ hx => mirrors_fpCast hx

theorem mirrors_intOfText (hv : v.Like P v') {signed : Bool} :
    Mirrors X P (callPrimitive .atoi [v] >>= fun n => intCast n target signed)
      (callPrimitive .atoi [v'] >>= fun n => intCast n target signed) (Same X.Plain) :=
  (mirrors_callValue .atoi (.cons hv .nil) rfl (X.ordinary rfl)).bind_same fun _ _ _ hn => mirrors_intCast hn _ _

variable {g : Guise} {env : Env} {P : Common g.exact}

/-- The results of a conversion to a type are alike, and the same if the type is no address. -/
structure Converted (X : Pairing) (target : Ty) (P : Common X.exact) (v v' : Value) : Prop where
  like : v.Like P v'
  firm : X.Firm target → X.Firm v.ty
  same : target ≠ .ptr → v' = v ∧ X.Bare v

theorem Converted.of_same {act act' : Lower Value} (h : Parallel g env P act act' (Same g.Plain)) :
    Parallel g env P act act' (Converted g.toPairing target) :=
  h.mono fun _ _ _ _ h => by
    obtain ⟨rfl, hv⟩ := h
    exact ⟨hv.like, fun _ => hv.firm, fun _ => ⟨rfl, hv.bare⟩⟩

theorem parallel_ofValue (hv : g.Alike P v v') :
    Parallel g env P (liftM (Text.ofValue v)) (liftM (Text.ofValue v')) (Converted g.toPairing .ptr) :=
  (Parallel.lift (Text.mirrors_ofValue hv)).mono fun _ _ _ _ h =>
    ⟨h.like, fun _ => h.firm, fun hne => absurd rfl hne⟩

theorem parallel_coerce_plain (hv : g.Plain v) :
    Parallel g env P (coerce v target context span) (coerce v target (context.rename g.names) span)
      (Converted g.toPairing target) := by
  refine .ite (fun _ => Converted.of_same (Steady.pure hv)) fun _ => ?_
  split
  · exact Converted.of_same (.lift (mirrors_isNonzero hv.alike))
  · exact Converted.of_same (.lift (mirrors_isNonzero hv.alike))
  · exact Converted.of_same (.lift (mirrors_isNonzeroFloat hv))
  · exact Converted.of_same (.lift (mirrors_isNonzeroFloat hv))
  · exact Converted.of_same (.lift (mirrors_intCast hv _ _))
  · exact Converted.of_same (.lift (mirrors_siToFp hv (fun _ => rfl)))
  · exact Converted.of_same (.lift (mirrors_siToFp hv (fun _ => rfl)))
  · exact Converted.of_same (.lift (mirrors_fpToSi hv (fun _ => rfl)))
  · exact Converted.of_same (.lift (mirrors_fpToSi hv (fun _ => rfl)))
  · exact Converted.of_same (.lift (mirrors_fpCast hv))
  · exact Converted.of_same (.lift (mirrors_fpCast hv))
  · exact Converted.of_same (.lift (mirrors_intOfText hv.like))
  · exact Converted.of_same (.lift (mirrors_floatOfText hv.like))
  · exact Converted.of_same (.lift (mirrors_floatOfText hv.like))
  · exact parallel_ofValue hv.alike
  · exact parallel_ofValue hv.alike
  · exact parallel_ofValue hv.alike
  · exact .fail

section

variable (hv : v.Like P v')
include hv

theorem parallel_coerce_ptr (hty : v.ty = .ptr) :
    Parallel g env P (coerce v target context span) (coerce v' target (context.rename g.names) span)
      (Converted g.toPairing target) := by
  have hfirm : g.Alike P v v' := ⟨hv, fun _ => hty ▸ rfl⟩
  unfold coerce
  rw [hv.ty_eq, hty]
  cases target with
  | ptr => exact .pure fun _ hle => ⟨hv.mono hle, fun _ => hfirm.firm, fun hne => absurd rfl hne⟩
  | int bits =>
    match bits with
    | 1 => exact Converted.of_same (.lift (mirrors_isNonzero hfirm))
    | 0 | bits + 2 => exact Converted.of_same (.lift (mirrors_intOfText hv))
  | float | double => exact Converted.of_same (.lift (mirrors_floatOfText hv))
  | void | array elem len | struct name => exact .fail

theorem parallel_coerce :
    Parallel g env P (coerce v target context span) (coerce v' target (context.rename g.names) span)
      (Converted g.toPairing target) := by
  by_cases hty : v.ty = .ptr
  · exact parallel_coerce_ptr hv hty
  obtain ⟨rfl, hbare⟩ := hv.of_ty_ne hty
  cases hvoid : v'.ty.isVoid with
  | false => exact parallel_coerce_plain ⟨hbare, fun _ => hvoid⟩
  | true =>
    have hty : v'.ty = .void := of_decide_eq_true hvoid
    refine .ite (fun h => ?_) fun _ => ?_
    · exact .pure fun _ _ => ⟨.plain hbare, fun htarget => h ▸ htarget, fun _ => ⟨rfl, hbare⟩⟩
    · rw [hty]
      exact .fail

theorem parallel_coerce_like :
    Parallel g env P (coerce v target context span) (coerce v' target (context.rename g.names) span) Value.Like :=
  (parallel_coerce hv).mono fun _ _ _ _ h => h.like

/-- A conversion to a type other than void gives no void value. -/
theorem parallel_coerce_alike (htarget : g.Firm target) (context : Coercion) (span : Span) :
    Parallel g env P (coerce v target context span) (coerce v' target (context.rename g.names) span) g.Alike :=
  (parallel_coerce hv).mono fun _ _ _ _ h => ⟨h.like, h.firm htarget⟩

theorem parallel_coerce_same (htarget : target ≠ .ptr) (hfirm : g.Firm target) :
    Parallel g env P (coerce v target context span) (coerce v' target (context.rename g.names) span) (Same g.Plain) :=
  (parallel_coerce hv).mono fun _ _ _ _ h =>
    (h.same htarget).imp_right fun hbare => ⟨hbare, h.firm hfirm⟩

theorem parallel_toBool : Parallel g env P (toBool v span) (toBool v' span) (Same g.Plain) := by
  by_cases hty : v.ty = .ptr
  · rw [toBool, toBool, hty, hv.ty_eq.trans hty]
    exact .lift (mirrors_isNonzero ⟨hv, fun _ => hty ▸ rfl⟩)
  · obtain ⟨rfl, hbare⟩ := hv.of_ty_ne hty
    unfold toBool
    split
    · next hty => exact Steady.pure ⟨hbare, fun _ => hty ▸ rfl⟩
    · next hty => exact .lift (mirrors_isNonzero ⟨.plain hbare, fun _ => hty ▸ rfl⟩)
    · next hty => exact .lift (mirrors_isNonzero ⟨.plain hbare, fun _ => hty ▸ rfl⟩)
    · next hty => exact .lift (mirrors_isNonzeroFloat ⟨hbare, fun _ => hty ▸ rfl⟩)
    · next hty => exact .lift (mirrors_isNonzeroFloat ⟨hbare, fun _ => hty ▸ rfl⟩)
    · exact .fail

end

theorem parallel_promotePair (hl : l.Like P l') (hr : r.Like P r') :
    Parallel g env P (promotePair l r span) (promotePair l' r' span) (Same fun p => g.Plain p.1 ∧ g.Plain p.2) := by
  rw [promotePair, promotePair, hl.ty_eq, hr.ty_eq]
  split
  · exact .fail
  · next target htarget =>
    have hnum := (promoted?_isNumeric htarget).1
    have hne : target ≠ .ptr := by
      rintro rfl
      cases hnum
    have hfirm : g.Firm target := g.firm_of_test Ty.isNumeric hnum rfl
    refine (parallel_coerce_same hl hne hfirm).bind_same fun P1 l hle1 hl => ?_
    refine (parallel_coerce_same (hr.mono hle1) hne hfirm).bind_same fun P2 r _ hr => ?_
    exact Steady.pure ⟨hl, hr⟩

theorem parallel_castValue (hv : v.Like P v') :
    Parallel g env P (castValue v target span) (castValue v' target span) Value.Like := by
  by_cases hty : v.ty = .ptr
  · have hload (bits : Nat) : Parallel g env P (do
          let c ← Build.load .i8 v
          Build.intCast c (.int bits) true)
        (do
          let c ← Build.load .i8 v'
          Build.intCast c (.int bits) true) Value.Like :=
      ((Parallel.lift (mirrors_load ⟨hv, fun _ => hty ▸ rfl⟩ (fun _ => rfl))).bind_same fun _ _ _ hc =>
        .lift (mirrors_intCast hc _ _)).like
    unfold castValue
    rw [hv.ty_eq, hty]
    cases target with
    | int bits =>
      match bits with
      | 1 => exact (parallel_toBool hv).like
      | 0 => exact hload 0
      | bits + 2 => exact hload (bits + 2)
    | float | double => exact (Parallel.lift (mirrors_floatOfText hv)).like
    | ptr | void | array elem len | struct name => exact .fail
  · obtain ⟨rfl, hbare⟩ := hv.of_ty_ne hty
    have hof {ty : Ty} (h : v'.ty = ty) (hvoid : ty.isVoid = false) :
        Parallel g env P (liftM (Text.ofValue v')) (liftM (Text.ofValue v')) Value.Like :=
      (Parallel.lift (Text.mirrors_ofValue ⟨.plain hbare, fun _ => h ▸ hvoid⟩)).mono fun _ _ _ _ h => h.like
    unfold castValue
    split
    · exact (parallel_toBool (.plain hbare)).like
    · next hty => exact (Parallel.lift (Text.mirrors_ofChar ⟨hbare, fun _ => hty ▸ rfl⟩)).like
    · next hty => exact hof hty rfl
    · next hty => exact hof hty rfl
    · next hty => exact hof hty rfl
    · next hptr => exact absurd hptr hty
    · next hptr => exact absurd hptr hty
    · next hptr => exact absurd hptr hty
    all_goals first
      | exact parallel_coerce_like (.plain hbare)
      | exact .fail

theorem parallel_cast {target : Spanned String} {operand operand' : Lower Value}
    (h : Parallel g env P operand operand' Value.Like) :
    Parallel g env P (cast target operand span) (cast target operand' span) Value.Like := by
  unfold cast
  split
  · exact .fail
  · next ty _ =>
    refine .bind h fun P1 v v' _ hv => ?_
    rw [hv.ty_eq]
    refine .ite (fun _ => ?_) fun _ => parallel_castValue hv
    exact .seq steady_warn fun _ hle => .pure fun _ hle' =>
      hv.mono (le_trans hle hle')

theorem parallel_coerceReturn (hv : v.Like P v') {ret : Ty} :
    Parallel g env P (coerceReturn v ret span) (coerceReturn v' ret span) Value.Like := by
  rw [coerceReturn, coerceReturn, hv.ty_eq]
  exact .otherwise fun _ => parallel_coerce_like hv

/-! ### Operators -/

theorem parallel_arithmetic {op : Value → Value → Build Value}
    (hop : ∀ {P : Common g.exact} {l r : Value}, g.Plain l → g.Plain r → Mirrored g.toPairing P (op l
      r) (Same g.Plain)) (hl : l.Like P l') (hr : r.Like P r') :
    Parallel g env P (arithmetic op l r span) (arithmetic op l' r' span) (Same g.Plain) :=
  (parallel_promotePair hl hr).bind_same fun _ _ _ h => .lift (hop h.1 h.2)

theorem parallel_compare (hl : l.Like P l') (hr : r.Like P r') :
    Parallel g env P (compare op l r span) (compare op l' r' span) (Same g.Plain) := by
  rw [compare, compare, hl.ty_eq, hr.ty_eq]
  refine .ite (fun _ => ?_) fun _ => .otherwise fun _ => ?_
  · refine (Parallel.lift (mirrors_callValue .strcmp (.cons hl (.cons hr .nil)) rfl (g.ordinary rfl))).bind_same
      fun _ order _ horder => ?_
    exact .lift (mirrors_icmp horder.alike (Value.plain_int32).alike)
  · refine (parallel_promotePair hl hr).bind_same fun _ p _ hp => ?_
    exact .ite (fun _ => .lift (mirrors_fcmp hp.1 hp.2)) fun _ =>
      .lift (mirrors_icmp hp.1.alike hp.2.alike)

theorem parallel_bitwise {instr : BinaryOp} (hl : l.Like P l') (hr : r.Like P r') :
    Parallel g env P (bitwise op instr l r span) (bitwise op instr l' r' span) (Same g.Plain) := by
  rw [bitwise, bitwise, hl.ty_eq, hr.ty_eq]
  refine .otherwise fun _ => ?_
  refine .otherwise fun _ => ?_
  exact parallel_arithmetic mirrors_binary hl hr

theorem parallel_logical {instr : BinaryOp} (hl : l.Like P l') (hr : r.Like P r') :
    Parallel g env P (logical instr l r span) (logical instr l' r' span) (Same g.Plain) := by
  refine (parallel_toBool hl).bind_same fun P1 l hle1 hl => ?_
  refine (parallel_toBool (hr.mono hle1)).bind_same fun P2 r _ hr => ?_
  exact .lift (mirrors_binary hl hr)

theorem parallel_sum (hl : g.Alike P l l') (hr : g.Alike P r r') :
    Parallel g env P (sum l r span) (sum l' r' span) (Same g.Plain) := by
  rw [sum, sum, hl.like.ty_eq, hr.like.ty_eq]
  refine .ite (fun hchars => ?_) fun _ => .ite (fun _ => ?_) fun _ => ?_
  · rw [Bool.and_eq_true] at hchars
    obtain ⟨rfl, hl⟩ := hl.like.plain_of_ty _ hchars.1 rfl rfl
    obtain ⟨rfl, hr⟩ := hr.like.plain_of_ty _ hchars.2 rfl rfl
    exact .lift (Text.mirrors_ofPair hl hr)
  · exact .lift (Text.mirrors_add hl hr)
  · exact parallel_arithmetic mirrors_arith hl.like hr.like

theorem parallel_remainder (hl : l.Like P l') (hr : r.Like P r') :
    Parallel g env P (remainder l r span) (remainder l' r' span) (Same g.Plain) := by
  rw [remainder, remainder, hl.ty_eq, hr.ty_eq]
  exact .otherwise fun _ =>
    parallel_arithmetic mirrors_arith hl hr

theorem firm_of_isOperand (h : ¬ (!isOperand v) = true) : X.Firm v.ty := fun _ => by
  cases hvoid : v.ty.isVoid with
  | false => rfl
  | true => exact absurd (by rw [isOperand, hvoid]; rfl) h

/-- Operands are looked at before anything is done with them. -/
theorem parallel_binaryValues (hl : l.Like P l') (hr : r.Like P r') :
    Parallel g env P (binaryValues op l r span) (binaryValues op l' r' span) (Same g.Plain) := by
  unfold binaryValues
  rw [show isOperand l' = isOperand l by rw [isOperand, isOperand, hl.ty_eq],
    show isOperand r' = isOperand r by rw [isOperand, isOperand, hr.ty_eq], hl.ty_eq, hr.ty_eq]
  refine .otherwise fun hoperand => ?_
  refine .otherwise fun hoperand' => ?_
  cases op with
  | and | or => exact parallel_logical hl hr
  | add => exact parallel_sum ⟨hl, firm_of_isOperand hoperand⟩ ⟨hr, firm_of_isOperand hoperand'⟩
  | sub | mul | div => exact parallel_arithmetic mirrors_arith hl hr
  | mod => exact parallel_remainder hl hr
  | bitAnd | bitOr | bitXor | shl | shr => exact parallel_bitwise hl hr
  | eq | ne | lt | le | gt | ge => exact parallel_compare hl hr

theorem parallel_unaryValue {op : UnaryOp} (hv : v.Like P v') :
    Parallel g env P (unaryValue op v span) (unaryValue op v' span) (Same g.Plain) := by
  unfold unaryValue
  rw [hv.ty_eq]
  cases op with
  | neg =>
    refine .ite (fun hnum => ?_) fun _ => .fail
    obtain ⟨rfl, hplain⟩ := hv.plain_of_ty _ hnum rfl rfl
    exact .lift (mirrors_neg hplain)
  | plus =>
    refine .ite (fun hnum => ?_) fun _ => .fail
    obtain ⟨rfl, hplain⟩ := hv.plain_of_ty _ hnum rfl rfl
    exact Steady.pure hplain
  | not => exact (parallel_toBool hv).bind_same fun _ _ _ hb => .lift (mirrors_not hb)

theorem plain_one {ty : Ty} (hty : X.Firm ty) : X.Plain (one ty) := by
  unfold one
  split
  · exact Value.plain_ofSingle
  · exact Value.plain_ofDouble
  · exact Value.plain_ofInt hty

/-- A place is the same on both sides, and does not hold a void value. -/
structure PlaceRef.Plain (X : Pairing) (p : PlaceRef) : Prop where
  ptr : X.Plain p.ptr
  ty : X.Firm p.ty

theorem steady_stepPlace {op : StepOp} {target : PlaceRef} (htarget : target.Plain g.toPairing) :
    Steady g env P (stepPlace op target span) (Same g.Plain) := by
  have hstore : ∀ {P : Common g.exact} {next : Value}, g.Plain next → Steady g env P (do
        Build.store next target.ptr
        return next) (Same g.Plain) := fun hnext =>
    (Steady.lift (mirrors_store hnext.alike htarget.ptr.alike)).seq fun _ _ => .pure hnext
  refine .ite (fun _ => .fail) fun _ => ?_
  refine (Steady.lift (mirrors_load htarget.ptr.alike htarget.ty)).bind_same fun _ current _ hcurrent => ?_
  cases op with
  | inc | dec =>
    exact (Steady.lift (mirrors_arith hcurrent (plain_one htarget.ty))).bind_same fun _ _ _ hnext =>
      hstore hnext

end Aero.Lowering
