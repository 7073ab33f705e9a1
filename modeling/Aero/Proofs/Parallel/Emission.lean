import Aero.Proofs.Layout
import Aero.Proofs.Parallel.Pairing

/-!
What the builder operations do on two sides at once. Operations on operands that are no addresses give the
same operand on both sides. The exceptions are string constants and what passes them on.
-/

open Option

namespace Aero.IR

variable {b c l' r' s s' v : Value}
variable {ptr ptr' l r size obj value : Value} {args args' : List Value} {target ty : Ty} {callee : String}
  {op : CastOp}
variable {struct format field : String}

namespace Build

variable {X : Pairing} {P : Common X.exact}

theorem mirrors_constString {s : String} : Mirrored X P (constString s) X.Alike := by
  refine ⟨fun b b' hlike _ => ?_⟩
  obtain ⟨hadv, hs⟩ := X.constString hlike s
  refine ⟨hadv, hs, fun _ => ?_⟩
  unfold constString
  split <;> rfl

/-! ### Memory and arithmetic -/

theorem mirrors_alloca (hty : X.Firm ty) : Mirrored X P (alloca ty) (Same X.Plain) :=
  mirrors_emit (fun r => .alloca r ty) (fun _ => .of_firm hty rfl) fun _ => rfl

theorem mirrors_load (hptr : X.Alike P ptr ptr') (hty : X.Firm ty) :
    Mirrors X P (load ty ptr) (load ty ptr') (Same X.Plain) :=
  mirrors_emit (fun r => .load r ty hptr.like) (fun _ => .of_firm (X.firm_or hty hptr.firm) rfl) hty

theorem mirrors_store {value' : Value} (hvalue : X.Alike P value value')
    (hptr : X.Alike P ptr ptr') : Mirrors X P (store value ptr) (store value' ptr') Done :=
  mirrors_push (.store hvalue.like hptr.like) (.of_firm (X.firm_or hvalue.firm hptr.firm) rfl)

theorem mirrors_gep {base : Ty} {indices : List Value} (hptr : ptr.Like P ptr')
    (hindices : ∀ i ∈ indices, X.Plain i) (hbase : X.Firm base) :
    Mirrors X P (gep base ptr indices) (gep base ptr' indices) (Same X.Plain) :=
  mirrors_emit (fun r => .gep r base hptr (.of_plain hindices)) (fun _ => .of_firm hbase rfl) fun _ => rfl

theorem mirrors_foldOr {folded : Option Value} {make make' : Reg → Instr}
    (hfolded : ∀ v, folded = some v → X.Plain v) (hmake : ∀ r, (make r).Like P (make' r))
    (hproper : ∀ r, X.Proper (make r)) (hty : X.Firm ty) :
    Mirrors X P (foldOr folded ty make) (foldOr folded ty make') (Same X.Plain) := by
  cases folded with
  | some v => exact Mirrored.pure (hfolded v rfl)
  | none => exact mirrors_emit hmake hproper hty

theorem plain_of_foldBinary? {op : BinaryOp} (hl : X.Firm l.ty) (h : foldBinary? op l r = some v) : X.Plain v := by
  unfold foldBinary? at h
  split at h
  · simp only [bind_eq_bind, bind_eq_some_iff, pure_def, Option.some.injEq] at h
    obtain ⟨_, _, _, _, _, _, rfl⟩ := h
    exact Value.plain_ofFloat
  · simp only [bind_eq_bind, bind_eq_some_iff, pure_def, Option.some.injEq] at h
    obtain ⟨_, _, _, _, _, _, _, _, rfl⟩ := h
    exact Value.plain_ofInt hl

theorem mirrors_binary {op : BinaryOp} (hl : X.Plain l) (hr : X.Plain r) :
    Mirrored X P (binary op l r) (Same X.Plain) :=
  mirrors_foldOr (fun _ => plain_of_foldBinary? hl.firm) (fun dst => .binary dst op hl.like hr.like)
    (fun _ => .of_firm (X.firm_or hl.firm hr.firm) rfl) hl.firm

theorem mirrors_arith {floating integral : BinaryOp} (hl : X.Plain l) (hr : X.Plain r) :
    Mirrored X P (arith floating integral l r) (Same X.Plain) :=
  mirrors_binary hl hr

theorem mirrors_neg (hv : X.Plain v) : Mirrored X P (neg v) (Same X.Plain) := by
  refine .ite (fun _ => mirrors_foldOr (fun u hu => ?_) (fun dst => .fneg dst hv.like)
    (fun _ => .of_firm hv.firm rfl) hv.firm) fun _ => mirrors_binary (Value.plain_zero hv.firm) hv
  obtain ⟨x, _, rfl⟩ := map_eq_some_iff.mp hu
  exact ⟨.inr nofun, hv.firm⟩

theorem mirrors_not (hv : X.Plain v) : Mirrored X P (Build.not v) (Same X.Plain) :=
  mirrors_binary hv (Value.plain_ofInt hv.firm)

theorem mirrors_icmp {pred : IntPredicate} (hl : X.Alike P l l') (hr : X.Alike P r r') :
    Mirrors X P (icmp pred l r) (icmp pred l' r') (Same X.Plain) := by
  have hfold : foldIcmp? pred l' r' = foldIcmp? pred l r := by
    rw [foldIcmp?, foldIcmp?, hl.like.int?_eq, hr.like.int?_eq, hl.like.ty_eq]
  rw [icmp, icmp, hfold]
  refine mirrors_foldOr (fun v hv => ?_) (fun dst => .icmp dst pred hl.like hr.like)
    (fun _ => .of_firm (X.firm_or hl.firm hr.firm) rfl) fun _ => rfl
  simp only [foldIcmp?, bind_eq_bind, bind_eq_some_iff, pure_def, Option.some.injEq] at hv
  obtain ⟨_, _, _, _, rfl⟩ := hv
  exact Value.plain_ofBool

theorem mirrors_fcmp {pred : FloatPredicate} (hl : X.Plain l) (hr : X.Plain r) :
    Mirrored X P (fcmp pred l r) (Same X.Plain) := by
  refine mirrors_foldOr (fun v hv => ?_) (fun dst => .fcmp dst pred hl.like hr.like)
    (fun _ => .of_firm (X.firm_or hl.firm hr.firm) rfl) fun _ => rfl
  simp only [foldFcmp?, bind_eq_bind, bind_eq_some_iff, pure_def, Option.some.injEq] at hv
  obtain ⟨_, _, _, _, rfl⟩ := hv
  exact Value.plain_ofBool

/-- A choice between two strings is a choice between the same strings. -/
theorem mirrors_select {t t' e e' : Value} (hc : X.Plain c) (ht : X.Alike P t t') (he : X.Alike P e e') :
    Mirrors X P (select c t e) (select c t' e') X.Alike := by
  rw [select, select, ht.like.ty_eq]
  cases c.int? with
  | none =>
    refine .alike (mirrors_emit (fun dst => .select dst hc.like ht.like he.like) (fun _ => .of_firm ?_ rfl)
      ht.firm)
    intro hstrict
    rw [Instr.handlesVoid, X.firm_or hc.firm ht.firm hstrict, he.firm hstrict]
    rfl
  | some n =>
    refine .pure fun P' hle => ?_
    dsimp only
    split
    · exact he.mono hle
    · exact ht.mono hle

theorem mirrors_phi {incoming : List (Value × BlockId)} (h : ∀ p ∈ incoming, X.Plain p.1)
    (hty : X.Firm ty) : Mirrored X P (phi ty incoming) (Same X.Plain) := by
  refine mirrors_emit (fun dst => .phi dst ty (List.forall₂_same.mpr fun p hp => ⟨(h p hp).like, rfl⟩))
    (fun _ => .of_firm (fun hstrict => ?_) rfl) hty
  rw [Instr.handlesVoid, hty hstrict, Bool.false_or, List.any_eq_false]
  exact fun p hp => Bool.eq_false_iff.mp ((h p hp).firm hstrict)

/-! ### Conversions -/

theorem plain_of_foldCast? {u : Value} (htarget : X.Firm target) (h : foldCast? op v target = some u) : X.Plain u := by
  unfold foldCast? at h
  cases op <;>
    simp only [bind_eq_bind, bind_eq_some_iff, map_eq_some_iff, pure_def, Option.some.injEq] at h
  case zext =>
    obtain ⟨_, _, _, _, rfl⟩ := h
    exact Value.plain_ofInt htarget
  all_goals
    obtain ⟨_, _, rfl⟩ := h
    first | exact Value.plain_ofInt htarget | exact Value.plain_ofFloat

theorem mirrors_cast (hv : X.Plain v) (htarget : X.Firm target) : Mirrored X P (cast op v target) (Same X.Plain) :=
  mirrors_foldOr (fun _ => plain_of_foldCast? htarget) (fun dst => .cast dst op target hv.like)
    (fun _ => .of_firm (X.firm_or hv.firm htarget) rfl) htarget

theorem mirrors_intCast_any (hv : X.Bare v) {signed : Bool} :
    Mirrored X P (intCast v target signed) (Same fun u => X.Bare u ∧ (X.Firm v.ty → X.Firm u.ty)) := by
  have hint {ty : Ty} {n : Nat} (h : ty.width? = some n) : X.Firm ty :=
    X.firm_of_test (·.width?.isSome) (by rw [h]; rfl) rfl
  unfold intCast
  split
  · next hwidth hwanted =>
    refine .ite (fun _ => .pure ⟨hv, id⟩) fun _ => ?_
    have hcast (op : CastOp) : Mirrored X P (cast op v target) (Same fun u => X.Bare u ∧ (X.Firm v.ty → X.Firm u.ty)) :=
      .imp (mirrors_cast ⟨hv, hint hwidth⟩ (hint hwanted)) fun _ hu => ⟨hu.bare, fun _ => hu.firm⟩
    exact .ite (fun _ => hcast _) fun _ => .ite (fun _ => hcast _) fun _ => hcast _
  · exact .pure ⟨hv, id⟩

theorem mirrors_intCast (hv : X.Plain v) (target : Ty) (signed : Bool) :
    Mirrored X P (intCast v target signed) (Same X.Plain) :=
  .imp (mirrors_intCast_any hv.bare) fun _ hu => ⟨hu.1, hu.2 hv.firm⟩

theorem mirrors_fpCast (hv : X.Plain v) : Mirrored X P (fpCast v target) (Same X.Plain) := by
  unfold fpCast
  split
  · exact mirrors_cast hv (fun _ => rfl)
  · exact mirrors_cast hv (fun _ => rfl)
  · exact .pure hv

theorem mirrors_siToFp (hv : X.Plain v) (htarget : X.Firm target) : Mirrored X P (siToFp v target) (Same X.Plain) := by
  refine .ite (fun _ => ?_) fun _ => mirrors_cast hv htarget
  exact (mirrors_intCast hv _ _).bind_same fun _ _ _ hv => mirrors_cast hv htarget

theorem mirrors_fpToSi (hv : X.Plain v) (htarget : X.Firm target) : Mirrored X P (fpToSi v target) (Same X.Plain) :=
  mirrors_cast hv htarget

/-! ### Calls -/

theorem mirrors_callOf (hcallee : ∀ p, callee = p.name → X.Allows p) (hargs : Value.Likes P args args') (ret : Ty) :
    Mirrors X P (callOf callee args ret) (callOf callee args' ret) (Same fun v => X.Bare v ∧ v.ty = ret) := by
  have hproper (dst : Option Reg) (ty : Ty) : X.Proper (.call dst callee args ty) :=
    ⟨fun _ => rfl, fun p hp => hcallee p (some.inj hp)⟩
  refine .ite (fun hret => ?_) fun hret => ?_
  · refine (mirrors_push (.call none callee .void hargs) (hproper _ _)).seq fun _ _ => ?_
    exact Mirrored.pure ⟨Value.bare_undef _, (of_decide_eq_true hret).symm⟩
  · refine .bind_same (mirrors_follows X.freshReg) fun P1 r hle1 _ => ?_
    refine (mirrors_push (.call (some r) callee _ (hargs.mono hle1)) (hproper _ _)).seq fun _ _ => ?_
    exact Mirrored.pure ⟨.inr nofun, rfl⟩

/-- Both sides find a function of the same type, or neither finds one. -/
theorem mirrors_call (hcallee : P.declared callee) (hargs : Value.Likes P args args') :
    Mirrors X P (call callee args) (call callee args') (Same X.Bare) := by
  refine ⟨fun b b' hlike hP => ?_⟩
  have hdeclared := hP.declared callee hcallee
  have hcallOf := mirrors_callOf (X.allows hdeclared) hargs
  have hret := X.ret_eq hlike hdeclared
  cases hfound : b.module.function? callee with
  | none =>
    rw [hfound, map_none, map_eq_none_iff] at hret
    rw [call_unknown hfound, call_unknown hret]
    have hnote := X.note hlike .warn ("call to undeclared function @" ++ callee)
      ("call to undeclared function @" ++ callee)
    obtain ⟨hadv, hsame⟩ := (hcallOf .void).run _ _ (X.like hnote) (le_trans hP (X.le hnote))
    exact ⟨X.trans hnote hadv, hsame.1, hsame.2.1⟩
  | some f =>
    rw [hfound, map_some, map_eq_some_iff] at hret
    obtain ⟨f', hfound', hty⟩ := hret
    rw [call_known hfound, call_known hfound', hty]
    exact ((hcallOf f.ret).imp fun _ h => h.1).run b b' hlike hP

section

variable (p : Primitive)

theorem mirrors_declarePrimitive : Mirrored X P (declarePrimitive p) fun P' _ _ => X.Allows p → P'.declared p.name :=
  ⟨fun _ _ hlike _ => X.declarePrimitive hlike p⟩

theorem mirrors_callPrimitive (hargs : Value.Likes P args args') (hp : X.Allows p) :
    Mirrors X P (callPrimitive p args) (callPrimitive p args') (Same X.Bare) :=
  .bind (mirrors_declarePrimitive p) fun _ _ _ hle hdeclared => mirrors_call (hdeclared hp) (hargs.mono hle)

theorem declarePrimitive_function? (b : Builder) : ∃ f, (declarePrimitive p b).2.module.function? p.name = some f := by
  change ∃ f, (declareFunction p.declaration b).2.module.function? p.declaration.name = some f
  cases hf : b.module.function? p.declaration.name with
  | none =>
    rw [declareFunction_new (map_eq_none_iff.mpr hf), Builder.addFn_module_function?, hf, if_pos rfl]
    exact ⟨_, rfl⟩
  | some g =>
    rw [declareFunction_old (by rw [Module.prototype?, hf]; rfl)]
    exact ⟨g, hf⟩

theorem mirrors_callValue (hargs : Value.Likes P args args') (hret : p.signature.ret.isVoid = false) (hp : X.Allows p) :
    Mirrors X P (callPrimitive p args) (callPrimitive p args') (Same X.Plain) := by
  refine ⟨fun b b' hlike hP => ?_⟩
  obtain ⟨hadv, hdeclared⟩ := X.declarePrimitive hlike p
  obtain ⟨f, hfound⟩ := declarePrimitive_function? p b
  have hsame := X.ret_eq (X.like hadv) (hdeclared hp)
  rw [hfound, map_some, map_eq_some_iff] at hsame
  obtain ⟨f', hfound', hty⟩ := hsame
  obtain ⟨hadv', heq, hbare, hvalue⟩ := (mirrors_callOf (X.allows (hdeclared hp))
    (hargs.mono (le_trans hP (X.le hadv))) f.ret).run _ _ (X.like hadv) (le_refl _)
  change X.Advance _ b b' (call p.name args (declarePrimitive p b).2).2
      (call p.name args' (declarePrimitive p b').2).2 ∧
    (call p.name args' (declarePrimitive p b').2).1 = (call p.name args (declarePrimitive p b).2).1 ∧
      X.Plain (call p.name args (declarePrimitive p b).2).1
  rw [call_known hfound, call_known hfound', hty]
  refine ⟨X.trans hadv hadv', heq, hbare, fun hstrict => ?_⟩
  rw [hvalue, X.firm_ret hstrict (X.like hadv) p f hfound, hret]

end

theorem mirrors_printf (hargs : Value.Likes P args args') :
    Mirrors X P (printf format args) (printf format args') (Same X.Plain) :=
  .bind mirrors_constString fun _ _ _ hle hformat =>
    mirrors_callValue .printf (.cons hformat.like (hargs.mono hle)) rfl (X.ordinary rfl)

theorem mirrors_strlen (hs : s.Like P s') : Mirrors X P (strlen s) (strlen s') (Same X.Plain) :=
  mirrors_callValue .strlen (.cons hs .nil) rfl (X.ordinary rfl)

theorem mirrors_inlineAsm {code constraints : String} {sideEffects : Bool}
    (hargs : ∀ v ∈ args, X.Plain v) : Mirrored X P (inlineAsm code constraints args sideEffects) Done :=
  mirrors_push (.inlineAsm code constraints sideEffects (.of_plain hargs)) (.of_firm (fun _ => rfl) rfl)

/-! ### Custom types -/

theorem mirrors_fieldPtr (hobj : X.Bare obj) :
    Mirrored X P (fieldPtr struct obj field) (Same fun r => ∀ p, r = some p → X.Plain p.1 ∧ X.Firm p.2) := by
  refine .get_bind fun γ b b' hlike _ => ?_
  rw [Builder.custom?, Builder.custom?, (X.level hlike).custom_eq]
  split
  · next i ty hfield =>
    have hty : X.Firm ty := fun hstrict => by
      obtain ⟨t, ht, hfield⟩ := bind_eq_some_iff.mp hfield
      simp only [CustomType.field?, bind_eq_bind, bind_eq_some_iff] at hfield
      obtain ⟨_, _, ⟨_, _⟩, hget, hpure⟩ := hfield
      cases hpure
      exact X.firm_fields hstrict hlike t (List.mem_of_find?_eq_some ht) _ (List.mem_of_getElem? hget)
    refine .bind_same (mirrors_gep (.plain hobj) (by simp) (fun _ => rfl)) fun _ ptr _ hptr => ?_
    refine Mirrored.pure fun p hp => ?_
    cases hp
    exact ⟨hptr, hty⟩
  · exact Mirrored.pure fun p hp => by cases hp

theorem mirrors_methodCall {method : String}
    (hmethod : ∀ symbol, (P.custom.find? (·.name = struct)).bind (·.method? method) = some symbol →
      P.declared symbol) (hobj : X.Bare obj) (hargs : Value.Likes P args args') :
    Mirrors X P (methodCall struct method obj args) (methodCall struct method obj args')
      (Same fun r => ∀ v, r = some v → X.Bare v) := by
  refine .get_bind fun γ b b' hlike hP => ?_
  have hcustom : b.custom = P.custom := (X.custom_eq b b').symm.trans hP.custom_eq
  rw [Builder.custom?, Builder.custom?, (X.level hlike).custom_eq, hcustom]
  cases hfound : (P.custom.find? (·.name = struct)).bind (·.method? method) with
  | none => exact Mirrored.pure nofun
  | some symbol =>
    have hcall : Mirrors X _ (call symbol (obj :: args)) (call symbol (obj :: args')) (Same X.Bare) :=
      mirrors_call (hP.declared _ (hmethod symbol hfound)) (.cons (.plain hobj) (hargs.mono hP))
    refine hcall.bind_same fun _ v _ hv => Mirrored.pure fun u hu => ?_
    cases hu
    exact hv

/-! ### Heap buffers -/

theorem mirrors_isTracked :
    Mirrored X P isTracked (Same fun tracked => tracked = true → ∀ p, p ≠ .malloc → X.Allows p) := by
  refine .get_bind fun γ b b' hlike _ => ?_
  rw [(X.level hlike).alloc_eq]
  exact Mirrored.pure fun htracked => X.tracker hlike (of_decide_eq_true htracked)

theorem mirrors_ifTracked {act act' : Build Unit}
    (hact : ∀ P', P ≤ P' → (∀ p, p ≠ .malloc → X.Allows p) → Mirrors X P' act act' Done) :
    Mirrors X P (do if ← isTracked then act) (do if ← isTracked then act') Done :=
  .bind_same mirrors_isTracked fun P' _ hle htracker =>
    .ite (fun htracked => hact P' hle (htracker htracked)) fun _ => Mirrored.done

theorem cast_ty (hfold : ∀ v, foldCast? op value target = some v → v.ty = target) (b : Builder) :
    (cast op value target b).1.ty = target := by
  unfold cast
  cases hv : foldCast? op value target with
  | none => rfl
  | some v => exact hfold v hv

theorem intCast_of_width? (h : v.ty.width? = target.width?) (signed : Bool) : intCast v target signed = pure v := by
  unfold intCast
  rw [h]
  cases target.width? with
  | none => rfl
  | some wanted => exact if_pos rfl

/-- A value that is cast once more stays the same. -/
theorem intCast_intCast (value : Value) (target : Ty) (signed : Bool) (b : Builder) :
    intCast (intCast value target signed b).1 target signed = pure (intCast value target signed b).1 := by
  have hsame (h : intCast value target signed = pure value) :
      intCast (intCast value target signed b).1 target signed = pure (intCast value target signed b).1 := by
    rw [h]
    exact h
  cases hwidth : value.ty.width? with
  | none => exact hsame (by unfold intCast; rw [hwidth])
  | some width =>
    cases hwanted : target.width? with
    | none => exact hsame (by unfold intCast; rw [hwidth, hwanted])
    | some wanted =>
      by_cases heq : width = wanted
      · exact hsame (intCast_of_width? (by rw [hwidth, hwanted, heq]) signed)
      · refine intCast_of_width? (congrArg Ty.width? ?_) signed
        unfold intCast
        rw [hwidth, hwanted]
        dsimp only
        rw [if_neg heq]
        split
        · refine cast_ty (fun v hv => ?_) b
          obtain ⟨_, _, rfl⟩ := map_eq_some_iff.mp hv
          rfl
        · split
          · refine cast_ty (fun v hv => ?_) b
            obtain ⟨_, _, rfl⟩ := map_eq_some_iff.mp hv
            rfl
          · refine cast_ty (fun v hv => ?_) b
            simp only [foldCast?, bind_eq_bind, bind_eq_some_iff] at hv
            obtain ⟨_, _, _, _, hv⟩ := hv
            cases hv
            rfl

/-- The buffer of a size that is already known as a 64-bit integer. -/
def registeredMalloc (size : Value) (dims : Nat) : Build Value := do
  let ptr ← callPrimitive .malloc [size]
  if ← isTracked then
    discard (callPrimitive .gcRegister [ptr, size, int32 (Int64.ofNat (max dims 1))])
  return ptr

theorem trackedMalloc_eq (size : Value) (dims : Nat) : trackedMalloc size dims = (do
    let size ← intCast size .i64 false
    registeredMalloc size dims) := by
  funext b
  change (do
    let ptr ← (do
      let size ← intCast (intCast size .i64 false b).1 .i64 false
      callPrimitive .malloc [size])
    if ← isTracked then
      discard (callPrimitive .gcRegister [ptr, (intCast size .i64 false b).1, int32 (Int64.ofNat (max dims 1))])
    return ptr : Build Value) (intCast size .i64 false b).2 = _
  rw [intCast_intCast]
  rfl

/-- Buffers that are allocated and registered at once can stand anywhere. -/
class Registers (X : Pairing) : Prop where
  registered : ∀ {P : Common X.exact} {size : Value}, X.Plain size → ∀ dims,
    Mirrored X P (registeredMalloc size dims) (Same X.Plain)

theorem Registers.of_allows (hall : ∀ p, X.Allows p) : Registers X where
  registered hsize dims := by
    refine .bind_same (mirrors_callValue .malloc (.of_plain (by simpa using hsize)) rfl (hall _))
      fun _ ptr _ hptr => ?_
    refine .bind_same mirrors_isTracked fun _ _ _ _ => ?_
    refine .ite (fun _ => ?_) fun _ => .pure hptr
    refine .seq (Q := Done) ?_ fun _ _ => .pure hptr
    exact (mirrors_callPrimitive .gcRegister (.of_plain (by simp [hptr, hsize])) (hall _)).discard

theorem malloc_of_allows (hall : ∀ p, X.Allows p) {γ : Requests} {b b' : Builder}
    (hlike : X.Like γ b b') (hsize : X.Plain size) :
    (malloc size b').1 = (malloc size b).1 ∧ X.Plain (malloc size b).1 ∧
      X.Advance γ b b' (malloc size b).2 (malloc size b').2 := by
  have hmalloc : Mirrored X (X.common b b') (malloc size) (Same X.Plain) :=
    (mirrors_intCast hsize _ _).bind_same fun _ _ _ hsize =>
      mirrors_callValue .malloc (.of_plain (by simpa using hsize)) rfl (hall _)
  obtain ⟨hadv, heq, hplain⟩ := hmalloc.run b b' hlike (le_refl _)
  exact ⟨heq, hplain, hadv⟩

theorem mirrors_trackedMalloc [Registers X] (hsize : X.Plain size) {dims : Nat} :
    Mirrored X P (trackedMalloc size dims) (Same X.Plain) := by
  rw [trackedMalloc_eq]
  exact (mirrors_intCast hsize _ _).bind_same fun _ _ _ hsize => Registers.registered hsize dims

theorem mirrors_heapArray [Registers X] {elem : Ty} {count : Value} (hcount : X.Plain count) :
    Mirrored X P (heapArray elem count) (Same X.Plain) := by
  refine .get_bind fun γ b b' hlike _ => ?_
  rw [sizeOf_eq (X.level hlike).structs_eq]
  refine .bind_same (mirrors_intCast hcount _ _) fun _ count _ hcount => ?_
  refine .bind_same (mirrors_arith hcount (Value.plain_int64)) fun _ bytes _ hbytes => ?_
  exact mirrors_trackedMalloc hbytes

theorem mirrors_free (hptr : ptr.Like P ptr') : Mirrors X P (free ptr) (free ptr') Done :=
  (mirrors_callPrimitive .free (.cons hptr .nil) (X.ordinary rfl)).discard

theorem mirrors_untrack (hptr : ptr.Like P ptr') : Mirrors X P (untrack ptr) (untrack ptr') Done :=
  mirrors_ifTracked fun _ hle htracker =>
    (mirrors_callPrimitive .gcUnregister (.cons (hptr.mono hle) .nil) (htracker _ nofun)).discard

theorem mirrors_gcCollect : Mirrored X P gcCollect Done :=
  mirrors_ifTracked fun _ _ htracker => (mirrors_callPrimitive .gcCollect .nil (htracker _ nofun)).discard

theorem mirrors_cleanupAtExit : Mirrored X P cleanupAtExit Done :=
  mirrors_ifTracked fun _ _ _ => .seq (mirrors_declarePrimitive .gcCleanup) fun _ _ =>
    (mirrors_callPrimitive .atexit (.cons (.symbol .gcCleanup) .nil) (X.ordinary rfl)).discard

theorem mirrors_trackedSize (hptr : ptr.Like P ptr') (hp : X.Allows .gcGetSize) :
    Mirrors X P (trackedSize ptr) (trackedSize ptr') (Same X.Plain) :=
  (mirrors_callValue .gcGetSize (.cons hptr .nil) rfl hp).bind_same fun _ _ _ hsize =>
    mirrors_intCast hsize _ _

theorem mirrors_freeRows {rows table table' : Value} (htable : table.Like P table') (hrows : X.Plain rows) :
    Mirrors X P (freeRows table rows) (freeRows table' rows) Done := by
  refine .bind_same (mirrors_intCast hrows _ _) fun P1 rows hle1 hrows => ?_
  have htable := htable.mono hle1
  refine (mirrors_callPrimitive .freePtrArray (.cons htable (.cons hrows.like .nil)) (X.ordinary rfl)).discard.seq
    fun P2 hle2 => ?_
  have htable := htable.mono hle2
  exact (mirrors_untrack htable).seq fun _ hle => mirrors_free (htable.mono hle)

end Build

end Aero.IR

namespace Aero.Lowering.Text

open IR IR.Build

variable {X : Pairing} {P : Common X.exact} {c v a b buffer v' a' b' s s' l l' r r' : Value}

/-! ### Texts -/

theorem mirrors_storeAt (hbuffer : X.Plain buffer) {i : Int64} (hc : X.Plain c) :
    Mirrored X P (storeAt buffer i c) Done :=
  .bind_same (mirrors_gep hbuffer.like (by simp) (fun _ => rfl)) fun _ _ _ hptr =>
    mirrors_store hc.alike hptr.alike

variable [Registers X]

theorem mirrors_formatted {format : String} (hv : X.Plain v) : Mirrored X P (formatted format v) (Same X.Plain) := by
  refine (mirrors_trackedMalloc (Value.plain_int64)).bind_same fun _ buffer _ hbuffer => ?_
  refine .bind mirrors_constString fun _ _ _ _ hformat => ?_
  refine (mirrors_callPrimitive .sprintf (.cons hbuffer.like (.cons hformat.like
    (.cons hv.like .nil))) (X.ordinary rfl)).discard.seq fun _ _ => ?_
  exact Mirrored.pure hbuffer

theorem mirrors_ofChar (hc : X.Plain c) : Mirrored X P (ofChar c) (Same X.Plain) := by
  refine (mirrors_trackedMalloc (Value.plain_int64)).bind_same fun _ buffer _ hbuffer => ?_
  refine .seq (mirrors_store hc.alike hbuffer.alike) fun _ _ => ?_
  refine .bind_same (mirrors_gep hbuffer.like (by simp) (fun _ => rfl)) fun _ stop _ hstop => ?_
  refine .seq (mirrors_store (Value.plain_int8).alike hstop.alike) fun _ _ => ?_
  exact .pure hbuffer

theorem mirrors_ofValue_plain (hv : X.Plain v) : Mirrored X P (ofValue v) X.Alike := by
  unfold ofValue
  split
  · refine .bind mirrors_constString fun _ _ _ _ hyes => ?_
    refine .bind mirrors_constString fun _ _ _ hle hno => ?_
    exact mirrors_select hv (hyes.mono hle) hno
  · exact (mirrors_ofChar hv).alike
  · exact (mirrors_formatted hv).alike
  · exact .alike (.bind_same (mirrors_intCast hv _ _) fun _ _ _ hv => mirrors_formatted hv)
  · exact .alike (.bind_same (mirrors_fpCast hv) fun _ _ _ hv => mirrors_formatted hv)
  · exact .alike (.bind_same (mirrors_fpCast hv) fun _ _ _ hv => mirrors_formatted hv)
  · exact (Mirrored.pure hv).alike

theorem mirrors_ofValue (hv : X.Alike P v v') : Mirrors X P (ofValue v) (ofValue v') X.Alike := by
  obtain ⟨hlike, hfirm⟩ := hv
  cases hlike with
  | plain hv => exact mirrors_ofValue_plain ⟨hv, hfirm⟩
  | symbol p => exact .pure fun _ _ => ⟨.symbol p, hfirm⟩
  | string hn => exact .pure fun _ hle => ⟨.string (hle.strings _ _ hn), hfirm⟩

theorem mirrors_concat (ha : a.Like P a') (hb : b.Like P b') :
    Mirrors X P (concat a b) (concat a' b') (Same X.Plain) := by
  refine (mirrors_strlen ha).bind_same fun P1 lenA hle1 hlenA => ?_
  refine (mirrors_strlen (hb.mono hle1)).bind_same fun P2 lenB hle2 hlenB => ?_
  refine .bind_same (mirrors_arith hlenA hlenB) fun P3 total hle3 htotal => ?_
  refine .bind_same (mirrors_arith htotal (Value.plain_int64)) fun P4 size hle4 hsize => ?_
  refine .bind_same (mirrors_trackedMalloc hsize) fun P5 buffer hle5 hbuffer => ?_
  have hle : P ≤ P5 := le_trans (le_trans (le_trans (le_trans hle1 hle2) hle3) hle4) hle5
  refine (mirrors_callPrimitive .strcpy (.cons hbuffer.like (.cons (ha.mono hle) .nil)) (X.ordinary rfl)).discard.seq
    fun P6 hle6 => ?_
  refine (mirrors_callPrimitive .strcat (.cons hbuffer.like
    (.cons (hb.mono (le_trans hle hle6)) .nil)) (X.ordinary rfl)).discard.seq fun _ _ => ?_
  exact Mirrored.pure hbuffer

theorem mirrors_append (hs : s.Like P s') (hc : X.Plain c) : Mirrors X P (append s c) (append s' c) (Same X.Plain) := by
  refine (mirrors_strlen hs).bind_same fun P1 len hle1 hlen => ?_
  refine .bind_same (mirrors_arith hlen (Value.plain_int64)) fun P2 size hle2 hsize => ?_
  refine .bind_same (mirrors_trackedMalloc hsize) fun P3 buffer hle3 hbuffer => ?_
  have hs := hs.mono (le_trans (le_trans hle1 hle2) hle3)
  refine (mirrors_callPrimitive .strcpy (.cons hbuffer.like (.cons hs .nil)) (X.ordinary rfl)).discard.seq fun _ _ => ?_
  refine .bind_same (mirrors_gep hbuffer.like (by simpa using hlen) (fun _ => rfl)) fun _ last _ hlast => ?_
  refine .seq (mirrors_store hc.alike hlast.alike) fun _ _ => ?_
  refine .bind_same (mirrors_arith hlen (Value.plain_int64)) fun _ stop _ hstop => ?_
  refine .bind_same (mirrors_gep hbuffer.like (by simpa using hstop) (fun _ => rfl)) fun _ stop _ hstop => ?_
  refine .seq (mirrors_store (Value.plain_int8).alike hstop.alike) fun _ _ => ?_
  exact Mirrored.pure hbuffer

theorem mirrors_ofPair (ha : X.Plain a) (hb : X.Plain b) : Mirrored X P (ofPair a b) (Same X.Plain) := by
  refine (mirrors_trackedMalloc (Value.plain_int64)).bind_same fun _ buffer _ hbuffer => ?_
  refine (mirrors_storeAt hbuffer ha).seq fun _ _ => ?_
  refine (mirrors_storeAt hbuffer hb).seq fun _ _ => ?_
  refine (mirrors_storeAt hbuffer (Value.plain_int8)).seq fun _ _ => ?_
  exact .pure hbuffer

theorem mirrors_add (hl : X.Alike P l l') (hr : X.Alike P r r') :
    Mirrors X P (Text.add l r) (Text.add l' r') (Same X.Plain) := by
  rw [add, add, hl.like.ty_eq, hr.like.ty_eq]
  refine .ite (fun hchar => ?_) fun _ => ?_
  · obtain ⟨rfl, hr⟩ := hr.like.plain_of_ty Ty.isChar (Bool.and_eq_true_iff.mp hchar).2 rfl rfl
    exact mirrors_append hl.like hr
  · refine (mirrors_ofValue hl).bind fun P1 l l' hle1 hl => ?_
    refine (mirrors_ofValue (hr.mono hle1)).bind fun P2 r r' hle2 hr => ?_
    exact mirrors_concat (hl.like.mono hle2) hr.like

end Aero.Lowering.Text
