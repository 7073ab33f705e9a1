import Aero.Proofs.Insertion

/-!
What emitting code does. An action emits if at any open site it ends at a later open one; the rules
for its parts give what is known of its result.
-/

open List hiding get modify

open Option hiding get map_map

namespace Aero.IR

variable {t ty target : Ty} {H : Prop} {α β : Type} {p : Primitive} {op : BinaryOp}
  {size obj value ptr lhs rhs v text count table rows : Value} {args vs : List Value} {act : Build α} {f : Function}
  {b : Builder} {tys : List Ty} {s : Signature} {callee : String} {make : Reg → Instr}

/-- At a site, an action only adds code and leaves the block open, and a condition holds of its
result. -/
def Emits (act : Build α) (w : Site H) (Q : α → Site H → Prop) : Prop :=
  w.Open → ∃ a w', act w.builder = (a, w'.builder) ∧ w ≤ w' ∧ w'.Open ∧ Q a w'

/-- An operand can be used, and its type is known. -/
def Site.Val (w : Site H) (v : Value) (ty : Ty) : Prop := w.Has v ∧ (H → v.ty = ty)

def Site.IntVal (w : Site H) (v : Value) : Prop := w.Has v ∧ (H → v.ty.isInt = true)

/-- Nothing is known of the type of what an operand points at. -/
def Site.Untold (w : Site H) (v : Value) : Prop := ∀ ty, w.fn.Addresses w.builder.module v ty

abbrev Site.Vals (w : Site H) : List Value → List Ty → Prop := List.Forall₂ w.Val

namespace Site

variable {e : Effect} {w w' : Site H}

theorem has_of_reg? (h : v.reg? = none) : w.Has v := by
  intro r hr
  rw [h] at hr
  cases hr

theorem Val.mono (h : w.Val v ty) (hle : Grows e w w') : w'.Val v ty := ⟨hle.has h.1, h.2⟩

theorem Addr.mono (h : w.Addr v ty) (hle : Grows e w w') : w'.Addr v ty := hle.addr h

theorem Has.mono (h : w.Has v) (hle : Grows e w w') : w'.Has v := hle.has h

theorem Addr.val (h : w.Addr v ty) : w.Val v .ptr := ⟨h.1, h.2.1⟩

theorem Has.val (h : w.Has v) : w.Val v v.ty := ⟨h, fun _ => rfl⟩

theorem Val.addr (h : w.Val v .ptr) (huntold : w.Untold v) (ty : Ty) : w.Addr v ty :=
  ⟨h.1, h.2, huntold ty⟩

theorem untold_of_reg? (h : v.reg? = none) : w.Untold v := by
  intro ty r hr
  rw [h] at hr
  cases hr

theorem Val.int {bits : Nat} (h : w.Val v (.int bits)) : w.IntVal v := by
  refine ⟨h.1, fun hH => ?_⟩
  rw [h.2 hH]
  rfl

theorem IntVal.mono (h : w.IntVal v) (hle : Grows e w w') : w'.IntVal v := ⟨hle.has h.1, h.2⟩

theorem Vals.has (h : w.Vals vs tys) : ∀ v ∈ vs, w.Has v := by
  induction h with
  | nil => exact nofun
  | cons hval _ ih =>
    intro v hv
    rcases mem_cons.mp hv with rfl | hv
    · exact hval.1
    · exact ih v hv

theorem Vals.types (h : w.Vals vs tys) (hH : H) : vs.map Value.ty = tys := by
  induction h with
  | nil => rfl
  | cons hval _ ih => rw [map_cons, hval.2 hH, ih]

theorem Vals.mono (h : w.Vals vs tys) (hle : Grows e w w') : w'.Vals vs tys :=
  h.imp fun _ _ hval => hval.mono hle

end Site

namespace Emits

variable {w : Site H} {Q R : α → Site H → Prop}

theorem pure {a : α} (h : Q a w) : Emits (Pure.pure a : Build α) w Q :=
  fun hopen => ⟨a, w, rfl, le_refl w, hopen, h⟩

theorem bind {next : α → Build β} {R : β → Site H → Prop} (hact : Emits act w Q)
    (hnext : ∀ a w', w ≤ w' → Q a w' → Emits (next a) w' R) : Emits (act >>= next) w R := by
  intro hopen
  obtain ⟨a, w', hrun, hle, hopen', hQ⟩ := hact hopen
  obtain ⟨b, w'', hrun', hle', hopen'', hR⟩ := hnext a w' hle hQ hopen'
  refine ⟨b, w'', ?_, le_trans hle hle', hopen'', hR⟩
  change next (act w.builder).1 (act w.builder).2 = _
  rw [hrun]
  exact hrun'

theorem mono (h : Emits act w Q) (hQR : ∀ a w', w ≤ w' → Q a w' → R a w') : Emits act w R := by
  intro hopen
  obtain ⟨a, w', hrun, hle, hopen', hQ⟩ := h hopen
  exact ⟨a, w', hrun, hle, hopen', hQR a w' hle hQ⟩

theorem left (h : Emits act w fun a w' => Q a w' ∧ R a w') : Emits act w Q := h.mono fun _ _ _ h => h.1

theorem with_run (h : Emits act w Q) : Emits act w fun a w' => Q a w' ∧ w.Open ∧ act w.builder = (a, w'.builder) := by
  intro hopen
  obtain ⟨a, w', hrun, hle, hopen', hQ⟩ := h hopen
  exact ⟨a, w', hrun, hle, hopen', hQ, hopen, hrun⟩

theorem discarded (h : Emits act w Q) : Emits (Functor.discard act) w fun _ w' => ∃ a, Q a w' := by
  exact h.bind fun a _ _ hQ => .pure ⟨a, hQ⟩

theorem discard (h : Emits act w Q) : Emits (Functor.discard act) w fun _ _ => True :=
  h.discarded.mono fun _ _ _ _ => trivial

end Emits

namespace Build

variable {w : Site H}

theorem emits_get : Emits get w fun b w' => b = w.builder ∧ w = w' :=
  fun hopen => ⟨w.builder, w, rfl, le_refl w, hopen, rfl, rfl⟩

/-! ### Instructions -/

theorem emits_push (i : Instr) (hdst : i.dst? = none) (huses : ∀ v ∈ i.operands, w.Has v)
    (hphi : i.isPhi = false) (htyped : H → i.WellTyped w.builder.module.prototype?)
    (hstores : H → ∀ value ptr, i = .store value ptr → w.fn.Addresses w.builder.module ptr value.ty) :
    Emits (push i) w fun _ _ => True := by
  intro hopen
  have haccepts : w.Accepts i := by
    refine ⟨hopen, ?_, huses, ?_, ?_, htyped, hstores⟩
    · simp [hdst]
    · simp [Instr.incoming_eq_nil hphi]
    · simp [hphi]
  exact ⟨(), w.push i haccepts, w.run_push haccepts hdst, w.push_le haccepts hphi, w.push_isOpen haccepts, trivial⟩

/-- An instruction that writes a register yields it, and its address is of the type that the
instruction shows. -/
theorem emits_emit (ty : Ty) (make : Reg → Instr) (hdst : ∀ r, (make r).dst? = some r)
    (huses : ∀ r, ∀ v ∈ (make r).operands, w.Has v) (hphi : ∀ r, (make r).isPhi = false)
    (htyped : H → ∀ r, (make r).WellTyped w.builder.module.prototype?) :
    Emits (emit ty make) w fun v w' => v.ty = ty ∧ w'.Has v ∧
      ∀ τ, (∀ r found, w.builder.module.slotOf? (make r) = some (r, found) → found = τ) →
        w'.fn.Addresses w'.builder.module v τ := by
  intro hopen
  have haccepts : w.Accepts (make w.fn.nextReg) := by
    refine ⟨hopen, ?_, huses _, ?_, ?_, fun hH => htyped hH _, ?_⟩
    · intro r hr
      rw [hdst] at hr
      exact (some.inj hr).symm
    · simp [Instr.incoming_eq_nil (hphi _)]
    · simp [hphi]
    · intro _ value ptr heq
      have := hdst w.fn.nextReg
      rw [heq] at this
      cases this
  have hle := w.push_le haccepts (hphi _)
  refine ⟨_, _, w.run_emit ty make hdst haccepts, hle, w.push_isOpen haccepts, rfl, ?_, ?_⟩
  · rintro r hr
    cases hr
    exact w.push_writes haccepts (hdst _)
  · rintro τ hτ r hr i hi found hslot
    cases hr
    rcases (Function.mem_push_instrs w.coherent.ids_nodup w.block_mem).mp hi with rfl | hi
    · rw [Module.slotOf?_congr hle.frame.structs_eq] at hslot
      exact hτ _ found hslot
    · have hlt := (w.coherent.dst_range i hi _ (Module.dst?_of_slotOf? hslot)).2
      exact absurd hlt (Nat.lt_irrefl _)

theorem emits_result (hdst : ∀ r, (make r).dst? = some r)
    (huses : ∀ r, ∀ v ∈ (make r).operands, w.Has v) (hphi : ∀ r, (make r).isPhi = false)
    (htyped : H → ∀ r, (make r).WellTyped w.builder.module.prototype?) :
    Emits (emit ty make) w fun v w' => w'.Has v ∧ v.ty = ty :=
  (emits_emit ty make hdst huses hphi htyped).mono fun _ _ _ h => ⟨h.2.1, h.1⟩

theorem emits_alloca : Emits (alloca ty) w fun v w' => w'.Addr v ty := by
  refine (emits_emit .ptr (.alloca · ty) (fun _ => rfl) nofun (fun _ => rfl) (fun _ _ => trivial)).mono ?_
  rintro v w' _ ⟨hty, hhas, haddr⟩
  refine ⟨hhas, fun _ => hty, haddr ty ?_⟩
  rintro r found h
  cases h
  rfl

theorem emits_load (hptr : w.Val ptr .ptr) : Emits (load ty ptr) w fun v w' => w'.Has v ∧ v.ty = ty := by
  refine emits_result (fun _ => rfl) ?_ (fun _ => rfl) (fun hH _ => hptr.2 hH)
  intro _ v hv
  rw [mem_singleton.mp hv]
  exact hptr.1

theorem emits_store (hvalue : w.Val value ty) (hptr : w.Addr ptr ty) : Emits (store value ptr) w fun _ _ => True := by
  refine emits_push (.store value ptr) rfl ?_ rfl (fun hH => hptr.2.1 hH) ?_
  · intro v hv
    rcases mem_cons.mp hv with rfl | hv
    · exact hvalue.1
    · rw [mem_singleton.mp hv]
      exact hptr.1
  · rintro hH _ _ heq
    cases heq
    rw [hvalue.2 hH]
    exact hptr.2.2

/-- An element's address is of the type at the end of the path to it. -/
theorem emits_gep {base : Ty} {indices : List Value} (hptr : w.Val ptr .ptr) (hindices : ∀ i ∈ indices, w.IntVal i)
    (hty : ∀ found, w.builder.module.elementTy? base (indices.drop 1) = some found → found = t) :
    Emits (gep base ptr indices) w fun v w' => w'.Addr v t ∧ v.ty = .ptr := by
  refine (emits_emit .ptr (.gep · base ptr indices) (fun _ => rfl) ?_ (fun _ => rfl)
    (fun hH _ => ⟨hptr.2 hH, fun i hi => (hindices i hi).2 hH⟩)).mono ?_
  · intro _ v hv
    rcases mem_cons.mp hv with rfl | hv
    · exact hptr.1
    · exact (hindices v hv).1
  · rintro v w' _ ⟨hvty, hhas, haddr⟩
    refine ⟨⟨hhas, fun _ => hvty, haddr t ?_⟩, hvty⟩
    intro r found hslot
    obtain ⟨found', hfound, heq⟩ := map_eq_some_iff.mp hslot
    cases heq
    exact hty found hfound

/-! ### Constants -/

theorem has_ofInt (ty : Ty) (n : Int64) : w.Has (.ofInt ty n) := Site.has_of_reg? rfl

theorem val_int32 (n : Int64) : w.Val (int32 n) .i32 := ⟨has_ofInt _ n, fun _ => rfl⟩

theorem val_int64 (n : Int64) : w.Val (int64 n) .i64 := ⟨has_ofInt _ n, fun _ => rfl⟩

theorem val_int8 (n : Int64) : w.Val (int8 n) .i8 := ⟨has_ofInt _ n, fun _ => rfl⟩

theorem val_null : w.Val .null .ptr := ⟨Site.has_of_reg? rfl, fun _ => rfl⟩

theorem val_zero (ty : Ty) : w.Val (zero ty) ty := by
  cases ty <;> exact ⟨Site.has_of_reg? rfl, fun _ => rfl⟩

theorem ofFloat_ty (x : Float) (h : ty.isFp = true) : (Value.ofFloat ty x).ty = ty := by
  cases ty with
  | float => rfl
  | double => rfl
  | _ => cases h

theorem ofFloat_reg? (ty : Ty) (x : Float) : (Value.ofFloat ty x).reg? = none := by
  unfold Value.ofFloat
  split <;> rfl

/-! ### Arithmetic -/

theorem emits_foldOr {τ : Ty} {folded : Option Value} (hfold : ∀ v, folded = some v → w.Val v τ) (hty : H → ty = τ)
    (hdst : ∀ r, (make r).dst? = some r) (huses : ∀ r, ∀ v ∈ (make r).operands, w.Has v)
    (hphi : ∀ r, (make r).isPhi = false) (htyped : H → ∀ r, (make r).WellTyped w.builder.module.prototype?) :
    Emits (foldOr folded ty make) w fun v w' => w'.Val v τ := by
  cases folded with
  | some v => exact .pure (hfold v rfl)
  | none =>
    refine (emits_result hdst huses hphi htyped).mono ?_
    rintro v w' _ ⟨hhas, hvty⟩
    exact ⟨hhas, fun hH => hvty.trans (hty hH)⟩

def BinaryOp.Admits (op : BinaryOp) (ty : Ty) : Prop :=
  (if op.isFloating then ty.isFp else ty.isInt) = true

theorem val_of_foldBinary? (hop : H → BinaryOp.Admits op lhs.ty)
    (h : foldBinary? op lhs rhs = some v) : w.Val v lhs.ty := by
  by_cases hfloat : op.isFloating = true
  · simp only [foldBinary?, hfloat, if_true, bind_eq_bind, bind_eq_some_iff] at h
    obtain ⟨_, _, _, _, x, _, hv⟩ := h
    cases hv
    refine ⟨Site.has_of_reg? (ofFloat_reg? _ x), fun hH => ofFloat_ty x ?_⟩
    simpa [BinaryOp.Admits, hfloat] using hop hH
  · simp only [foldBinary?, hfloat, Bool.false_eq_true, if_false, bind_eq_bind, bind_eq_some_iff] at h
    obtain ⟨_, _, _, _, _, _, n, _, hv⟩ := h
    cases hv
    exact ⟨has_ofInt _ n, fun _ => rfl⟩

theorem has_pair (hlhs : w.Has lhs) (hrhs : w.Has rhs) (hv : v ∈ [lhs, rhs]) : w.Has v := by
  rcases mem_cons.mp hv with rfl | hv
  · exact hlhs
  · rw [mem_singleton.mp hv]
    exact hrhs

theorem emits_binary (hlhs : w.Val lhs ty) (hrhs : w.Val rhs ty)
    (hop : H → BinaryOp.Admits op ty) : Emits (binary op lhs rhs) w fun v w' => w'.Val v ty := by
  refine emits_foldOr ?_ hlhs.2 (fun _ => rfl) (fun _ _ => has_pair hlhs.1 hrhs.1) (fun _ => rfl) ?_
  · intro v hv
    have hval : w.Val v lhs.ty := val_of_foldBinary? (fun hH => (hlhs.2 hH).symm ▸ hop hH) hv
    exact ⟨hval.1, fun hH => (hval.2 hH).trans (hlhs.2 hH)⟩
  · intro hH _
    exact ⟨(hlhs.2 hH).trans (hrhs.2 hH).symm, (hlhs.2 hH).symm ▸ hop hH⟩

theorem emits_arith {floating integral : BinaryOp} (hlhs : w.Val lhs ty)
    (hrhs : w.Val rhs ty) (hty : H → ty.isNumeric = true) (hfloating : floating.isFloating = true)
    (hintegral : integral.isFloating = false) : Emits (arith floating integral lhs rhs) w fun v w' => w'.Val v ty := by
  refine emits_binary hlhs hrhs fun hH => ?_
  rw [hlhs.2 hH]
  have hnumeric := hty hH
  cases hfp : ty.isFp with
  | true => simp [BinaryOp.Admits, hfloating, hfp]
  | false => simpa [BinaryOp.Admits, hintegral, Ty.isNumeric, hfp] using hnumeric

theorem emits_icmp {pred : IntPredicate} (hlhs : w.Has lhs) (hrhs : w.Has rhs)
    (hty : H → lhs.ty = rhs.ty ∧ (lhs.ty.isInt = true ∨ lhs.ty = .ptr ∧ rhs = .null)) :
    Emits (icmp pred lhs rhs) w fun v w' => w'.Val v .i1 := by
  refine emits_foldOr ?_ (fun _ => rfl) (fun _ => rfl) (fun _ _ => has_pair hlhs hrhs)
    (fun _ => rfl) (fun hH _ => hty hH)
  intro v hv
  simp only [foldIcmp?, bind_eq_bind, bind_eq_some_iff] at hv
  obtain ⟨_, _, _, _, hv⟩ := hv
  cases hv
  exact ⟨Site.has_of_reg? rfl, fun _ => rfl⟩

theorem emits_fcmp {pred : FloatPredicate} (hlhs : w.Has lhs) (hrhs : w.Has rhs)
    (hty : H → lhs.ty = rhs.ty ∧ lhs.ty.isFp = true) : Emits (fcmp pred lhs rhs) w fun v w' => w'.Val v .i1 := by
  refine emits_foldOr ?_ (fun _ => rfl) (fun _ => rfl) (fun _ _ => has_pair hlhs hrhs)
    (fun _ => rfl) (fun hH _ => hty hH)
  intro v hv
  simp only [foldFcmp?, bind_eq_bind, bind_eq_some_iff] at hv
  obtain ⟨_, _, _, _, hv⟩ := hv
  cases hv
  exact ⟨Site.has_of_reg? rfl, fun _ => rfl⟩

theorem emits_select {cond onTrue onFalse : Value} (hcond : w.Val cond .i1)
    (htrue : w.Val onTrue t) (hfalse : w.Val onFalse t) :
    Emits (select cond onTrue onFalse) w fun v w' => w'.Val v t := by
  refine emits_foldOr ?_ htrue.2 (fun _ => rfl) ?_ (fun _ => rfl) ?_
  · intro v hv
    obtain ⟨n, _, rfl⟩ := map_eq_some_iff.mp hv
    split
    · exact hfalse
    · exact htrue
  · intro _ v hv
    rcases mem_cons.mp hv with rfl | hv
    · exact hcond.1
    · exact has_pair htrue.1 hfalse.1 hv
  · intro hH _
    exact ⟨hcond.2 hH, (htrue.2 hH).trans (hfalse.2 hH).symm⟩

theorem emits_neg (hvalue : w.Val value ty) (hty : H → ty.isNumeric = true) :
    Emits (neg value) w fun v w' => w'.Val v ty := by
  unfold neg
  split
  · next hfp =>
    refine emits_foldOr ?_ hvalue.2 (fun _ => rfl) ?_ (fun _ => rfl) (fun _ _ => hfp)
    · intro v hv
      obtain ⟨x, _, rfl⟩ := map_eq_some_iff.mp hv
      exact ⟨Site.has_of_reg? rfl, hvalue.2⟩
    · intro _ v hv
      rw [mem_singleton.mp hv]
      exact hvalue.1
  · next hfp =>
    have hzero : w.Val (zero value.ty) ty :=
      ⟨(val_zero value.ty).1, fun hH => ((val_zero (w := w) value.ty).2 hH).trans (hvalue.2 hH)⟩
    refine emits_binary hzero hvalue fun hH => ?_
    have hnumeric := hty hH
    rw [hvalue.2 hH] at hfp
    simpa [BinaryOp.Admits, BinaryOp.isFloating, Ty.isNumeric, hfp] using hnumeric

theorem emits_not (hvalue : w.Val value .i1) : Emits (not value) w fun v w' => w'.Val v .i1 :=
  emits_binary hvalue ⟨has_ofInt _ _, hvalue.2⟩ fun _ => rfl

/-! ### Conversions -/

theorem val_of_foldCast? {op : CastOp} (hty : H → op.Converts value.ty target)
    (h : foldCast? op value target = some v) : w.Val v target := by
  have hfloat : ∀ x, (H → target.isFp = true) → w.Val (.ofFloat target x) target := fun x hfp =>
    ⟨Site.has_of_reg? (ofFloat_reg? _ x), fun hH => ofFloat_ty x (hfp hH)⟩
  cases op with
  | trunc | sext =>
    obtain ⟨n, _, rfl⟩ := map_eq_some_iff.mp h
    exact ⟨has_ofInt _ _, fun _ => rfl⟩
  | zext =>
    simp only [foldCast?, bind_eq_bind, bind_eq_some_iff] at h
    obtain ⟨_, _, _, _, hv⟩ := h
    cases hv
    exact ⟨has_ofInt _ _, fun _ => rfl⟩
  | fptosi =>
    obtain ⟨x, _, rfl⟩ := map_eq_some_iff.mp h
    exact ⟨has_ofInt _ _, fun _ => rfl⟩
  | fptrunc | fpext | sitofp =>
    obtain ⟨x, _, rfl⟩ := map_eq_some_iff.mp h
    refine hfloat _ fun hH => ?_
    cases hsource : value.ty <;> cases target <;> simp_all [CastOp.Converts, Ty.isFp]

theorem emits_cast {op : CastOp} (hvalue : w.Has value) (hty : H → op.Converts value.ty target) :
    Emits (cast op value target) w fun v w' => w'.Val v target := by
  refine emits_foldOr (fun v => val_of_foldCast? hty) (fun _ => rfl) (fun _ => rfl) ?_
    (fun _ => rfl) (fun hH _ => hty hH)
  intro _ v hv
  rw [mem_singleton.mp hv]
  exact hvalue

theorem emits_intCast {signed : Bool} (hint : w.IntVal value) (htarget : target.isInt = true) :
    Emits (intCast value target signed) w fun v w' => w'.Val v target := by
  obtain ⟨hvalue, hty⟩ := hint
  unfold intCast
  split
  · next width wanted hwidth hwanted =>
    cases hsource : value.ty with
    | int bits =>
      rw [hsource] at hwidth
      cases hwidth
      cases target with
      | int goal =>
        cases hwanted
        split
        · next heq => exact .pure ⟨hvalue, fun _ => hsource.trans (heq ▸ rfl)⟩
        · next hne =>
          split
          · next hlt => exact emits_cast hvalue fun _ => hsource.symm ▸ hlt
          · next hge =>
            have hlt : width < wanted := by omega
            split
            · next hsigned =>
              simp only [Bool.and_eq_true, decide_eq_true_eq] at hsigned
              exact emits_cast hvalue fun _ => hsource.symm ▸ ⟨hlt, by omega⟩
            · exact emits_cast hvalue fun _ => hsource.symm ▸ hlt
      | _ => cases hwanted
    | _ =>
      rw [hsource] at hwidth
      cases hwidth
  · next hother =>
    refine .pure ⟨hvalue, fun hH => ?_⟩
    have hsource := hty hH
    cases hs : value.ty <;> rw [hs] at hsource <;> cases hsource
    cases target <;> cases htarget
    exact absurd rfl (hother _ _ (by rw [hs]; rfl))

theorem emits_fpCast (hvalue : w.Has value) (hty : H → value.ty.isFp = true)
    (htarget : target.isFp = true) : Emits (fpCast value target) w fun v w' => w'.Val v target := by
  unfold fpCast
  split
  · next hsource => exact emits_cast hvalue fun _ => hsource.symm ▸ trivial
  · next hsource => exact emits_cast hvalue fun _ => hsource.symm ▸ trivial
  · next goal _ _ hwiden hnarrow =>
    refine .pure ⟨hvalue, fun hH => ?_⟩
    have hsource := hty hH
    cases hs : value.ty <;> rw [hs] at hsource <;> cases hsource <;> cases goal <;> cases htarget
    · rfl
    · exact absurd rfl (hwiden hs)
    · exact absurd rfl (hnarrow hs)
    · rfl

theorem emits_siToFp (hvalue : w.IntVal value) (htarget : target.isFp = true) :
    Emits (siToFp value target) w fun v w' => w'.Val v target := by
  have hwide : ∀ v (w' : Site H), w'.Has v → (H → v.ty.isInt = true ∧ v.ty ≠ .i1) →
      Emits (cast .sitofp v target) w' fun v w' => w'.Val v target := by
    intro v w' hhas hvty
    refine emits_cast hhas fun hH => ?_
    obtain ⟨hint, hne⟩ := hvty hH
    cases hs : v.ty <;> rw [hs] at hint hne <;> cases hint
    exact ⟨htarget, fun heq => hne (heq ▸ rfl)⟩
  unfold siToFp
  split
  · refine (emits_intCast hvalue rfl).bind ?_
    rintro v w' _ ⟨hhas, hvty⟩
    refine hwide v w' hhas fun hH => ?_
    rw [hvty hH]
    exact ⟨rfl, by decide⟩
  · next hbool =>
    refine hwide value w hvalue.1 fun hH => ⟨hvalue.2 hH, fun heq => hbool ?_⟩
    exact decide_eq_true heq

theorem emits_fpToSi (hvalue : w.Has value) (hty : H → value.ty.isFp = true)
    (htarget : target.isInt = true) : Emits (fpToSi value target) w fun v w' => w'.Val v target := by
  cases target <;> cases htarget
  exact emits_cast hvalue hty

/-! ### Declarations and calls -/

theorem emits_note {level : LogLevel} {message : String} :
    Emits (modify (·.note level message)) w fun _ w' => w'.fn = w.fn ∧ w'.block = w.block := by
  have hframe : w.builder.Frame (w.builder.note level message) := { Builder.Frame.refl _ with }
  exact fun hopen => ⟨(), w.rebuild _ hframe w.fn_eq rfl w.sound, rfl,
    w.rebuild_grows hframe w.fn_eq rfl w.sound fun _ _ _ h => h, hopen, rfl, rfl⟩

theorem emits_constString {text : String} : Emits (constString text) w fun v w' =>
    w'.Has v ∧ v.ty = .ptr ∧ w'.fn = w.fn ∧ w'.block = w.block := by
  intro hopen
  unfold constString
  split
  · exact ⟨_, w, rfl, le_refl w, hopen, Site.has_of_reg? rfl, rfl, rfl, rfl⟩
  · next hnone =>
    let name := ".str." ++ toString w.builder.strings.length
    let global : Global := ⟨name, .array .i8 (text.utf8ByteSize + 1), .str text, true⟩
    have hframe : w.builder.Frame { w.builder with
        module := { w.builder.module with globals := w.builder.module.globals ++ [global] }
        strings := w.builder.strings ++ [(text, name)] } :=
      { Builder.Frame.refl w.builder with }
    exact ⟨_, w.rebuild _ hframe w.fn_eq rfl w.sound, rfl,
      w.rebuild_grows hframe w.fn_eq rfl w.sound fun _ _ _ h => h, hopen,
      Site.has_of_reg? rfl, rfl, rfl, rfl⟩

end Build

namespace Builder

def addFn (b : Builder) (f : Function) : Builder :=
  { b with module := { b.module with functions := b.module.functions ++ [f] } }

theorem addFn_module_function? (b : Builder) (f : Function) (name : String) : (b.addFn f).module.function? name =
      (b.module.function? name).or (if f.name = name then some f else none) := by
  rw [Module.function?, addFn, find?_append, find?_singleton]
  simp only [decide_eq_true_eq]
  rfl

theorem addFn_prototype? (b : Builder) (f : Function) (name : String) : (b.addFn f).module.prototype? name =
      (b.module.prototype? name).or (if f.name = name then some f.prototype else none) := by
  rw [Module.prototype?, addFn_module_function?]
  by_cases hname : f.name = name
  · simp [hname, Module.prototype?]
  · simp [hname, Module.prototype?]

theorem addFn_frame (b : Builder) (hblocks : f.blocks = []) : b.Frame (b.addFn f) where
  current_eq := rfl
  structs_eq := rfl
  custom_eq := rfl
  alloc_eq := rfl
  names := by
    rw [addFn, map_append]
    exact prefix_append _ _
  prototypes := fun name s h => by rw [addFn_prototype?, h, some_or]
  others := fun j g _ hg => by
    obtain ⟨hlt, _⟩ := List.getElem?_eq_some_iff.mp hg
    rw [addFn, List.getElem?_append_left hlt, hg]
  added := fun j g _ hle hg => by
    rw [addFn, getElem?_append_right hle, getElem?_singleton] at hg
    split at hg
    · cases hg
      exact hblocks
    · cases hg

theorem addFn_sound (hb : b.module.Sound)
    (hf : ∀ p : Primitive, f.name = p.name → f.prototype = p.signature) : (b.addFn f).module.Sound := by
  intro p s hs
  rw [addFn_prototype?] at hs
  rcases or_eq_some_iff.mp hs with hold | ⟨_, hnew⟩
  · exact hb p s hold
  · split at hnew
    · next hname =>
      cases hnew
      exact hf p hname
    · cases hnew

end Builder

def Builder.Registered (b : Builder) : Prop :=
  ∀ name t, b.custom? name = some t → b.module.struct? name = some ⟨name, t.fields.map (·.2)⟩

theorem Primitive.name_injective {q : Primitive} (h : p.name = q.name) : p = q := by
  revert h
  cases p <;> cases q <;> decide

theorem Primitive.declaration_prototype (p : Primitive) : p.declaration.prototype = p.signature := by
  cases p <;> rfl

namespace Build

variable {w : Site H}

theorem declareFunction_new (h : b.module.prototype? f.name = none) : declareFunction f b = (true, b.addFn f) := by
  have hnone : b.module.function? f.name = none := map_eq_none_iff.mp h
  simp only [declareFunction, hnone]
  rfl

theorem declareFunction_old (h : b.module.prototype? f.name = some s) : declareFunction f b = (false, b) := by
  obtain ⟨g, hg, _⟩ := map_eq_some_iff.mp h
  simp only [declareFunction, hg, isSome_some, if_true]

theorem Site.addFn_fn_eq (w : Site H) (f : Function) : (w.builder.addFn f).module.functions[w.index]? = some w.fn := by
  obtain ⟨hlt, _⟩ := List.getElem?_eq_some_iff.mp w.fn_eq
  rw [Builder.addFn, List.getElem?_append_left hlt, w.fn_eq]

def callOf (callee : String) (args : List Value) (ret : Ty) : Build Value := do
  if ret.isVoid then
    push (.call none callee args .void)
    return .undef .void
  else emit ret fun dst => .call (some dst) callee args ret

theorem call_known (h : b.module.function? callee = some f) (args : List Value) :
    call callee args b = callOf callee args f.ret b := by
  simp only [call, Build.get_bind_run, pure, h]
  rfl

theorem call_unknown (h : b.module.function? callee = none) (args : List Value) :
    call callee args b = callOf callee args .void (b.note .warn ("call to undeclared function @" ++ callee)) := by
  simp only [call, Build.get_bind_run, pure, h]
  rfl

/-- A call of a function with a known prototype yields a value of its return type, of which nothing
else is known. -/
theorem emits_call (hargs : ∀ v ∈ args, w.Has v)
    (hsig : H → w.builder.module.prototype? callee = some s ∧ s.Takes args) :
    Emits (call callee args) w fun v w' => w'.Val v s.ret ∧ w'.Untold v := by
  have hrest : ∀ ret w', w ≤ w' → (H → ret = s.ret) →
      Emits (callOf callee args ret) w' fun v w' => w'.Val v s.ret ∧ w'.Untold v := by
    intro ret w' hle hret
    have hargs' : ∀ v ∈ args, w'.Has v := fun v hv => (hargs v hv).mono hle
    have hproto : H → w'.builder.module.prototype? callee = some s := fun hH =>
      hle.frame.prototypes callee s (hsig hH).1
    unfold callOf
    split
    · next hvoid =>
      have hvoid' : ret = .void := of_decide_eq_true hvoid
      subst hvoid'
      refine (emits_push (.call none callee args .void) rfl hargs' rfl ?_ ?_).bind ?_
      · exact fun hH => ⟨s, hproto hH, (hsig hH).2, (hret hH).symm, by simp⟩
      · intro _ _ _ heq
        cases heq
      · intro _ _ _ _
        exact .pure ⟨⟨Site.has_of_reg? rfl, hret⟩, Site.untold_of_reg? rfl⟩
    · next hvoid =>
      have hvoid' : ret ≠ .void := fun heq => hvoid (decide_eq_true heq)
      refine (emits_emit ret (fun dst => .call (some dst) callee args ret) (fun _ => rfl)
        (fun _ => hargs') (fun _ => rfl) ?_).mono ?_
      · exact fun hH _ => ⟨s, hproto hH, (hsig hH).2, (hret hH).symm, by simp [hvoid']⟩
      · rintro v w'' _ ⟨hty, hhas, haddr⟩
        exact ⟨⟨hhas, fun hH => hty.trans (hret hH)⟩, fun ty => haddr ty nofun⟩
  refine emits_get.bind ?_
  rintro _ _ _ ⟨rfl, rfl⟩
  split
  · next f hf =>
    refine hrest f.ret w (le_refl w) fun hH => ?_
    have hproto := (hsig hH).1
    rw [Module.prototype?, hf] at hproto
    cases hproto
    rfl
  · next hf =>
    -- A callee that is not there is only noted.
    refine emits_note.bind fun _ w' hle _ => ?_
    refine hrest .void w' hle fun hH => ?_
    have hproto := (hsig hH).1
    rw [Module.prototype?, hf] at hproto
    cases hproto

theorem emits_declarePrimitive : Emits (declarePrimitive p) w fun _ w' =>
    w'.fn = w.fn ∧ w'.block = w.block ∧ (H → w'.builder.module.prototype? p.name = some p.signature) := by
  intro hopen
  cases hproto : w.builder.module.prototype? p.name with
  | some s =>
    refine ⟨(), w, ?_, le_refl w, hopen, rfl, rfl, fun hH => ?_⟩
    · change ((), (declareFunction p.declaration w.builder).2) = _
      rw [declareFunction_old (f := p.declaration) hproto]
    · rw [hproto, w.sound hH p s hproto]
  | none =>
    have hframe := w.builder.addFn_frame (f := p.declaration) rfl
    have hsound : H → (w.builder.addFn p.declaration).module.Sound := by
      refine fun hH => Builder.addFn_sound (w.sound hH) fun q hname => ?_
      rw [Primitive.name_injective (show p.name = q.name from hname), Primitive.declaration_prototype]
    refine ⟨(), w.rebuild _ hframe (Site.addFn_fn_eq w _) rfl hsound, ?_,
      w.rebuild_grows hframe (Site.addFn_fn_eq w _) rfl hsound ?_, hopen, rfl, rfl, fun _ => ?_⟩
    · change ((), (declareFunction p.declaration w.builder).2) = _
      rw [declareFunction_new (f := p.declaration) hproto]
      rfl
    · intro _ name hname hnone
      rw [Builder.addFn_prototype?, hnone]
      exact if_neg (hname p)
    · change (w.builder.addFn p.declaration).module.prototype? p.name = _
      rw [Builder.addFn_prototype?, hproto, none_or,
        if_pos (show p.declaration.name = p.name from rfl), Primitive.declaration_prototype]

/-- A primitive that is passed what it takes, and perhaps more if it is variadic. -/
theorem emits_callVariadic {more : List Ty} (hargs : w.Vals args (p.signature.params ++ more))
    (hmore : p.signature.variadic = false → more = []) :
    Emits (callPrimitive p args) w fun v w' => w'.Val v p.signature.ret ∧ w'.Untold v := by
  refine emits_declarePrimitive.bind ?_
  rintro _ w' hle ⟨_, _, hproto⟩
  have hargs' := hargs.mono hle
  refine emits_call hargs'.has fun hH => ⟨hproto hH, ?_, fun hvariadic => ?_⟩
  · rw [hargs'.types hH]
    exact prefix_append _ _
  · rw [← length_map Value.ty, hargs'.types hH, hmore hvariadic, append_nil]

theorem emits_callPrimitive (hargs : w.Vals args p.signature.params) :
    Emits (callPrimitive p args) w fun v w' => w'.Val v p.signature.ret := by
  refine (emits_callVariadic ?_ fun _ => rfl).left
  rwa [append_nil]

theorem emits_printf {format : String} (hargs : w.Vals args tys) :
    Emits (printf format args) w fun v w' => w'.Val v .i32 := by
  refine emits_constString.bind ?_
  rintro text w' hle ⟨hhas, hty, _⟩
  have hall : w'.Vals (text :: args) (Primitive.printf.signature.params ++ tys) :=
    .cons ⟨hhas, fun _ => hty⟩ (hargs.mono hle)
  exact (emits_callVariadic hall nofun).left

theorem emits_strlen (htext : w.Val text .ptr) : Emits (strlen text) w fun v w' => w'.Val v .i64 :=
  emits_callPrimitive (.cons htext .nil)

theorem emits_inlineAsm {code constraints : String} {sideEffects : Bool} (hargs : ∀ v ∈ args, w.Has v) :
    Emits (inlineAsm code constraints args sideEffects) w fun _ _ => True :=
  emits_push (.inlineAsm code constraints args sideEffects) rfl hargs rfl (fun _ => trivial) nofun

/-! ### Buffers -/

theorem emits_isTracked : Emits isTracked w fun _ w' => w = w' :=
  fun hopen => ⟨_, w, rfl, le_refl w, hopen, rfl⟩

theorem emits_malloc (hsize : w.IntVal size) : Emits (malloc size) w fun v w' => ∀ ty, w'.Addr v ty := by
  refine (emits_intCast hsize rfl).bind ?_
  intro size w' _ hsize
  have hargs : w'.Vals [size] (Primitive.malloc.signature.params ++ []) := .cons hsize .nil
  exact (emits_callVariadic hargs fun _ => rfl).mono fun _ _ _ h => h.1.addr h.2

theorem emits_trackedMalloc {dims : Nat} (hsize : w.IntVal size) :
    Emits (trackedMalloc size dims) w fun v w' => ∀ ty, w'.Addr v ty := by
  refine (emits_intCast hsize rfl).bind ?_
  intro size w1 _ hsize
  refine (emits_malloc hsize.int).bind ?_
  intro ptr w2 hle hptr
  refine emits_isTracked.bind ?_
  rintro tracked _ _ rfl
  split
  · refine (emits_callPrimitive
      (.cons (hptr .void).val (.cons (hsize.mono hle) (.cons (val_int32 _) .nil)))).discard.bind ?_
    intro _ w3 hle _
    exact .pure fun ty => (hptr ty).mono hle
  · exact .pure hptr

theorem emits_heapArray {elem : Ty} (hcount : w.IntVal count) :
    Emits (heapArray elem count) w fun v w' => ∀ ty, w'.Addr v ty := by
  refine emits_get.bind ?_
  rintro _ _ _ ⟨rfl, rfl⟩
  refine (emits_intCast hcount rfl).bind ?_
  intro count w1 _ hcount
  refine (emits_arith hcount (val_int64 _) (fun _ => rfl) rfl rfl).bind ?_
  intro bytes w2 _ hbytes
  exact emits_trackedMalloc hbytes.int

theorem emits_free (hptr : w.Val ptr .ptr) : Emits (free ptr) w fun _ _ => True :=
  (emits_callPrimitive (.cons hptr .nil)).discard

theorem emits_ifTracked {act : Build Unit} (hact : Emits act w fun _ _ => True) :
    Emits (do if ← isTracked then act) w fun _ _ => True := by
  refine emits_isTracked.bind ?_
  rintro tracked _ _ rfl
  split
  · exact hact
  · exact .pure trivial

theorem emits_untrack (hptr : w.Val ptr .ptr) : Emits (untrack ptr) w fun _ _ => True :=
  emits_ifTracked (emits_callPrimitive (.cons hptr .nil)).discard

theorem emits_gcCollect : Emits gcCollect w fun _ _ => True :=
  emits_ifTracked (emits_callPrimitive .nil).discard

theorem emits_cleanupAtExit : Emits cleanupAtExit w fun _ _ => True := by
  refine emits_ifTracked (emits_declarePrimitive.bind ?_)
  intro _ w' _ _
  exact (emits_callPrimitive (.cons ⟨Site.has_of_reg? rfl, fun _ => rfl⟩ .nil)).discard

theorem emits_freeRows (htable : w.Val table .ptr) (hrows : w.IntVal rows) :
    Emits (freeRows table rows) w fun _ _ => True := by
  refine (emits_intCast hrows rfl).bind ?_
  intro rows w1 hle1 hrows
  refine (emits_callPrimitive (.cons (htable.mono hle1) (.cons hrows .nil))).discard.bind ?_
  intro _ w2 hle2 _
  refine (emits_untrack ((htable.mono hle1).mono hle2)).bind ?_
  intro _ w3 hle3 _
  exact emits_free (((htable.mono hle1).mono hle2).mono hle3)

/-! ### Custom types -/

theorem elementTy?_of_field? {m : Module} {t : CustomType} {name field : String} {i : Nat}
    {found : Ty} (hstruct : m.struct? name = some ⟨name, t.fields.map (·.2)⟩) (hfield : t.field? field = some (i, ty))
    (hfound : m.elementTy? (.struct name) [int32 (Int64.ofNat i)] = some found) : found = ty := by
  simp only [CustomType.field?, bind_eq_bind, bind_eq_some_iff] at hfield
  obtain ⟨⟨_, position⟩, _, ⟨_, ty'⟩, hget, heq⟩ := hfield
  cases heq
  have hlt : position % UInt32.size < UInt32.size := Nat.mod_lt _ (by decide)
  simp only [Module.elementTy?, int32, Value.ofInt, Value.int?, Ty.width?, getD_some,
    bind_eq_bind, bind_some, hstruct] at hfound
  split at hfound
  · cases hfound
  · next hpos =>
    rw [normalize_ofNat hlt hpos, getElem?_map, hget] at hfound
    exact (some.inj hfound).symm

theorem emits_fieldPtr {struct field : String} (hcustom : w.builder.Registered) (hobj : w.Val obj .ptr) :
    Emits (fieldPtr struct obj field) w fun r w' => ∀ ptr ty, r = some (ptr, ty) → w'.Addr ptr ty := by
  refine emits_get.bind ?_
  rintro _ _ _ ⟨rfl, rfl⟩
  split
  · next i ty hfound =>
    obtain ⟨t, ht, hfield⟩ := bind_eq_some_iff.mp hfound
    refine (emits_gep (t := ty) hobj ?_ fun found => ?_).bind ?_
    · intro index hindex
      rcases mem_cons.mp hindex with rfl | hindex
      · exact (val_int32 _).int
      · rw [mem_singleton.mp hindex]
        exact (val_int32 _).int
    · exact elementTy?_of_field? (hcustom struct t ht) hfield
    · rintro ptr w' _ ⟨haddr, _⟩
      refine .pure ?_
      rintro _ _ heq
      cases heq
      exact haddr
  · refine .pure ?_
    rintro _ _ heq
    cases heq

theorem emits_methodCall {struct method : String} (hargs : ∀ v ∈ obj :: args, w.Has v)
    (hsig : H → ∀ symbol, (w.builder.custom? struct).bind (·.method? method) = some symbol →
      w.builder.module.prototype? symbol = some s ∧ s.Takes (obj :: args)) :
    Emits (methodCall struct method obj args) w fun r w' => ∀ v, r = some v → w'.Val v s.ret := by
  refine emits_get.bind ?_
  rintro _ _ _ ⟨rfl, rfl⟩
  split
  · next symbol hfound =>
    refine (emits_call hargs fun hH => hsig hH symbol hfound).bind ?_
    rintro v w' _ ⟨hv, _⟩
    refine .pure ?_
    rintro _ heq
    cases heq
    exact hv
  · refine .pure ?_
    rintro _ heq
    cases heq

end Build

end Aero.IR
