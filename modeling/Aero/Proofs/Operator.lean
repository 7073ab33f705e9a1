import Aero.Lowering.Arithmetic
import Aero.Proofs.Body

/-!
Strings, conversions and operators. Every operation that makes a text yields an address, a value that is brought to a
type has that type, and operators are only applied to operands of a common type that suits them.
-/

namespace Aero.Lowering.Text

open IR IR.Build

variable {H : Prop} {w : Site H} {value c buffer : Value}

theorem emits_formatted {format : String} (hvalue : w.Has value) :
    Emits (formatted format value) w fun v w' => w'.Val v .ptr := by
  refine (emits_trackedMalloc (val_int64 _).int).bind ?_
  intro buffer w1 hle1 hbuffer
  refine emits_constString.bind ?_
  rintro format w2 hle2 ⟨hhas, hty, _⟩
  have hvalue := (hvalue.mono hle1).mono hle2
  have hargs : w2.Vals [buffer, format, value] (Primitive.sprintf.signature.params ++ [value.ty]) :=
    .cons ((hbuffer .void).mono hle2).val (.cons ⟨hhas, fun _ => hty⟩ (.cons hvalue.val .nil))
  refine (emits_callVariadic hargs nofun).discard.bind ?_
  intro _ w3 hle3 _
  exact .pure (((hbuffer .void).mono hle2).mono hle3).val

theorem emits_byte {index : Value} (hbuffer : w.Val buffer .ptr) (hindex : w.IntVal index) :
    Emits (gep .i8 buffer [index]) w fun v w' => w'.Addr v .i8 := by
  refine (emits_gep hbuffer ?_ ?_).left
  · intro i hi
    rw [List.mem_singleton.mp hi]
    exact hindex
  · intro found hfound
    exact (Option.some.inj hfound).symm

theorem emits_ofChar (hc : w.Val c .i8) : Emits (ofChar c) w fun v w' => w'.Val v .ptr := by
  refine (emits_trackedMalloc (val_int64 _).int).bind ?_
  intro buffer w1 hle1 hbuffer
  refine (emits_store (hc.mono hle1) (hbuffer .i8)).bind ?_
  intro _ w2 hle2 _
  have hbuffer := ((hbuffer .i8).mono hle2).val
  refine (emits_byte hbuffer (val_int32 _).int).bind ?_
  intro stop w3 hle3 hstop
  refine (emits_store (val_int8 0) hstop).bind ?_
  intro _ w4 hle4 _
  exact .pure ((hbuffer.mono hle3).mono hle4)

def IsText (ty : Ty) : Prop := ty.isInt = true ∨ ty.isFp = true ∨ ty = .ptr

theorem emits_ofValue (hvalue : w.Has value) (hty : H → IsText value.ty) :
    Emits (ofValue value) w fun v w' => w'.Val v .ptr := by
  unfold ofValue
  split
  · next hbool =>
    refine emits_constString.bind ?_
    rintro yes w1 hle1 ⟨hyes, hyesTy, _⟩
    refine emits_constString.bind ?_
    rintro no w2 hle2 ⟨hno, hnoTy, _⟩
    exact emits_select ⟨(hvalue.mono hle1).mono hle2, fun _ => hbool⟩
      ⟨hyes.mono hle2, fun _ => hyesTy⟩ ⟨hno, fun _ => hnoTy⟩
  · next hchar => exact emits_ofChar ⟨hvalue, fun _ => hchar⟩
  · exact emits_formatted hvalue
  · next hint =>
    refine (emits_intCast ⟨hvalue, fun _ => by rw [hint]; rfl⟩ rfl).bind ?_
    intro v w' _ hv
    exact emits_formatted hv.1
  · next hfloat =>
    refine (emits_fpCast hvalue (fun _ => by rw [hfloat]; rfl) rfl).bind ?_
    intro v w' _ hv
    exact emits_formatted hv.1
  · next hdouble =>
    refine (emits_fpCast hvalue (fun _ => by rw [hdouble]; rfl) rfl).bind ?_
    intro v w' _ hv
    exact emits_formatted hv.1
  · next hnotInt hfloat hdouble =>
    refine .pure ⟨hvalue, fun hH => ?_⟩
    rcases hty hH with h | h | h
    · cases hs : value.ty <;> rw [hs] at h <;> cases h
      exact absurd hs (hnotInt _)
    · cases hs : value.ty <;> rw [hs] at h <;> cases h
      · exact absurd hs hfloat
      · exact absurd hs hdouble
    · exact h

theorem emits_concat {a b : Value} (ha : w.Val a .ptr) (hb : w.Val b .ptr) :
    Emits (concat a b) w fun v w' => w'.Val v .ptr := by
  refine (emits_strlen ha).bind ?_
  intro lenA w1 hle1 hlenA
  have ha := ha.mono hle1
  have hb := hb.mono hle1
  refine (emits_strlen hb).bind ?_
  intro lenB w2 hle2 hlenB
  have ha := ha.mono hle2
  have hb := hb.mono hle2
  refine (emits_arith (hlenA.mono hle2) hlenB (fun _ => rfl) rfl rfl).bind ?_
  intro total w3 hle3 htotal
  refine (emits_arith htotal (val_int64 1) (fun _ => rfl) rfl rfl).bind ?_
  intro size w4 hle4 hsize
  refine (emits_trackedMalloc hsize.int).bind ?_
  intro buffer w5 hle5 hbuffer
  have ha := ((ha.mono hle3).mono hle4).mono hle5
  have hb := ((hb.mono hle3).mono hle4).mono hle5
  have hbuffer := (hbuffer .void).val
  refine (emits_callPrimitive (.cons hbuffer (.cons ha .nil))).discard.bind ?_
  intro _ w6 hle6 _
  have hbuffer := hbuffer.mono hle6
  refine (emits_callPrimitive (.cons hbuffer (.cons (hb.mono hle6) .nil))).discard.bind ?_
  intro _ w7 hle7 _
  exact .pure (hbuffer.mono hle7)

theorem emits_append {s : Value} (hs : w.Val s .ptr) (hc : w.Val c .i8) :
    Emits (append s c) w fun v w' => w'.Val v .ptr := by
  refine (emits_strlen hs).bind ?_
  intro len w1 hle1 hlen
  refine (emits_arith hlen (val_int64 2) (fun _ => rfl) rfl rfl).bind ?_
  intro size w2 hle2 hsize
  refine (emits_trackedMalloc hsize.int).bind ?_
  intro buffer w3 hle3 hbuffer
  have hs := ((hs.mono hle1).mono hle2).mono hle3
  have hc := ((hc.mono hle1).mono hle2).mono hle3
  have hlen := (hlen.mono hle2).mono hle3
  have hbuffer := (hbuffer .void).val
  refine (emits_callPrimitive (.cons hbuffer (.cons hs .nil))).discard.bind ?_
  intro _ w4 hle4 _
  have hlen := hlen.mono hle4
  have hbuffer := hbuffer.mono hle4
  refine (emits_byte hbuffer hlen.int).bind ?_
  intro last w5 hle5 hlast
  refine (emits_store ((hc.mono hle4).mono hle5) hlast).bind ?_
  intro _ w6 hle6 _
  refine (emits_arith ((hlen.mono hle5).mono hle6) (val_int64 1) (fun _ => rfl) rfl rfl).bind ?_
  intro stop w7 hle7 hstop
  have hbuffer := ((hbuffer.mono hle5).mono hle6).mono hle7
  refine (emits_byte hbuffer hstop.int).bind ?_
  intro stop w8 hle8 hstop
  refine (emits_store (val_int8 0) hstop).bind ?_
  intro _ w9 hle9 _
  exact .pure ((hbuffer.mono hle8).mono hle9)

theorem emits_storeAt {i : Int64} (hbuffer : w.Val buffer .ptr)
    (hc : w.Val c .i8) : Emits (storeAt buffer i c) w fun _ _ => True := by
  refine (emits_byte hbuffer (val_int32 _).int).bind ?_
  intro ptr w' hle hptr
  exact emits_store (hc.mono hle) hptr

theorem emits_ofPair {a b : Value} (ha : w.Val a .i8) (hb : w.Val b .i8) :
    Emits (ofPair a b) w fun v w' => w'.Val v .ptr := by
  refine (emits_trackedMalloc (val_int64 _).int).bind ?_
  intro buffer w1 hle1 hbuffer
  have hbuffer := (hbuffer .void).val
  refine (emits_storeAt hbuffer (ha.mono hle1)).bind ?_
  intro _ w2 hle2 _
  have hbuffer := hbuffer.mono hle2
  refine (emits_storeAt hbuffer ((hb.mono hle1).mono hle2)).bind ?_
  intro _ w3 hle3 _
  have hbuffer := hbuffer.mono hle3
  refine (emits_storeAt hbuffer (val_int8 0)).bind ?_
  intro _ w4 hle4 _
  exact .pure (hbuffer.mono hle4)

theorem emits_add {l r : Value} (hl : w.Has l) (hr : w.Has r)
    (hty : H → IsText l.ty ∧ IsText r.ty) : Emits (add l r) w fun v w' => w'.Val v .ptr := by
  unfold add
  split
  · next hkinds =>
    simp only [Bool.and_eq_true, Ty.isPtr, Ty.isChar, decide_eq_true_eq] at hkinds
    exact emits_append ⟨hl, fun _ => hkinds.1⟩ ⟨hr, fun _ => hkinds.2⟩
  · refine (emits_ofValue hl fun hH => (hty hH).1).bind ?_
    intro l w1 hle1 hl
    refine (emits_ofValue (hr.mono hle1) fun hH => (hty hH).2).bind ?_
    intro r w2 hle2 hr
    exact emits_concat (hl.mono hle2) hr

end Aero.Lowering.Text

/-! ### Conversions and operators -/

namespace Aero.Lowering

open IR IR.Build

variable {H : Prop} {env : Env} {s : State} {w : Site H} {instr : BinaryOp} {place : PlaceRef} {v l r value : Value}
  {span : Span} {target ty a b ret : Ty} {op : BinOp}

theorem emits_isNonzero (hvalue : w.Has value) (hty : H → value.ty.isInt = true ∨ value.ty = .ptr) :
    Emits (isNonzero value) w fun v w' => w'.Val v .i1 := by
  refine emits_icmp hvalue (val_zero value.ty).1 fun hH => ⟨((val_zero (w := w) _).2 hH).symm, ?_⟩
  refine (hty hH).imp_right fun hptr => ⟨hptr, ?_⟩
  rw [hptr]
  rfl

theorem emits_isNonzeroFloat (hvalue : w.Has value) (hty : H → value.ty.isFp = true) :
    Emits (isNonzeroFloat value) w fun v w' => w'.Val v .i1 :=
  emits_fcmp hvalue (val_zero value.ty).1 fun hH => ⟨((val_zero (w := w) _).2 hH).symm, hty hH⟩

theorem emits_floatOfText (hvalue : w.Val value .ptr) (htarget : target.isFp = true) :
    Emits (floatOfText value target) w fun v w' => w'.Val v target := by
  refine (emits_callPrimitive (.cons hvalue (.cons val_null .nil))).bind ?_
  intro x w' _ hx
  exact emits_fpCast hx.1 (fun hH => by rw [hx.2 hH]; rfl) htarget

theorem lowers_numberText (hvalue : w.Has value) (hnumber : value.ty.isNumeric = true) :
    Lowers env (liftM (Text.ofValue value)) s w fun v w' => w'.Val v .ptr :=
  .lift (Text.emits_ofValue hvalue fun _ => (Bool.or_eq_true _ _ ▸ hnumber).imp_right .inl)

theorem lowers_coerce {context : Coercion} (hvalue : w.Has value) :
    Lowers env (coerce value target context span) s w fun v w' => w'.Val v target := by
  unfold coerce
  split
  · next heq => exact .pure ⟨hvalue, fun _ => heq⟩
  · next hne =>
    split
    · next hint => exact .lift (emits_isNonzero hvalue fun _ => .inl (by rw [hint]; rfl))
    · next hptr => exact .lift (emits_isNonzero hvalue fun _ => .inr hptr)
    · next hfp => exact .lift (emits_isNonzeroFloat hvalue fun _ => by rw [hfp]; rfl)
    · next hfp => exact .lift (emits_isNonzeroFloat hvalue fun _ => by rw [hfp]; rfl)
    · next hint => exact .lift (emits_intCast ⟨hvalue, fun _ => by rw [hint]; rfl⟩ rfl)
    · next hint => exact .lift (emits_siToFp ⟨hvalue, fun _ => by rw [hint]; rfl⟩ rfl)
    · next hint => exact .lift (emits_siToFp ⟨hvalue, fun _ => by rw [hint]; rfl⟩ rfl)
    · next hfp => exact .lift (emits_fpToSi hvalue (fun _ => by rw [hfp]; rfl) rfl)
    · next hfp => exact .lift (emits_fpToSi hvalue (fun _ => by rw [hfp]; rfl) rfl)
    · next hfp => exact .lift (emits_fpCast hvalue (fun _ => by rw [hfp]; rfl) rfl)
    · next hfp => exact .lift (emits_fpCast hvalue (fun _ => by rw [hfp]; rfl) rfl)
    · next hptr =>
      refine (Lowers.lift (emits_callPrimitive (.cons ⟨hvalue, fun _ => hptr⟩ .nil))).bind ?_
      intro n s' w' _ _ hn
      exact .lift (emits_intCast hn.int rfl)
    · next hptr => exact .lift (emits_floatOfText ⟨hvalue, fun _ => hptr⟩ rfl)
    · next hptr => exact .lift (emits_floatOfText ⟨hvalue, fun _ => hptr⟩ rfl)
    · next hint => exact lowers_numberText hvalue (by rw [hint]; rfl)
    · next hfp => exact lowers_numberText hvalue (by rw [hfp]; rfl)
    · next hfp => exact lowers_numberText hvalue (by rw [hfp]; rfl)
    · exact .fail

theorem lowers_toBool (span : Span) (hvalue : w.Has value) :
    Lowers env (toBool value span) s w fun v w' => w'.Val v .i1 := by
  unfold toBool
  split
  · next hbool => exact .pure ⟨hvalue, fun _ => hbool⟩
  · next hint => exact .lift (emits_isNonzero hvalue fun _ => .inl (by rw [hint]; rfl))
  · next hptr => exact .lift (emits_isNonzero hvalue fun _ => .inr hptr)
  · next hfp => exact .lift (emits_isNonzeroFloat hvalue fun _ => by rw [hfp]; rfl)
  · next hfp => exact .lift (emits_isNonzeroFloat hvalue fun _ => by rw [hfp]; rfl)
  · exact .fail

/-- The common type of two operands is numeric, and floating only if one of them is. -/
theorem promoted?_isNumeric (h : promoted? a b = some ty) :
    ty.isNumeric = true ∧ (a.isFp = false → b.isFp = false → ty.isInt = true) := by
  unfold promoted? at h
  split at h
  · next hdouble =>
    split at h <;> cases h
    refine ⟨rfl, fun ha hb => ?_⟩
    simp only [Bool.or_eq_true, decide_eq_true_eq] at hdouble
    rcases hdouble with rfl | rfl
    · cases ha
    · cases hb
  · split at h
    · next hfloat =>
      split at h <;> cases h
      refine ⟨rfl, fun ha hb => ?_⟩
      simp only [Bool.or_eq_true, decide_eq_true_eq] at hfloat
      rcases hfloat with rfl | rfl
      · cases ha
      · cases hb
    · split at h <;> cases h
      exact ⟨rfl, fun _ _ => rfl⟩

theorem lowers_promotePair {lhs rhs : Value} (hlhs : w.Has lhs) (hrhs : w.Has rhs) :
    Lowers env (promotePair lhs rhs span) s w fun p w' =>
      ∃ ty, promoted? lhs.ty rhs.ty = some ty ∧ w'.Val p.1 ty ∧ w'.Val p.2 ty := by
  unfold promotePair
  split
  · exact .fail
  · next ty hty =>
    refine (lowers_coerce hlhs).bind ?_
    intro l s1 w1 hle1 _ hl
    refine (lowers_coerce (hrhs.mono hle1)).bind ?_
    intro r s2 w2 hle2 _ hr
    exact .pure ⟨ty, hty, hl.mono hle2, hr⟩

theorem lowers_castValue (hvalue : w.Has value) :
    Lowers env (castValue value target span) s w fun v w' => w'.Val v target := by
  unfold castValue
  split
  · exact lowers_toBool span hvalue
  · next hchar => exact .lift (Text.emits_ofChar ⟨hvalue, fun _ => hchar⟩)
  · next hint => exact lowers_numberText hvalue (by rw [hint]; rfl)
  · next hfp => exact lowers_numberText hvalue (by rw [hfp]; rfl)
  · next hfp => exact lowers_numberText hvalue (by rw [hfp]; rfl)
  · next hptr =>
    refine (Lowers.lift (emits_load ⟨hvalue, fun _ => hptr⟩)).bind ?_
    rintro c s' w' _ _ ⟨hc, hcty⟩
    exact .lift (emits_intCast ⟨hc, fun _ => by rw [hcty]; rfl⟩ rfl)
  · next hptr => exact .lift (emits_floatOfText ⟨hvalue, fun _ => hptr⟩ rfl)
  · next hptr => exact .lift (emits_floatOfText ⟨hvalue, fun _ => hptr⟩ rfl)
  iterate 7 exact lowers_coerce hvalue
  · exact .fail

theorem lowers_cast {operand : Lower Value} {target : Spanned String}
    (hoperand : Lowers env operand s w fun v w' => w'.Has v) :
    Lowers env (cast target operand span) s w fun v w' => w'.Has v := by
  unfold cast
  split
  · exact .fail
  · refine hoperand.bind ?_
    intro v s' w' _ _ hv
    split
    · refine lowers_warn.bind ?_
      intro _ s'' w'' hle _ _
      exact .pure (hv.mono hle)
    · exact (lowers_castValue hv).mono fun _ _ _ h => h.1

theorem lowers_coerceReturn (hvalue : w.Has value) :
    Lowers env (coerceReturn value ret span) s w fun v w' => w'.Val v ret := by
  unfold coerceReturn
  split
  · exact .fail
  · exact lowers_coerce hvalue

/-! ### Operators -/

theorem lowers_arithmetic {op : Value → Value → Build Value} (hl : w.Has l) (hr : w.Has r)
    (hop : ∀ (w' : Site H) (l' r' : Value) (ty : Ty), promoted? l.ty r.ty = some ty →
      w'.Val l' ty → w'.Val r' ty → Emits (op l' r') w' fun v w'' => w''.Val v ty) :
    Lowers env (arithmetic op l r span) s w fun v w' => w'.Has v := by
  refine (lowers_promotePair hl hr).bind ?_
  rintro ⟨l', r'⟩ s' w' _ _ ⟨ty, hty, hl', hr'⟩
  exact .lift (hop w' l' r' ty hty hl' hr').left

theorem lowers_arith {floating integral : BinaryOp} (hl : w.Has l) (hr : w.Has r)
    (hfloating : floating.isFloating = true) (hintegral : integral.isFloating = false) :
    Lowers env (arithmetic (arith floating integral) l r span) s w fun v w' => w'.Has v :=
  lowers_arithmetic hl hr fun _ _ _ _ hty hl' hr' =>
    emits_arith hl' hr' (fun _ => (promoted?_isNumeric hty).1) hfloating hintegral

theorem isPtr_iff : ty.isPtr = true ↔ ty = .ptr := by simp [Ty.isPtr]

theorem lowers_compare (hl : w.Has l) (hr : w.Has r) : Lowers env (compare op l r span) s w fun v w' => w'.Has v := by
  refine .ite (fun htexts => ?_) fun _ => .otherwise fun _ => ?_
  · rw [Bool.and_eq_true, isPtr_iff, isPtr_iff] at htexts
    refine (Lowers.lift (emits_callPrimitive
      (.cons ⟨hl, fun _ => htexts.1⟩ (.cons ⟨hr, fun _ => htexts.2⟩ .nil)))).bind ?_
    intro order s' w' _ _ horder
    refine .lift (emits_icmp horder.1 (val_int32 0).1 fun hH => ?_).left
    exact ⟨horder.2 hH, .inl (horder.int.2 hH)⟩
  · refine (lowers_promotePair hl hr).bind ?_
    rintro ⟨l', r'⟩ s' w' _ _ ⟨ty, hty, hl', hr'⟩
    have hsame : H → l'.ty = r'.ty := fun hH => (hl'.2 hH).trans (hr'.2 hH).symm
    refine .ite (fun hfp => ?_) fun hint => ?_
    · exact .lift (emits_fcmp hl'.1 hr'.1 fun hH => ⟨hsame hH, hfp⟩).left
    · refine .lift (emits_icmp hl'.1 hr'.1 fun hH => ⟨hsame hH, .inl ?_⟩).left
      have hnumeric := (promoted?_isNumeric hty).1
      have hlty : l'.ty = ty := hl'.2 hH
      rw [← hlty] at hnumeric
      simpa [Ty.isNumeric, hint] using hnumeric

theorem lowers_bitwise (hl : w.Has l) (hr : w.Has r) (hinstr : instr.isFloating = false) :
    Lowers env (bitwise op instr l r span) s w fun v w' => w'.Has v := by
  refine .otherwise fun hfp => .otherwise fun _ => ?_
  rw [Bool.or_eq_false_iff] at hfp
  refine lowers_arithmetic hl hr fun _ _ _ _ hty hl' hr' => emits_binary hl' hr' fun _ => ?_
  simpa [BinaryOp.Admits, hinstr] using (promoted?_isNumeric hty).2 hfp.1 hfp.2

theorem lowers_logical (hl : w.Has l) (hr : w.Has r) (hinstr : instr.isFloating = false) :
    Lowers env (logical instr l r span) s w fun v w' => w'.Has v := by
  refine (lowers_toBool span hl).bind ?_
  intro l' s1 w1 hle1 _ hl'
  refine (lowers_toBool span (hr.mono hle1)).bind ?_
  intro r' s2 w2 hle2 _ hr'
  refine .lift (emits_binary (hl'.mono hle2) hr' fun _ => ?_).left
  simp [BinaryOp.Admits, hinstr, Ty.isInt]

theorem isText_of_isOperand (h : isOperand v = true) : Text.IsText v.ty := by
  unfold isOperand at h
  cases hty : v.ty <;> rw [hty] at h
  case int => exact .inl rfl
  case float | double => exact .inr (.inl rfl)
  case ptr => exact .inr (.inr rfl)
  case void | array | struct => cases h

theorem lowers_sum (hl : w.Has l) (hr : w.Has r) (hlText : Text.IsText l.ty)
    (hrText : Text.IsText r.ty) : Lowers env (sum l r span) s w fun v w' => w'.Has v := by
  refine .ite (fun hchars => ?_) fun _ => .ite (fun _ => ?_) fun _ => ?_
  · simp only [Bool.and_eq_true, Ty.isChar, decide_eq_true_eq] at hchars
    exact .lift (Text.emits_ofPair ⟨hl, fun _ => hchars.1⟩ ⟨hr, fun _ => hchars.2⟩).left
  · exact .lift (Text.emits_add hl hr fun _ => ⟨hlText, hrText⟩).left
  · exact lowers_arith hl hr rfl rfl

theorem lowers_remainder (hl : w.Has l) (hr : w.Has r) : Lowers env (remainder l r span) s w fun v w' => w'.Has v := by
  exact .otherwise fun _ => lowers_arith hl hr rfl rfl

theorem lowers_binaryValues (hl : w.Has l) (hr : w.Has r) :
    Lowers env (binaryValues op l r span) s w fun v w' => w'.Has v := by
  refine .otherwise fun hlOperand => ?_
  refine .otherwise fun hrOperand => ?_
  simp only [Bool.not_eq_false'] at hlOperand hrOperand
  cases op with
  | and | or => exact lowers_logical hl hr rfl
  | add =>
    exact lowers_sum hl hr (isText_of_isOperand hlOperand) (isText_of_isOperand hrOperand)
  | sub | mul | div => exact lowers_arith hl hr rfl rfl
  | mod => exact lowers_remainder hl hr
  | bitAnd | bitOr | bitXor | shl | shr => exact lowers_bitwise hl hr rfl
  | eq | ne | lt | le | gt | ge => exact lowers_compare hl hr

theorem lowers_unaryValue {op : UnaryOp} (hv : w.Has v) :
    Lowers env (unaryValue op v span) s w fun v w' => w'.Has v := by
  cases op with
  | neg =>
    refine .ite (fun hnumeric => ?_) fun _ => .fail
    exact .lift (emits_neg hv.val fun _ => hnumeric).left
  | plus => exact .ite (fun _ => .pure hv) fun _ => .fail
  | not =>
    refine (lowers_toBool span hv).bind ?_
    intro b s' w' _ _ hb
    exact .lift (emits_not hb).left

/-! ### Places -/

def PlaceOk (w : Site H) (place : PlaceRef) : Prop :=
  w.Addr place.ptr place.ty ∧ (place.stringByte = true → place.ty = .i8)

theorem PlaceOk.mono {e : Site.Effect} {w' : Site H} (h : PlaceOk w place)
    (hle : Site.Grows e w w') : PlaceOk w' place := ⟨h.1.mono hle, h.2⟩

theorem val_one (ty : Ty) : w.Val (one ty) ty := by
  cases ty <;> exact ⟨Site.has_of_reg? rfl, fun _ => rfl⟩

theorem lowers_stepPlace {op : StepOp} (hplace : PlaceOk w place) :
    Lowers env (stepPlace op place span) s w fun v w' => w'.Has v := by
  refine .otherwise fun hty => ?_
  rw [Bool.or_eq_false_iff, Bool.not_eq_false'] at hty
  refine (Lowers.lift (emits_load hplace.1.val)).bind ?_
  rintro current s1 w1 hle1 _ ⟨hcurrent, hcurrentTy⟩
  have hcurrent : w1.Val current place.ty := ⟨hcurrent, fun _ => hcurrentTy⟩
  have hstore : ∀ (next : Value) (s' : State) (w' : Site H), w1 ≤ w' → w'.Val next place.ty →
      Lowers env (do Build.store next place.ptr; return next) s' w' fun v w'' => w''.Has v := by
    intro next s' w' hle hnext
    refine (Lowers.lift (emits_store hnext ((hplace.1.mono hle1).mono hle))).bind ?_
    intro _ _ w'' hle' _ _
    exact .pure (hnext.mono hle').1
  cases op with
  | inc | dec =>
    refine (Lowers.lift (emits_arith hcurrent (val_one _) (fun _ => hty.1) rfl rfl)).bind ?_
    exact fun next s' w' hle _ hnext => hstore next s' w' hle hnext

end Aero.Lowering
