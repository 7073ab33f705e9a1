import Aero.Lowering.Intrinsic
import Aero.Proofs.Array

/-!
Builtin functions. Whatever the arguments are, the code of a builtin is sound and yields a value.
-/

namespace Aero.Lowering

open IR IR.Build IR.Site List

variable {H : Prop} {env : Env} {s : State} {w : Site H} {arg : Operand} {v : Value} {span : Span}
  {function ending format text : String}

theorem Lowers.has {α : Type} {act : Lower α} {view : α → Value} {ty : Ty}
    (h : Lowers env act s w fun a w' => w'.Val (view a) ty) : Lowers env act s w fun a w' => w'.Has (view a) :=
  h.mono fun _ _ _ hv => hv.1

theorem emits_printOne (hv : w.Has v) : Emits (printf format [v]) w fun r w' => w'.Has r :=
  (emits_printf (.cons hv.val .nil)).left

theorem lowers_printValue (hv : w.Has v) : Lowers env (printValue v ending span) s w fun r w' => w'.Has r := by
  have hasInt : v.ty.isInt = true → Emits (intCast v .i32 true) w fun r w' => w'.Val r .i32 :=
    fun hint => emits_intCast ⟨hv, fun _ => hint⟩ rfl
  have hasDouble : v.ty.isFp = true → Emits (fpCast v .double) w fun r w' => w'.Val r .double :=
    fun hfp => emits_fpCast hv (fun _ => hfp) rfl
  unfold printValue
  split
  · next hty =>
    refine (Lowers.lift emits_constString).bind ?_
    rintro yes s1 w1 hle1 _ ⟨hyes, hyesTy, _⟩
    refine (Lowers.lift emits_constString).bind ?_
    rintro no s2 w2 hle2 _ ⟨hno, hnoTy, _⟩
    refine (Lowers.lift (emits_select ⟨(hv.mono hle1).mono hle2, fun _ => hty⟩
      ⟨hyes.mono hle2, fun _ => hyesTy⟩ ⟨hno, fun _ => hnoTy⟩)).bind ?_
    intro text s3 w3 _ _ htext
    exact .lift (emits_printOne htext.1)
  · next hty =>
    refine (Lowers.lift (hasInt (by rw [hty]; rfl))).bind ?_
    intro x s1 w1 _ _ hx
    exact .lift (emits_printOne hx.1)
  · exact .lift (emits_printOne hv)
  · next hty =>
    refine (Lowers.lift (hasInt (by rw [hty]; rfl))).bind ?_
    intro x s1 w1 _ _ hx
    exact .lift (emits_printOne hx.1)
  · next hty =>
    refine (Lowers.lift (hasDouble (by rw [hty]; rfl))).bind ?_
    intro x s1 w1 _ _ hx
    exact .lift (emits_printOne hx.1)
  · next hty =>
    refine (Lowers.lift (hasDouble (by rw [hty]; rfl))).bind ?_
    intro x s1 w1 _ _ hx
    exact .lift (emits_printOne hx.1)
  · exact .lift (emits_printOne hv)
  · exact .fail

theorem lowers_print (harg : OperandOk H env arg) : Lowers env (print arg ending) s w fun v w' => w'.Has v :=
  (harg s w).bind fun _ _ _ _ _ hv => lowers_printValue hv

theorem lowers_readWord : Lowers env (do
      let buffer ← Build.trackedMalloc (Build.int64 256) 1
      let format ← Build.constString "%255s"
      discard (Build.callPrimitive .scanf [format, buffer])
      return buffer) s w fun v w' => w'.Has v := by
  refine (Lowers.lift (emits_trackedMalloc (val_int64 _).int)).bind ?_
  intro buffer s1 w1 _ _ hbuffer
  have hbuffer : w1.Val buffer .ptr := (hbuffer .i8).val
  refine (Lowers.lift emits_constString).bind ?_
  rintro format s2 w2 hle2 _ ⟨hformat, hformatTy, _⟩
  have hbuffer := hbuffer.mono hle2
  have hargs : w2.Vals [format, buffer] (Primitive.scanf.signature.params ++ [.ptr]) :=
    .cons ⟨hformat, fun _ => hformatTy⟩ (.cons hbuffer .nil)
  refine (Lowers.lift (emits_callVariadic hargs nofun)).discard.bind ?_
  intro _ s3 w3 hle3 _ _
  exact .pure (hbuffer.mono hle3).1

theorem lowers_input {prompt : Option Operand} (hprompt : ∀ o ∈ prompt, OperandOk H env o) :
    Lowers env (input prompt) s w fun v w' => w'.Has v := by
  unfold input
  split
  · refine (lowers_print (hprompt _ rfl)).discard.bind ?_
    intro _ s1 w1 _ _ _
    exact lowers_readWord
  · exact lowers_readWord

theorem lowers_constString : Lowers env (liftM (constString text)) s w fun v w' => w'.Has v :=
  .lift emits_constString.left

theorem lowers_typeOf (harg : OperandOk H env arg) : Lowers env (typeOf arg) s w fun v w' => w'.Has v := by
  unfold typeOf
  split
  · exact lowers_lookup.bind fun slot _ _ _ _ _ => lowers_constString
  · exact (harg s w).bind fun _ _ _ _ _ _ => lowers_constString

/-! ### Conversions -/

section

variable (span : Span)

theorem lowers_toText (hv : w.Has v) : Lowers env (toText v span) s w fun r w' => w'.Has r := by
  have hformat : ∀ {s' : State} {w' : Site H} {x : Value} (format : String), w'.Has x →
      Lowers env (liftM (Text.formatted format x)) s' w' fun r w'' => w''.Has r :=
    fun format hx => (Lowers.lift (Text.emits_formatted hx)).has
  unfold toText
  split
  · exact .pure hv
  · next hty =>
    refine (Lowers.lift (emits_intCast ⟨hv, fun _ => by rw [hty]; rfl⟩ rfl)).bind ?_
    exact fun x _ _ _ _ hx => hformat _ hx.1
  · exact hformat _ hv
  · next hty =>
    refine (Lowers.lift (emits_intCast ⟨hv, fun _ => by rw [hty]; rfl⟩ rfl)).bind ?_
    exact fun x _ _ _ _ hx => hformat _ hx.1
  · next hty =>
    refine (Lowers.lift (emits_fpCast hv (fun _ => by rw [hty]; rfl) rfl)).bind ?_
    exact fun x _ _ _ _ hx => hformat _ hx.1
  · next hty =>
    refine (Lowers.lift (emits_fpCast hv (fun _ => by rw [hty]; rfl) rfl)).bind ?_
    exact fun x _ _ _ _ hx => hformat _ hx.1
  · exact .fail

theorem lowers_toInt (hv : w.Has v) : Lowers env (toInt v span) s w fun r w' => w'.Has r := by
  unfold toInt
  split
  · next hty =>
    exact (Lowers.lift (emits_callPrimitive (.cons ⟨hv, fun _ => hty⟩ .nil))).has
  · exact (lowers_coerce hv).has
  · exact (lowers_coerce hv).has
  · exact (lowers_coerce hv).has
  · exact .fail

theorem lowers_toFloat (hv : w.Has v) : Lowers env (toFloat v span) s w fun r w' => w'.Has r := by
  unfold toFloat
  split
  · next hty =>
    refine (Lowers.lift (emits_callPrimitive (.cons ⟨hv, fun _ => hty⟩ .nil))).bind ?_
    intro x s1 w1 _ _ hx
    exact (Lowers.lift (emits_fpCast hx.1 (fun hH => by rw [hx.2 hH]; rfl) rfl)).has
  · exact (lowers_coerce hv).has
  · exact (lowers_coerce hv).has
  · exact (lowers_coerce hv).has
  · exact .fail

theorem lowers_toChar (hv : w.Has v) : Lowers env (toChar v span) s w fun r w' => w'.Has r := by
  unfold toChar
  split
  · next hty => exact .lift (emits_load ⟨hv, fun _ => hty⟩).left
  · next hty =>
    exact (Lowers.lift (emits_intCast ⟨hv, fun _ => by rw [hty]; rfl⟩ rfl)).has
  · next hty => exact (Lowers.lift (emits_fpToSi hv (fun _ => by rw [hty]; rfl) rfl)).has
  · next hty => exact (Lowers.lift (emits_fpToSi hv (fun _ => by rw [hty]; rfl) rfl)).has
  · exact .fail

theorem lowers_exit {status : Option Operand} (hstatus : ∀ o ∈ status, OperandOk H env o) :
    Lowers env (exit status span) s w fun v w' => w'.Has v := by
  have hcall : ∀ (s' : State) (w' : Site H) (v : Value), w'.Val v .i32 →
      Lowers env (liftM (callPrimitive .exit [v])) s' w' fun r w'' => w''.Has r :=
    fun s' w' v hv => (Lowers.lift (emits_callPrimitive (.cons hv .nil))).has
  unfold exit
  split
  · refine (hstatus _ rfl s w).bind ?_
    intro v s1 w1 _ _ hv
    refine (lowers_coerce hv).bind ?_
    exact fun v s2 w2 _ _ hv => hcall s2 w2 v hv
  · exact hcall s w _ (val_int32 0)

end

/-! ### Lengths -/

theorem lowers_textLen (hv : w.Val v .ptr) : Lowers env (liftM (textLen v)) s w fun r w' => w'.Has r := by
  refine .lift ((emits_strlen hv).bind fun len w1 _ hlen => ?_)
  exact (emits_intCast hlen.int rfl).left

theorem lowers_valueLen (harg : OperandOk H env arg) : Lowers env (valueLen arg span) s w fun v w' => w'.Has v := by
  refine (harg s w).bind ?_
  intro v s1 w1 _ _ hv
  refine .ite (fun hptr => ?_) fun _ => .fail
  exact lowers_textLen ⟨hv, fun _ => isPtr_iff.mp hptr⟩

theorem lowers_length (harg : OperandOk H env arg) : Lowers env (length arg span) s w fun v w' => w'.Has v := by
  unfold length
  split
  · refine lowers_lookup.bind ?_
    intro slot s1 w1 _ _ hslot
    split
    · exact (lowers_arrayLen hslot).has
    · refine .ite (fun _ => ?_) fun _ => ?_
      · exact (lowers_loadPtr hslot.addr.val).bind fun _ _ _ _ _ hv => lowers_textLen hv
      · exact .otherwise fun _ => .pure (val_int32 1).1
  · refine lowers_lookup.bind ?_
    intro slot s1 w1 _ _ _
    split
    · exact .pure (val_int32 _).1
    · exact lowers_valueLen harg
  · exact lowers_valueLen harg

/-! ### The heap -/

theorem lowers_sizeArg (harg : OperandOk H env arg) :
    Lowers env (sizeArg arg function) s w fun v w' => w'.IntVal v := by
  refine (harg s w).bind ?_
  intro v s1 w1 _ _ hv
  refine .ite (fun hint => ?_) fun _ => .fail
  exact (Lowers.lift (emits_intCast ⟨hv, fun _ => hint⟩ rfl)).mono fun _ _ _ h => h.int

theorem lowers_recordRequest {ptr : Value} : Lowers env (recordRequest ptr) s w fun _ w' => w = w' :=
  ⟨fun hopen hbody => ⟨w, le_refl w, hopen, ⟨⟨rfl, rfl, rfl, rfl, rfl⟩, rfl⟩, hbody.builder_eq, rfl⟩⟩

theorem lowers_requestBuffer (harg : OperandOk H env arg) :
    Lowers env (requestBuffer arg) s w fun v w' => w'.Has v := by
  refine (lowers_sizeArg harg).bind fun _ _ _ _ _ hsize => ?_
  refine (Lowers.lift (emits_malloc hsize)).bind fun ptr _ w1 _ _ hptr => ?_
  refine lowers_recordRequest.bind ?_
  rintro _ _ _ _ _ rfl
  exact .pure (hptr .i8).1

theorem lowers_fixedArray? {e : Spanned Expr} : Lowers env (fixedArray? e) s w fun _ _ => True := by
  unfold fixedArray?
  split
  · exact lowers_lookup.bind fun _ _ _ _ _ _ => .pure trivial
  · exact .pure trivial

theorem lowers_heapArg (harg : OperandOk H env arg) :
    Lowers env (heapArg arg function) s w fun v w' => w'.Val v .ptr := by
  refine lowers_fixedArray?.bind ?_
  intro found s1 w1 _ _ _
  split
  · exact .fail
  · refine (harg s1 w1).bind ?_
    intro v s2 w2 _ _ hv
    refine .ite (fun hptr => ?_) fun _ => .fail
    exact .pure ⟨hv, fun _ => isPtr_iff.mp hptr⟩

theorem has_noValue : w.Has noValue := has_of_reg? rfl

theorem lowers_freeBuffer (harg : OperandOk H env arg) : Lowers env (freeBuffer arg) s w fun v w' => w'.Has v := by
  refine (lowers_heapArg harg).bind ?_
  intro ptr s1 w1 _ _ hptr
  refine (Lowers.lift (emits_untrack hptr)).bind ?_
  intro _ s2 w2 hle2 _ _
  exact (Lowers.lift (emits_free (hptr.mono hle2))).bind fun _ _ _ _ _ _ => .pure has_noValue

theorem lowers_freeDeep {table rows : Operand} (htable : OperandOk H env table)
    (hrows : OperandOk H env rows) : Lowers env (freeDeep table rows span) s w fun v w' => w'.Has v := by
  refine (lowers_heapArg htable).bind ?_
  intro table s1 w1 _ _ htable
  refine (hrows s1 w1).bind ?_
  intro rows s2 w2 hle2 _ hrows
  refine .ite (fun hint => ?_) fun _ => .fail
  exact (Lowers.lift (emits_freeRows (htable.mono hle2) ⟨hrows, fun _ => hint⟩)).bind
    fun _ _ _ _ _ _ => .pure has_noValue

theorem lowers_lowerBuiltin {handler : Handler} {args : List Operand}
    (hargs : ∀ o ∈ args, OperandOk H env o) : Lowers env (lowerBuiltin handler args span) s w fun v w' => w'.Has v := by
  have hhead : ∀ o ∈ args.head?, OperandOk H env o :=
    fun o ho => hargs o (mem_of_mem_head? ho)
  unfold lowerBuiltin
  split
  · exact lowers_print (hargs _ mem_cons_self)
  · exact lowers_print (hargs _ mem_cons_self)
  · exact lowers_input hhead
  · exact lowers_typeOf (hargs _ mem_cons_self)
  · exact (hargs _ mem_cons_self s w).bind fun _ _ _ _ _ hv => lowers_toText span hv
  · exact (hargs _ mem_cons_self s w).bind fun _ _ _ _ _ hv => lowers_toInt span hv
  · exact (hargs _ mem_cons_self s w).bind fun _ _ _ _ _ hv => lowers_toFloat span hv
  · exact (hargs _ mem_cons_self s w).bind fun _ _ _ _ _ hv => lowers_toChar span hv
  · exact (hargs _ mem_cons_self s w).bind fun _ _ _ _ _ hv => (lowers_toBool span hv).has
  · exact lowers_exit span hhead
  · exact lowers_length (hargs _ mem_cons_self)
  · exact lowers_requestBuffer (hargs _ mem_cons_self)
  · refine (lowers_sizeArg (hargs _ mem_cons_self)).bind fun _ _ _ _ _ hsize => ?_
    exact (Lowers.lift (emits_trackedMalloc hsize)).mono fun _ _ _ h => (h .i8).1
  · exact lowers_freeBuffer (hargs _ mem_cons_self)
  · exact lowers_freeDeep (hargs _ mem_cons_self) (hargs _ (mem_cons_of_mem _ mem_cons_self))
  · exact (Lowers.lift emits_gcCollect).bind fun _ _ _ _ _ _ => .pure has_noValue
  · exact .fail

end Aero.Lowering
