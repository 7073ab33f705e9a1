import Aero.Proofs.Rows

/-!
Whole arrays. What is passed for an array has the types of the parameter: an address, and a length
for each dimension.
-/

namespace Aero.Lowering

open IR IR.Build IR.Site List

variable {H : Prop} {env : Env} {s : State} {w : Site H} {buffer ptr : Value} {elems : List Operand} {vs : List Value}
  {slot : Slot} {shape : ArrayShape} {ty elem : Ty}

/-! ### Literals and lengths -/

theorem lowers_storeElement {value : Value} (elem : Ty) (i : Nat) (span : Span)
    (hbuffer : w.Val buffer .ptr) (hvalue : w.Has value) :
    Lowers env (storeElement buffer elem i value span) s w fun _ _ => True := by
  refine (lowers_coerce hvalue).bind ?_
  intro v s1 w1 hle1 _ hv
  refine (Lowers.lift (emits_element (hbuffer.mono hle1) (val_int32 _).int)).bind ?_
  intro ptr s2 w2 hle2 _ hptr
  exact .lift (emits_store (hv.mono hle2) hptr)

theorem lowers_storeElements (elem : Ty)
    (helems : ∀ o ∈ elems, OperandOk H env o) (i : Nat) (hbuffer : w.Val buffer .ptr) :
    Lowers env (storeElements buffer elem i elems) s w fun _ _ => True := by
  induction elems generalizing i s w with
  | nil => exact .pure trivial
  | cons e es ih =>
    refine (helems e mem_cons_self s w).bind ?_
    intro v s1 w1 hle1 _ hv
    have hbuffer := hbuffer.mono hle1
    refine (lowers_storeElement elem i e.span hbuffer hv).bind ?_
    intro _ s2 w2 hle2 _ _
    exact ih (fun o ho => helems o (mem_cons_of_mem e ho)) (i + 1) (hbuffer.mono hle2)

theorem lowers_arrayLiteral (hint : Option Ty) (span : Span) (helems : ∀ o ∈ elems, OperandOk H env o) :
    Lowers env (arrayLiteral elems hint span) s w fun r w' => w'.Val r.1 .ptr := by
  unfold arrayLiteral
  split
  · exact .fail
  · next first others =>
    refine .read_bind ?_
    split
    · exact .fail
    · refine .otherwise fun _ => ?_
      refine (helems first mem_cons_self s w).bind ?_
      intro v s1 w1 _ _ hv
      refine .otherwise fun _ => ?_
      refine (Lowers.lift (emits_heapArray (val_int64 _).int)).bind ?_
      intro buffer s2 w2 hle2 _ hbuffer
      have hbuffer : w2.Val buffer .ptr := (hbuffer .i8).val
      refine (lowers_storeElement _ 0 _ hbuffer (hv.mono hle2)).bind ?_
      intro _ s3 w3 hle3 _ _
      have hbuffer := hbuffer.mono hle3
      refine (lowers_storeElements _ (fun o ho => helems o (mem_cons_of_mem _ ho)) 1 hbuffer).bind ?_
      intro _ s4 w4 hle4 _ _
      exact .pure (hbuffer.mono hle4)

theorem lowers_bufferLen (hbuffer : w.Val buffer .ptr) :
    Lowers env (bufferLen buffer elem) s w fun v w' => w'.Val v .i32 := by
  refine (Lowers.lift emits_isTracked).bind ?_
  rintro tracked s1 _ _ _ rfl
  refine .ite (fun _ => ?_) fun _ => .pure (val_int32 _)
  exact .lift ((emits_heapCount hbuffer).mono fun _ _ _ h => h.1)

theorem lowers_arrayLen {name : String} {span : Span} (hslot : SlotOk w slot) :
    Lowers env (arrayLen name slot shape span) s w fun v w' => w'.Val v .i32 := by
  unfold arrayLen
  split
  · exact .pure (val_int32 _)
  · refine (Lowers.lift emits_isTracked).bind ?_
    rintro tracked s1 _ _ _ rfl
    refine .ite (fun _ => ?_) fun _ => .fail
    refine (Lowers.lift (emits_load hslot.addr.val)).bind ?_
    rintro base s2 w2 _ _ ⟨hbase, hbaseTy⟩
    exact .lift ((emits_heapCount ⟨hbase, fun _ => hbaseTy⟩).mono fun _ _ _ h => h.1)
  · next hextents => exact .pure (hslot.extents _ (hextents ▸ mem_cons_self))
  · next hextents => exact .pure (hslot.extents _ (hextents ▸ mem_cons_self))
  · exact .fail

/-! ### Arguments -/

/-- The types of what is passed for an array with so many dimensions. -/
def passedTys (rank : Nat) : List Ty := .ptr :: List.replicate rank .i32

theorem vals_replicate (h : ∀ v ∈ vs, w.Val v ty) : w.Vals vs (List.replicate vs.length ty) := by
  induction vs with
  | nil => exact .nil
  | cons v vs ih =>
    exact .cons (h v mem_cons_self) (ih fun v' hv' => h v' (mem_cons_of_mem v hv'))

theorem val_of_replicate {n : Nat} (h : w.Vals vs (List.replicate n ty)) : ∀ v ∈ vs, w.Val v ty := by
  induction n generalizing vs with
  | zero =>
    cases h
    exact forall_mem_nil _
  | succ n ih =>
    cases h with
    | cons hval hrest => exact forall_mem_cons.mpr ⟨hval, ih hrest⟩

theorem vals_passed (lens : List Value) {rank : Nat} (hptr : w.Val ptr .ptr)
    (hlens : ∀ v ∈ lens, w.Val v .i32) (hrank : lens.length = rank) : w.Vals (ptr :: lens) (passedTys rank) :=
  .cons hptr (hrank ▸ vals_replicate hlens)

/-- A slot that points at an array has at most one length for each dimension. -/
theorem Slot.Shaped.extents_le (h : slot.Shaped shape) (hstorage : shape.storage ≠ .stack) :
    slot.extents.length ≤ shape.rank := by
  unfold Slot.Shaped at h
  split at h
  · contradiction
  · exact h.1 ▸ h.2.2
  · exact h.1 ▸ h.2.2
  · exact h.1 ▸ h.2.2

theorem lowers_loadPtr (hptr : w.Val ptr .ptr) :
    Lowers env (liftM (Build.load .ptr ptr)) s w fun v w' => w'.Val v .ptr :=
  (Lowers.lift (emits_load hptr)).mono fun _ _ _ h => ⟨h.1, fun _ => h.2⟩

/-- What is passed for an array that came as a parameter: the lengths it came with, and unknown ones
for the rest. -/
theorem lowers_passOn (hslot : SlotOk w slot) (hshape : slot.array = some shape) (hstorage : shape.storage ≠ .stack) :
    Lowers env (do
      let base ← Build.load .ptr slot.ptr
      let missing := shape.rank - slot.extents.length
      return base :: slot.extents ++ List.replicate missing unknownLen) s w fun vs w' =>
        w'.Vals vs (passedTys shape.rank) := by
  refine (lowers_loadPtr hslot.addr.val).bind ?_
  intro base s1 w1 hle1 _ hbase
  refine .pure (vals_passed (slot.extents ++ List.replicate _ unknownLen) hbase ?_ ?_)
  · intro v hv
    rcases mem_append.mp hv with hv | hv
    · exact (hslot.extents v hv).mono hle1
    · exact eq_of_mem_replicate hv ▸ val_int32 _
  · rw [length_append, length_replicate]
    exact Nat.add_sub_cancel' ((hslot.shaped shape hshape).extents_le hstorage)

theorem lowers_arrayVariable (hslot : SlotOk w slot) (hshape : slot.array = some shape) :
    Lowers env (arrayVariable slot shape) s w fun vs w' => w'.Vals vs (passedTys shape.rank) := by
  have hlens : ∀ (w' : Site H) (v : Value),
      v ∈ shape.dims.map (fun dim => int32 (Int64.ofNat (dim.getD 0))) → w'.Val v .i32 := by
    intro w' v hv
    obtain ⟨dim, _, rfl⟩ := mem_map.mp hv
    exact val_int32 _
  unfold arrayVariable
  split
  · have hindices : ∀ i ∈ [int32 0, int32 0], w.IntVal i := by
      intro i hi
      rw [mem_pair, or_self] at hi
      exact hi ▸ (val_int32 0).int
    refine (Lowers.lift (emits_gep (t := (w.builder.module.elementTy? slot.ty [int32 0]).getD .void)
      hslot.addr.val hindices fun found hfound => ?_)).bind ?_
    · change w.builder.module.elementTy? slot.ty [int32 0] = some found at hfound
      rw [hfound]
      rfl
    · rintro ptr s1 w1 _ _ ⟨hptr, _⟩
      exact .pure (vals_passed _ hptr.val (hlens w1) (length_map _))
  · refine (Lowers.lift (emits_rowTable _ hslot.addr.val)).bind ?_
    rintro table s1 w1 _ _ ⟨htable, _⟩
    exact .pure (vals_passed _ htable (hlens w1) (length_map _))
  · next hheap =>
    have hrank : shape.rank = 1 := by
      have hshaped := hslot.shaped shape hshape
      simp only [Slot.Shaped, hheap] at hshaped
      exact hshaped.1
    refine (lowers_loadPtr hslot.addr.val).bind ?_
    intro base s1 w1 _ _ hbase
    refine (lowers_bufferLen hbase).bind ?_
    intro len s2 w2 hle2 _ hlen
    exact .pure (hrank ▸ .cons (hbase.mono hle2) (.cons hlen .nil))
  · next hparam => exact lowers_passOn hslot hshape (by rw [hparam]; decide)
  · next hrows => exact lowers_passOn hslot hshape (by rw [hrows]; decide)

theorem lowers_arrayArgument {arg : Operand} {param : ArrayShape} {context : Coercion} (harg : OperandOk H env arg) :
    Lowers env (arrayArgument arg param context) s w fun vs w' => w'.Vals vs (passedTys param.rank) := by
  -- A pointer is passed for an array with one dimension only.
  have hpair : ∀ {w' : Site H} {v len : Value}, param.rank = 1 → w'.Val v .ptr → w'.Val len .i32 →
      w'.Vals [v, len] (passedTys param.rank) :=
    fun hrank hv hlen => hrank ▸ .cons hv (.cons hlen .nil)
  unfold arrayArgument
  split
  · refine lowers_lookup.bind ?_
    intro slot s1 w1 _ _ hslot
    split
    · refine .ite (fun hcond => ?_) fun _ => .fail
      have hrank := of_decide_eq_true (Bool.and_eq_true_iff.mp hcond).2
      refine (lowers_loadPtr hslot.addr.val).bind ?_
      intro v s2 w2 _ _ hv
      exact .pure (hpair hrank hv (val_int32 _))
    · next shape hshape =>
      split
      · exact .fail
      · next hrank =>
        split
        · exact .fail
        · exact not_not.mp hrank ▸ lowers_arrayVariable hslot hshape
  · refine (harg s w).bind ?_
    intro v s1 w1 _ _ hv
    refine .otherwise fun hcond => ?_
    obtain ⟨hptr, hrank⟩ := Bool.and_eq_true_iff.mp (Bool.not_eq_eq_eq_not.mp hcond)
    have hrank := of_decide_eq_true hrank
    have hv : w1.Val v .ptr := ⟨hv, fun _ => isPtr_iff.mp hptr⟩
    refine .ite (fun _ => ?_) fun _ => .pure (hpair hrank hv (val_int32 _))
    refine (lowers_bufferLen hv).bind ?_
    intro len s2 w2 hle2 _ hlen
    exact .pure (hpair hrank (hv.mono hle2) hlen)

end Aero.Lowering
