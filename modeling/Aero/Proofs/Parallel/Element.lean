import Aero.Proofs.Parallel.Operation

/-!
Elements, array literals and array arguments on two sides at once. An operand on the other side has the expression
with the names of that side and code that ends alike. The address of an element is computed, so it is the same register
on both sides, even if the element is a byte of a string constant.
-/

namespace Aero.Lowering

open IR IR.Build List

variable {g : Guise} {env : Env} {P : Common g.exact}
  {buffer index buffer' counter table i len s s' base v v' : Value} {slot : Slot} {elem : Ty} {span : Span}
  {shape param : ArrayShape} {access : Access} {name : String} {rows k : Nat}

/-! ### Operands -/

/-- The operand on the other side. -/
structure Operand.Twin (g : Guise) (env : Env) (o o' : Operand) : Prop where
  expr_eq : o'.expr = o.expr.rename g.names
  span_eq : o'.span = o.span
  value : ∀ P, Parallel g env P o.value o'.value Value.Like

abbrev OperandTwins (g : Guise) (env : Env) : List Operand → List Operand → Prop :=
  List.Forall₂ (Operand.Twin g env)

variable {o o' : Operand} {os os' : List Operand}

theorem isArrayLiteral_rename (σ : String → String) (e : Expr) : isArrayLiteral (e.rename σ) = isArrayLiteral e := by
  cases e <;> rfl

theorem OperandTwins.any_isArrayLiteral (h : OperandTwins g env os os') :
    os'.any (fun e => isArrayLiteral e.expr) = os.any fun e => isArrayLiteral e.expr := by
  induction h with
  | nil => rfl
  | cons ho _ ih => rw [any_cons, any_cons, ih, ho.expr_eq, isArrayLiteral_rename]

/-! ### Indices -/

theorem steady_boundsCheck (hindex : g.Plain index) (hlen : g.Plain len) {fault : Fault} :
    Steady g env P (boundsCheck index len fault) Done := by
  refine (Steady.lift (mirrors_intCast hindex _ _)).bind_same fun _ index _ hindex => ?_
  refine (Steady.lift (mirrors_intCast hlen _ _)).bind_same fun _ len _ hlen => ?_
  refine (Steady.lift (mirrors_icmp hindex.alike hlen.alike)).bind_same fun _ outside _ houtside => ?_
  refine (Steady.lift (mirrors_appendBlock _)).bind_same fun _ failed _ _ => ?_
  refine (Steady.lift (mirrors_appendBlock _)).bind_same fun _ passed _ _ => ?_
  refine (Steady.lift (mirrors_condBr houtside.like)).seq fun _ _ => ?_
  refine (Steady.lift mirrors_position).seq fun _ _ => ?_
  refine (Steady.lift (mirrors_printf .nil)).discard.seq fun _ _ => ?_
  refine .read_bind ?_
  refine (Steady.lift (mirrors_callPrimitive .exit (.of_plain (by simp)) (g.ordinary rfl))).discard.seq fun _ _ => ?_
  refine (Steady.lift mirrors_unreachable).seq fun _ _ => ?_
  refine (Steady.lift mirrors_position).seq fun _ _ => ?_
  exact steady_note

theorem parallel_indexValue (h : o.Twin g env o') : Parallel g env P (indexValue o) (indexValue o') (Same g.Plain) := by
  unfold indexValue
  rw [h.span_eq]
  refine (h.value P).bind fun _ v v' _ hv => ?_
  rw [hv.ty_eq]
  refine .ite (fun hint => ?_) fun _ => .fail
  obtain ⟨rfl, hplain⟩ := hv.plain_of_ty _ hint rfl rfl
  exact .lift (mirrors_intCast hplain _ _)

theorem steady_refuseNegative : Steady g env P (refuseNegative index span) Done := by
  unfold refuseNegative
  split
  · exact .ite (fun _ => .fail) fun _ => .done
  · exact .done

theorem parallel_openIndex (h : o.Twin g env o') : Parallel g env P (openIndex o) (openIndex o') (Same g.Plain) := by
  unfold openIndex
  rw [h.span_eq]
  exact (parallel_indexValue h).bind_same fun _ _ _ hi =>
    steady_refuseNegative.seq fun _ _ => .pure hi

theorem steady_checkFixed (hindex : g.Plain index) (len : Nat) (access : Access)
    (span : Span) : Steady g env P (checkFixed index len access span) Done := by
  unfold checkFixed
  split
  · exact .ite (fun _ => .fail) fun _ => .done
  · exact steady_boundsCheck hindex (Value.plain_int32)

theorem parallel_fixedIndices (access : Access) (dims : List (Option Nat)) (h : OperandTwins g env os os') :
    Parallel g env P (fixedIndices access dims os) (fixedIndices access dims os')
      (Same fun vs => ∀ v ∈ vs, g.Plain v) := by
  induction h generalizing dims P with
  | nil => cases dims <;> exact Steady.pure (forall_mem_nil _)
  | cons ho _ ih =>
    cases dims with
    | nil => exact Steady.pure (forall_mem_nil _)
    | cons dim dims =>
      rw [fixedIndices, fixedIndices, ho.span_eq]
      refine (parallel_indexValue ho).bind_same fun _ i _ hi => ?_
      refine .seq (steady_checkFixed hi _ access _) fun _ _ => ?_
      refine (ih dims).bind_same fun _ vs _ hvs => ?_
      exact Steady.pure (forall_mem_cons.mpr ⟨hi, hvs⟩)

theorem mirrors_heapCount (hbuffer : buffer.Like P buffer') (elem : Ty) (hp : g.Allows .gcGetSize) :
    Mirrors g.toPairing P (heapCount buffer elem) (heapCount buffer' elem) (Same g.Plain) := by
  refine (mirrors_trackedSize hbuffer hp).bind_same fun _ bytes _ hbytes => ?_
  refine .get_bind fun γ b b' hlike _ => ?_
  rw [sizeOf_eq (g.level hlike).structs_eq]
  exact mirrors_arith hbytes (Value.plain_int32)

theorem steady_checkExtent (hindex : g.Plain index) {extent : Option Value}
    (hextent : ∀ len, extent = some len → g.Plain len) : Steady g env P (checkExtent index extent) Done := by
  unfold checkExtent
  split
  · exact steady_boundsCheck hindex (hextent _ rfl)
  · exact .done

/-! ### Places -/

theorem parallel_stringPlace (hs : s.Like P s')
    (h : OperandTwins g env os os') : Parallel g env P (stringPlace s os access span) (stringPlace s' os' access span)
      (Same (PlaceRef.Plain g.toPairing)) := by
  cases h with
  | nil => exact .fail
  | cons ho hos =>
    cases hos with
    | cons _ _ => exact .fail
    | nil =>
      refine (parallel_openIndex ho).bind_same fun P1 i hle1 hi => ?_
      have hs := hs.mono hle1
      refine (Parallel.lift (mirrors_strlen hs)).bind_same fun P2 len hle2 hlen => ?_
      refine .seq (steady_boundsCheck hi hlen) fun P3 hle3 => ?_
      have hs := hs.mono (le_trans hle2 hle3)
      refine (Parallel.lift (mirrors_gep hs (by simpa using hi) (fun _ => rfl))).bind_same fun _ ptr _ hptr => ?_
      exact Steady.pure ⟨hptr, fun _ => rfl⟩

theorem parallel_fixedPlace (hslot : slot.Plain g.toPairing)
    (helem : g.Firm shape.elem) (h : OperandTwins g env os os') :
    Parallel g env P (fixedPlace slot shape os access) (fixedPlace slot shape os' access)
      (Same (PlaceRef.Plain g.toPairing)) := by
  refine (parallel_fixedIndices access shape.dims h).bind_same fun _ vs _ hvs => ?_
  have hpath : ∀ i ∈ Build.int32 0 :: vs, g.Plain i := forall_mem_cons.mpr ⟨Value.plain_int32, hvs⟩
  exact (Steady.lift (mirrors_gep hslot.ptr.like hpath hslot.firm)).bind_same fun _ _ _ hptr =>
    .pure ⟨hptr, helem⟩

theorem steady_element (hbase : g.Plain base) (hi : g.Plain i) (helem : g.Firm elem) :
    Steady g env P (do
      let ptr ← Build.gep elem base [i]
      return { ptr := ptr, ty := elem }) (Same (PlaceRef.Plain g.toPairing)) :=
  (Steady.lift (mirrors_gep hbase.like (by simpa using hi) helem)).bind_same fun _ _ _ hptr =>
    .pure ⟨hptr, helem⟩

theorem parallel_heapPlace (hslot : slot.Plain g.toPairing) (helem : g.Firm elem) (h : o.Twin g env o') :
    Parallel g env P (heapPlace slot elem o) (heapPlace slot elem o') (Same (PlaceRef.Plain g.toPairing)) := by
  refine .bind_same (.lift (mirrors_load hslot.ptr.alike (fun _ => rfl))) fun _ base _ hbase => ?_
  refine (parallel_openIndex h).bind_same fun _ i _ hi => ?_
  refine (Steady.lift mirrors_isTracked).bind_same fun _ _ _ htracker => ?_
  refine .ite (fun htracked => ?_) fun _ => steady_element hbase hi helem
  refine (Steady.lift (mirrors_heapCount hbase.like elem (htracker htracked _ (by decide)))).bind_same
    fun _ count _ hcount => ?_
  exact (steady_boundsCheck hi hcount).seq fun _ _ => steady_element hbase hi helem

theorem Slot.Plain.extent (h : slot.Plain g.toPairing) : ∀ len, slot.extents[k]? = some len → g.Plain len :=
  fun len hlen => h.extents len (mem_of_getElem? hlen)

theorem parallel_paramPlace (hslot : slot.Plain g.toPairing) (helem : g.Firm elem) (h : o.Twin g env o') :
    Parallel g env P (paramPlace slot elem o) (paramPlace slot elem o') (Same (PlaceRef.Plain g.toPairing)) := by
  refine .bind_same (.lift (mirrors_load hslot.ptr.alike (fun _ => rfl))) fun _ base _ hbase => ?_
  refine (parallel_openIndex h).bind_same fun _ i _ hi => ?_
  exact (steady_checkExtent hi (hslot.extent)).seq fun _ _ => steady_element hbase hi helem

theorem parallel_rowsPlace {row column row' column' : Operand} (hslot : slot.Plain g.toPairing) (helem : g.Firm elem)
    (hrow : row.Twin g env row') (hcolumn : column.Twin g env column') :
    Parallel g env P (rowsPlace slot elem row column) (rowsPlace slot elem row' column')
      (Same (PlaceRef.Plain g.toPairing)) := by
  refine .bind_same (.lift (mirrors_load hslot.ptr.alike (fun _ => rfl))) fun _ table _ htable => ?_
  refine (parallel_openIndex hrow).bind_same fun _ i _ hi => ?_
  refine .seq (steady_checkExtent hi (hslot.extent)) fun _ _ => ?_
  refine (parallel_openIndex hcolumn).bind_same fun _ j _ hj => ?_
  refine .seq (steady_checkExtent hj (hslot.extent)) fun _ _ => ?_
  refine (Steady.lift (mirrors_gep htable.like (by simpa using hi) (fun _ => rfl))).bind_same fun _ entry _ hentry => ?_
  refine (Steady.lift (mirrors_load hentry.alike (fun _ => rfl))).bind_same fun _ base _ hbase => ?_
  exact steady_element hbase hj helem

theorem parallel_elementPlace (hslot : slot.Plain g.toPairing) (h : OperandTwins g env os os') :
    Parallel g env P (elementPlace name slot os access span) (elementPlace (g.names name) slot os' access span)
      (Same (PlaceRef.Plain g.toPairing)) := by
  unfold elementPlace
  rw [← h.length_eq]
  split
  · refine .ite (fun _ => ?_) fun _ => .fail
    refine .bind_same (.lift (mirrors_load hslot.ptr.alike (fun _ => rfl))) fun _ s _ hs => ?_
    exact parallel_stringPlace hs.like h
  · next shape hshape =>
    have helem := hslot.elem shape hshape
    have hcount : Parallel g env P (fail (.indexCount name shape.rank os.length) span : Lower PlaceRef)
        (fail (.indexCount (g.names name) shape.rank os.length) span) (Same (PlaceRef.Plain g.toPairing)) :=
      .fail
    refine .ite (fun _ => hcount) fun _ => ?_
    cases shape.storage with
    | stack => exact parallel_fixedPlace hslot helem h
    | heap =>
      rcases h with _ | ⟨ho, _ | _⟩
      · exact hcount
      · exact parallel_heapPlace hslot helem ho
      · exact hcount
    | param =>
      rcases h with _ | ⟨ho, _ | _⟩
      · exact hcount
      · exact parallel_paramPlace hslot helem ho
      · exact hcount
    | rows =>
      rcases h with _ | ⟨ho, _ | ⟨ho', _ | _⟩⟩
      · exact hcount
      · exact hcount
      · exact parallel_rowsPlace hslot helem ho ho'
      · exact hcount

theorem parallel_loadElement (ho : o.Twin g env o') (h : OperandTwins g env os os') :
    Parallel g env P (loadElement o os span) (loadElement o' os' span) (Same g.Plain) := by
  have hload : ∀ {P : Common g.exact} {p : PlaceRef}, p.Plain g.toPairing →
      Steady g env P (liftM (Build.load p.ty p.ptr)) (Same g.Plain) :=
    fun hp => .lift (mirrors_load hp.ptr.alike hp.ty)
  obtain ⟨e, espan, value⟩ := o
  obtain ⟨e', espan', value'⟩ := o'
  obtain ⟨(rfl : e' = e.rename g.names), (rfl : espan' = espan), hvalue⟩ := ho
  cases e with
  | var name =>
    refine parallel_lookup.bind_same fun _ slot _ hslot => ?_
    exact (parallel_elementPlace hslot h).bind_same fun _ _ _ hp => hload hp
  | _ =>
    refine .bind (hvalue P) fun _ v v' _ hv => ?_
    rw [hv.ty_eq]
    refine .ite (fun _ => ?_) fun _ => ?_
    · exact (parallel_stringPlace hv h).bind_same fun _ _ _ hp => hload hp
    · exact (Parallel.fail).bind_same fun _ _ _ hp => hload hp

/-! ### Arrays -/

theorem parallel_storeElement (hbuffer : g.Plain buffer) (helem : g.Firm elem)
    (i : Nat) (hv : v.Like P v') (span : Span) :
    Parallel g env P (storeElement buffer elem i v span) (storeElement buffer elem i v' span) Done := by
  refine (parallel_coerce_alike hv helem _ span).bind fun _ v v' _ hv => ?_
  refine (Parallel.lift (mirrors_gep hbuffer.like (by simp) helem)).bind_same fun _ ptr hle hptr => ?_
  exact .lift (mirrors_store (hv.mono hle) hptr.alike)

theorem parallel_storeElements (hbuffer : g.Plain buffer) (helem : g.Firm elem)
    (i : Nat) (h : OperandTwins g env os os') :
    Parallel g env P (storeElements buffer elem i os) (storeElements buffer elem i os') Done := by
  induction h generalizing i P with
  | nil => exact Steady.done
  | cons ho _ ih =>
    rw [storeElements, storeElements, ho.span_eq]
    refine .bind (ho.value P) fun _ v v' _ hv => ?_
    exact (parallel_storeElement hbuffer helem i hv _).seq fun _ _ => ih (i + 1)

theorem parallel_arrayLiteral (hint : Option Ty) (span : Span) (h : OperandTwins g env os os') :
    Parallel g env P (arrayLiteral os hint span) (arrayLiteral os' hint span)
      (Same fun p => g.Plain p.1 ∧ g.Firm p.2) := by
  have hlength := h.length_eq
  have hnested := OperandTwins.any_isArrayLiteral h
  cases h with
  | nil => exact .fail
  | cons ho hos =>
    refine .read_bind ?_
    rw [← hlength, hnested, ho.span_eq]
    refine .otherwise fun _ => ?_
    refine .otherwise fun _ => ?_
    refine .bind (ho.value P) fun _ v v' _ hv => ?_
    rw [hv.ty_eq]
    refine .otherwise fun helem => ?_
    have helem : g.Firm (hint.getD v.ty) := fun _ => Bool.eq_false_iff.mpr fun h => helem (by rw [h]; rfl)
    refine .bind_same (.lift (mirrors_heapArray (Value.plain_int64))) fun _ buffer hle hbuffer => ?_
    refine (parallel_storeElement hbuffer helem 0 (hv.mono hle) _).seq fun _ _ => ?_
    refine .seq (parallel_storeElements hbuffer helem 1 hos) fun _ _ => ?_
    exact Steady.pure ⟨hbuffer, helem⟩

@[simp] theorem plain_unknownLen : g.Plain unknownLen := Value.plain_int32

theorem parallel_bufferLen (hbuffer : buffer.Like P buffer') :
    Parallel g env P (bufferLen buffer elem) (bufferLen buffer' elem) (Same g.Plain) :=
  .bind_same (.lift mirrors_isTracked) fun _ _ hle htracker =>
    .ite (fun htracked => .lift (mirrors_heapCount (hbuffer.mono hle) elem
      (htracker htracked _ (by decide)))) fun _ => Steady.pure plain_unknownLen

theorem parallel_arrayLen (hslot : slot.Plain g.toPairing) :
    Parallel g env P (arrayLen name slot shape span) (arrayLen (g.names name) slot shape span) (Same g.Plain) := by
  unfold arrayLen
  split
  · exact Steady.pure (Value.plain_int32)
  · refine .bind_same (.lift mirrors_isTracked) fun _ _ _ htracker => ?_
    refine .ite (fun htracked => ?_) fun _ => .fail
    exact (Steady.lift (mirrors_load hslot.ptr.alike (fun _ => rfl))).bind_same fun _ _ _ hbase =>
      .lift (mirrors_heapCount hbase.like _ (htracker htracked _ (by decide)))
  · next hextents => exact Steady.pure (hslot.extents _ (hextents ▸ mem_cons_self))
  · next hextents => exact Steady.pure (hslot.extents _ (hextents ▸ mem_cons_self))
  · exact .fail

section

variable (hslot : slot.Plain g.toPairing)
include hslot

theorem mirrors_setRow
    (htable : g.Plain table) (hcounter : g.Plain counter) (hi : g.Plain i) :
    Mirrored g.toPairing P (setRow slot table counter i) Done := by
  refine .bind_same (mirrors_gep hslot.ptr.like (by simp [hi]) hslot.firm) fun _ row _ hrow => ?_
  refine .bind_same (mirrors_gep htable.like (by simpa using hi) (fun _ => rfl)) fun _ entry _ hentry => ?_
  refine .seq (mirrors_store hrow.alike hentry.alike) fun _ _ => ?_
  refine .bind_same (mirrors_arith hi (Value.plain_int32)) fun _ next _ hnext => ?_
  exact mirrors_store hnext.alike hcounter.alike

theorem mirrors_fillRows (htable : g.Plain table) (hcounter : g.Plain counter) :
    Mirrored g.toPairing P (fillRows slot table counter rows) Done := by
  refine (mirrors_appendBlock _).bind_same fun _ header _ _ => ?_
  refine (mirrors_appendBlock _).bind_same fun _ body _ _ => ?_
  refine (mirrors_appendBlock _).bind_same fun _ exit _ _ => ?_
  refine mirrors_br.seq fun _ _ => ?_
  refine mirrors_position.seq fun _ _ => ?_
  refine .bind_same (mirrors_load hcounter.alike (fun _ => rfl)) fun _ i _ hi => ?_
  refine .bind_same (mirrors_icmp hi.alike (Value.plain_int32).alike) fun _ more _ hmore => ?_
  refine .seq (mirrors_condBr hmore.like) fun _ _ => ?_
  refine mirrors_position.seq fun _ _ => ?_
  refine (mirrors_setRow hslot htable hcounter hi).seq fun _ _ => ?_
  exact mirrors_br.seq fun _ _ => mirrors_position

theorem mirrors_rowTable : Mirrored g.toPairing P (rowTable slot rows) (Same g.Plain) := by
  refine (mirrors_trackedMalloc (Value.plain_int64)).bind_same fun _ table _ htable => ?_
  refine .bind_same (mirrors_alloca fun _ => rfl) fun _ counter _ hcounter => ?_
  refine .seq (mirrors_store (Value.plain_int32).alike hcounter.alike) fun _ _ => ?_
  exact (mirrors_fillRows hslot htable hcounter).seq fun _ _ => .pure htable

theorem steady_arrayVariable : Steady g env P (arrayVariable slot shape) (Same fun vs => ∀ v ∈ vs, g.Plain v) := by
  have hlens : ∀ v ∈ shape.dims.map fun dim => Build.int32 (Int64.ofNat (dim.getD 0)), g.Plain v := by
    intro v hv
    obtain ⟨dim, _, rfl⟩ := mem_map.mp hv
    exact Value.plain_int32
  have hload : Steady g env P (liftM (Build.load .ptr slot.ptr)) (Same g.Plain) :=
    .lift (mirrors_load hslot.ptr.alike (fun _ => rfl))
  have hextents : ∀ base, g.Plain base → ∀ v ∈ base :: slot.extents ++
      List.replicate (shape.rank - slot.extents.length) unknownLen, g.Plain v := by
    intro base hbase v hv
    rcases mem_append.mp hv with hv | hv
    · exact forall_mem_cons.mpr ⟨hbase, hslot.extents⟩ v hv
    · rw [eq_of_mem_replicate hv]
      exact plain_unknownLen
  unfold arrayVariable
  split
  · exact (Steady.lift (mirrors_gep hslot.ptr.like (by simp) hslot.firm)).bind_same fun _ _ _ hptr =>
      .pure (forall_mem_cons.mpr ⟨hptr, hlens⟩)
  · exact (Steady.lift (mirrors_rowTable hslot)).bind_same fun _ _ _ htable =>
      .pure (forall_mem_cons.mpr ⟨htable, hlens⟩)
  · refine hload.bind_same fun _ base _ hbase => ?_
    refine .bind_same (parallel_bufferLen hbase.like) fun _ len _ hlen => ?_
    exact .pure (by simp [hbase, hlen])
  · exact hload.bind_same fun _ base _ hbase => .pure (hextents base hbase)
  · exact hload.bind_same fun _ base _ hbase => .pure (hextents base hbase)

end

theorem parallel_arrayArgument {context : Coercion} (h : o.Twin g env o') :
    Parallel g env P (arrayArgument o param context) (arrayArgument o' param (context.rename g.names)) Value.Likes := by
  have hlikes : ∀ {P : Common g.exact} {vs : List Value}, (∀ v ∈ vs, g.Plain v) →
      Steady g env P (pure vs) Value.Likes :=
    fun hvs => Parallel.pure fun _ _ => .of_plain hvs
  have hrefused {P : Common g.exact} (reason : Mismatch) (span : Span) :
      Parallel g env P (fail (.mismatch context reason) span : Lower (List Value))
        (fail (.mismatch (context.rename g.names) reason) span) Value.Likes :=
    .fail
  obtain ⟨e, espan, value⟩ := o
  obtain ⟨e', espan', value'⟩ := o'
  obtain ⟨(rfl : e' = e.rename g.names), (rfl : espan' = espan), hvalue⟩ := h
  cases e with
  | var name =>
    refine parallel_lookup.bind_same fun _ slot _ hslot => ?_
    split
    · refine .ite (fun _ => ?_) fun _ => hrefused _ _
      refine (Steady.lift (mirrors_load hslot.ptr.alike (fun _ => rfl))).bind_same fun _ v _ hv => ?_
      exact hlikes (by simp [hv])
    · next shape _ =>
      refine .ite (fun _ => hrefused _ _) fun _ => .ite (fun _ => hrefused _ _) fun _ => ?_
      refine (steady_arrayVariable hslot).mono fun _ _ _ _ h => ?_
      obtain ⟨rfl, hvs⟩ := h
      exact .of_plain hvs
  | _ =>
    refine .bind (hvalue P) fun _ v v' _ hv => ?_
    rw [hv.ty_eq]
    refine .ite (fun _ => hrefused _ _) fun _ => ?_
    refine .ite (fun _ => ?_) fun _ => .pure fun _ hle => ?_
    · refine (parallel_bufferLen hv).bind_same fun _ len hle hlen => ?_
      exact .pure fun _ hle' => .cons (hv.mono (le_trans hle hle')) (.cons hlen.like .nil)
    · exact .cons (hv.mono hle) (.cons plain_unknownLen.like .nil)

end Aero.Lowering
