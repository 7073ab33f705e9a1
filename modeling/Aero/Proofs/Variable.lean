import Aero.Lowering.Variable
import Aero.Proofs.Expression

/-!
Variables. The slot of a declared variable can be used from then on, and what is stored into a place
has the type of the place.
-/

namespace Aero.Lowering

open IR IR.Build IR.Site List

variable {H : Prop} {env : Env} {s : State} {w : Site H} {base value : Value} {slot : Slot} {ty elem baseTy : Ty}
  {path : List Value} {shape : ArrayShape} {span : Span} {init : Option (Spanned Expr)} {context : Coercion}
  {dim : ArrayDim} {name struct : String}

theorem lowers_mapM {α β : Type} {f : α → Lower β} {P : β → Site H → Prop}
    (hmono : ∀ b (w w' : Site H), w ≤ w' → P b w → P b w') {l : List α}
    (hf : ∀ a ∈ l, ∀ (s : State) (w : Site H), Lowers env (f a) s w P) :
    Lowers env (l.mapM f) s w fun bs w' => ∀ b ∈ bs, P b w' := by
  induction l generalizing s w with
  | nil =>
    exact .pure (forall_mem_nil _)
  | cons a l ih =>
    rw [mapM_cons]
    refine (hf a mem_cons_self s w).bind ?_
    intro b s1 w1 _ _ hb
    refine (ih fun a' ha' => hf a' (mem_cons_of_mem a ha')).bind ?_
    intro bs s2 w2 hle2 _ hbs
    refine .pure fun b' hb' => ?_
    rcases mem_cons.mp hb' with rfl | hb'
    · exact hmono _ w1 w2 hle2 hb
    · exact hbs b' hb'

theorem lowers_forM {α : Type} {f : α → Lower PUnit} {l : List α}
    (hf : ∀ a ∈ l, ∀ (s' : State) (w' : Site H), w ≤ w' → Lowers env (f a) s' w' fun _ _ => True) :
    Lowers env (l.forM f) s w fun _ _ => True := by
  induction l generalizing s w with
  | nil => exact .pure trivial
  | cons a l ih =>
    refine (hf a mem_cons_self s w (le_refl w)).bind ?_
    intro _ s1 w1 hle1 _ _
    exact ih fun a' ha' s' w' hle => hf a' (mem_cons_of_mem a ha') s' w' (le_trans hle1 hle)

/-! ### Types of variables -/

def Dim.Ok (dim : Dim) (w : Site H) : Prop := ∀ v, dim = .dynamic v → w.IntVal v

theorem lowers_resolveDim : Lowers env (resolveDim dim) s w fun d w' => d.Ok w' := by
  cases dim with
  | unsized => exact .pure nofun
  | sized size =>
    simp only [resolveDim]
    split
    · exact .pure nofun
    · refine lowers_lower.bind ?_
      intro v s1 w1 _ _ hv
      refine .otherwise fun hint => ?_
      have hint := Bool.not_eq_eq_eq_not.mp hint
      split
      · exact .pure fun _ h => Dim.dynamic.inj h ▸ ⟨hv, fun _ => hint⟩
      · split
        · exact .fail
        · exact .pure nofun

theorem lowers_boundedDim : Lowers env (boundedDim dim span) s w fun d w' => d.Ok w' := by
  refine .read_bind ?_
  refine lowers_resolveDim.bind ?_
  intro d s1 w1 _ _ hd
  split
  · exact .otherwise fun _ => .pure nofun
  · exact .pure hd

/-- The type of a variable says how its slot is made. -/
structure DeclaredType.Ok (d : DeclaredType) (w : Site H) : Prop where
  array : ∀ shape, d.array = some shape →
    (∃ sizes, shape = .fixed shape.elem sizes ∧ d.ty = nestedTy shape.elem sizes) ∨
      shape = .heap shape.elem ∧ d.ty = .ptr
  len : ∀ v, d.len = some v → w.IntVal v

theorem lowers_arrayType {dims : List Dim} (hdims : ∀ d ∈ dims, d.Ok w) :
    Lowers env (arrayType elem dims span) s w fun d w' => d.Ok w' := by
  unfold arrayType
  split
  · next sizes _ =>
    refine .pure ⟨fun shape hshape => .inl ⟨sizes, ?_⟩, nofun⟩
    cases hshape
    exact ⟨rfl, rfl⟩
  · refine .pure ⟨fun shape hshape => .inr ?_, fun v hv => ?_⟩
    · cases hshape
      exact ⟨rfl, rfl⟩
    · cases hv
      exact hdims _ mem_cons_self _ rfl
  · refine .pure ⟨fun shape hshape => .inr ?_, nofun⟩
    cases hshape
    exact ⟨rfl, rfl⟩
  · exact .fail

theorem lowers_resolveScalar : Lowers env (resolveScalar name span) s w fun _ _ => True := by
  unfold resolveScalar
  split
  · exact .pure trivial
  · refine .state_bind fun _ => ?_
    split
    · exact .pure trivial
    · exact .fail

theorem lowers_resolveDeclared {t : TypeName} : Lowers env (resolveDeclared t span) s w fun d w' => d.Ok w' := by
  refine lowers_resolveScalar.bind ?_
  intro base s1 w1 _ _ _
  refine .ite (fun _ => ?_) fun _ => ?_
  · exact .pure ⟨nofun, nofun⟩
  split
  · exact .fail
  refine .otherwise fun _ => ?_
  refine .otherwise fun _ => ?_
  refine (lowers_mapM ?_ fun dim _ s w =>
    lowers_boundedDim).bind ?_
  · exact fun _ _ _ hle hd v hv => (hd v hv).mono hle
  · exact fun dims s2 w2 _ _ hdims => lowers_arrayType hdims

/-! ### Array literals in fixed arrays -/

/-- A path of indices leads from a value of a type to a part of another type. -/
def LeadsTo (base : Ty) (path : List Value) (ty : Ty) : Prop :=
  ∀ (m : Module) (rest : List Value), m.elementTy? base (path ++ rest) = m.elementTy? ty rest

theorem LeadsTo.snoc {base : Ty} {len : Nat} (h : LeadsTo base path (.array elem len)) (i : Value) :
    LeadsTo base (path ++ [i]) elem := by
  intro m rest
  rw [append_assoc, h m ([i] ++ rest)]
  simp only [cons_append, nil_append, Module.elementTy?]

theorem lowers_storeAt (e : Spanned Expr) (hbase : w.Val base .ptr)
    (hpath : ∀ i ∈ path, w.IntVal i) (hleads : LeadsTo baseTy path elem) : Lowers env (do
      let v ← lower e
      let v ← coerce v elem .arrayElement e.span
      let ptr ← Build.gep baseTy base (Build.int32 0 :: path)
      Build.store v ptr) s w fun _ _ => True := by
  refine lowers_lower.bind ?_
  intro v s1 w1 hle1 _ hv
  refine (lowers_coerce hv).bind ?_
  intro v s2 w2 hle2 _ hv
  have hle := le_trans hle1 hle2
  refine (Lowers.lift (emits_gep (t := elem) (hbase.mono hle) ?_ ?_)).bind ?_
  · intro i hi
    rcases mem_cons.mp hi with rfl | hi
    · exact (val_int32 0).int
    · exact (hpath i hi).mono hle
  · intro found hfound
    have hleads := hleads w2.builder.module []
    rw [append_nil] at hleads
    rw [drop_succ_cons, drop_zero, hleads] at hfound
    simpa only [Module.elementTy?, Option.some.injEq, eq_comm] using hfound
  · rintro ptr s3 w3 hle3 _ ⟨hptr, _⟩
    exact .lift (emits_store (hv.mono hle3) hptr)

theorem lowers_fillFixed (elems : List (Spanned Expr)) (span : Span)
    (hbase : w.Val base .ptr) (hpath : ∀ i ∈ path, w.IntVal i) (hleads : LeadsTo baseTy path ty) :
    Lowers env (fillFixed base baseTy ty path elems span) s w fun _ _ => True := by
  induction ty generalizing path elems span s w with
  | array elem len ih =>
    rw [fillFixed]
    split
    · exact .fail
    refine lowers_forM ?_
    rintro ⟨e, i⟩ _ s1 w1 hle1
    have hpath' : ∀ v ∈ path ++ [int32 (Int64.ofNat i)], w1.IntVal v := by
      intro v hv
      rcases mem_append.mp hv with hv | hv
      · exact (hpath v hv).mono hle1
      · exact mem_singleton.mp hv ▸ (val_int32 _).int
    refine .ite (fun _ => ?_) fun _ => ?_
    · split
      · exact ih _ _ (hbase.mono hle1) hpath' (hleads.snoc _)
      · exact .fail
    · exact lowers_storeAt e (hbase.mono hle1) hpath' (hleads.snoc _)
  | _ => exact .fail

/-! ### Slots -/

theorem lowers_pointerValue {e : Spanned Expr} : Lowers env (pointerValue e context) s w fun v w' => w'.Val v .ptr := by
  refine lowers_lower.bind ?_
  intro v s1 w1 _ _ hv
  refine .ite (fun hptr => ?_) fun _ => .fail
  exact .pure ⟨hv, fun _ => isPtr_iff.mp hptr⟩

theorem SlotOk.plain (haddr : w.Addr slot.ptr slot.ty)
    (hshaped : ∀ shape, slot.array = some shape → slot.Shaped shape) (hextents : slot.extents = []) : SlotOk w slot :=
  ⟨haddr, hshaped, fun v hv => by rw [hextents] at hv; cases hv⟩

theorem emits_newSlot {array : Option ArrayShape} (hvalue : w.Val value ty) :
    Emits (newSlot value ty array) w fun slot w' => w'.Addr slot.ptr ty ∧ slot = ⟨slot.ptr, ty, array, []⟩ := by
  refine emits_alloca.bind ?_
  intro ptr w1 hle1 hptr
  refine (emits_store (hvalue.mono hle1) hptr).bind ?_
  intro _ w2 hle2 _
  exact .pure ⟨hptr.mono hle2, rfl⟩

theorem lowers_scalar (hvalue : w.Val value ty) :
    Lowers env (liftM (newSlot value ty none)) s w fun slot w' => SlotOk w' slot := by
  refine (Lowers.lift (emits_newSlot hvalue)).mono ?_
  rintro slot w' _ ⟨haddr, heq⟩
  rw [heq]
  exact .plain haddr nofun rfl

theorem lowers_buffer (hvalue : w.Val value .ptr) :
    Lowers env (liftM (newSlot value .ptr (some (.heap elem)))) s w fun slot w' => SlotOk w' slot := by
  refine (Lowers.lift (emits_newSlot hvalue)).mono ?_
  rintro slot w' _ ⟨haddr, heq⟩
  rw [heq]
  refine .plain haddr (fun shape hshape => ?_) rfl
  cases hshape
  exact ⟨rfl, rfl, Nat.zero_le 1⟩

section

variable (name : Spanned String)

section

variable (init : Option (Spanned Expr))

theorem lowers_inferredSlot : Lowers env (inferredSlot name init span) s w fun slot w' => SlotOk w' slot := by
  unfold inferredSlot
  split
  · exact .fail
  · refine (lowers_arrayLiteral none _ (operands_ok _)).bind ?_
    exact fun _ _ _ _ _ hbuffer => lowers_buffer hbuffer
  · refine lowers_lower.bind ?_
    intro value s1 w1 _ _ hvalue
    split
    · exact .fail
    · refine (lowers_coerce hvalue).bind ?_
      exact fun _ _ _ _ _ hvalue => lowers_scalar hvalue

theorem lowers_fixedSlot (hstack : shape.storage = .stack)
    (hshape : ∃ sizes, shape = .fixed shape.elem sizes ∧ ty = nestedTy shape.elem sizes) :
    Lowers env (fixedSlot name ty shape init) s w fun slot w' => SlotOk w' slot := by
  refine (Lowers.lift emits_alloca).bind ?_
  intro ptr s1 w1 _ _ hptr
  have hslot : ∀ w', w1 ≤ w' → SlotOk w' ⟨ptr, ty, some shape, []⟩ := by
    refine fun w' hle => .plain (hptr.mono hle) (fun found hfound => ?_) rfl
    cases hfound
    simpa only [Slot.Shaped, hstack] using hshape
  split
  · exact .pure (hslot w1 (le_refl w1))
  · refine (lowers_fillFixed _ _ hptr.val (forall_mem_nil _) fun _ _ => rfl).bind ?_
    exact fun _ _ w2 hle2 _ _ => .pure (hslot w2 hle2)
  · exact (Lowers.fail (Q := fun _ _ => False)).bind fun _ _ _ _ _ h => h.elim

theorem lowers_heapSlot {len : Option Value}
    (hshape : shape = .heap shape.elem) (hlen : ∀ v, len = some v → w.IntVal v) :
    Lowers env (heapSlot name shape len init) s w fun slot w' => SlotOk w' slot := by
  have hslot : ∀ (v : Value) (s' : State) (w' : Site H), w'.Val v .ptr →
      Lowers env (liftM (newSlot v .ptr (some shape))) s' w' fun slot w'' => SlotOk w'' slot := by
    intro v s' w' hv
    rw [hshape]
    exact lowers_buffer hv
  unfold heapSlot
  split
  · refine (lowers_arrayLiteral _ _ (operands_ok _)).bind ?_
    exact fun r s1 w1 _ _ hr => hslot r.1 s1 w1 hr
  · refine lowers_pointerValue.bind ?_
    exact fun v s1 w1 _ _ hv => hslot v s1 w1 hv
  · refine (Lowers.lift (emits_heapArray (hlen _ rfl))).bind ?_
    exact fun v s1 w1 _ _ hv => hslot v s1 w1 (hv .ptr).val
  · exact hslot _ s w val_null

end

theorem lowers_scalarSlot : Lowers env (scalarSlot name ty init) s w fun slot w' => SlotOk w' slot := by
  unfold scalarSlot
  split
  · exact (Lowers.fail (Q := fun _ _ => False)).bind fun _ _ _ _ _ h => h.elim
  · refine lowers_lower.bind ?_
    intro v s1 w1 _ _ hv
    refine (lowers_coerce hv).bind ?_
    exact fun _ _ _ _ _ hv => lowers_scalar hv
  · exact lowers_scalar (val_zero ty)

theorem lowers_objectSlot : Lowers env (objectSlot name struct init) s w fun slot w' => SlotOk w' slot := by
  refine .otherwise fun _ => ?_
  refine (Lowers.lift emits_alloca).bind ?_
  intro ptr s1 w1 _ _ hptr
  refine lowers_note.bind ?_
  exact fun _ _ w2 hle2 _ _ => .pure (.plain (hptr.mono hle2) nofun rfl)

theorem lowers_declaredSlot {t : Spanned TypeName} :
    Lowers env (declaredSlot name t init) s w fun slot w' => SlotOk w' slot := by
  refine lowers_resolveDeclared.bind ?_
  intro declared s1 w1 _ _ hdeclared
  split
  · exact .fail
  · exact lowers_objectSlot name
  · exact lowers_scalarSlot name
  · next shape harray _ _ =>
    split
    · next hstack =>
      refine lowers_fixedSlot name init hstack ?_
      rcases hdeclared.array shape harray with hfixed | ⟨hheap, _⟩
      · exact hfixed
      · rw [hheap] at hstack
        cases hstack
    · next hstack =>
      refine lowers_heapSlot name init ?_ hdeclared.len
      rcases hdeclared.array shape harray with ⟨sizes, hfixed, _⟩ | ⟨hheap, _⟩
      · rw [hfixed] at hstack
        exact absurd rfl hstack
      · exact hheap

end

/-! ### Assignment -/

theorem lowers_assignArray {value : Spanned Expr} (hslot : SlotOk w slot)
    (hshape : slot.array = some shape) : Lowers env (assignArray name slot shape value) s w fun _ _ => True := by
  have hptr : shape.storage ≠ .stack → w.Addr slot.ptr .ptr := by
    intro hstorage
    have hshaped := hslot.shaped shape hshape
    have hty : slot.ty = .ptr := by
      unfold Slot.Shaped at hshaped
      split at hshaped
      · contradiction
      · exact hshaped.2.1
      · exact hshaped.2.1
      · exact hshaped.2.1
    exact hty ▸ hslot.addr
  unfold assignArray
  split
  · exact lowers_fillFixed _ _ hslot.addr.val (forall_mem_nil _) fun _ _ => rfl
  · exact .fail
  · next hstorage =>
    refine (lowers_arrayLiteral _ _ (operands_ok _)).bind ?_
    intro r s1 w1 hle1 _ hr
    exact .lift (emits_store hr ((hptr hstorage).mono hle1))
  · next hstorage _ =>
    refine lowers_pointerValue.bind ?_
    intro v s1 w1 hle1 _ hv
    exact .lift (emits_store hv ((hptr hstorage).mono hle1))

theorem isByteSource_isInt (h : isByteSource ty = true) : ty.isInt = true := by
  cases ty with
  | int bits => rfl
  | _ => cases h

/-- The end of an assignment: a byte of a string is narrowed, and any other value converted to the
type of the place. -/
theorem lowers_storeInto {place : PlaceRef} {refused : Lower Value}
    (hplace : PlaceOk w place) (hvalue : w.Has value)
    (hrefused : ∀ (s : State) (w : Site H), Lowers env refused s w fun _ _ => False) : Lowers env (do
      let v ←
        if place.stringByte then
          if isByteSource value.ty then Build.intCast value .i8 true else refused
        else coerce value place.ty context span
      Build.store v place.ptr) s w fun _ _ => True := by
  have hstore : ∀ (v : Value) (s' : State) (w' : Site H), w ≤ w' → w'.Val v place.ty →
      Lowers env (liftM (Build.store v place.ptr)) s' w' fun _ _ => True :=
    fun v s' w' hle hv => .lift (emits_store hv (hplace.1.mono hle))
  refine .ite (fun hbyte => ?_) fun _ => ?_
  · refine .ite (fun hint => ?_) fun _ => ?_
    · refine (Lowers.lift (emits_intCast ⟨hvalue, fun _ => isByteSource_isInt hint⟩ rfl)).bind ?_
      intro v s1 w1 hle1 _ hv
      exact hstore v s1 w1 hle1 (hplace.2 hbyte ▸ hv)
    · exact (hrefused s w).bind fun _ _ _ _ _ h => h.elim
  · refine (lowers_coerce hvalue).bind ?_
    exact fun v s1 w1 hle1 _ hv => hstore v s1 w1 hle1 hv

section

variable (place : Spanned Place)

theorem lowers_assignPlace {value : Spanned Expr} : Lowers env (assignPlace place value) s w fun _ _ => True := by
  refine (lowers_lowerPlace .assign place.span place.node s w).bind ?_
  intro target s1 w1 _ _ htarget
  refine lowers_lower.bind ?_
  intro v s2 w2 hle2 _ hv
  exact lowers_storeInto (htarget.mono hle2) hv fun _ _ => .fail

theorem lowers_arrayPlace? : Lowers env (arrayPlace? place) s w fun r w' => ∀ name slot shape,
      r = some (name, slot, shape) → SlotOk w' slot ∧ slot.array = some shape := by
  unfold arrayPlace?
  split
  · refine lowers_lookup.bind ?_
    intro slot s1 w1 _ _ hslot
    refine .pure fun name slot' shape h => ?_
    obtain ⟨shape', harray, heq⟩ := Option.map_eq_some_iff.mp h
    cases heq
    exact ⟨hslot, harray⟩
  · exact .pure nofun

theorem lowers_assign {value : Spanned Expr} : Lowers env (assign place value) s w fun _ _ => True := by
  refine (lowers_arrayPlace? place).bind ?_
  intro r s1 w1 _ _ hr
  split
  · next name slot shape =>
    obtain ⟨hslot, hshape⟩ := hr name slot shape rfl
    exact lowers_assignArray hslot hshape
  · exact lowers_assignPlace place

end

theorem lowers_compoundAssign {op : BinOp} {place : Spanned Place} {value : Spanned Expr} :
    Lowers env (compoundAssign op place value span) s w fun _ _ => True := by
  refine .otherwise fun _ => ?_
  refine (lowers_lowerPlace .compound place.span place.node s w).bind ?_
  intro target s1 w1 _ _ htarget
  refine (Lowers.lift (emits_load htarget.1.val)).bind ?_
  rintro current s2 w2 hle2 _ ⟨hcurrent, _⟩
  refine lowers_lower.bind ?_
  intro rhs s3 w3 hle3 _ hrhs
  refine (lowers_binaryValues (hcurrent.mono hle3) hrhs).bind ?_
  intro result s4 w4 hle4 _ hresult
  refine .otherwise fun _ => ?_
  exact lowers_storeInto (((htarget.mono hle2).mono hle3).mono hle4) hresult fun _ _ => .fail

end Aero.Lowering
