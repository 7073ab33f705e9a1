import Aero.Proofs.Parallel.Expression

/-!
Statements on two sides at once. Inline code refers to variables in its own language, where names are not renamed; it
is left out unless the names stay as they are. Its functions in C or C++ are numbered over the whole module, and the
compiler sees those numbers, so such code is left out too unless the two sides agree on them.
-/

namespace Aero

open List

variable {inputs : List IR.Value} {lang name code struct compiler : String} {init step : Option (Spanned Expr)}
  {span : Span} {value e : Spanned Expr} {place : Spanned Place}

def isForeignLanguage (lang : String) : Bool := ["c", "cxx", "cpp", "c++"].contains lang

mutual

def Stmt.isNative : Stmt → Bool
  | .ifElse branches none => branchesNative branches
  | .ifElse branches (some ⟨other, _⟩) => branchesNative branches && other.isNative
  | .whileLoop _ ⟨body, _⟩ => body.isNative
  | .forLoop none _ _ ⟨body, _⟩ => body.isNative
  | .forLoop (some ⟨init, _⟩) _ _ ⟨body, _⟩ => init.isNative && body.isNative
  | .block ⟨body, _⟩ => body.isNative
  | .inline lang _ _ => !isForeignLanguage lang
  | .declare _ _ _ | .assign _ _ | .compoundAssign _ _ _ | .expr _ | .breakLoop | .ret _ => true

def StmtBlock.isNative : StmtBlock → Bool
  | ⟨stmts⟩ => stmtsNative stmts

def stmtsNative : List (Spanned Stmt) → Bool
  | [] => true
  | ⟨stmt, _⟩ :: rest => stmt.isNative && stmtsNative rest

def branchesNative : List Branch → Bool
  | [] => true
  | ⟨_, ⟨body, _⟩⟩ :: rest => body.isNative && branchesNative rest

end

def FnDef.isNative (f : FnDef) : Bool := f.body.node.isNative

def File.isNative (file : File) : Bool :=
  file.items.all fun item =>
    match item.node with
    | .fn f => f.isNative
    | .struct s => s.methods.all FnDef.isNative

namespace Lowering

open IR IR.Build

variable {g : Guise} {env : Env} {P : Common g.exact} {ty : Ty} {v v' : Value} {shape : ArrayShape}
  {arms arms' : List Arm} {context : Coercion} {body' body step' init' : Lower Unit} {merge : BlockId}

/-! ### Declared types -/

def Dim.Plain (X : Pairing) : Dim → Prop
  | .dynamic v => X.Plain v
  | _ => True

/-- A declared type has void neither as the type of elements nor within an array. -/
structure DeclaredType.Plain (X : Pairing) (t : DeclaredType) : Prop where
  ty : t.ty.isVoid = false → t.ty.hasVoid = false
  elem : ∀ shape, t.array = some shape → X.Firm shape.elem
  len : ∀ v ∈ t.len, X.Plain v

theorem literalDim?_rename (σ : String → String) (e : Expr) : literalDim? (e.rename σ) = literalDim? e := by
  cases e <;> rfl

theorem parallel_resolveDim {dim : ArrayDim} :
    Parallel g env P (resolveDim dim) (resolveDim (dim.rename g.names)) (Same (Dim.Plain g.toPairing)) := by
  cases dim with
  | unsized => exact Steady.pure trivial
  | sized size =>
    have hsize : literalDim? (size.map (.rename g.names)).node = literalDim? size.node :=
      literalDim?_rename _ _
    rw [ArrayDim.rename, resolveDim, resolveDim, hsize]
    split
    · exact Steady.pure trivial
    · refine parallel_lower.bind fun _ v v' _ hv => ?_
      rw [hv.ty_eq]
      refine .otherwise fun hint => ?_
      obtain ⟨rfl, hplain⟩ := hv.plain_of_ty Ty.isInt (by simpa using hint) rfl rfl
      split
      · exact Steady.pure hplain
      · exact .otherwise fun _ => Steady.pure trivial

theorem parallel_boundedDim (dim : ArrayDim) :
    Parallel g env P (boundedDim dim span) (boundedDim (dim.rename g.names) span) (Same (Dim.Plain g.toPairing)) := by
  refine .read_bind ?_
  refine parallel_resolveDim.bind_same fun _ dim _ hdim => ?_
  split
  · exact .otherwise fun _ => Steady.pure trivial
  · exact Steady.pure hdim

theorem hasVoid_foldr (elem : Ty) (sizes : List Nat) :
    (sizes.foldr (fun n ty => Ty.array ty n) elem).hasVoid = elem.hasVoid := by
  induction sizes with
  | nil => rfl
  | cons n sizes ih => exact ih

theorem steady_arrayType {elem : Ty} (helem : elem.hasVoid = false) {dims : List Dim}
    (hdims : ∀ d ∈ dims, d.Plain g.toPairing) :
    Steady g env P (arrayType elem dims span) (Same (DeclaredType.Plain g.toPairing)) := by
  have hshape (shape : ArrayShape) (h : shape.elem = elem) : ∀ other, some shape = some other → g.Firm other.elem := by
    intro other hother _
    obtain rfl := Option.some.inj hother
    exact h ▸ Ty.isVoid_of_not_hasVoid helem
  unfold arrayType
  split
  · next sizes _ =>
    exact .pure ⟨fun _ => (hasVoid_foldr elem sizes).trans helem, hshape _ rfl, nofun⟩
  · next len _ =>
    refine .pure ⟨fun _ => rfl, hshape _ rfl, fun v hv => ?_⟩
    obtain rfl : len = v := Option.some.inj hv
    exact hdims (.dynamic len) mem_cons_self
  · exact .pure ⟨fun _ => rfl, hshape _ rfl, nofun⟩
  · exact .fail

theorem parallel_resolveDeclared {t : TypeName} :
    Parallel g env P (resolveDeclared t span) (resolveDeclared (t.rename g.names) span)
      (Same (DeclaredType.Plain g.toPairing)) := by
  have hempty : (t.rename g.names).dims.isEmpty = t.dims.isEmpty := isEmpty_map
  have hlength : (t.rename g.names).dims.length = t.dims.length := length_map _
  have hdims : ∀ P, Parallel g env P (t.dims.mapM (boundedDim · span))
      ((t.rename g.names).dims.mapM (boundedDim · span)) (Same fun dims => ∀ d ∈ dims, d.Plain g.toPairing) := by
    intro P
    rw [TypeName.rename, mapM_map]
    exact .mapM (fun _ => parallel_boundedDim)
  unfold resolveDeclared
  rw [hempty, hlength]
  refine .bind_same steady_resolveScalar fun _ base _ hbase => ?_
  refine .ite (fun _ => Steady.pure ?_) fun _ => ?_
  · exact ⟨fun h => hbase.hasVoid (Bool.eq_false_iff.mp h), fun _ h => (by cases h), fun _ h => by cases h⟩
  refine .otherwise fun _ => ?_
  refine .otherwise fun hvoid => ?_
  refine .otherwise fun _ => ?_
  exact (hdims _).bind_same fun _ dims _ hdims => steady_arrayType (hbase.hasVoid hvoid) hdims

/-! ### Slots -/

theorem renameAll_eq_map (σ : String → String) (es : List (Spanned Expr)) :
    renameAll σ es = es.map (Spanned.map (Expr.rename σ)) := by
  induction es with
  | nil => rfl
  | cons e es ih =>
    rw [renameAll, ih]
    rfl

theorem parallel_fillFixed {base : Value} {baseTy : Ty} {path : List Value} (hbase : g.Plain base)
    (hbaseTy : g.Firm baseTy)
    (hty : g.strict → ty.hasVoid = false) (hpath : ∀ i ∈ path, g.Plain i)
    (elems : List (Spanned Expr)) (span : Span) : Parallel g env P (fillFixed base baseTy ty path elems span)
      (fillFixed base baseTy ty path (renameAll g.names elems) span) Done := by
  induction ty generalizing path elems span P with
  | array elem len ih =>
    rw [renameAll_eq_map, fillFixed, fillFixed, length_map]
    refine .otherwise fun _ => ?_
    rw [zipIdx_map]
    refine .forM_map _ fun P p _ => ?_
    obtain ⟨e, i⟩ := p
    have hpath' : ∀ v ∈ path ++ [int32 (Int64.ofNat i)], g.Plain v := by
      intro v hv
      rcases mem_append.mp hv with hv | hv
      · exact hpath v hv
      · rw [mem_singleton.mp hv]
        exact Value.plain_int32
    refine .ite (fun _ => ?_) fun _ => ?_
    · obtain ⟨e, espan⟩ := e
      cases e with
      | array inner => exact ih hty hpath' inner espan
      | _ => exact .fail
    · have helem : g.Firm elem := fun hstrict => Ty.isVoid_of_not_hasVoid (hty hstrict)
      refine parallel_lower.bind fun _ v v' _ hv => ?_
      refine (parallel_coerce_alike hv helem .arrayElement e.span).bind fun _ v v' _ hv => ?_
      refine (Parallel.lift (mirrors_gep hbase.like
        (forall_mem_cons.mpr ⟨Value.plain_int32, hpath'⟩) hbaseTy)).bind_same fun _ ptr hle hptr => ?_
      exact .lift (mirrors_store (hv.mono hle) hptr.alike)
  | _ => exact .fail

theorem parallel_pointerValue : Parallel g env P (pointerValue e context)
      (pointerValue (e.map (Expr.rename g.names)) (context.rename g.names)) g.Alike := by
  refine parallel_lower.bind fun _ v v' _ hv => ?_
  rw [hv.ty_eq]
  refine .ite (fun hptr => ?_) fun _ => .fail
  exact .pure fun _ hle => ⟨hv.mono hle, g.firm_of_test _ hptr rfl⟩

theorem mirrors_newSlot (hv : g.Alike P v v') (hty : g.strict → ty.hasVoid = false)
    {array : Option ArrayShape} (harray : ∀ shape, array = some shape → g.Firm shape.elem) :
    Mirrors g.toPairing P (newSlot v ty array) (newSlot v' ty array) (Same (Slot.Plain g.toPairing)) := by
  have hfirm : g.Firm ty := fun hstrict => Ty.isVoid_of_not_hasVoid (hty hstrict)
  refine .bind_same (mirrors_alloca hfirm) fun _ ptr hle hptr => ?_
  refine (mirrors_store (hv.mono hle) hptr.alike).seq fun _ _ => ?_
  exact Mirrored.pure ⟨hptr, hty, harray, forall_mem_nil _⟩

theorem parallel_newBuffer (hv : g.Alike P v v') (helem : g.Firm shape.elem) :
    Parallel g env P (liftM (newSlot v .ptr (some shape))) (liftM (newSlot v' .ptr (some shape)))
      (Same (Slot.Plain g.toPairing)) :=
  .lift (mirrors_newSlot hv (fun _ => rfl) fun _ h => Option.some.inj h ▸ helem)

theorem parallel_newScalar (hv : v.Like P v') (hty : ty.hasVoid = false) :
    Parallel g env P (do
        let v ← coerce v ty context span
        newSlot v ty none)
      (do
        let v ← coerce v' ty (context.rename g.names) span
        newSlot v ty none) (Same (Slot.Plain g.toPairing)) :=
  (parallel_coerce_alike hv (fun _ => Ty.isVoid_of_not_hasVoid hty) context span).bind fun _ _ _ _ hv =>
    .lift (mirrors_newSlot hv (fun _ => hty) nofun)

theorem hasVoid_of_inferredType? {source : Ty} (h : inferredType? source = some ty) : ty.hasVoid = false := by
  unfold inferredType? at h
  split at h <;> cases h <;> rfl

abbrev renameInit (σ : String → String) (init : Option (Spanned Expr)) : Option (Spanned Expr) :=
  init.map (Spanned.map (Expr.rename σ))

section

variable (name : Spanned String)

theorem parallel_inferredSlot : Parallel g env P (inferredSlot name init span)
      (inferredSlot (name.map g.names) (renameInit g.names init) span) (Same (Slot.Plain g.toPairing)) := by
  cases init with
  | none => exact .fail
  | some init =>
    obtain ⟨e, espan⟩ := init
    cases e with
    | array elems =>
      exact (parallel_arrayLiteral none espan (operands_twins elems)).bind_same fun _ _ _ hp =>
        parallel_newBuffer hp.1.alike hp.2
    | _ =>
      refine parallel_lower.bind fun _ v v' _ hv => ?_
      rw [hv.ty_eq]
      cases hty : inferredType? v.ty with
      | none => exact .fail
      | some ty => exact parallel_newScalar hv (hasVoid_of_inferredType? hty)

theorem parallel_fixedSlot (hty : ty.hasVoid = false)
    (helem : g.Firm shape.elem) : Parallel g env P (fixedSlot name ty shape init)
      (fixedSlot (name.map g.names) ty shape (renameInit g.names init)) (Same (Slot.Plain g.toPairing)) := by
  have hfirm : g.Firm ty := fun _ => Ty.isVoid_of_not_hasVoid hty
  refine .bind_same (.lift (mirrors_alloca hfirm)) fun _ ptr _ hptr => ?_
  have hslot : ∀ P, Steady g env P
      (pure { ptr := ptr, ty := ty, array := some shape }) (Same (Slot.Plain g.toPairing)) :=
    fun _ => .pure ⟨hptr, fun _ => hty, fun _ h => Option.some.inj h ▸ helem, forall_mem_nil _⟩
  cases init with
  | none => exact hslot _
  | some init =>
    obtain ⟨e, espan⟩ := init
    cases e with
    | array elems =>
      exact (parallel_fillFixed hptr hfirm (fun _ => hty) (forall_mem_nil _) elems espan).seq fun P' _ => hslot P'
    | _ => exact (Parallel.fail (Q := Done)).seq fun P' _ => hslot P'

theorem parallel_heapSlot {len : Option Value} (helem : g.Firm shape.elem)
    (hlen : ∀ v ∈ len, g.Plain v) : Parallel g env P (heapSlot name shape len init)
      (heapSlot (name.map g.names) shape len (renameInit g.names init)) (Same (Slot.Plain g.toPairing)) := by
  cases init with
  | none =>
    cases len with
    | none => exact parallel_newBuffer Value.plain_null.alike helem
    | some len =>
      exact (Steady.lift (mirrors_heapArray (hlen _ rfl))).bind_same fun _ _ _ hbuffer =>
        parallel_newBuffer hbuffer.alike helem
  | some init =>
    obtain ⟨e, espan⟩ := init
    cases e with
    | array elems =>
      exact (parallel_arrayLiteral _ espan (operands_twins elems)).bind_same fun _ _ _ hp =>
        parallel_newBuffer hp.1.alike helem
    | _ =>
      exact parallel_pointerValue.bind fun _ _ _ _ hv =>
        parallel_newBuffer hv helem

theorem parallel_scalarSlot (hty : ty.hasVoid = false) :
    Parallel g env P (scalarSlot name ty init) (scalarSlot (name.map g.names) ty (renameInit g.names init))
      (Same (Slot.Plain g.toPairing)) := by
  have hslot : ∀ {P : Common g.exact} {v v' : Value}, g.Alike P v v' →
      Parallel g env P (liftM (newSlot v ty none)) (liftM (newSlot v' ty none)) (Same (Slot.Plain g.toPairing)) :=
    fun hv => .lift (mirrors_newSlot hv (fun _ => hty) nofun)
  cases init with
  | none => exact hslot (Value.plain_zero fun _ => Ty.isVoid_of_not_hasVoid hty).alike
  | some init =>
    obtain ⟨e, espan⟩ := init
    cases e with
    | array elems =>
      exact (Parallel.fail).bind fun _ _ _ _ => hslot
    | _ =>
      refine parallel_lower.bind fun _ v v' _ hv => ?_
      exact parallel_newScalar hv hty

theorem parallel_objectSlot : Parallel g env P (objectSlot name struct init)
      (objectSlot (name.map g.names) struct (renameInit g.names init)) (Same (Slot.Plain g.toPairing)) := by
  unfold objectSlot
  rw [Option.isSome_map]
  refine .otherwise fun _ => ?_
  refine .bind_same (.lift (mirrors_alloca fun _ => rfl)) fun _ ptr _ hptr => ?_
  exact parallel_note.seq fun _ _ =>
    Steady.pure ⟨hptr, fun _ => rfl, nofun, forall_mem_nil _⟩

theorem parallel_declaredSlot {t : Spanned TypeName} : Parallel g env P (declaredSlot name t init)
      (declaredSlot (name.map g.names) (t.map (TypeName.rename g.names)) (renameInit g.names init))
      (Same (Slot.Plain g.toPairing)) := by
  refine parallel_resolveDeclared.bind_same fun _ declared _ hdeclared => ?_
  split
  · exact .fail
  · exact parallel_objectSlot name
  · next hvoid _ => exact parallel_scalarSlot name (hdeclared.ty (decide_eq_false hvoid))
  · next shape hshape hvoid _ =>
    have helem := hdeclared.elem shape hshape
    exact .ite (fun _ => parallel_fixedSlot name (hdeclared.ty (decide_eq_false hvoid)) helem)
      fun _ => parallel_heapSlot name helem hdeclared.len

theorem parallel_declareVariable {ty : Option (Spanned TypeName)} : Parallel g env P (declareVariable name ty init span)
      (declareVariable (name.map g.names) (ty.map (Spanned.map (TypeName.rename g.names)))
        (renameInit g.names init) span) Done (.declares name.node) := by
  have hdeclare : ∀ {P : Common g.exact} {slot : Slot}, slot.Plain g.toPairing → Parallel g env P (do
        note .trace ("declare " ++ name.node ++ ": " ++ slot.ty.text)
        update fun s => { s with scopes := (s.scopes.declare? name.node slot).getD s.scopes })
      (do
        note .trace ("declare " ++ g.names name.node ++ ": " ++ slot.ty.text)
        update fun s => { s with scopes := (s.scopes.declare? (g.names name.node) slot).getD s.scopes }) Done
        (.declares name.node) := by
    intro P slot hslot
    refine parallel_note.seq fun _ _ => ⟨fun s t hlike _ =>
      ⟨hlike.setScopes ?_ ?_, ⟨⟨slot, rfl⟩, rfl⟩, trivial⟩⟩
    · rw [hlike.scopes_eq, Scopes.declare?_rename]
      cases s.scopes.declare? name.node slot <;> rfl
    · cases hfound : s.scopes.declare? name.node slot with
      | none => exact hlike.plain
      | some scopes => exact hlike.plain.declare? hslot hfound
  refine .state_bind fun s t hlike _ => ?_
  have hhere : t.scopes.isDeclaredHere (g.names name.node) = s.scopes.isDeclaredHere name.node := by
    rw [hlike.scopes_eq, Scopes.isDeclaredHere_rename]
  change Parallel g env _ (if _ then _ else _) (if t.scopes.isDeclaredHere (g.names name.node) = true then _ else _) _ _
  rw [hhere]
  refine .otherwise fun _ => ?_
  have htype : (ty.map (.map (.rename g.names))).filter (!·.node.isAuto) =
      (ty.filter (!·.node.isAuto)).map (Spanned.map (TypeName.rename g.names)) := Option.filter_map
  rw [htype]
  cases ty.filter (!·.node.isAuto) with
  | none =>
    exact (parallel_inferredSlot name).bind_same fun _ _ _ hslot => hdeclare hslot
  | some t =>
    exact (parallel_declaredSlot name).bind_same fun _ _ _ hslot => hdeclare hslot

end

/-! ### Assignment -/

theorem parallel_assignArray {slot : Slot} (hslot : slot.Plain g.toPairing) :
    Parallel g env P (assignArray name slot shape value)
      (assignArray (g.names name) slot shape (value.map (Expr.rename g.names))) Done := by
  have hstore : ∀ {P : Common g.exact} {v v' : Value}, g.Alike P v v' →
      Parallel g env P (liftM (Build.store v slot.ptr)) (liftM (Build.store v' slot.ptr)) Done :=
    fun hv => .lift (mirrors_store hv hslot.ptr.alike)
  obtain ⟨e, espan⟩ := value
  obtain ⟨elem, dims, storage⟩ := shape
  cases e with
  | array elems =>
    cases storage with
    | stack => exact parallel_fillFixed hslot.ptr hslot.firm hslot.ty (forall_mem_nil _) elems espan
    | _ =>
      exact (parallel_arrayLiteral _ espan (operands_twins elems)).bind_same fun _ _ _ hp =>
        hstore hp.1.alike
  | _ =>
    cases storage with
    | stack => exact .fail
    | _ => exact parallel_pointerValue.bind fun _ _ _ _ => hstore

/-- The value that a place takes, and its storing. -/
theorem parallel_storePlace {target : PlaceRef} (htarget : target.Plain g.toPairing) (hv : v.Like P v')
    {refused : Problem} : Parallel g env P (do
        let v ←
          if target.stringByte then
            if isByteSource v.ty then Build.intCast v .i8 true else fail refused span
          else coerce v target.ty context span
        Build.store v target.ptr)
      (do
        let v ←
          if target.stringByte then
            if isByteSource v'.ty then Build.intCast v' .i8 true else fail (refused.rename g.names) span
          else coerce v' target.ty (context.rename g.names) span
        Build.store v target.ptr) Done := by
  have hstore : ∀ {P : Common g.exact} {v v' : Value}, g.Alike P v v' →
      Parallel g env P (liftM (Build.store v target.ptr)) (liftM (Build.store v' target.ptr)) Done :=
    fun hv => .lift (mirrors_store hv htarget.ptr.alike)
  rw [hv.ty_eq]
  refine .ite (fun _ => .ite (fun hbyte => ?_) fun _ => ?_) fun _ => ?_
  · obtain ⟨rfl, hplain⟩ := hv.plain_of_ty _ hbyte rfl rfl
    exact (Steady.lift (mirrors_intCast hplain _ _)).bind_same fun _ _ _ hv => hstore hv.alike
  · exact (Parallel.fail).bind fun _ _ _ _ hv => hstore hv
  · exact (parallel_coerce_alike hv htarget.ty _ _).bind fun _ _ _ _ hv => hstore hv

theorem assignmentContext_rename (σ : String → String) (p : Place) :
    assignmentContext (p.rename σ) = (assignmentContext p).rename σ := by
  cases p <;> rfl

theorem parallel_assignPlace : Parallel g env P (assignPlace place value)
      (assignPlace (place.map (Place.rename g.names)) (value.map (Expr.rename g.names))) Done := by
  have hcontext : assignmentContext (place.map (.rename g.names)).node =
      (assignmentContext place.node).rename g.names := assignmentContext_rename _ _
  unfold assignPlace
  rw [hcontext]
  refine (parallel_lowerPlace .assign place.span place.node P).bind_same fun _ target _ htarget => ?_
  refine parallel_lower.bind fun _ v v' _ hv => ?_
  exact parallel_storePlace htarget hv

theorem parallel_assign : Parallel g env P (assign place value)
      (assign (place.map (Place.rename g.names)) (value.map (Expr.rename g.names))) Done := by
  obtain ⟨p, pspan⟩ := place
  cases p with
  | var name =>
    simp only [assign, arrayPlace?, Spanned.map, Place.rename, bind_assoc]
    refine parallel_lookup.bind_same fun _ slot _ hslot => ?_
    cases slot.array with
    | none => exact parallel_assignPlace
    | some shape => exact parallel_assignArray hslot
  | field object field =>
    obtain ⟨object, ospan⟩ := object
    exact parallel_assignPlace
  | index base indices =>
    obtain ⟨base, bspan⟩ := base
    exact parallel_assignPlace

theorem parallel_compoundAssign {op : BinOp} : Parallel g env P (compoundAssign op place value span)
      (compoundAssign op (place.map (Place.rename g.names)) (value.map (Expr.rename g.names)) span) Done := by
  refine .otherwise fun _ => ?_
  refine (parallel_lowerPlace .compound place.span place.node P).bind_same fun _ target _ htarget => ?_
  refine .bind_same (.lift (mirrors_load htarget.ptr.alike htarget.ty)) fun _ current _ hcurrent => ?_
  refine parallel_lower.bind fun _ rhs rhs' _ hrhs => ?_
  refine (parallel_binaryValues hcurrent.like hrhs).bind_same fun _ result _ hresult => ?_
  refine .otherwise fun _ => ?_
  exact parallel_storePlace htarget hresult.like

/-! ### Branches and loops -/

/-- The branch on the other side. -/
structure Arm.Twin (g : Guise) (env : Env) (arm arm' : Arm) : Prop where
  guard : ∀ P, Parallel g env P arm.guard arm'.guard (Same g.Plain)
  body : ∀ P, Parallel g env P arm.body arm'.body Done

abbrev ArmTwins (g : Guise) (env : Env) : List Arm → List Arm → Prop := List.Forall₂ (Arm.Twin g env)

theorem steady_joinAt : Steady g env P (joinAt merge) (Same fun _ => True) :=
  steady_isTerminated.bind_same fun _ _ _ _ => .ite (fun _ => .pure trivial) fun _ =>
    (Steady.lift mirrors_br).seq fun _ _ => .pure trivial

theorem parallel_lowerArm {arm arm' : Arm} (h : arm.Twin g env arm') (blocks : ArmBlocks) (next merge : BlockId) :
    Parallel g env P (lowerArm arm blocks next merge) (lowerArm arm' blocks next merge) (Same fun _ => True) := by
  refine .seq (.lift mirrors_position) fun P1 _ => ?_
  refine (h.guard P1).bind_same fun _ c _ hc => ?_
  refine .seq (.lift (mirrors_condBr hc.like)) fun _ _ => ?_
  refine .seq (.lift mirrors_position) fun P4 _ => ?_
  exact (h.body P4).seq fun _ _ => steady_joinAt

/-- New blocks for some branches from a position on. -/
def blocksFrom : Nat → Nat → Build (List ArmBlocks)
  | _, 0 => pure []
  | i, n + 1 => do
      let blocks ← armBlocks i
      return blocks :: (← blocksFrom (i + 1) n)

theorem armsBlocks_eq (i : Nat) (arms : List Arm) :
    armsBlocks i arms = (do return arms.zip (← blocksFrom i arms.length)) := by
  induction arms generalizing i with
  | nil => rfl
  | cons arm arms ih =>
    simp only [armsBlocks, length_cons, blocksFrom, ih, bind_assoc, pure_bind, zip_cons_cons]

theorem mirrors_blocksFrom (i n : Nat) : Mirrored g.toPairing P (blocksFrom i n) (Same fun _ => True) := by
  induction n generalizing i P with
  | zero => exact .pure trivial
  | succ n ih =>
    have hblocks : Mirrored g.toPairing P (armBlocks i) (Same fun _ => True) :=
      (mirrors_appendBlock _).bind_same fun _ _ _ _ =>
        (mirrors_appendBlock _).bind_same fun _ _ _ _ => .pure trivial
    exact hblocks.bind_same fun _ _ _ _ => (ih (i + 1)).bind_same fun _ _ _ _ => .pure trivial

theorem parallel_lowerArms (other merge : BlockId) (h : ArmTwins g env arms arms') (blocks : List ArmBlocks) :
    Parallel g env P (lowerArms other merge (arms.zip blocks)) (lowerArms other merge (arms'.zip blocks))
      (Same fun _ => True) := by
  induction h generalizing blocks P with
  | nil => exact Steady.pure trivial
  | @cons arm arm' arms arms' harm harms ih =>
    cases blocks with
    | nil => exact Steady.pure trivial
    | cons first blocks =>
      have hnext : (arms'.zip blocks).head?.map (·.2.guard) = (arms.zip blocks).head?.map (·.2.guard) := by
        cases harms <;> cases blocks <;> rfl
      rw [zip_cons_cons, zip_cons_cons, lowerArms, lowerArms, hnext]
      refine (parallel_lowerArm harm first _ merge).bind_same fun _ _ _ _ => ?_
      exact (ih blocks).bind_same fun _ _ _ _ => Steady.pure trivial

theorem mirrors_elseBlock? (present : Bool) : Mirrored g.toPairing P (elseBlock? present) (Same fun _ => True) := by
  refine .ite (fun _ => ?_) fun _ => .pure trivial
  exact (mirrors_appendBlock "else").bind_same fun _ _ _ _ => .pure trivial

theorem parallel_enterArms (h : ArmTwins g env arms arms') {blocks : List ArmBlocks} :
    Parallel g env P (liftM (enterArms (arms.zip blocks))) (liftM (enterArms (arms'.zip blocks))) Done := by
  cases h with
  | nil => exact .lift Mirrored.done
  | cons _ _ =>
    cases blocks with
    | nil => exact .lift Mirrored.done
    | cons _ _ => exact .lift mirrors_br

/-- The optional part on the other side. -/
inductive OptionTwin {α : Type} (g : Guise) (env : Env) (Q : Common g.exact → α → α → Prop) :
    Option (Lower α) → Option (Lower α) → Prop
  | none : OptionTwin g env Q none none
  | some {act act' : Lower α} (h : ∀ P, Parallel g env P act act' Q) : OptionTwin g env Q (some act) (some act')

theorem parallel_lowerElse {other other' : Option (Lower Unit)} (h : OptionTwin g env Done other other')
    {block : Option BlockId} :
    Parallel g env P (lowerElse other block merge) (lowerElse other' block merge) (Same fun _ => True) := by
  cases h with
  | none => exact Steady.pure trivial
  | some h =>
    cases block with
    | none => exact Steady.pure trivial
    | some block =>
      refine .seq (.lift mirrors_position) fun P1 _ => ?_
      exact (h P1).seq fun _ _ => steady_joinAt

theorem steady_mergeAt {joins : Bool} : Steady g env P (mergeAt merge joins) Done :=
  .ite (fun _ => (Steady.lift mirrors_moveBlockToEnd).seq fun _ _ =>
      .lift mirrors_position)
    fun _ => steady_note.seq fun _ _ => .lift mirrors_eraseBlock

theorem parallel_ifElse (h : ArmTwins g env arms arms') {other other' : Option (Lower Unit)}
    (hother : OptionTwin g env Done other other') :
    Parallel g env P (ifElse arms other) (ifElse arms' other') Done := by
  have hsome : other'.isSome = other.isSome := by cases hother <;> rfl
  unfold ifElse
  rw [armsBlocks_eq, armsBlocks_eq, ← h.length_eq, hsome]
  simp only [liftM_bind, liftM_pure, bind_assoc, pure_bind]
  refine .bind_same (.lift (mirrors_blocksFrom 0 _)) fun _ blocks _ _ => ?_
  refine .bind_same (.lift (mirrors_elseBlock? _)) fun _ elseBlock _ _ => ?_
  refine .bind_same (.lift (mirrors_appendBlock "ifcont")) fun _ merge _ _ => ?_
  refine (parallel_enterArms h).seq fun _ _ => ?_
  refine (parallel_lowerArms _ merge h blocks).bind_same fun _ armsJoin _ _ => ?_
  refine (parallel_lowerElse hother).bind_same fun _ elseJoins _ _ => ?_
  exact steady_mergeAt

theorem parallel_whileLoop {guard guard' : Lower Value}
    (hguard : ∀ P, Parallel g env P guard guard' (Same g.Plain)) (hbody : ∀ P, Parallel g env P body body' Done) :
    Parallel g env P (whileLoop guard body) (whileLoop guard' body') Done := by
  refine .bind_same (.lift (mirrors_appendBlock _)) fun _ header _ _ => ?_
  refine .bind_same (.lift (mirrors_appendBlock _)) fun _ bodyBlock _ _ => ?_
  refine .bind_same (.lift (mirrors_appendBlock _)) fun _ exit _ _ => ?_
  refine .seq (.lift mirrors_br) fun _ _ => ?_
  refine .seq (.lift mirrors_position) fun P5 _ => ?_
  refine (hguard P5).bind_same fun _ c _ hc => ?_
  refine .seq (.lift (mirrors_condBr hc.like)) fun _ _ => ?_
  refine .seq (.lift mirrors_position) fun P8 _ => ?_
  refine (parallel_withLoopExit (hbody P8)).seq fun _ _ => ?_
  refine (Steady.lift mirrors_br).seq fun _ _ => ?_
  refine (Steady.lift mirrors_moveBlockToEnd).seq fun _ _ => ?_
  exact .lift mirrors_position

theorem parallel_enterBody {guard guard' : Option (Lower Value)}
    (h : OptionTwin g env (Same g.Plain) guard guard') {body exit : BlockId} :
    Parallel g env P (enterBody guard body exit) (enterBody guard' body exit) Done := by
  cases h with
  | none => exact .lift mirrors_br
  | some h =>
    exact (h P).bind_same fun _ _ _ hc => .lift (mirrors_condBr hc.like)

theorem parallel_stepLoop {step : Lower Unit} {guard guard' : Option (Lower Value)}
    (hguard : OptionTwin g env (Same g.Plain) guard guard')
    (hstep : ∀ P, Parallel g env P step step' Done) (hbody : ∀ P, Parallel g env P body body' Done) :
    Parallel g env P (stepLoop guard step body) (stepLoop guard' step' body') Done := by
  refine .bind_same (.lift (mirrors_appendBlock _)) fun _ header _ _ => ?_
  refine .bind_same (.lift (mirrors_appendBlock _)) fun _ bodyBlock _ _ => ?_
  refine .bind_same (.lift (mirrors_appendBlock _)) fun _ increment _ _ => ?_
  refine .bind_same (.lift (mirrors_appendBlock _)) fun _ exit _ _ => ?_
  refine .seq (.lift mirrors_br) fun _ _ => ?_
  refine .seq (.lift mirrors_position) fun _ _ => ?_
  refine (parallel_enterBody hguard).seq fun _ _ => ?_
  refine .seq (.lift mirrors_position) fun P8 _ => ?_
  refine (parallel_withLoopExit (hbody P8)).seq fun _ _ => ?_
  refine .seq (.lift mirrors_br) fun _ _ => ?_
  refine .seq (.lift mirrors_moveBlockToEnd) fun _ _ => ?_
  refine .seq (.lift mirrors_position) fun P12 _ => ?_
  refine (hstep P12).seq fun _ _ => ?_
  refine (Steady.lift mirrors_br).seq fun _ _ => ?_
  refine (Steady.lift mirrors_moveBlockToEnd).seq fun _ _ => ?_
  exact .lift mirrors_position

theorem parallel_forLoop {init step : Lower Unit} {guard guard' : Option (Lower Value)}
    (hinit : ∀ P, Parallel g env P init init' Done .innermost) (hguard : OptionTwin g env (Same g.Plain) guard guard')
    (hstep : ∀ P, Parallel g env P step step' Done) (hbody : ∀ P, Parallel g env P body body' Done) :
    Parallel g env P (forLoop init guard step body) (forLoop init' guard' step' body') Done :=
  parallel_withScope ((hinit P).seq_innermost fun _ _ => (parallel_stepLoop hguard hstep hbody).widen)

theorem steady_breakLoop : Steady g env P (breakLoop span) Done := by
  refine .state_bind fun s t hlike _ => ?_
  rw [hlike.loopExits_eq]
  split
  · exact .lift mirrors_br
  · exact .fail

/-! ### Inline code -/

theorem compilerFor?_eq_none (h : isForeignLanguage lang = false) (config : Config) :
    config.compilerFor? lang = none := by
  simp only [isForeignLanguage, contains_eq_mem, mem_cons,  decide_eq_false_iff_not, not_or] at h
  simp [Config.compilerFor?, h]

theorem parallel_inlineInput :
    Parallel g env P (inlineInput name span) (inlineInput (g.names name) span) (Same g.Plain) := by
  refine parallel_lookup.bind_same fun _ slot _ hslot => ?_
  exact .otherwise fun _ =>
    .lift (mirrors_load hslot.ptr.alike hslot.firm)

theorem steady_compileInline {file source : String} :
    Steady g env P (compileInline compiler file source span) (Same fun _ => True) := by
  refine steady_note.seq fun _ _ => .read_bind ?_
  split
  · exact .fail
  · exact .fail
  · exact .fail
  · exact .pure trivial

theorem steady_freshSymbol (hexact : g.exact) :
    Steady g env P (freshSymbol "__aero_inline") (Same fun symbol => ∃ n, symbol = inlineSymbol n) := by
  have hcount : Steady g env P (update fun s => { s with symbols := s.symbols + 1 }) Done := by
    refine ⟨fun s t hlike _ => ⟨⟨{ hlike with same := fun _ => ?_ }, g.refl hlike.builder, ⟨[], by simp⟩, rfl,
      ⟨rfl, rfl⟩, ⟨rfl, rfl⟩⟩, ⟨rfl, rfl⟩, trivial⟩⟩
    obtain ⟨hsymbols, hrequested⟩ := hlike.same hexact
    exact ⟨congrArg (· + 1) hsymbols, hrequested⟩
  refine hcount.seq fun _ _ => .state_bind fun s t hlike _ => ?_
  rw [(hlike.same hexact).1]
  exact Steady.pure ⟨s.symbols, rfl⟩

theorem mirrors_callForeign (hexact : g.exact) {unit : ForeignUnit} (hsymbol : ∀ p : Primitive, unit.symbol ≠ p.name)
    {ret : Inline.ReturnKind} (hinputs : ∀ v ∈ inputs, g.Plain v) :
    Mirrored g.toPairing P (do attachForeign unit; callForeign unit.symbol ret inputs) Done := by
  unfold callForeign
  rw [← bind_assoc]
  refine .seq (mirrors_follows (g.introduce hexact rfl rfl hsymbol)) fun _ _ => ?_
  refine .here fun b b' => ?_
  refine .bind_same (mirrors_call (g.declared hexact b b' _ hsymbol) (.of_plain hinputs)) fun _ result _ hresult => ?_
  split
  · exact (mirrors_intCast_any hresult).discard
  · exact (mirrors_intCast_any hresult).discard
  · exact (mirrors_intCast_any hresult).discard
  · exact Mirrored.done

theorem steady_foreignBlock (hexact : g.exact) {names : List String} (hinputs : ∀ v ∈ inputs, g.Plain v) :
    Steady g env P (foreignBlock lang compiler code names inputs span) Done := by
  refine (steady_freshSymbol hexact).bind_same fun _ symbol _ hsymbol => ?_
  obtain ⟨n, rfl⟩ := hsymbol
  refine steady_note.seq fun _ _ => ?_
  refine steady_compileInline.bind_same fun _ code _ _ => ?_
  exact .lift (mirrors_callForeign hexact (fun p => (inlineSymbol_ne n p).symm) hinputs)

theorem steady_inlineBlock (hnames : g.names = Equiv.refl String)
    (hlang : (!isForeignLanguage lang) = true ∨ g.exact) {volatile : Bool} :
    Steady g env P (inlineBlock lang code volatile span) Done := by
  have hinput (P : Common g.exact) (name : String) :
      Parallel g env P (inlineInput name span) (inlineInput name span) (Same g.Plain) := by
    have hsame : Parallel g env P _ (inlineInput (g.names name) span) (Same g.Plain) :=
      parallel_inlineInput
    rwa [hnames] at hsame
  refine (Parallel.mapM hinput).bind_same fun _ inputs _ hinputs => ?_
  refine .ite (fun _ => ?_) fun _ => .read_bind ?_
  · exact steady_note.seq fun _ _ => .lift (mirrors_inlineAsm hinputs)
  · rcases hlang with hlang | hexact
    · rw [compilerFor?_eq_none (by simpa using hlang)]
      exact .fail
    · split
      · exact steady_foreignBlock hexact hinputs
      · exact .fail

/-! ### Statements -/

theorem parallel_returnFrom {value : Option (Spanned Expr)} :
    Parallel g env P (returnFrom value span) (returnFrom (renameInit g.names value) span) Done := by
  refine .state_bind fun s t hlike _ => ?_
  rw [hlike.returnTy_eq]
  cases value with
  | none =>
    exact .ite (fun _ => .lift mirrors_retVoid) fun _ =>
      .lift (mirrors_ret (.plain (Value.bare_zero _)))
  | some e =>
    refine .otherwise fun _ => ?_
    refine parallel_lower.bind fun _ v v' _ hv => ?_
    exact (parallel_coerceReturn hv).bind fun _ _ _ _ hv => .lift (mirrors_ret hv)

theorem parallel_lowerStep : Parallel g env P (lowerStep step) (lowerStep (renameInit g.names step)) Done := by
  cases step with
  | none => exact Steady.done
  | some e => exact parallel_lower.discard

theorem guards_twin (cond : Option (Spanned Expr)) :
    OptionTwin g env (Same g.Plain) (cond.map guard) ((renameInit g.names cond).map guard) := by
  cases cond with
  | none => exact .none
  | some e => exact .some fun _ => parallel_guard

/-- A guise lets code be lowered: it has no inline code, or the names stay as they are and inline code in C or C++
would show no difference. -/
def Guise.Admits (g : Guise) (isPure isNative : Bool) : Prop :=
  isPure = true ∨ g.names = Equiv.refl String ∧ (isNative = true ∨ g.exact)

theorem Guise.Admits.and {a b c d : Bool} (h : g.Admits (a && b) (c && d)) : g.Admits a c ∧ g.Admits b d := by
  rcases h with h | ⟨hnames, h⟩
  · rw [Bool.and_eq_true] at h
    exact ⟨.inl h.1, .inl h.2⟩
  · rw [Bool.and_eq_true] at h
    exact ⟨.inr ⟨hnames, h.imp_left And.left⟩, .inr ⟨hnames, h.imp_left And.right⟩⟩

/-- Of all statements only declarations reach into the scopes. -/
def stmtReach : Stmt → Reach
  | .declare name _ _ => .declares name.node
  | _ => .nothing

mutual

theorem parallel_lowerStmt (span : Span) : ∀ stmt, g.Admits stmt.isPure stmt.isNative → ∀ P,
    Parallel g env P (lowerStmt span stmt) (lowerStmt span (stmt.rename g.names)) Done (stmtReach stmt)
  | .declare name ty init, _, P => by
      exact parallel_declareVariable name
  | .assign place value, _, P => by
      exact parallel_assign
  | .compoundAssign op place value, _, P => by
      exact parallel_compoundAssign
  | .expr e, _, P => by
      exact parallel_lower.discard
  | .ifElse branches none, h, P => by
      exact parallel_ifElse (branches_twins branches h) .none
  | .ifElse branches (some ⟨other, _⟩), h, P => by
      exact parallel_ifElse (branches_twins branches h.and.1) (.some (parallel_lowerBlock other h.and.2))
  | .whileLoop cond ⟨body, _⟩, h, P => by
      exact parallel_whileLoop (fun _ => parallel_guard) (parallel_lowerBlock body h)
  | .forLoop none cond step ⟨body, _⟩, h, P => by
      exact parallel_forLoop (fun _ => Parallel.widen Steady.done) (guards_twin cond) (fun _ => parallel_lowerStep)
        (parallel_lowerBlock body h)
  | .forLoop (some ⟨init, ispan⟩) cond step ⟨body, _⟩, h, P => by
      exact parallel_forLoop (fun P => (parallel_lowerStmt ispan init h.and.1 P).widen) (guards_twin cond)
        (fun _ => parallel_lowerStep) (parallel_lowerBlock body h.and.2)
  | .breakLoop, _, P => by
      exact steady_breakLoop
  | .ret value, _, P => by
      exact parallel_returnFrom
  | .block ⟨body, _⟩, h, P => by
      exact parallel_lowerBlock body h P
  | .inline lang code volatile, h, P => by
      rcases h with h | ⟨hnames, h⟩
      · cases h
      · exact steady_inlineBlock hnames h

theorem parallel_lowerBlock : ∀ block, g.Admits block.isPure block.isNative → ∀ P,
    Parallel g env P (lowerBlock block) (lowerBlock (block.rename g.names)) Done
  | ⟨stmts⟩, h, P => by
      exact parallel_withScope (parallel_lowerStmts stmts h P)

theorem parallel_lowerStmts : ∀ stmts, g.Admits (stmtsPure stmts) (stmtsNative stmts) →
    ∀ P, Parallel g env P (lowerStmts stmts) (lowerStmts (renameStmts g.names stmts)) Done .innermost
  | [], _, P => by
      exact Parallel.widen Steady.done
  | ⟨stmt, span⟩ :: rest, h, P => by
      refine Parallel.bind_same steady_isTerminated fun P1 _ _ _ => ?_
      refine Parallel.ite (fun _ => parallel_note.widen) fun _ => ?_
      exact (parallel_lowerStmt span stmt h.and.1 P1).widen.seq_innermost fun P2 _ =>
        parallel_lowerStmts rest h.and.2 P2

theorem branches_twins : ∀ branches, g.Admits (branchesPure branches) (branchesNative branches) →
    ArmTwins g env (lowerBranches branches) (lowerBranches (renameBranches g.names branches))
  | [], _ => by
      exact .nil
  | ⟨cond, ⟨body, _⟩⟩ :: rest, h => by
      exact .cons ⟨fun _ => parallel_guard, parallel_lowerBlock body h.and.1⟩ (branches_twins rest h.and.2)

end

end Lowering

end Aero
