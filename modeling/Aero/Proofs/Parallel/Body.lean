import Aero.Proofs.Parallel.Statement

/-!
Whole bodies on two sides at once, with the names of parameters of each side. A body that failed is dropped on both
sides. The entry of a program is code alone.
-/

namespace Aero.Lowering

open IR IR.Build List

variable {g : Guise} {env : Env} {P : Common g.exact} {s t : State} {values : List Value} {f : FnDef} {sig : FnSig}
  {X : Pairing}

def ParamSig.rename (σ : String → String) (p : ParamSig) : ParamSig := { p with name := σ p.name }

def FnSig.rename (σ : String → String) (sig : FnSig) : FnSig :=
  { sig with params := sig.params.map (ParamSig.rename σ) }

theorem FnSig.rename_id (sig : FnSig) : sig.rename id = sig := by
  have hparam : ParamSig.rename id = id := rfl
  rw [FnSig.rename, hparam, map_id]

/-- A parameter and its elements are not void, if a condition holds. -/
structure ParamSig.Firm (p : Prop) (q : ParamSig) : Prop where
  ty : p → q.ty.hasVoid = false
  elem : p → ∀ shape, q.array = some shape → shape.elem.isVoid = false

theorem mirrors_paramSlot {param : ParamSig} (hparam : param.Firm g.strict) {value : Value} {extents : List Value}
    (hvalue : g.Plain value) (hextents : ∀ v ∈ extents, g.Plain v) :
    Mirrored g.toPairing P (paramSlot param value extents) (Same (Slot.Plain g.toPairing)) := by
  refine .ite (fun _ => ?_) fun _ => ?_
  · exact .pure ⟨hvalue, hparam.ty, nofun, forall_mem_nil _⟩
  · refine .bind_same (mirrors_newSlot hvalue.alike hparam.ty fun shape hshape hstrict =>
      hparam.elem hstrict shape hshape) fun _ slot _ hslot => ?_
    exact .pure { hslot with extents := hextents }

theorem paramSpan_rename (σ : String → String) (f : FnDef) (sig : FnSig) (position : Nat) :
    paramSpan (f.rename σ) (sig.rename σ) position = paramSpan f sig position := by
  unfold paramSpan FnDef.rename FnSig.rename
  rw [length_map, length_map, getElem?_map]
  cases f.params[position - (sig.params.length - f.params.length)]? <;> rfl

theorem parallel_declareParams (f : FnDef) (sig : FnSig) (i : Nat) {params : List ParamSig}
    (hparams : ∀ q ∈ params, q.Firm g.strict) (hvalues : ∀ v ∈ values, g.Plain v) :
    Parallel g env P (declareParams f sig i params values)
      (declareParams (f.rename g.names) (sig.rename g.names) i (params.map (ParamSig.rename g.names)) values)
      Done .innermost := by
  induction params generalizing i values P with
  | nil =>
    have hend (f : FnDef) (sig : FnSig) : declareParams f sig i [] values = pure () := by
      cases values <;> rfl
    exact .widen Steady.done
  | cons param params ih =>
    cases values with
    | nil => exact .widen Steady.done
    | cons value values =>
      obtain ⟨hparam, hparams⟩ := forall_mem_cons.mp hparams
      obtain ⟨hvalue, hvalues⟩ := forall_mem_cons.mp hvalues
      rw [map_cons, declareParams, declareParams, paramSpan_rename]
      refine .bind_same (.lift (mirrors_paramSlot hparam hvalue fun v hv =>
        hvalues v (mem_of_mem_take hv))) fun _ slot _ hslot => ?_
      refine ⟨fun s t hlike hP => ?_⟩
      have hdeclare : t.scopes.declare? (param.rename g.names).name slot =
          (s.scopes.declare? param.name slot).map (.rename g.names) := by
        rw [hlike.scopes_eq]
        exact Scopes.declare?_rename _ _ _ _
      have houter := s.scopes.outer_declare? param.name slot
      cases hscopes : s.scopes.declare? param.name slot with
      | none =>
        simp only [bind_run, state, hscopes, hdeclare]
        exact (Parallel.fail).run s t hlike hP
      | some scopes =>
        rw [hscopes] at hdeclare houter
        simp only [bind_run, state, hscopes, hdeclare]
        have hadv := hlike.setScopes rfl (hlike.plain.declare? hslot hscopes)
        exact ((ih (i + 1) hparams fun v hv => hvalues v (mem_of_mem_drop hv)).run _ _ hadv.like
          (le_trans hP hadv.le)).after (.inr ⟨rfl, rfl⟩) hadv ⟨houter, rfl⟩

theorem parallel_fallThrough : Parallel g env P (fallThrough sig) (fallThrough (sig.rename g.names)) Done := by
  have hreturn : ∀ P, Steady g env P (if sig.ret.isVoid then Build.retVoid
      else do
        note .trace ("@" ++ sig.symbol ++ " falls through, returning zero")
        Build.ret (Build.zero sig.ret)) Done := fun P =>
    .ite (fun _ => .lift mirrors_retVoid) fun _ =>
      steady_note.seq fun _ _ => .lift (mirrors_ret (.plain (Value.bare_zero _)))
  refine .read_bind (.ite (fun _ => ?_) fun _ => ?_)
  · exact (Steady.lift mirrors_gcCollect).seq fun P _ => hreturn P
  · exact hreturn P

theorem parallel_lowerBody (hf : g.Admits f.isPure f.isNative)
    (hparams : ∀ q ∈ sig.params, q.Firm g.strict) (hvalues : ∀ v ∈ values, g.Plain v) :
    Parallel g env P (lowerBody f sig values) (lowerBody (f.rename g.names) (sig.rename g.names) values) Done
      .innermost := by
  have hstmts : (f.rename g.names).body.node.stmts = renameStmts g.names f.body.node.stmts := by
    cases hbody : f.body.node
    rw [FnDef.rename, Spanned.map, hbody, StmtBlock.rename]
  have hadmits : g.Admits (stmtsPure f.body.node.stmts) (stmtsNative f.body.node.stmts) := by
    cases hbody : f.body.node
    rwa [FnDef.isPure, FnDef.isNative, hbody] at hf
  unfold lowerBody
  rw [hstmts]
  refine (parallel_declareParams f sig 0 hparams hvalues).seq_innermost fun _ _ => ?_
  refine (parallel_lowerStmts _ hadmits _).seq_innermost fun _ _ => .widen (k := .nothing) ?_
  refine .bind_same steady_isTerminated fun _ _ _ _ => ?_
  exact .ite (fun _ => parallel_fallThrough) fun _ => Steady.done

theorem steady_lowerBody (hnames : g.names = Equiv.refl String) (hf : f.isNative = true ∨ g.exact)
    (hparams : ∀ q ∈ sig.params, q.Firm g.strict) (hvalues : ∀ v ∈ values, g.Plain v) :
    Steady g env P (lowerBody f sig values) Done .innermost := by
  have hbody : Parallel g env P (lowerBody f sig values) _ Done .innermost :=
    parallel_lowerBody (.inr ⟨hnames, hf⟩) hparams hvalues
  have hfn : f.rename (Equiv.refl String) = f := f.rename_id
  have hsig : sig.rename (Equiv.refl String) = sig := sig.rename_id
  rwa [hnames, hfn, hsig] at hbody

theorem plain_parameters (params : List Param) (hparams : ∀ p ∈ params, X.Firm p.ty) :
    ∀ v ∈ params.zipIdx.map fun p => Value.ofReg p.2 p.1.ty, X.Plain v := by
  intro v hv
  obtain ⟨p, hp, rfl⟩ := mem_map.mp hv
  exact Value.plain_ofReg (hparams p.1 (fst_mem_of_mem_zipIdx hp))

theorem State.Advance.discardBody {s' t' : State} (h : s.Advance g t s' t') :
    s.Advance g t { s' with builder := (discardBody s'.builder).2 }
      { t' with builder := (Build.discardBody t'.builder).2 } :=
  h.trans (h.like.setBuilder (g.discardBody _ _ h.like.builder).2)

/-! ### The entry -/

/-- The exit status is computed by code alone, and by the same code everywhere. -/
theorem exitStatus_code (entry : Option FnSig) : ∃ code : Build Value, exitStatus entry = liftM code ∧
      ∀ P : Common X.exact, (∀ sig, entry = some sig → P.declared sig.symbol) → Mirrored X P code (Same X.Bare) := by
  have hstatus : ∀ (n : Int64) (P : Common X.exact), Mirrored X P (Pure.pure (int32 n)) (Same X.Bare) :=
    fun _ _ => .pure (Value.plain_int32).bare
  have hnoted : ∀ (level : LogLevel) (message : String) (P : Common X.exact), Mirrored X P (do
      modify (·.note level message)
      Pure.pure (int32 1)) (Same X.Bare) := fun level message P =>
    mirrors_note.seq fun P' _ => hstatus 1 P'
  unfold exitStatus
  split
  · exact ⟨Pure.pure (int32 1), rfl, fun P _ => hstatus 1 P⟩
  · next sig =>
    split
    · exact ⟨_, rfl, fun P _ => hnoted .warn "user main takes parameters, not calling it" P⟩
    · have hcall : ∀ P : Common X.exact, (∀ sig', some sig = some sig' → P.declared sig'.symbol) →
          Mirrored X P (call sig.symbol []) (Same X.Bare) := fun P h =>
        mirrors_call (h sig rfl) .nil
      split
      · exact ⟨call sig.symbol [] >>= fun result => intCast result .i32 true, rfl, fun P h =>
          (hcall P h).bind_same fun _ _ _ hresult => .imp (mirrors_intCast_any hresult) fun _ h => h.1⟩
      · exact ⟨call sig.symbol [] >>= fun _ => Pure.pure (int32 0), rfl, fun P h =>
          (hcall P h).seq fun P' _ => hstatus 0 P'⟩
      · exact ⟨_, rfl, fun P h => (hcall P h).seq fun P' _ => hnoted _ _ P'⟩

/-- The code of the entry depends on what callers know of the user's. -/
theorem lowerEntry_code (env : Env) (userEntry : String) (known : Option FnSig) : ∃ code : Build Unit,
      (∀ s : State, s.functions.lookup "main" = known →
        lowerEntry userEntry env s = .ok () { s with builder := (code s.builder).2 }) ∧
      ∀ P : Common X.exact, (∀ sig, known = some sig → P.declared sig.symbol) → Mirrored X P code Done := by
  obtain ⟨status, hstatus, hmirrored⟩ := exitStatus_code (known.filter (·.symbol = userEntry))
  refine ⟨do cleanupAtExit; .ret (← status), fun s hknown => ?_, fun P hP => ?_⟩
  · change (exitStatus ((s.functions.lookup "main").filter (·.symbol = userEntry)) >>= fun v =>
      liftM (Build.ret v)) env { s with builder := (cleanupAtExit s.builder).2 } = _
    rw [hknown, hstatus]
    rfl
  · refine mirrors_cleanupAtExit.seq fun P' hle => ?_
    refine .bind_same (hmirrored P' fun sig hsig => ?_) fun _ _ _ hv => mirrors_ret (.plain hv)
    exact hle.declared _ (hP sig (Option.filter_eq_some_iff.mp hsig).1)

end Aero.Lowering
