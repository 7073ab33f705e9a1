import Aero.Proofs.Hygiene.Emission
import Aero.Proofs.Parallel.Body
import Aero.IR.Printer

/-!
The names of variables do not matter: a function whose parameters and variables are given other names, different ones
for different ones, is lowered to the same code. Nor does it matter what has been reported before.
-/

namespace Aero.Lowering

open IR IR.Build List

variable {α β : Type} {π : Equiv.Perm String} {mask : String → String} {env : Env} {s t s' t' : State} {f : FnDef}
  {struct : Option String} {sig sig' : FnSig} {Q : α → α → Prop} {name symbol : String}

/-! ### States -/

/-- Builders of one module are compared, with other names for variables and behind a mask. -/
def Guise.veiled (π : Equiv.Perm String) (mask : String → String) : Guise :=
  { Builder.twin mask with
    names := π
    mask := mask
    registers := .of_allows fun _ => trivial
    request := malloc_of_allows (X := Builder.twin mask) (fun _ => trivial) }

/-- Nothing is asked of what is in scope. -/
theorem Scopes.plain_veiled (scopes : Scopes) : scopes.All (Slot.Plain (Guise.veiled π mask).toPairing) :=
  fun _ _ _ _ => ⟨⟨.inl trivial, False.elim⟩, False.elim, fun _ _ => False.elim, fun _ _ => ⟨.inl trivial, False.elim⟩⟩

/-- A new name of a parameter, or of a length that goes with it, is hidden by the mask. -/
def Hides (π : Equiv.Perm String) (mask : String → String) : Prop :=
  ∀ name ending, mask (π name ++ ending) = mask (name ++ ending)

/-- Two states are still alike, and the same has been reported since. Functions may have been declared. -/
structure State.Progress (g : Guise) (s t s' t' : State) : Prop where
  like : s'.Like g t'
  reports : ∃ ds, s'.diagnostics = s.diagnostics ++ ds ∧ t'.diagnostics = t.diagnostics ++ ds

variable {g : Guise} {P : Common g.exact}

theorem State.Progress.refl (h : s.Like g t) : s.Progress g t s t := ⟨h, [], by simp⟩

theorem State.Progress.trans {s'' t'' : State} (h : s.Progress g t s' t') (h' : s'.Progress g t' s'' t'') :
    s.Progress g t s'' t'' := by
  obtain ⟨ds, hds, hds'⟩ := h.reports
  obtain ⟨es, hes, hes'⟩ := h'.reports
  exact ⟨h'.like, ds ++ es, by rw [hes, hds, append_assoc], by rw [hes', hds', append_assoc]⟩

def TwinEnds (g : Guise) (s t : State) (Q : α → α → Prop) :
    EStateM.Result Diagnostic State α → EStateM.Result Diagnostic State α → Prop
  | .ok a s', .ok a' t' => Q a a' ∧ s.Progress g t s' t'
  | .error d s', .error d' t' => g.Matches d d' ∧ s.Progress g t s' t'
  | _, _ => False

/-- From states that are alike, two actions end alike. -/
structure Twins (g : Guise) (env : Env) (act act' : Lower α) (Q : α → α → Prop) : Prop where
  run : ∀ s t : State, s.Like g t → TwinEnds g s t Q (act env s) (act' env t)

theorem TwinEnds.after {r r' : EStateM.Result Diagnostic State α} (h : s.Progress g t s' t')
    (hends : TwinEnds g s' t' Q r r') : TwinEnds g s t Q r r' := by
  cases r <;> cases r'
  · exact ⟨hends.1, h.trans hends.2⟩
  · exact hends.elim
  · exact hends.elim
  · exact ⟨hends.1, h.trans hends.2⟩

theorem TwinEnds.of_ended {k : Reach} {r r' : EStateM.Result Diagnostic State α}
    (h : Ended g s t (fun _ => Q) k r r') : TwinEnds g s t Q r r' := by
  cases r <;> cases r'
  · exact ⟨h.2.2, h.1.like, h.1.reports⟩
  · exact h.elim
  · exact h.elim
  · exact ⟨h.1, h.2.1.like, h.2.1.reports⟩

namespace Twins

variable {act act' : Lower α}

theorem pure {a a' : α} (h : Q a a') : Twins g env (Pure.pure a : Lower α) (Pure.pure a') Q :=
  ⟨fun _ _ hlike => ⟨h, .refl hlike⟩⟩

/-- What happens alike within a body happens alike between bodies. -/
theorem of_parallel (h : ∀ P, Parallel g env P act act' fun _ => Q) : Twins g env act act' Q :=
  ⟨fun s t hlike => .of_ended ((h _).run s t hlike (le_refl _))⟩

theorem bind {next next' : α → Lower β} {R : β → β → Prop} (hact : Twins g env act act' Q)
    (hnext : ∀ a a', Q a a' → Twins g env (next a) (next' a') R) : Twins g env (act >>= next) (act' >>= next') R := by
  refine ⟨fun s t hlike => ?_⟩
  have hrun := hact.run s t hlike
  rw [bind_run, bind_run]
  cases hres : act env s <;> cases hres' : act' env t <;> rw [hres, hres'] at hrun
  · exact ((hnext _ _ hrun.1).run _ _ hrun.2.like).after hrun.2
  · exact hrun.elim
  · exact hrun.elim
  · exact hrun

theorem state_bind {next next' : State → Lower α} (h : ∀ s t : State, s.Like g t → Twins g env (next s) (next' t) Q) :
    Twins g env (state >>= next) (state >>= next') Q := ⟨fun s t hlike => (h s t hlike).run s t hlike⟩

theorem read_bind {next next' : Env → Lower α} (h : Twins g env (next env) (next' env) Q) :
    Twins g env (read >>= next) (read >>= next') Q := ⟨h.run⟩

end Twins

/-! ### Signatures -/

section

variable (h : Hides π mask)
include h

theorem Hides.name_eq (name : String) : mask (π name) = mask name := by
  simpa using h name ""

theorem ParamSig.masked_rename (p : ParamSig) : (p.rename π).masked mask = p.masked mask := by
  rw [ParamSig.masked, ParamSig.masked, ParamSig.rename, h.name_eq]

theorem FnSig.masked_rename (sig : FnSig) : (sig.rename π).masked mask = sig.masked mask := by
  have hparams : (sig.params.map (.rename π)).map (.masked mask) = sig.params.map (ParamSig.masked mask) := by
    rw [map_map]
    exact map_congr_left fun p _ => ParamSig.masked_rename h p
  rw [FnSig.masked, FnSig.masked, FnSig.rename, hparams]

theorem ParamSig.params_rename (p : ParamSig) : (p.rename π).params.map (fun q => { q with name := mask q.name }) =
      p.params.map fun q => { q with name := mask q.name } := by
  have hname := h.name_eq p.name
  have hending := h p.name
  unfold ParamSig.params ParamSig.rename
  dsimp only
  split <;> simp only [map_cons, hname, hending]

theorem FnSig.declaration_rename (sig : FnSig) :
    (sig.rename π).declaration.masked mask = sig.declaration.masked mask := by
  have hparams : ((sig.params.map (.rename π)).flatMap ParamSig.params).map (fun q => { q with name := mask q.name }) =
        (sig.params.flatMap ParamSig.params).map fun q => { q with name := mask q.name } := by
    rw [flatMap_map, map_flatMap, map_flatMap]
    exact congrArg (List.flatMap · sig.params) (funext fun p => ParamSig.params_rename h p)
  rw [Function.masked, Function.masked, FnSig.declaration, FnSig.declaration, FnSig.rename, hparams]

end

theorem parallel_paramShape {t : TypeName} {span : Span} :
    Parallel g env P (paramShape t span) (paramShape (t.rename g.names) span) (Same fun _ => True) := by
  have hempty : (t.rename g.names).dims.isEmpty = t.dims.isEmpty := isEmpty_map
  have hlength : (t.rename g.names).dims.length = t.dims.length := length_map _
  unfold paramShape
  rw [hempty, hlength]
  refine .ite (fun _ => Steady.pure trivial) fun _ => ?_
  refine .otherwise fun _ => ?_
  exact .bind_same steady_resolveScalar fun _ _ _ _ => Steady.pure trivial

def Renamed {exact : Prop} (change : α → α) : Common exact → α → α → Prop := fun _ a a' => a' = change a

theorem parallel_paramSig {p : Binding} :
    Parallel g env P (paramSig p) (paramSig (p.rename g.names)) (Renamed (ParamSig.rename g.names)) := by
  refine parallel_paramShape.bind_same fun _ shape _ _ => ?_
  cases shape with
  | some shape => exact .pure fun _ _ => rfl
  | none =>
    refine .bind_same steady_resolveScalar fun _ ty _ _ => ?_
    cases ty.isVoid with
    | true => exact .fail
    | false => exact .pure fun _ _ => rfl

theorem parallel_paramSigs {params : List Binding} :
    Parallel g env P (params.mapM paramSig) ((params.map (Binding.rename g.names)).mapM paramSig)
      (Renamed (List.map (ParamSig.rename g.names))) := by
  induction params generalizing P with
  | nil => exact .pure fun _ _ => rfl
  | cons p params ih =>
    rw [map_cons, mapM_cons, mapM_cons]
    refine parallel_paramSig.bind fun _ q q' _ hq => ih.bind fun _ qs qs' _ hqs => ?_
    exact .pure fun _ _ => congrArg₂ List.cons hq hqs

theorem parallel_returnType {t : Option (Spanned TypeName)} :
    Parallel g env P (returnType name t) (returnType name (t.map (Spanned.map (TypeName.rename g.names))))
      (Same fun _ => True) := by
  cases t with
  | none => exact Steady.pure trivial
  | some t =>
    have harray : (t.map (TypeName.rename g.names)).node.isArray = t.node.isArray :=
      congrArg (!·) isEmpty_map
    change Parallel g env P (if _ then _ else _)
      (if (t.map (TypeName.rename g.names)).node.isArray = true then _ else _) _
    rw [harray]
    refine .otherwise fun _ => ?_
    refine .bind_same steady_resolveScalar fun _ ty _ _ => ?_
    exact .otherwise fun _ => Steady.pure trivial

theorem parallel_signature (hself : struct.isSome = true → g.names "self" = "self") :
    Parallel g env P (signature struct f symbol) (signature struct (f.rename g.names) symbol)
      (Renamed (FnSig.rename g.names)) := by
  have hobject : (struct.toList.map fun struct => ({ name := "self", ty := .struct struct } : ParamSig)).map
      (.rename g.names) = struct.toList.map fun struct => ({ name := "self", ty := .struct struct } : ParamSig) := by
    cases struct with
    | none => rfl
    | some struct => simp [ParamSig.rename, hself rfl]
  refine parallel_paramSigs.bind fun _ params params' _ hparams => ?_
  refine parallel_returnType.bind_same fun _ ret _ _ => ?_
  refine .pure fun _ _ => ?_
  rw [Renamed, FnSig.rename, map_append, hobject, show params' = params.map _ from hparams]

/-! ### Declarations -/

theorem nameProblem?_like (h : s.Like g t) (builtins : BuiltinTable) (struct : Option String) (name symbol : String) :
    nameProblem? builtins t struct name symbol = nameProblem? builtins s struct name symbol := by
  have hfunctions := congrArg Option.isSome (h.functions_eq name)
  have hmethods := congrArg Option.isSome (h.methods_eq symbol)
  rw [Option.isSome_map, Option.isSome_map] at hfunctions hmethods
  unfold nameProblem?
  rw [hfunctions, hmethods]

theorem nameProblem?_rename {builtins : BuiltinTable}
    {problem : Problem} (h : nameProblem? builtins s struct name symbol = some problem) (σ : String → String) :
    problem.rename σ = problem := by
  unfold nameProblem? at h
  split at h
  · split at h
    · obtain rfl := Option.some.inj h
      rfl
    · split at h
      · obtain rfl := Option.some.inj h
        rfl
      · cases h
  · split at h
    · obtain rfl := Option.some.inj h
      rfl
    · cases h

theorem lookup_snoc {table table' : List (String × FnSig)}
    (h : ∀ name, (table'.lookup name).map (FnSig.masked mask) = (table.lookup name).map (FnSig.masked mask))
    (hsig : sig'.masked mask = sig.masked mask) (key name : String) :
    ((table' ++ [(key, sig')]).lookup name).map (FnSig.masked mask) =
      ((table ++ [(key, sig)]).lookup name).map (FnSig.masked mask) := by
  have hentry : (List.lookup name [(key, sig')]).map (.masked mask) =
      (List.lookup name [(key, sig)]).map (FnSig.masked mask) := by
    rw [lookup_cons, lookup_cons]
    split
    · exact congrArg some hsig
    · rfl
  rw [lookup_append, lookup_append, Option.map_or, Option.map_or, h, hentry]

theorem twins_register (hhides : Hides π mask) :
    Twins (.veiled π mask) env (register struct name sig) (register struct name (sig.rename π)) fun _ _ => True := by
  have hsig := FnSig.masked_rename hhides sig
  cases struct with
  | some struct =>
    refine ⟨fun s t h => ⟨trivial, { h with
      builder := addMethod_twin h.builder _ _ _
      methods_eq := lookup_snoc h.methods_eq hsig sig.symbol
      methods := fun _ _ _ => trivial }, [], by simp⟩⟩
  | none =>
    refine ⟨fun s t h => ⟨trivial, { h with
      functions_eq := lookup_snoc h.functions_eq hsig name
      functions := fun _ _ _ => trivial
      methods := fun _ _ _ => trivial }, [], by simp⟩⟩

theorem twins_declareFunction (hhides : Hides π mask) (hself : struct.isSome = true → π "self" = "self") :
    Twins (.veiled π mask) env (declareFunction struct f) (declareFunction struct (f.rename π))
      fun sig sig' => sig' = sig.rename π := by
  refine .read_bind (.state_bind fun s t h => ?_)
  rw [nameProblem?_like h]
  have hname : (f.rename π).name = f.name := rfl
  rw [hname]
  cases hproblem : nameProblem? env.builtins s struct f.name.node (symbolOf env.config.module struct f.name.node) with
  | some problem =>
    exact .of_parallel fun _ => .fail_fixed (nameProblem?_rename hproblem _)
  | none =>
    refine (Twins.of_parallel fun P => parallel_signature hself).bind fun sig sig' hsig => ?_
    obtain rfl : sig' = sig.rename π := hsig
    refine (Twins.of_parallel (Q := fun done done' => done' = done) fun P => ?_).bind fun done done' hdone => ?_
    · exact (Parallel.lift (mirrors_declareFunction (FnSig.declaration_rename hhides sig))).mono fun _ _ _ _ h => h.1
    · obtain rfl := hdone
      cases done' with
      | true =>
        refine (twins_register hhides).bind fun _ _ _ => .of_parallel fun P => ?_
        exact parallel_note.seq fun _ _ => .pure fun _ _ => rfl
      | false => exact .of_parallel fun _ => .fail

/-! ### Definitions -/

section

variable (h : s.Progress (.veiled π mask) t s' t')
include h

theorem State.Progress.enter (ret : Ty) : s.Progress (.veiled π mask) t (s'.enter ret) (t'.enter ret) := by
  have hscopes : t'.scopes.reset.push = s'.scopes.reset.push.rename π := by
    rw [h.like.scopes_eq]
    rfl
  exact ⟨{ h.like with
    scopes_eq := hscopes
    plain := Scopes.plain_veiled _
    loopExits_eq := rfl
    returnTy_eq := rfl }, h.reports⟩

theorem State.Progress.leave : s.Progress (.veiled π mask) t s'.leave t'.leave := by
  have hscopes : t'.scopes.reset = s'.scopes.reset.rename π := by
    rw [h.like.scopes_eq]
    rfl
  have hbuilder : s'.leave.builder.Twin mask t'.leave.builder :=
    (Blind.endFunction.follows _ _ h.like.builder).2.1
  exact ⟨{ h.like with
    builder := hbuilder
    scopes_eq := hscopes
    plain := Scopes.plain_veiled _
    methods := fun _ _ _ => trivial }, h.reports⟩

theorem State.Progress.discardBody :
    s.Progress (.veiled π mask) t { s' with builder := (Build.discardBody s'.builder).2 }
      { t' with builder := (Build.discardBody t'.builder).2 } :=
  ⟨(h.like.setBuilder ((Builder.twin mask).discardBody (γ := []) _ _ h.like.builder).2).like, h.reports⟩

end

theorem TwinEnds.conclude {Q : Unit → Unit → Prop} {r r' : EStateM.Result Diagnostic State Unit}
    (h : TwinEnds (.veiled π mask) s t Q r r') :
    TwinEnds (.veiled π mask) s t (fun a a' => a' = a) (Lowering.conclude r) (Lowering.conclude r') := by
  cases r <;> cases r'
  · exact ⟨rfl, h.2.leave⟩
  · exact h.elim
  · exact h.elim
  · exact ⟨h.1, h.2.discardBody.leave⟩

theorem defineFunction_missing {b : Builder}
    (h : Build.defineFunction sig.symbol s.builder = (none, b)) : defineFunction f sig env s =
      .error ((Problem.functionNotFound sig.symbol).diagnostic f.name.span) { s with builder := b } := by
  simp only [defineFunction, bind_run, liftM_run h]
  rfl

/-- A function with other names is defined with the same code, or its body is dropped for the same problem. -/
theorem twins_defineFunction (hf : (Guise.veiled π mask).Admits f.isPure f.isNative) :
    Twins (.veiled π mask) env (defineFunction f sig) (defineFunction (f.rename π) (sig.rename π))
      fun a a' => a' = a := by
  refine ⟨fun s t h => ?_⟩
  obtain ⟨hvalue, hb⟩ := defineFunction_twin h.builder sig.symbol
  cases hfound : (Build.defineFunction sig.symbol s.builder).1 with
  | none =>
    have hs : Build.defineFunction sig.symbol s.builder = (none, _) := Prod.ext hfound rfl
    have ht : Build.defineFunction (sig.rename π).symbol t.builder = (none, _) :=
      Prod.ext (hvalue.trans hfound) rfl
    rw [defineFunction_missing hs, defineFunction_missing ht]
    exact ⟨⟨.functionNotFound sig.symbol, _, rfl, rfl⟩, (h.setBuilder hb).like, [], by simp⟩
  | some values =>
    have hs : Build.defineFunction sig.symbol s.builder = (some values, _) := Prod.ext hfound rfl
    have ht : Build.defineFunction (sig.rename π).symbol t.builder = (some values, _) :=
      Prod.ext (hvalue.trans hfound) rfl
    rw [defineFunction_run hs, defineFunction_run ht]
    have hnoted := h.setBuilder (hb.note .debug ("lowering @" ++ sig.symbol))
    have hbegun := State.Progress.enter ⟨hnoted.like, hnoted.reports⟩ sig.ret
    have hbody (P : Common True) : Parallel (.veiled π mask) env P (lowerBody f sig values) _ Done .innermost :=
      parallel_lowerBody hf (fun _ _ => ⟨False.elim, False.elim⟩) fun _ _ => ⟨.inl trivial, False.elim⟩
    exact ((TwinEnds.of_ended ((hbody _).run _ _ hbegun.like (le_refl _))).after hbegun).conclude

end Aero.Lowering

/-! ### Renamed functions -/

namespace Aero

open List

namespace IR

/-- The module without the names of parameters, which are never written. -/
def Module.unnamed (m : Module) : Module := m.masked fun _ => ""

theorem Function.lines_masked (mask : String → String) (f : Function) : (f.masked mask).lines = f.lines := by
  have hsignature : (f.masked mask).signature = f.signature := by
    have htypes : (f.masked mask).params.map (·.ty.text) = f.params.map (·.ty.text) := by
      rw [Function.masked, map_map]
      rfl
    have hregs : (f.masked mask).params.zipIdx.map (fun p => p.1.ty.text ++ " " ++ Reg.text p.2) =
        f.params.zipIdx.map fun p => p.1.ty.text ++ " " ++ Reg.text p.2 := by
      rw [Function.masked, zipIdx_map, map_map]
      rfl
    unfold Function.signature
    rw [htypes, hregs]
    rfl
  unfold Function.lines
  rw [hsignature]
  rfl

theorem Module.text_masked (mask : String → String) (m : Module) : (m.masked mask).text = m.text := by
  have hselect (p : Function → Bool) (hp : ∀ f, p (f.masked mask) = p f) :
      (m.functions.map (.masked mask)).filter p = (m.functions.filter p).map (.masked mask) := by
    rw [filter_map]
    exact congrArg (fun q => (m.functions.filter q).map _) (funext hp)
  unfold Module.text Module.lines
  simp only [Module.masked]
  rw [hselect (·.isDeclaration) fun _ => rfl, hselect (!·.isDeclaration) fun _ => rfl, flatMap_map, flatMap_map]
  simp only [Function.lines_masked]

/-- Modules that differ only in the names of parameters have one text. -/
theorem Module.text_eq_of_unnamed {m m' : Module} (h : m'.unnamed = m.unnamed) : m'.text = m.text := by
  rw [← Module.text_masked (fun _ => "") m', ← Module.text_masked (fun _ => "") m]
  exact congrArg Module.text h

end IR

namespace Lowering

open IR IR.Build

variable {env : Env} {s t : State}

/-! ### States outside of functions -/

theorem declareSigned_setScopes (p : Routine) (symbol : String) (sig : FnSig) (scopes : Scopes)
    (s : State) : declareSigned p symbol sig env { s with scopes := scopes } =
      leave (fun s => { s with scopes := scopes }) (declareSigned p symbol sig env s) := by
  obtain ⟨struct, f⟩ := p
  cases hdeclared : Build.declareFunction sig.declaration s.builder with
  | mk done b =>
    have hscoped : Build.declareFunction sig.declaration ({ s with scopes := scopes } : State).builder =
        (done, b) := hdeclared
    rw [declareSigned, bind_run, bind_run, liftM_run hdeclared, liftM_run hscoped]
    cases done with
    | true => cases struct <;> rfl
    | false => rfl

theorem declareFunction_setScopes (p : Routine) (scopes : Scopes) (s : State) :
    declareFunction p.1 p.2 env { s with scopes := scopes } =
      leave (fun s => { s with scopes := scopes }) (declareFunction p.1 p.2 env s) := by
  have htypes : SameTypes s { s with scopes := scopes } := fun _ => rfl
  have hnamed : nameProblem? env.builtins { s with scopes := scopes } p.1 p.2.name.node (symbolIn env p) =
      nameProblem? env.builtins s p.1 p.2.name.node (symbolIn env p) := rfl
  rw [declareFunction_run, declareFunction_run, hnamed]
  cases nameProblem? env.builtins s p.1 p.2.name.node (symbolIn env p) with
  | some problem => rfl
  | none =>
    rw [Option.elim_none, bind_run, bind_run]
    rcases signature_cases env s p with ⟨sig, _, hrun⟩ | ⟨problem, span, hrun⟩
    · rw [(hrun _ htypes).2, (hrun s fun _ => rfl).2]
      exact declareSigned_setScopes p _ sig scopes s
    · rw [(hrun _ htypes).2, (hrun s fun _ => rfl).2]
      rfl

/-- Declares a function or, with a struct, a method, and defines it. -/
def lowerFunction (struct : Option String) (f : FnDef) : Lower Unit := do
  let sig ← declareFunction struct f
  defineFunction f sig

/-- Whether an action succeeds, and the module that it leaves. -/
def yield (act : Lower Unit) (env : Env) (s : State) : Bool × Module :=
  match act env s with
  | .ok _ s => (true, s.builder.module)
  | .error _ s => (false, s.builder.module)

/-- What was in scope before has no part in a definition. -/
theorem yield_defineFunction_reset (f : FnDef) (sig : FnSig) (s : State) :
    yield (defineFunction f sig) env { s with scopes := s.scopes.reset } = yield (defineFunction f sig) env s := by
  unfold yield
  cases hopened : Build.defineFunction sig.symbol s.builder with
  | mk values b =>
    have hreset : Build.defineFunction sig.symbol ({ s with scopes := s.scopes.reset } : State).builder =
        (values, b) := hopened
    cases values with
    | some values =>
      rw [defineFunction_run hopened, defineFunction_run hreset]
      rfl
    | none => rw [defineFunction_missing hopened, defineFunction_missing hreset]

theorem yield_lowerFunction_reset (struct : Option String) (f : FnDef) (s : State) :
    yield (lowerFunction struct f) env { s with scopes := s.scopes.reset } = yield (lowerFunction struct f) env s := by
  have hdeclare : declareFunction struct f env { s with scopes := s.scopes.reset } = _ :=
    declareFunction_setScopes (struct, f) s.scopes.reset s
  have hscopes : ∀ sig s', declareFunction struct f env s = .ok sig s' → s'.scopes = s.scopes := by
    intro sig s' hrun
    rcases declareFunction_cases env s (struct, f) with ⟨found, _, hfound⟩ | ⟨_, d, _, hfound⟩
    · rw [hrun] at hfound
      obtain ⟨rfl, rfl⟩ := EStateM.Result.ok.inj hfound
      cases struct <;> rfl
    · rw [hrun] at hfound
      cases hfound
  unfold yield lowerFunction
  rw [bind_run, bind_run, hdeclare]
  cases hrun : declareFunction struct f env s with
  | error d s' => rfl
  | ok sig s' =>
    have hdefine : yield (defineFunction f sig) env { s' with scopes := s'.scopes.reset } = _ :=
      yield_defineFunction_reset f sig s'
    rw [hscopes sig s' hrun] at hdefine
    exact hdefine

/-! ### Renaming -/

/-- A mask that leaves nothing hides any new name. -/
theorem hides_blank (π : Equiv.Perm String) : Hides π fun _ => "" := fun _ _ => rfl

theorem State.like_self (π : Equiv.Perm String) (mask : String → String) (h : s.scopes.outermost = []) :
    ({ s with scopes := s.scopes.reset } : State).Like (.veiled π mask) { s with scopes := s.scopes.reset } where
  functions_eq := fun _ => rfl
  methods_eq := fun _ => rfl
  functions := fun _ _ _ => trivial
  methods := fun _ _ _ => trivial
  builder := .refl _
  scopes_eq := by rw [Scopes.reset, h]; rfl
  plain := by
    rw [Scopes.reset, h]
    exact fun frame hframe entry hentry => by
      rw [mem_singleton.mp hframe] at hentry
      cases hentry
  loopExits_eq := rfl
  returnTy_eq := rfl
  same := fun _ => ⟨rfl, rfl⟩

/-- Two actions succeed alike, and leave the same code. -/
def SameCode (r r' : Bool × Module) : Prop := r'.1 = r.1 ∧ r'.2.unnamed = r.2.unnamed ∧ r'.2.text = r.2.text

theorem Twins.sameCode {π : Equiv.Perm String} {act act' : Lower Unit} {Q : Unit → Unit → Prop}
    (h : Twins (.veiled π fun _ => "") env act act' Q) (houter : s.scopes.outermost = []) :
    SameCode (yield act env { s with scopes := s.scopes.reset })
      (yield act' env { s with scopes := s.scopes.reset }) := by
  have hrun := h.run _ _ (State.like_self π _ houter)
  have hsame {s t : State} (h : s.Like (.veiled π fun _ => "") t) :
      t.builder.module.unnamed = s.builder.module.unnamed := congrArg Builder.module h.builder
  unfold yield
  cases hres : act env { s with scopes := s.scopes.reset } <;>
    cases hres' : act' env { s with scopes := s.scopes.reset } <;> rw [hres, hres'] at hrun
  · exact ⟨rfl, hsame hrun.2.like, Module.text_eq_of_unnamed (hsame hrun.2.like)⟩
  · exact hrun.elim
  · exact hrun.elim
  · exact ⟨rfl, hsame hrun.2.like, Module.text_eq_of_unnamed (hsame hrun.2.like)⟩

/-- A signature names the parameters of a function, and the object of a method first. -/
def FnSig.Names (struct : Option String) (f : FnDef) (sig : FnSig) : Prop :=
  sig.params.map (·.name) = (struct.toList.map fun _ => "self") ++ f.params.map (·.name.node)

theorem FnSig.Names.mem_localNames {struct : Option String} {f : FnDef} {sig : FnSig} (h : sig.Names struct f)
    {p : ParamSig} (hp : p ∈ sig.params) : p.name ∈ f.localNames struct := by
  have hname : p.name ∈ sig.params.map (·.name) := mem_map_of_mem hp
  rw [h, mem_append] at hname
  unfold FnDef.localNames
  simp only [mem_append]
  rcases hname with hself | hparam
  · exact .inl (.inl (.inl hself))
  · obtain ⟨q, hq, heq⟩ := mem_map.mp hparam
    exact .inl (.inl (.inr (mem_flatMap.mpr ⟨q, hq, heq ▸ mem_cons_self⟩)))

/-- Local names are hygienic. Let a function or, with a struct, a method have no inline code, and let its variables
be given other names, different ones for different ones, where the object of a method stays `self`; a name that is
referred to without being declared counts as well. In a state with nothing declared outside of functions, the renamed
function can be declared and defined exactly if the function can, and then the modules are the same but for the names
of parameters, which are not written. The same holds for the definition alone, once it is declared. -/
theorem lowering_rename (env : Env) (s : State) (houter : s.scopes.outermost = []) (struct : Option String)
    (f : FnDef) (hpure : f.isPure = true) (σ : String → String) (hσ : InjectiveOn σ (f.localNames struct))
    (hself : struct.isSome = true → σ "self" = "self") :
    SameCode (yield (lowerFunction struct f) env s) (yield (lowerFunction struct (f.rename σ)) env s) ∧
      ∀ sig : FnSig, sig.Names struct f →
        SameCode (yield (defineFunction f sig) env s) (yield (defineFunction (f.rename σ) (sig.rename σ)) env s) := by
  obtain ⟨π, hπ⟩ := exists_perm_agree hσ
  have hobject : struct.isSome = true → π "self" = "self" := by
    intro hstruct
    obtain ⟨name, rfl⟩ := Option.isSome_iff_exists.mp hstruct
    have hmem : "self" ∈ f.localNames (some name) := by simp [FnDef.localNames]
    rw [← hπ _ hmem, hself hstruct]
  rw [f.rename_congr hπ]
  constructor
  · rw [← yield_lowerFunction_reset, ← yield_lowerFunction_reset (f := f.rename π)]
    have htwins : Twins (.veiled π fun _ => "") env (lowerFunction struct f) (lowerFunction struct (f.rename π))
        fun a a' => a' = a := by
      refine (twins_declareFunction (hides_blank π) hobject).bind fun sig sig' hsig => ?_
      obtain rfl := hsig
      exact twins_defineFunction (.inl hpure)
    exact htwins.sameCode houter
  · intro sig hsig
    have hrenamed : sig.rename σ = sig.rename π := by
      have hparams : sig.params.map (ParamSig.rename σ) = sig.params.map (ParamSig.rename π) :=
        List.map_congr_left fun p hp => by
          rw [ParamSig.rename, ParamSig.rename, hπ _ (hsig.mem_localNames hp)]
      rw [FnSig.rename, FnSig.rename, hparams]
    rw [hrenamed, ← yield_defineFunction_reset, ← yield_defineFunction_reset (f := f.rename π)]
    have htwins : Twins (.veiled π fun _ => "") env (defineFunction f sig)
        (defineFunction (f.rename π) (sig.rename π)) fun a a' => a' = a :=
      twins_defineFunction (.inl hpure)
    exact htwins.sameCode houter

def exchange (a b : String) (name : String) : String := if name = a then b else if name = b then a else name

/-- A function with a parameter `n` that sizes an array, a variable `m`, and an inner `n` that hides the parameter. -/
def shadowing : FnDef where
  name := ⟨"shadowing", {}⟩
  params := [⟨⟨"n", {}⟩, ⟨⟨"int", []⟩, {}⟩⟩]
  returnTy := some ⟨⟨"int", []⟩, {}⟩
  body := ⟨⟨[
    ⟨.declare ⟨"items", {}⟩ (some ⟨⟨"int", [.sized ⟨.var "n", {}⟩]⟩, {}⟩) none, {}⟩,
    ⟨.declare ⟨"m", {}⟩ none (some ⟨.var "n", {}⟩), {}⟩,
    ⟨.block ⟨⟨[
      ⟨.declare ⟨"n", {}⟩ none (some ⟨.var "m", {}⟩), {}⟩,
      ⟨.assign ⟨.var "m", {}⟩ ⟨.binary .add ⟨.var "n", {}⟩ ⟨.var "n", {}⟩, {}⟩, {}⟩]⟩, {}⟩, {}⟩,
    ⟨.ret (some ⟨.var "m", {}⟩), {}⟩]⟩, {}⟩

theorem shadowing_exchanged : shadowing.isPure = true ∧ InjectiveOn (exchange "n" "m") (shadowing.localNames none) ∧
      (yield (lowerFunction none shadowing) bareEnv (.start {} "m")).1 = true ∧
      SameCode (yield (lowerFunction none shadowing) bareEnv (.start {} "m"))
        (yield (lowerFunction none (shadowing.rename (exchange "n" "m"))) bareEnv (.start {} "m")) := by
  have hpure : shadowing.isPure = true := by decide +kernel
  have hinjective : InjectiveOn (exchange "n" "m") (shadowing.localNames none) := by
    unfold InjectiveOn
    decide +kernel
  have hsame := lowering_rename bareEnv (.start {} "m") rfl none shadowing hpure _ hinjective nofun
  exact ⟨hpure, hinjective, by decide +kernel, hsame.1⟩

end Lowering

end Aero
