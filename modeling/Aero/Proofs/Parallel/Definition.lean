import Aero.Proofs.Parallel.Body
import Aero.Proofs.Parallel.Mirror

/-!
One function defined in two modules. If the modules agree in their types and prototypes, then the same is
reported, the same primitives are declared and the two definitions are alike, whatever else each of the
modules has defined before.
-/

namespace Aero

open Option

variable {H H' : Prop} {sig : Lowering.FnSig} {ps : List IR.Primitive} {f : FnDef}

namespace IR

namespace Builder

variable {b b' c c' : Builder} {name : String} {i i' : Nat} {f : Function}

theorem Works.module_function? {g : Function} (h : b.Works ps c)
    (hcurrent : b.current = some i) (hfind : b.module.functions.findIdx? (·.name = name) = some i)
    (hg : c.function? = some g) : c.module.function? name = some g := by
  obtain ⟨j, hj, hgj⟩ := function?_eq_some hg
  obtain rfl : i = j := some.inj (hcurrent.symm.trans (h.current_eq.symm.trans hj))
  exact Module.function?_eq_some_iff.mpr ⟨i, findIdx?_of_names h.names hfind, hgj⟩

def begun (b : Builder) (i : Nat) (f : Function) (log : Array LogLine) : Builder :=
  { b.setFn i f.entered with current := some i, insert := some 0, log := log }

namespace Declares

variable (h : b.Declares name i f)
include h

theorem begins : ∃ log, Build.defineFunction name b =
    (some (f.params.zipIdx.map fun p => .ofReg p.2 p.1.ty), b.begun i f log) :=
  h.run False.elim

variable (log : Array LogLine)

theorem begun_gains : Gains (some name) [] b (b.begun i f log) := by
  have hedits := setFn_edits (g := f.entered) h.fn_eq rfl rfl
  rw [h.name_eq] at hedits
  exact { hedits.gains with }

theorem begun_function? : (b.begun i f log).function? = some f.entered :=
  List.getElem?_set_self (List.getElem?_eq_some_iff.mp h.fn_eq).1

theorem begun_workName? : (b.begun i f log).workName? = some name := by
  rw [workName?_eq (h.begun_function? log), show f.entered.name = f.name from rfl, h.name_eq]

theorem begun_findIdx? : (b.begun i f log).module.functions.findIdx? (·.name = name) = some i :=
  (h.site_frame log False.elim).findIdx? h.findIdx

end Declares

theorem Gains.others_of_addFn (h : Gains (some f.name) ps (b.addFn f) c)
    (hname : name ≠ f.name) : c.module.function? name =
      (b.module.function? name).or ((ps.find? (·.name = name)).map Primitive.declaration) := by
  rw [h.others name fun heq => hname (some.inj heq).symm, addFn_module_function?, if_neg hname.symm, or_none]

theorem addFn_retains (b : Builder) (f : Function) : b.Retains (b.addFn f) where
  toGrown := { Grown.refl b with inStep := fun h => h.congr rfl rfl }
  kept := fun hs => by rw [addFn_prototype?, hs, some_or]

theorem Agree.addFn (h : b.Agree b') (hnone : b.module.prototype? f.name = none)
    (hnone' : b'.module.prototype? f.name = none) : (b.addFn f).Agree (b'.addFn f) where
  left := h.left.congr rfl rfl
  right := h.right.congr rfl rfl
  custom_eq := h.custom_eq
  structs_eq := h.structs_eq
  alloc_eq := h.alloc_eq
  compatible := fun name => by
    rw [addFn_prototype?, addFn_prototype?]
    by_cases hname : f.name = name
    · rw [← hname, hnone, hnone']
      exact .inl rfl
    · rw [if_neg hname, or_none, or_none]
      exact h.compatible name

theorem Agree.begun (h : b.Agree b') (hdecl : b.Declares name i f) (hdecl' : b'.Declares name i' f)
    (log log' : Array LogLine) : (b.begun i f log).Like (b'.begun i' f log') where
  toAgree := h.extension (hdecl.begun_gains log).extension (hdecl'.begun_gains log').extension
  insert_eq := rfl
  function := ⟨f.entered, f.entered, hdecl.begun_function? log, hdecl'.begun_function? log',
    ⟨rfl, rfl, rfl, rfl, rfl, rfl, .cons (.fresh _ _) .nil⟩⟩

/-- Two bodies of one function have been lowered alike. -/
theorem Advance.defined {log log' : Array LogLine} (hdecl : b.Declares name i f)
    (hdecl' : b'.Declares name i' f) (h : (b.begun i f log).Advance (b'.begun i' f log') c c') :
    (∃ ps, Gains (some name) ps b c ∧ Gains (some name) ps b' c') ∧
      ∃ g g', c.module.function? name = some g ∧ c'.module.function? name = some g' ∧ g.Like (c.common c') g' := by
  obtain ⟨ps, hworks, hworks'⟩ := h.works
  obtain ⟨g, g', hg, hg', hlike⟩ := h.like.function
  refine ⟨⟨ps, ?_, ?_⟩, g, g', hworks.module_function? rfl (hdecl.begun_findIdx? log) hg,
    hworks'.module_function? rfl (hdecl'.begun_findIdx? log') hg', hlike⟩
  · exact (hdecl.begun_gains log).trans (hdecl.begun_workName? log ▸ hworks.toGains)
  · exact (hdecl'.begun_gains log').trans (hdecl'.begun_workName? log' ▸ hworks'.toGains)

end Builder

end IR

namespace Lowering

open IR IR.Build

variable {env : Env} {s t s' t' s'' : State}

/-- Two modules are compared that have other string constants and other functions. -/
def Guise.mirror : Guise where
  toPairing := Builder.mirror
  names := Equiv.refl String
  mask := id
  registers := .of_allows fun _ => trivial
  request := malloc_of_allows (X := Builder.mirror) (fun _ => trivial)

abbrev State.common (s t : State) : Common False := s.builder.common t.builder

/-! ### Between bodies -/

/-- Between bodies, two states agree in all that a body can ask of them. -/
structure State.Peers (s t : State) : Prop where
  functions_eq : ∀ name, t.functions.lookup name = s.functions.lookup name
  methods_eq : ∀ symbol, t.methods.lookup symbol = s.methods.lookup symbol
  functions : ∀ name sig, s.functions.lookup name = some sig → (s.common t).declared sig.symbol
  methods : ∀ symbol sig, s.methods.lookup symbol = some sig → (s.common t).declared symbol
  agree : s.builder.Agree t.builder

theorem State.Peers.sameCallees (h : s.Peers t) : s.SameCallees Guise.mirror t :=
  ⟨fun name => by rw [h.functions_eq], fun symbol => by rw [h.methods_eq], h.functions, h.methods⟩

/-- A state comes from another, between bodies. -/
structure State.Later (s s' : State) : Prop extends State.Keeps s s' where
  extension : s.builder.Extends s'.builder

theorem State.Later.refl (s : State) : s.Later s := ⟨.refl s, .refl s.builder⟩

theorem State.Later.trans (h : s.Later s') (h' : s'.Later s'') : s.Later s'' :=
  ⟨h.toKeeps.trans h'.toKeeps, h.extension.trans h'.extension⟩

theorem State.Later.common_le (h : s.Later s') (h' : t.Later t') : s.common t ≤ s'.common t' :=
  Builder.common_le h.extension.toRetains h'.extension.toRetains

namespace State.Peers

theorem refl (h : Tables H s) (hstep : s.builder.InStep) : s.Peers s where
  functions_eq := fun _ => rfl
  methods_eq := fun _ => rfl
  functions := fun name sig hsig => ⟨_, (h.functions name sig hsig).1, (h.functions name sig hsig).1⟩
  methods := fun symbol sig hsig => ⟨_, (h.methods symbol sig hsig).1, (h.methods symbol sig hsig).1⟩
  agree := .refl hstep

theorem symm (h : s.Peers t) : t.Peers s where
  functions_eq := fun name => (h.functions_eq name).symm
  methods_eq := fun symbol => (h.methods_eq symbol).symm
  functions := fun name sig hsig =>
    (h.functions name sig (h.functions_eq name ▸ hsig)).imp fun _ hs => hs.symm
  methods := fun symbol sig hsig =>
    (h.methods symbol sig (h.methods_eq symbol ▸ hsig)).imp fun _ hs => hs.symm
  agree := h.agree.symm

theorem later (h : s.Peers t) (hs : s.Later s') (ht : t.Later t') : s'.Peers t' where
  functions_eq := fun name => by rw [ht.functions_eq, hs.functions_eq, h.functions_eq]
  methods_eq := fun symbol => by rw [ht.methods_eq, hs.methods_eq, h.methods_eq]
  functions := (h.sameCallees.keep hs.toKeeps ht.toKeeps (hs.common_le ht)).functions
  methods := (h.sameCallees.keep hs.toKeeps ht.toKeeps (hs.common_le ht)).methods
  agree := h.agree.extension hs.extension ht.extension

end State.Peers

/-- Two states come from two others by the definition of a symbol, which is alike on both sides. -/
structure State.DefinedAlike (symbol : String) (s t s' t' : State) : Prop where
  gains : ∃ ps, Builder.Gains (some symbol) ps s.builder s'.builder ∧
    Builder.Gains (some symbol) ps t.builder t'.builder
  reports : ∃ ds, s'.diagnostics = s.diagnostics ++ ds ∧ t'.diagnostics = t.diagnostics ++ ds
  left : s.Keeps s'
  right : t.Keeps t'
  function : ∃ g g', s'.builder.module.function? symbol = some g ∧
    t'.builder.module.function? symbol = some g' ∧ g.Like (s'.common t') g'

namespace State.DefinedAlike

variable {symbol : String}

theorem later (h : s.DefinedAlike symbol t s' t') : s.Later s' ∧ t.Later t' := by
  obtain ⟨ps, hgains, hgains'⟩ := h.gains
  exact ⟨⟨h.left, hgains.extension⟩, h.right, hgains'.extension⟩

theorem report (h : s.DefinedAlike symbol t s' t') (level : LogLevel) (message : String) (d : Diagnostic) :
    s.DefinedAlike symbol t
      { s' with builder := s'.builder.note level message, diagnostics := s'.diagnostics ++ [d] }
      { t' with builder := t'.builder.note level message, diagnostics := t'.diagnostics ++ [d] } where
  gains := by
    obtain ⟨ps, hgains, hgains'⟩ := h.gains
    exact ⟨ps, { hgains with }, { hgains' with }⟩
  reports := by
    obtain ⟨ds, hds, hds'⟩ := h.reports
    exact ⟨ds ++ [d], by rw [hds, List.append_assoc], by rw [hds', List.append_assoc]⟩
  left := ⟨h.left.functions_eq, h.left.methods_eq⟩
  right := ⟨h.right.functions_eq, h.right.methods_eq⟩
  function := h.function

theorem of_advance {i i' : Nat} {f : Function} {ret : Ty} {log log' : Array LogLine}
    (hdecl : s.builder.Declares symbol i f) (hdecl' : t.builder.Declares symbol i' f)
    (h : (({ s with builder := s.builder.begun i f log }).enter ret).Advance Guise.mirror
      (({ t with builder := t.builder.begun i' f log' }).enter ret) s' t') :
    s.DefinedAlike symbol t s'.leave t'.leave := by
  obtain ⟨⟨ps, hgains, hgains'⟩, hfunction⟩ := Builder.Advance.defined hdecl hdecl' h.builder
  exact
    { gains := ⟨ps, { hgains with }, { hgains' with }⟩
      reports := h.reports
      left := ⟨h.left.functions_eq, h.left.methods_eq⟩
      right := ⟨h.right.functions_eq, h.right.methods_eq⟩
      function := hfunction }

end State.DefinedAlike

/-- A function is declared as its signature says, and its body is yet to come. -/
structure State.Expects (s : State) (sig : FnSig) : Prop extends State.Awaits s sig where
  function?_eq : s.builder.module.function? sig.symbol = some sig.declaration

theorem State.Expects.declares (h : s.Expects sig) : ∃ i, s.builder.Declares sig.symbol i sig.declaration := by
  obtain ⟨i, hfind, hfn⟩ := Module.function?_eq_some_iff.mp h.function?_eq
  exact ⟨i, hfind, hfn, rfl, rfl⟩

/-- How two definitions ended: both are there, or both have failed with one diagnostic. -/
def DefinesAlike (symbol : String) (s t : State) :
    EStateM.Result Diagnostic State Unit → EStateM.Result Diagnostic State Unit → Prop
  | .ok _ s', .ok _ t' => s.DefinedAlike symbol t s' t'
  | .error d s', .error d' t' => d' = d ∧ s.DefinedAlike symbol t s' t'
  | _, _ => False

theorem State.Peers.enter {f : Function} {symbol : String} {i i' : Nat} (h : s.Peers t)
    (hs : Tables H s) (ht : Tables H' t) (hdecl : s.builder.Declares symbol i f)
    (hdecl' : t.builder.Declares symbol i' f) (log log' : Array LogLine) (ret : Ty) :
    (({ s with builder := s.builder.begun i f log }).enter ret).Like Guise.mirror
      (({ t with builder := t.builder.begun i' f log' }).enter ret) where
  toSameCallees := h.sameCallees.keep ⟨rfl, rfl⟩ ⟨rfl, rfl⟩
    (Builder.common_le (hdecl.begun_gains log).extension.toRetains (hdecl'.begun_gains log').extension.toRetains)
  builder := h.agree.begun hdecl hdecl' log log'
  scopes_eq := by
    change .push ⟨[], t.scopes.outermost⟩ = (Scopes.push ⟨[], s.scopes.outermost⟩).rename _
    rw [hs.outermost, ht.outermost]
    exact (Scopes.rename_refl _).symm
  plain := by
    refine .push fun frame hframe entry hentry => ?_
    rw [List.mem_singleton.mp hframe, show s.scopes.reset.outermost = [] from hs.outermost] at hentry
    cases hentry
  loopExits_eq := rfl
  returnTy_eq := rfl
  same := False.elim

theorem definesAlike_defineFunction (hf : f.isNative = true) (hs : Tables H s)
    (ht : Tables H' t) (h : s.Peers t) (hexpects : s.Expects sig) (hexpects' : t.Expects sig) :
    DefinesAlike sig.symbol s t (defineFunction f sig env s) (defineFunction f sig env t) := by
  obtain ⟨i, hdecl⟩ := hexpects.declares
  obtain ⟨i', hdecl'⟩ := hexpects'.declares
  obtain ⟨log, hrun⟩ := hdecl.begins
  obtain ⟨log', hrun'⟩ := hdecl'.begins
  let line : LogLine := ⟨.debug, "lowering @" ++ sig.symbol⟩
  have hlike := h.enter hs ht hdecl hdecl' (log.push line) (log'.push line) sig.ret
  have hends : Ended .mirror _ _ Done .innermost (lowerBody f sig _ env (({ s with
      builder := (s.builder.begun i sig.declaration log).note .debug ("lowering @" ++ sig.symbol)
      }).enter sig.ret)) (lowerBody f sig _ env (({ t with
      builder := (t.builder.begun i' sig.declaration log').note .debug ("lowering @" ++ sig.symbol)
      }).enter sig.ret)) :=
    (steady_lowerBody (g := .mirror) rfl (.inl hf) (fun _ _ => ⟨False.elim, False.elim⟩)
      (plain_parameters sig.declaration.params fun _ _ => False.elim)).run _ _ hlike (le_refl _)
  rw [defineFunction_run hrun, defineFunction_run hrun']
  generalize lowerBody f sig _ env _ = r at hends ⊢
  generalize lowerBody f sig _ env _ = r' at hends ⊢
  cases r <;> cases r'
  · exact .of_advance hdecl hdecl' hends.1
  · exact hends.elim
  · exact hends.elim
  · exact ⟨hends.1.eq rfl, .of_advance hdecl hdecl' hends.2.1.discardBody⟩

theorem definesAlike_defineOrReport (env : Env) (hf : f.isNative = true) (hs : Tables H s)
    (ht : Tables H' t) (h : s.Peers t) (hexpects : s.Expects sig) (hexpects' : t.Expects sig) :
    ∃ s' t', defineOrReport f sig env s = .ok () s' ∧ defineOrReport f sig env t = .ok () t' ∧
      s.DefinedAlike sig.symbol t s' t' := by
  have hrun : DefinesAlike sig.symbol s t (defineFunction f sig env s) (defineFunction f sig env t) :=
    definesAlike_defineFunction hf hs ht h hexpects hexpects'
  simp only [defineOrReport, bind_run, attempt]
  cases hres : defineFunction f sig env s <;> cases hres' : defineFunction f sig env t <;> rw [hres, hres'] at hrun
  · exact ⟨_, _, rfl, rfl, hrun⟩
  · exact hrun.elim
  · exact hrun.elim
  · obtain ⟨rfl, halike⟩ := hrun
    exact ⟨_, _, rfl, rfl, halike.report _ _ _⟩

/-! ### The entry -/

/-- Two states come from two others by the definition of the entry, which is alike on both sides unless its
name was taken before. -/
structure State.EntryAlike (s t s' t' : State) : Prop where
  left : s.builder.Retains s'.builder
  right : t.builder.Retains t'.builder
  others : ∃ ps : List Primitive, ∀ name, name ≠ "main" →
    s'.builder.module.function? name = (s.builder.module.function? name).or
      ((ps.find? (·.name = name)).map Primitive.declaration) ∧
    t'.builder.module.function? name = (t.builder.module.function? name).or
      ((ps.find? (·.name = name)).map Primitive.declaration)
  reports : ∃ ds, s'.diagnostics = s.diagnostics ++ ds ∧ t'.diagnostics = t.diagnostics ++ ds
  main : (s'.builder.module.function? "main" = s.builder.module.function? "main" ∧
      t'.builder.module.function? "main" = t.builder.module.function? "main") ∨
    s.builder.module.function? "main" = none ∧ t.builder.module.function? "main" = none ∧
      ∃ g g', s'.builder.module.function? "main" = some g ∧
        t'.builder.module.function? "main" = some g' ∧ g.Like (s'.common t') g'

theorem State.EntryAlike.of_still (hs : s'.builder.still = s.builder.still) (ht : t'.builder.still = t.builder.still)
    (hreports : ∃ ds, s'.diagnostics = s.diagnostics ++ ds ∧ t'.diagnostics = t.diagnostics ++ ds) :
    s.EntryAlike t s' t' where
  left := (@Builder.Edits.of_still _ _ none hs).gains.extension.toRetains
  right := (@Builder.Edits.of_still _ _ none ht).gains.extension.toRetains
  others := ⟨[], fun name _ => by simp [Builder.module_of_still hs, Builder.module_of_still ht]⟩
  reports := hreports
  main := .inl ⟨by rw [Builder.module_of_still hs], by rw [Builder.module_of_still ht]⟩

theorem synthesizeEntry_code (env : Env) (known : Option FnSig) : ∃ code : Build Unit,
      (∀ s values b,
        s.builder.module.prototype? entryDeclaration.name = none → s.functions.lookup "main" = known →
        Build.defineFunction "main" (s.builder.addFn entryDeclaration) = (values, b) →
        synthesizeEntry env s = .ok () { s with builder := { (code b).2 with current := none, insert := none } }) ∧
      ∀ P : Common False, (∀ sig, known = some sig → P.declared sig.symbol) → Mirrored Builder.mirror P code Done := by
  obtain ⟨code, hcode, hmirrored⟩ := lowerEntry_code (X := Builder.mirror) env env.config.module.userEntry known
  refine ⟨code, fun s values b hproto hknown hdefine => ?_, hmirrored⟩
  rw [synthesizeEntry_run, bind_run, liftM_run (declareFunction_new hproto)]
  change (liftM (Build.defineFunction "main") >>= fun _ =>
    lowerEntry env.config.module.userEntry >>= fun _ => liftM Build.endFunction : Lower Unit) env
      { s with builder := s.builder.addFn entryDeclaration } = _
  rw [bind_run, liftM_run hdefine]
  change (lowerEntry env.config.module.userEntry >>= fun _ => liftM Build.endFunction) env
    { s with builder := b } = _
  rw [bind_run, hcode { s with builder := b } hknown]
  rfl

theorem State.Peers.entry_eq (h : s.Peers t) : t.builder.module.prototype? entryDeclaration.name =
    s.builder.module.prototype? entryDeclaration.name := by
  rcases h.agree.compatible entryDeclaration.name with heq | ⟨p, hp, _⟩
  · exact heq.symm
  · cases p <;> exact absurd hp (by decide)

theorem entryAlike_synthesizeEntry (h : s.Peers t) :
    ∃ s' t', synthesizeEntry env s = .ok () s' ∧ synthesizeEntry env t = .ok () t' ∧ s.EntryAlike t s' t' := by
  cases hproto : s.builder.module.prototype? entryDeclaration.name with
  | some sig =>
    rw [synthesizeEntry_taken hproto, synthesizeEntry_taken (h.entry_eq.trans hproto)]
    exact ⟨_, _, rfl, rfl, .of_still rfl rfl ⟨_, rfl, rfl⟩⟩
  | none =>
    have hproto' := h.entry_eq.trans hproto
    obtain ⟨code, hcode, hmirrored⟩ := synthesizeEntry_code env (s.functions.lookup "main")
    have hdecl := Builder.Declares.of_addFn hproto rfl rfl
    have hdecl' := Builder.Declares.of_addFn hproto' rfl rfl
    obtain ⟨log, hbegins⟩ := hdecl.begins
    obtain ⟨log', hbegins'⟩ := hdecl'.begins
    have hle : s.common t ≤ Builder.common _ _ := Builder.common_le
      ((s.builder.addFn_retains entryDeclaration).trans (hdecl.begun_gains log).extension.toRetains)
      ((t.builder.addFn_retains entryDeclaration).trans (hdecl'.begun_gains log').extension.toRetains)
    obtain ⟨hadv, _⟩ := (hmirrored _ fun sig hsig => hle.declared _ (h.functions "main" sig hsig)).run (γ := []) _ _
      ((h.agree.addFn hproto hproto').begun hdecl hdecl' log log') (le_refl _)
    obtain ⟨⟨ps, hgains, hgains'⟩, hfunction⟩ := Builder.Advance.defined hdecl hdecl' hadv
    have hretains := (s.builder.addFn_retains entryDeclaration).trans hgains.extension.toRetains
    have hretains' := (t.builder.addFn_retains entryDeclaration).trans hgains'.extension.toRetains
    refine ⟨_, _, hcode s _ _ hproto rfl hbegins, hcode t _ _ hproto' (h.functions_eq "main") hbegins', ?_⟩
    exact
      { left := { hretains with }
        right := { hretains' with }
        others := ⟨ps, fun name hname => ⟨hgains.others_of_addFn hname, hgains'.others_of_addFn hname⟩⟩
        reports := ⟨[], by simp⟩
        main := .inr ⟨map_eq_none_iff.mp hproto, map_eq_none_iff.mp hproto', hfunction⟩ }

end Lowering

end Aero
