import Aero.Proofs.Parallel.Definition
import Aero.Proofs.Parallel.Renaming

/-!
Two files lowered into two modules. Functions are defined one after another, in whatever order each side goes. If they
are declared alike, each function that both sides define is alike in the two modules, and so is the entry; whatever else
is in a module is a primitive.
-/

namespace Aero.Lowering

open IR List Option

variable {env : Env} {p : FnDef × FnSig} {declared declared' : List (FnDef × FnSig)} {name moduleName : String}
  {g : Function} {s t s' t' s1 s2 t1 t2 : State} {names : List String}

abbrev State.function? (s : State) (name : String) : Option Function := s.builder.module.function? name

/-- On the way from one state to another, which defines some names, a function is defined between two
states. -/
structure Visit (env : Env) (names : List String) (p : FnDef × FnSig) (s s' s1 s2 : State) : Prop where
  before : s.Later s1
  tables : Tables False s1
  expects : s1.Expects p.2
  run : defineOrReport p.1 p.2 env s1 = .ok () s2
  gains : ∃ ps, Builder.Gains (some p.2.symbol) ps s1.builder s2.builder
  after : s2.Later s'
  kept : ∀ name g, name = p.2.symbol ∨ name ∉ names → s2.function? name = some g → s'.function? name = some g
  reports : s2.diagnostics <+: s'.diagnostics

/-- A state comes from another by the definition of functions one after another. -/
structure Defines (env : Env) (declared : List (FnDef × FnSig)) (s s' : State) : Prop where
  tables : Tables False s'
  later : s.Later s'
  kept : ∀ name g, name ∉ symbolsOf declared → s.function? name = some g → s'.function? name = some g
  reports : s.diagnostics <+: s'.diagnostics
  visits : ∀ p ∈ declared, ∃ s1 s2, Visit env (symbolsOf declared) p s s' s1 s2
  turns : ∀ Z : State → Prop, ¬ Z s → Z s' →
    ∃ p ∈ declared, ∃ s1 s2, Visit env (symbolsOf declared) p s s' s1 s2 ∧ ¬ Z s1 ∧ Z s2

theorem defines_nil (h : Tables False s) : Defines env [] s s where
  tables := h
  later := .refl s
  kept := fun _ _ _ hg => hg
  reports := prefix_rfl
  visits := forall_mem_nil _
  turns := fun _ hZ hZ' => absurd hZ' hZ

/-- A visit in a run that has one more function at its start. -/
theorem Visit.cons {q : FnDef × FnSig} (h : Visit env names p s2 s' s1 t1)
    (hlater : s.Later s2) : Visit env (q.2.symbol :: names) p s s' s1 t1 :=
  { h with
    before := hlater.trans h.before
    kept := fun name g hname => h.kept name g (hname.imp_right fun hn hmem =>
      hn (mem_cons_of_mem _ hmem)) }

theorem Defines.cons (htables : Tables False s) (hexpects : s.Expects p.2)
    (hrun : defineOrReport p.1 p.2 env s = .ok () s2) (halike : s.DefinedAlike p.2.symbol s s2 s2)
    (hrest : Defines env declared s2 s') (hfresh : p.2.symbol ∉ symbolsOf declared) :
    Defines env (p :: declared) s s' := by
  have hlater := halike.later.1
  obtain ⟨ps, hgains, _⟩ := halike.gains
  have hfirst : Visit env (symbolsOf (p :: declared)) p s s' s s2 :=
    { before := .refl s
      tables := htables
      expects := hexpects
      run := hrun
      gains := ⟨ps, hgains⟩
      after := hrest.later
      kept := fun name g hname hg => hrest.kept name g (by
        rcases hname with rfl | hname
        · exact hfresh
        · exact fun hmem => hname (mem_cons_of_mem _ hmem)) hg
      reports := hrest.reports }
  refine ⟨hrest.tables, hlater.trans hrest.later, fun name g hname hg => ?_, ?_, ?_, fun Z hZ hZ' => ?_⟩
  · obtain ⟨hne, hname⟩ := ne_and_not_mem_of_not_mem_cons hname
    refine hrest.kept name g hname ?_
    rw [State.function?, hgains.others name fun heq => hne (some.inj heq).symm,
      show s.builder.module.function? name = some g from hg, some_or]
  · obtain ⟨ds, hds, _⟩ := halike.reports
    exact (hds ▸ prefix_append _ _).trans hrest.reports
  · refine forall_mem_cons.mpr ⟨⟨s, s2, hfirst⟩, fun q hq => ?_⟩
    obtain ⟨s3, s4, hvisit⟩ := hrest.visits q hq
    exact ⟨s3, s4, hvisit.cons hlater⟩
  · by_cases hZ2 : Z s2
    · exact ⟨p, mem_cons_self, s, s2, hfirst, hZ, hZ2⟩
    · obtain ⟨q, hq, s3, s4, hvisit, hturn⟩ := hrest.turns Z hZ2 hZ'
      exact ⟨q, mem_cons_of_mem _ hq, s3, s4, hvisit.cons hlater, hturn⟩

theorem defines_defineAll (env : Env) (hready : Ready False False s) (hstep : s.builder.InStep)
    (hexpects : ∀ p ∈ declared, s.Expects p.2) (hnodup : (symbolsOf declared).Nodup)
    (hnative : ∀ p ∈ declared, p.1.isNative = true) :
    ∃ s', defineAll declared env s = .ok () s' ∧ Defines env declared s s' := by
  induction declared generalizing s with
  | nil => exact ⟨s, rfl, defines_nil hready.tables⟩
  | cons p declared ih =>
    obtain ⟨hfresh, hnodup⟩ := nodup_cons.mp hnodup
    obtain ⟨hp, hexpects⟩ := forall_mem_cons.mp hexpects
    obtain ⟨hpnative, hnative⟩ := forall_mem_cons.mp hnative
    obtain ⟨s2, _, hrun, hrun', halike⟩ := definesAlike_defineOrReport env hpnative
      hready.tables hready.tables (.refl hready.tables hstep) hp hp
    obtain rfl : s2 = _ := (EStateM.Result.ok.inj (hrun.symm.trans hrun')).2
    have hproceeds : Outcome _ (fun _ => Proceeds _ _ _ s) (defineOrReport p.1 p.2 env s) :=
      proceeds_defineOrReport hready hp.toAwaits False.elim
    rw [hrun] at hproceeds
    have hothers : ∀ q ∈ declared, q.2.symbol ≠ p.2.symbol := fun q hq heq =>
      hfresh (mem_map.mpr ⟨q, hq, heq⟩)
    obtain ⟨s', hrest, hdefines⟩ := ih hproceeds.ready (halike.later.1.extension.inStep hstep) (fun q hq =>
      ⟨hproceeds.awaits q.2 (hothers q hq) (hexpects q hq).toAwaits,
        hproceeds.keeps _ _ (hothers q hq) (hexpects q hq).function?_eq⟩) hnodup hnative
    refine ⟨s', ?_, .cons hready.tables hp hrun halike hdefines hfresh⟩
    rw [defineAll_cons, bind_run, hrun]
    exact hrest

/-! ### Two runs -/

theorem Visit.alike {names' : List String} (h : s.Peers t) (hnative : p.1.isNative = true)
    (hvisit : Visit env names p s s' s1 s2) (hvisit' : Visit env names' p t t' t1 t2) :
    s1.DefinedAlike p.2.symbol t1 s2 t2 := by
  obtain ⟨s3, t3, hrun, hrun', halike⟩ := definesAlike_defineOrReport env hnative hvisit.tables
    hvisit'.tables (h.later hvisit.before hvisit'.before) hvisit.expects hvisit'.expects
  obtain rfl : s2 = s3 := (EStateM.Result.ok.inj (hvisit.run.symm.trans hrun)).2
  obtain rfl : t2 = t3 := (EStateM.Result.ok.inj (hvisit'.run.symm.trans hrun')).2
  exact halike

namespace Defines

theorem function_like (h : s.Peers t) (hdefines : Defines env declared s s')
    (hdefines' : Defines env declared' t t') (hp : p ∈ declared) (hp' : p ∈ declared') (hnative : p.1.isNative = true) :
    ∃ g g', s'.function? p.2.symbol = some g ∧ t'.function? p.2.symbol = some g' ∧ g.Like (s'.common t') g' := by
  obtain ⟨s1, s2, hvisit⟩ := hdefines.visits p hp
  obtain ⟨t1, t2, hvisit'⟩ := hdefines'.visits p hp'
  obtain ⟨g, g', hg, hg', hlike⟩ := (hvisit.alike h hnative hvisit').function
  exact ⟨g, g', hvisit.kept _ g (.inl rfl) hg, hvisit'.kept _ g' (.inl rfl) hg',
    hlike.mono (hvisit.after.common_le hvisit'.after)⟩

/-- A new function under a name that is not among those defined is a primitive. -/
theorem primitive (h : Defines env declared s s') (hname : name ∉ symbolsOf declared)
    (hnone : s.function? name = none) (hg : s'.function? name = some g) :
    ∃ p : Primitive, p.name = name ∧ g = p.declaration := by
  obtain ⟨p, hp, s1, s2, hvisit, hturn, hturned⟩ := h.turns (fun s => s.function? name = some g)
    (fun hs => by rw [hnone] at hs; cases hs) hg
  obtain ⟨ps, hgains⟩ := hvisit.gains
  have hne : p.2.symbol ≠ name := fun heq => hname (mem_map.mpr ⟨p, hp, heq⟩)
  rw [State.function?, hgains.others name fun heq => hne (some.inj heq)] at hturned
  rcases or_eq_some_iff.mp hturned with hold | ⟨_, hnew⟩
  · exact absurd hold hturn
  · obtain ⟨q, hq, rfl⟩ := map_eq_some_iff.mp hnew
    exact ⟨q, by simpa using find?_some hq, rfl⟩

/-- A primitive that one run declares is declared by any other run that defines the same functions. -/
theorem primitive_of_subset (h : s.Peers t) (hdefines : Defines env declared s s')
    (hdefines' : Defines env declared' t t') (hsubset : declared ⊆ declared')
    (hnative : ∀ p ∈ declared, p.1.isNative = true) (hname : name ∉ symbolsOf declared')
    (hnone : s.function? name = none) (hnone' : t.function? name = none)
    (hg : s'.function? name = some g) : t'.function? name = some g := by
  obtain ⟨p, hp, s1, s2, hvisit, hturn, hturned⟩ := hdefines.turns (fun s => s.function? name ≠ none)
    (not_not_intro hnone) (by rw [hg]; exact some_ne_none g)
  obtain ⟨t1, t2, hvisit'⟩ := hdefines'.visits p (hsubset hp)
  obtain ⟨ps, hgains, hgains'⟩ := (hvisit.alike h (hnative p hp) hvisit').gains
  have hne : p.2.symbol ≠ name := fun heq => hname (mem_map.mpr ⟨p, hsubset hp, heq⟩)
  have hother : some p.2.symbol ≠ some name := fun heq => hne (some.inj heq)
  -- The primitive is declared at this definition on the left, so it is there afterwards on the right.
  have hbefore : s1.builder.module.function? name = none := not_not.mp hturn
  rw [State.function?, hgains.others name hother, hbefore, none_or] at hturned
  obtain ⟨q, hq⟩ := ne_none_iff_exists'.mp hturned
  have hsome : t2.function? name = some ((t1.function? name).getD q) := by
    rw [State.function?, hgains'.others name hother, hq, or_some]
  have hname' : name ∉ symbolsOf declared := fun hmem => by
    obtain ⟨r, hr, heq⟩ := mem_map.mp hmem
    exact hname (mem_map.mpr ⟨r, hsubset hr, heq⟩)
  have hfinal := hvisit'.kept name _ (.inr hname) hsome
  obtain ⟨r, hr, rfl⟩ := hdefines.primitive hname' hnone hg
  obtain ⟨r', hr', heq⟩ := hdefines'.primitive hname hnone' hfinal
  rw [hfinal, heq, Primitive.name_injective (hr'.trans hr.symm)]

/-- What one run reports is reported by any other run that defines the same functions. -/
theorem reported (h : s.Peers t) (hdefines : Defines env declared s s')
    (hdefines' : Defines env declared' t t') (hsubset : declared ⊆ declared')
    (hnative : ∀ p ∈ declared, p.1.isNative = true) {d : Diagnostic} (hd : d ∈ s'.diagnostics) :
    d ∈ s.diagnostics ∨ d ∈ t'.diagnostics := by
  by_cases hold : d ∈ s.diagnostics
  · exact .inl hold
  · obtain ⟨p, hp, s1, s2, hvisit, hturn, hturned⟩ :=
      hdefines.turns (fun s => d ∈ s.diagnostics) hold hd
    obtain ⟨t1, t2, hvisit'⟩ := hdefines'.visits p (hsubset hp)
    obtain ⟨ds, hds, hds'⟩ := (hvisit.alike h (hnative p hp) hvisit').reports
    rw [hds] at hturned
    have hnew := (mem_append.mp hturned).resolve_left hturn
    exact .inr (hvisit'.reports.subset (hds' ▸ mem_append_right _ hnew))

end Defines

/-! ### Files -/

open IR List

variable {file : File} {g' : Function} {s'' t'' : State}

/-! ### One file -/

/-- All functions of a file are declared, and nothing is defined yet. -/
structure Prepared (file : File) (declared : List (FnDef × FnSig)) (s : State) : Prop where
  ready : Ready False False s
  expects : ∀ p ∈ declared, s.Expects p.2
  nodup : (symbolsOf declared).Nodup
  source : ∀ p ∈ declared, ∃ struct, (struct, p.1) ∈ functionsOf file
  only : ∀ name, name ∉ symbolsOf declared → s.function? name = none
  inStep : s.builder.InStep

theorem prepared_declareFile
    (hrun : declareFile file env (.start env.config moduleName) = .ok declared s) : Prepared file declared s := by
  obtain ⟨σ, hstructs, hbare⟩ :=
    bare_declareStructs env file.name (structsOf file) (bare_start env.config moduleName)
  rw [declareFile_run, bind_run, hstructs] at hrun
  have hdeclared := declared_of_run hrun
  have hall := hdeclared.declaresAll hbare.toDeclaring False.elim False.elim
  have hmodule : s.builder.module.functions = declared.map fun p => p.2.declaration := by
    rw [hall.functions_eq, hbare.module_functions, nil_append]
  have hglobals : s.builder.module.globals = [] := hdeclared.keeps.1.trans hbare.module_globals
  have hstrings : s.builder.strings = [] := hdeclared.keeps.2.1.trans hbare.strings_eq
  have hnames : (s.builder.module.functions.map Function.name) = symbolsOf declared := by
    rw [hmodule, List.map_map]
    rfl
  refine ⟨hall.declaring.ready, fun p hp => ⟨hall.awaits p hp, ?_⟩, hall.nodup,
    fun p hp => (hall.source p hp).1, fun name hname => ?_, ?_⟩
  · refine find?_key_of_mem Function.name (hnames ▸ hall.nodup) (a := p.2.declaration) ?_
    rw [hmodule]
    exact mem_map_of_mem hp
  · refine find?_eq_none.mpr fun g hg hfound => hname ?_
    rw [← hnames]
    exact mem_map.mpr ⟨g, hg, by simpa using hfound⟩
  · exact Builder.InStep.of_nil hglobals hstrings

theorem isNative_of_mem (h : file.isNative = true) {struct : Option String} {f : FnDef}
    (hf : (struct, f) ∈ functionsOf file) : f.isNative = true := by
  obtain ⟨item, hitem, hf⟩ := mem_flatMap.mp hf
  have hnative := all_eq_true.mp h item hitem
  cases hnode : item.node with
  | fn g =>
    rw [hnode] at hf hnative
    obtain ⟨_, rfl⟩ := Prod.mk.inj (mem_singleton.mp hf)
    exact hnative
  | struct d =>
    rw [hnode] at hf hnative
    obtain ⟨g, hg, heq⟩ := mem_map.mp hf
    obtain ⟨_, rfl⟩ := Prod.mk.inj heq
    exact all_eq_true.mp hnative g hg

def finish (options : ModuleOptions) : Lower Unit :=
  if options.synthesizeEntry then synthesizeEntry else pure ()

/-- A file is lowered in three steps. -/
structure Lowered (env : Env) (file : File) (moduleName : String) (declared : List (FnDef × FnSig))
    (s s' : State) : Prop where
  declares : declareFile file env (.start env.config moduleName) = .ok declared s
  prepared : Prepared file declared s
  native : ∀ p ∈ declared, p.1.isNative = true
  defines : Defines env declared s s'
  finishes : ∀ s'', finish env.config.module env s' = .ok () s'' →
    (run env file moduleName).module = s''.builder.module ∧ (run env file moduleName).diagnostics = s''.diagnostics

theorem exists_lowered (h : file.isNative = true) (env : Env) (moduleName : String) :
    ∃ declared s s', Lowered env file moduleName declared s s' := by
  obtain ⟨σ, hstructs, _⟩ :=
    bare_declareStructs env file.name (structsOf file) (bare_start env.config moduleName)
  obtain ⟨declared, s, hfunctions, _⟩ := exists_declared env (functionsOf file) σ
  have hdeclares : declareFile file env (.start env.config moduleName) = .ok declared s := by
    rw [declareFile_run, bind_run, hstructs]
    exact hfunctions
  have hprepared := prepared_declareFile hdeclares
  have hnative : ∀ p ∈ declared, p.1.isNative = true := fun p hp =>
    (hprepared.source p hp).elim fun _ hmem => isNative_of_mem h hmem
  obtain ⟨s', hrun, hdefines⟩ :=
    defines_defineAll env hprepared.ready hprepared.inStep hprepared.expects hprepared.nodup hnative
  refine ⟨declared, s, s', hdeclares, hprepared, hnative, hdefines, fun s'' hfinish => ?_⟩
  have hfile : lowerFile file env (.start env.config moduleName) = .ok () s'' := by
    rw [lowerFile_run, bind_run, hdeclares]
    change (defineAll declared >>= fun _ => finish env.config.module) env s = _
    rw [bind_run, hrun]
    exact hfinish
  unfold run
  rw [hfile]
  exact ⟨rfl, rfl⟩

theorem entryAlike_finish (env : Env) (h : s.Peers t) :
    ∃ s' t', finish env.config.module env s = .ok () s' ∧ finish env.config.module env t = .ok () t' ∧
      s.EntryAlike t s' t' := by
  unfold finish
  split
  · exact entryAlike_synthesizeEntry h
  · exact ⟨s, t, rfl, rfl, .of_still rfl rfl ⟨[], by simp⟩⟩

namespace Lowered

variable (h : Lowered env file moduleName declared s s')
include h

theorem inStep : s'.builder.InStep := h.defines.later.extension.inStep h.prepared.inStep

theorem exists_entry : ∃ s'', (run env file moduleName).module = s''.builder.module ∧
      (run env file moduleName).diagnostics = s''.diagnostics ∧ s'.EntryAlike s' s'' s'' := by
  obtain ⟨s'', t'', hfinish, hfinish', hentry⟩ := entryAlike_finish env (.refl h.defines.tables h.inStep)
  obtain rfl : s'' = t'' := (EStateM.Result.ok.inj (hfinish.symm.trans hfinish')).2
  obtain ⟨hmodule, hdiagnostics⟩ := h.finishes s'' hfinish
  exact ⟨s'', hmodule, hdiagnostics, hentry⟩

theorem reports : s.diagnostics <+: (run env file moduleName).diagnostics := by
  obtain ⟨s'', _, hdiagnostics, hentry⟩ := h.exists_entry
  obtain ⟨ds, hds, _⟩ := hentry.reports
  rw [hdiagnostics, hds]
  exact h.defines.reports.trans (prefix_append _ _)

theorem interned : (run env file moduleName).module.Interned := by
  obtain ⟨s'', hmodule, _, hentry⟩ := h.exists_entry
  rw [hmodule]
  exact (hentry.left.inStep h.inStep).toInterned

end Lowered

/-! ### Two files -/

def IsPrimitive (name : String) (g : Function) : Prop := ∃ p : Primitive, p.name = name ∧ g = p.declaration

theorem IsPrimitive.unique (h : IsPrimitive name g) (h' : IsPrimitive name g') : g = g' := by
  obtain ⟨p, hp, rfl⟩ := h
  obtain ⟨p', hp', rfl⟩ := h'
  rw [Primitive.name_injective (hp.trans hp'.symm)]

/-- Only one of two modules declares the primitive of a name. -/
def OneDeclares (m m' : Module) (name : String) : Prop :=
  ∃ p : Primitive, p.name = name ∧ (m.function? name = some p.declaration ∧ m'.function? name = none ∨
      m.function? name = none ∧ m'.function? name = some p.declaration)

section Names

/-- Under a name, the modules of two states have the same but for the names of strings. -/
abbrev State.MatchesAt (s t : State) (name : String) : Prop :=
  s.builder.module.MatchesAt t.builder.module (s.builder.module.nameIn t.builder.module) name

theorem matchesAt_of_like (hs : s.builder.module.Interned) (ht : t.builder.module.Interned)
    (hg : s.function? name = some g) (hg' : t.function? name = some g')
    (h : g.Like (s.common t) g') : s.MatchesAt t name := by
  unfold State.MatchesAt Module.MatchesAt
  rw [show s.builder.module.function? name = some g from hg, show t.builder.module.function? name = some g' from hg']
  exact .some (hs.rename_function ht rfl h)

theorem matchesAt_of_eq (hs : s.builder.module.Interned) (ht : t.builder.module.Interned)
    (hsame : t.function? name = s.function? name) (hbare : ∀ g, s.function? name = some g → g.blocks = []) :
    s.MatchesAt t name := by
  cases hg : s.function? name with
  | some g => exact matchesAt_of_like hs ht hg (hsame.trans hg) (.of_bare (hbare g hg))
  | none =>
    unfold State.MatchesAt Module.MatchesAt
    rw [show s.builder.module.function? name = none from hg,
      show t.builder.module.function? name = none from hsame.trans hg]
    exact .none

namespace State.EntryAlike

theorem kept (h : s.EntryAlike t s' t') (hg : s.function? name = some g)
    (hg' : t.function? name = some g') : s'.function? name = some g ∧ t'.function? name = some g' := by
  by_cases hname : name = "main"
  · subst hname
    rcases h.main with ⟨hs, ht⟩ | ⟨hnone, _⟩
    · exact ⟨hs.trans hg, ht.trans hg'⟩
    · rw [show s.builder.module.function? "main" = some g from hg] at hnone
      cases hnone
  · obtain ⟨ps, hothers⟩ := h.others
    obtain ⟨hs, ht⟩ := hothers name hname
    rw [show s.builder.module.function? name = some g from hg] at hs
    rw [show t.builder.module.function? name = some g' from hg'] at ht
    exact ⟨hs, ht⟩

/-- Under any name the entry is alike on both sides, or what is there afterwards was there before or is a
primitive. -/
theorem cases_at (h : s.EntryAlike t s' t') (name : String) :
    (∃ g g', s'.function? name = some g ∧ t'.function? name = some g' ∧ g.Like (s'.common t') g') ∨
      ∃ x : Option Function, (∀ g, x = some g → IsPrimitive name g) ∧
        s'.function? name = (s.function? name).or x ∧ t'.function? name = (t.function? name).or x := by
  by_cases hname : name = "main"
  · subst hname
    rcases h.main with ⟨hs, ht⟩ | ⟨_, _, halike⟩
    · exact .inr ⟨none, nofun, by simpa using hs, by simpa using ht⟩
    · exact .inl halike
  · obtain ⟨ps, hothers⟩ := h.others
    refine .inr ⟨_, fun g hg => ?_, hothers name hname⟩
    obtain ⟨p, hp, rfl⟩ := Option.map_eq_some_iff.mp hg
    exact ⟨p, by simpa using find?_some hp, rfl⟩

end State.EntryAlike

end Names

/-- Two files that have been lowered, with their functions declared alike. -/
structure LoweredPair (env : Env) (file file' : File) (moduleName : String)
    (declared declared' : List (FnDef × FnSig)) (s s' s'' t t' t'' : State) : Prop where
  left : Lowered env file moduleName declared s s'
  right : Lowered env file' moduleName declared' t t'
  peers : s.Peers t
  entry : s'.EntryAlike t' s'' t''
  module_eq : (run env file moduleName).module = s''.builder.module
  module_eq' : (run env file' moduleName).module = t''.builder.module
  diagnostics_eq : (run env file moduleName).diagnostics = s''.diagnostics
  diagnostics_eq' : (run env file' moduleName).diagnostics = t''.diagnostics

theorem exists_loweredPair {file' : File}
    (h : Lowered env file moduleName declared s s') (h' : Lowered env file' moduleName declared' t t')
    (hpeers : s.Peers t) : ∃ s'' t'', LoweredPair env file file' moduleName declared declared' s s' s'' t t' t'' := by
  obtain ⟨s'', t'', hfinish, hfinish', hentry⟩ :=
    entryAlike_finish env (hpeers.later h.defines.later h'.defines.later)
  obtain ⟨hmodule, hdiagnostics⟩ := h.finishes s'' hfinish
  obtain ⟨hmodule', hdiagnostics'⟩ := h'.finishes t'' hfinish'
  exact ⟨s'', t'', h, h', hpeers, hentry, hmodule, hmodule', hdiagnostics, hdiagnostics'⟩

namespace LoweredPair

variable {file' : File} (h : LoweredPair env file file' moduleName declared declared' s s' s'' t t' t'')
include h

theorem interned : s''.builder.module.Interned ∧ t''.builder.module.Interned :=
  ⟨h.module_eq ▸ h.left.interned, h.module_eq' ▸ h.right.interned⟩

theorem matchesAt_defined (hp : p ∈ declared) (hp' : p ∈ declared') : s''.MatchesAt t'' p.2.symbol := by
  obtain ⟨g, g', hg, hg', hlike⟩ :=
    h.left.defines.function_like h.peers h.right.defines hp hp' (h.left.native p hp)
  obtain ⟨hkept, hkept'⟩ := h.entry.kept hg hg'
  exact matchesAt_of_like h.interned.1 h.interned.2 hkept hkept'
    (hlike.mono (Builder.common_le h.entry.left h.entry.right))

/-- What neither file defines is alike, as the entry is, or it is a primitive: the definitions or, under one
name on both sides, the entry declares it. -/
theorem other_cases (hname : name ∉ symbolsOf declared) (hname' : name ∉ symbolsOf declared') : s''.MatchesAt t'' name ∨
    (∃ x, s''.function? name = (s'.function? name).or x ∧ t''.function? name = (t'.function? name).or x) ∧
      (∀ g, s''.function? name = some g → IsPrimitive name g) ∧
      ∀ g, t''.function? name = some g → IsPrimitive name g := by
  rcases h.entry.cases_at name with ⟨g, g', hg, hg', hlike⟩ | ⟨x, hx, hs, ht⟩
  · exact .inl (matchesAt_of_like h.interned.1 h.interned.2 hg hg' hlike)
  · refine .inr ⟨⟨x, hs, ht⟩, fun g hg => ?_, fun g hg => ?_⟩
    · rcases Option.or_eq_some_iff.mp (hs.symm.trans hg) with hold | ⟨_, hnew⟩
      · exact h.left.defines.primitive hname (h.left.prepared.only name hname) hold
      · exact hx g hnew
    · rcases Option.or_eq_some_iff.mp (ht.symm.trans hg) with hold | ⟨_, hnew⟩
      · exact h.right.defines.primitive hname' (h.right.prepared.only name hname') hold
      · exact hx g hnew

theorem matchesAt_primitive (hsame : t''.function? name = s''.function? name)
    (hprimitive : ∀ g, s''.function? name = some g → IsPrimitive name g) : s''.MatchesAt t'' name := by
  refine matchesAt_of_eq h.interned.1 h.interned.2 hsame fun g hg => ?_
  obtain ⟨p, _, rfl⟩ := hprimitive g hg
  rfl

/-- What neither file defines matches, or is a primitive that only one of them uses. -/
theorem matchesAt_other (hname : name ∉ symbolsOf declared) (hname' : name ∉ symbolsOf declared') :
    s''.MatchesAt t'' name ∨ OneDeclares s''.builder.module t''.builder.module name := by
  rcases h.other_cases hname hname' with hmatches | ⟨_, hleft, hright⟩
  · exact .inl hmatches
  cases hg : s''.function? name with
  | none =>
    cases hg' : t''.function? name with
    | none => exact .inl (h.matchesAt_primitive (hg'.trans hg.symm) hleft)
    | some g' =>
      obtain ⟨p, hp, rfl⟩ := hright g' hg'
      exact .inr ⟨p, hp, .inr ⟨hg, hg'⟩⟩
  | some g =>
    cases hg' : t''.function? name with
    | none =>
      obtain ⟨p, hp, rfl⟩ := hleft g hg
      exact .inr ⟨p, hp, .inl ⟨hg, hg'⟩⟩
    | some g' =>
      have heq : g' = g := (hright g' hg').unique (hleft g hg)
      exact .inl (h.matchesAt_primitive (hg'.trans (heq ▸ hg.symm)) hleft)

/-- If both files define functions of the same symbols, what is under a name matches unless they define it
differently, or it is a primitive that only one of them uses. -/
theorem matchesAt_or_oneDeclares (hsymbols : symbolsOf declared' = symbolsOf declared)
    (hsame : ∀ p ∈ declared, p.2.symbol = name → p ∈ declared') :
    (run env file moduleName).module.MatchesAt (run env file' moduleName).module
      (s''.builder.module.nameIn t''.builder.module) name ∨
    OneDeclares (run env file moduleName).module (run env file' moduleName).module name := by
  rw [h.module_eq, h.module_eq']
  by_cases hname : name ∈ symbolsOf declared
  · obtain ⟨p, hp, rfl⟩ := mem_map.mp hname
    exact .inl (h.matchesAt_defined hp (hsame p hp rfl))
  · exact h.matchesAt_other hname (hsymbols ▸ hname)

variable (hperm : declared'.Perm declared)
include hperm

/-- If both files define the same functions, they declare the same primitives. -/
theorem function?_eq_of_perm (hname : name ∉ symbolsOf declared) : t'.function? name = s'.function? name := by
  have hname' : name ∉ symbolsOf declared' := fun hmem => hname ((hperm.map _).mem_iff.mp hmem)
  have hnone := h.left.prepared.only name hname
  have hnone' := h.right.prepared.only name hname'
  cases hg : s'.function? name with
  | some g =>
    exact h.left.defines.primitive_of_subset h.peers h.right.defines hperm.symm.subset h.left.native
      hname' hnone hnone' hg
  | none =>
    refine Option.eq_none_iff_forall_ne_some.mpr fun g hg' => ?_
    have hback := h.right.defines.primitive_of_subset h.peers.symm h.left.defines hperm.subset
      h.right.native hname hnone' hnone hg'
    rw [hg] at hback
    cases hback

/-- If both files define the same functions, all that is in the modules matches. -/
theorem matchesAt_of_perm (name : String) : (run env file moduleName).module.MatchesAt (run env file' moduleName).module
      (s''.builder.module.nameIn t''.builder.module) name := by
  rw [h.module_eq, h.module_eq']
  by_cases hname : name ∈ symbolsOf declared
  · obtain ⟨p, hp, rfl⟩ := mem_map.mp hname
    exact h.matchesAt_defined hp (hperm.mem_iff.mpr hp)
  · have hname' : name ∉ symbolsOf declared' := fun hmem => hname ((hperm.map _).mem_iff.mp hmem)
    rcases h.other_cases hname hname' with hmatches | ⟨⟨x, hs, ht⟩, hleft, _⟩
    · exact hmatches
    · exact h.matchesAt_primitive (by rw [hs, ht, h.function?_eq_of_perm hperm hname]) hleft

/-- If both files define the same functions, the second reports nothing that the first does not. -/
theorem diagnostics_subset (hdeclared : t.diagnostics = s.diagnostics) :
    (run env file' moduleName).diagnostics ⊆ (run env file moduleName).diagnostics := by
  obtain ⟨ds, hds, hds'⟩ := h.entry.reports
  rw [h.diagnostics_eq, h.diagnostics_eq', hds, hds']
  intro d hd
  rcases mem_append.mp hd with hd | hd
  · refine mem_append_left _ ?_
    rcases h.right.defines.reported h.peers.symm h.left.defines hperm.subset h.right.native hd with hold | hnew
    · exact h.left.defines.reports.subset (hdeclared ▸ hold)
    · exact hnew
  · exact mem_append_right _ hd

end LoweredPair

end Aero.Lowering
