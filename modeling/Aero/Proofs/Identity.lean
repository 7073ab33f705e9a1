import Aero.Proofs.Parallel.File
import Aero.Hash
import Aero.Proofs.Spelling

/-!
What functions of a module depend on. New bodies of other functions and another order of the functions leave a function
as it is, up to the names of string constants. Its text, and so its content hash, is the same if and only if these
strings are.
-/

namespace Aero

open List

variable {file : File}

/-- An item comes from another by a new body for one of its functions, which is a method if there is a
struct. -/
inductive Item.Rebodied (f : FnDef) (body : Spanned StmtBlock) : Option String → Item → Item → Prop
  | function : Rebodied f body none (.fn f) (.fn { f with body := body })
  | method (d : StructDef) (before after : List FnDef) :
      Rebodied f body (some d.name.node) (.struct { d with methods := before ++ f :: after })
        (.struct { d with methods := before ++ { f with body := body } :: after })

/-- A file comes from another by a new body for one function or, with a struct, one method. -/
structure File.Rebodied (file : File) (f : FnDef) (body : Spanned StmtBlock) (struct : Option String)
    (file' : File) : Prop where
  name_eq : file'.name = file.name
  items : ∃ before item item' after span, file.items = before ++ ⟨item, span⟩ :: after ∧
    file'.items = before ++ ⟨item', span⟩ :: after ∧ item.Rebodied f body struct item'

namespace Lowering

open IR

variable {env : Env} {s : State}

/-- The functions of a file that are declared, with their signatures. -/
def declaredIn (env : Env) (file : File) (moduleName : String) : List (FnDef × FnSig) :=
  match declareFile file env (.start env.config moduleName) with
  | .ok declared _ => declared
  | .error _ _ => []

/-- The first function of a list is declared or reported, whatever its body is and whatever follows. -/
theorem declareFunctions_head (env : Env) (struct : Option String) (f : FnDef) (s : State) :
    ∃ (found : Option FnSig) (s1 : State), (∀ sig, found = some sig → sig.symbol = symbolIn env (struct, f)) ∧
      ∀ body fns declared s', declareFunctions fns env s1 = .ok declared s' →
        declareFunctions ((struct, { f with body := body }) :: fns) env s =
          .ok ((found.map fun sig => ({ f with body := body }, sig)).toList ++ declared) s' := by
  have hstep (found : Option FnSig) (s1 : State) (hhead : orReport (declareFunction struct f) env s = .ok found s1)
      (body : Spanned StmtBlock) (fns : List (Option String × FnDef)) (declared : List (FnDef × FnSig))
      (s' : State) (hrest : declareFunctions fns env s1 = .ok declared s') :
      declareFunctions ((struct, { f with body := body }) :: fns) env s =
        .ok ((found.map fun sig => ({ f with body := body }, sig)).toList ++ declared) s' := by
    have hbody : declareFunction struct { f with body := body } env s = declareFunction struct f env s := rfl
    rw [declareFunctions_cons, bind_run, orReport_run, hbody, ← orReport_run, hhead]
    dsimp only
    rw [bind_run, hrest]
    rfl
  rcases declareFunction_cases env s (struct, f) with ⟨sig, haccepts, hrun⟩ | ⟨_, d, _, hrun⟩
  · refine ⟨some sig, _, fun _ heq => ?_, hstep (some sig) (s.declare (struct, f) sig) ?_⟩
    · rw [← Option.some.inj heq]
      exact (signedBy_of_signatureIn? haccepts.signature_eq).symbol_eq
    · rw [orReport_run, hrun]
  · refine ⟨none, _, nofun, hstep none (s.report d) ?_⟩
    rw [orReport_run, hrun]

/-- Two lists of functions with one function between equal lists are declared alike if only its body differs. -/
theorem declareFunctions_rebody (env : Env) (before after : List Routine)
    (struct : Option String) (f : FnDef) (body : Spanned StmtBlock) (s : State) :
    ∃ (first rest : List (FnDef × FnSig)) (found : Option FnSig) (s' : State),
      (∀ sig, found = some sig → sig.symbol = symbolIn env (struct, f)) ∧
      declareFunctions (before ++ (struct, f) :: after) env s =
        .ok (first ++ ((found.map fun sig => (f, sig)).toList ++ rest)) s' ∧
      declareFunctions (before ++ (struct, { f with body := body }) :: after) env s =
        .ok (first ++ ((found.map fun sig => ({ f with body := body }, sig)).toList ++ rest)) s' := by
  induction before generalizing s with
  | nil =>
    obtain ⟨found, s1, hsymbol, hhead⟩ := declareFunctions_head env struct f s
    obtain ⟨rest, s', hrest, _⟩ := exists_declared env after s1
    exact ⟨[], rest, found, s', hsymbol, hhead f.body after rest s' hrest, hhead body after rest s' hrest⟩
  | cons q before ih =>
    obtain ⟨found, s1, _, hhead⟩ := declareFunctions_head env q.1 q.2 s
    obtain ⟨first, rest, edited, s', hsymbol, hleft, hright⟩ := ih s1
    refine ⟨(found.map fun sig => (q.2, sig)).toList ++ first, rest, edited, s', hsymbol, ?_, ?_⟩
    · rw [append_assoc]
      exact hhead q.2.body _ _ s' hleft
    · rw [append_assoc]
      exact hhead q.2.body _ _ s' hright

end Lowering

namespace File.Rebodied

open Lowering

variable {f : FnDef} {body : Spanned StmtBlock} {struct : Option String} {file' : File} {env : Env}

variable (h : file.Rebodied f body struct file')
include h

theorem functionsOf_eq : ∃ before after, functionsOf file = before ++ (struct, f) :: after ∧
      functionsOf file' = before ++ (struct, { f with body := body }) :: after := by
  obtain ⟨before, item, item', after, span, hitems, hitems', hitem⟩ := h.items
  unfold functionsOf
  rw [hitems, hitems']
  cases hitem with
  | function =>
    exact ⟨functionsOf ⟨file.name, before⟩, functionsOf ⟨file.name, after⟩, flatMap_append, flatMap_append⟩
  | method d first rest =>
    refine ⟨functionsOf ⟨file.name, before⟩ ++ first.map fun m => (some d.name.node, m),
      (rest.map fun m => (some d.name.node, m)) ++ functionsOf ⟨file.name, after⟩, ?_, ?_⟩
    · simp [functionsOf]
    · simp [functionsOf]

theorem declareStructs_eq :
    declareStructs file'.name (structsOf file') = declareStructs file.name (structsOf file) := by
  obtain ⟨before, item, item', after, span, hitems, hitems', hitem⟩ := h.items
  unfold structsOf
  rw [h.name_eq, hitems, hitems', filterMap_append, filterMap_append]
  cases hitem with
  | function => rfl
  | method d first rest =>
    simp only [declareStructs, forM_eq_forM, forM_append]
    rfl

theorem declareFile_run (env : Env) (moduleName : String) :
    ∃ (first rest : List (FnDef × FnSig)) (found : Option FnSig) (s : State),
      (∀ sig, found = some sig → sig.symbol = symbolIn env (struct, f)) ∧
      declareFile file env (.start env.config moduleName) =
        .ok (first ++ ((found.map fun sig => (f, sig)).toList ++ rest)) s ∧
      declareFile file' env (.start env.config moduleName) =
        .ok (first ++ ((found.map fun sig => ({ f with body := body }, sig)).toList ++ rest)) s := by
  obtain ⟨σ, hstructs, _⟩ :=
    bare_declareStructs env file.name (structsOf file) (bare_start env.config moduleName)
  obtain ⟨before, after, hfunctions, hfunctions'⟩ := h.functionsOf_eq
  obtain ⟨first, rest, found, s, hsymbol, hrun, hrun'⟩ :=
    declareFunctions_rebody env before after struct f body σ
  refine ⟨first, rest, found, s, hsymbol, ?_, ?_⟩
  · rw [Lowering.declareFile_run, bind_run, hstructs, hfunctions]
    exact hrun
  · rw [Lowering.declareFile_run, bind_run, h.declareStructs_eq, hstructs, hfunctions']
    exact hrun'

end File.Rebodied

namespace Lowering

open IR

theorem declaredIn_eq {env : Env} {moduleName : String} {declared : List (FnDef × FnSig)}
    {s : State} (h : declareFile file env (.start env.config moduleName) = .ok declared s) :
    declaredIn env file moduleName = declared := by
  unfold declaredIn
  rw [h]

theorem exists_loweredPair_of_rebodied {file' : File} {f : FnDef} {body : Spanned StmtBlock}
    {struct : Option String} (hnative : file.isNative = true) (hnative' : file'.isNative = true)
    (h : file.Rebodied f body struct file') (env : Env) (moduleName : String) :
    ∃ s s' s'' t' t'', LoweredPair env file file' moduleName (declaredIn env file moduleName)
        (declaredIn env file' moduleName) s s' s'' s t' t'' ∧
      symbolsOf (declaredIn env file' moduleName) = symbolsOf (declaredIn env file moduleName) ∧
      ∀ p ∈ declaredIn env file moduleName, p.2.symbol ≠ symbolOf env.config.module struct f.name.node →
        p ∈ declaredIn env file' moduleName := by
  obtain ⟨first, rest, found, s, hsymbol, hrun, hrun'⟩ := h.declareFile_run env moduleName
  obtain ⟨declared, s1, s', hlowered⟩ := exists_lowered hnative env moduleName
  obtain ⟨declared', t1, t', hlowered'⟩ := exists_lowered hnative' env moduleName
  obtain ⟨rfl, rfl⟩ := EStateM.Result.ok.inj (hrun.symm.trans hlowered.declares)
  obtain ⟨rfl, rfl⟩ := EStateM.Result.ok.inj (hrun'.symm.trans hlowered'.declares)
  obtain ⟨s'', t'', hpair⟩ := exists_loweredPair hlowered hlowered'
    (.refl hlowered.prepared.ready.tables hlowered.prepared.inStep)
  rw [declaredIn_eq hrun, declaredIn_eq hrun']
  refine ⟨s, s', s'', t', t'', hpair, ?_, fun p hp hne => ?_⟩
  · cases found <;> simp [symbolsOf]
  · -- The function with the new body is the only one that is not in both lists.
    simp only [mem_append, Option.mem_toList, Option.map_eq_some_iff] at hp ⊢
    rcases hp with hp | ⟨sig, hsig, rfl⟩ | hp
    · exact .inl hp
    · exact absurd (hsymbol sig hsig) hne
    · exact .inr (.inr hp)

/-- A new body changes no other function. Under one renaming of strings that keeps their texts, the functions of
the two modules under each name are the same, or one module does not use a primitive of that name. The symbol
of the function with the new body is excepted, unless a duplicate of that symbol is declared in its place. -/
theorem functions_match_of_rebodied (env : Env) (file file' : File) (moduleName : String) (f : FnDef)
    (body : Spanned StmtBlock) (struct : Option String) (hnative : file.isNative = true)
    (hnative' : file'.isNative = true) (h : file.Rebodied f body struct file') :
    ∃ ρ : String → String, ∀ name, name ≠ symbolOf env.config.module struct f.name.node ∨
        declaredIn env file' moduleName = declaredIn env file moduleName →
      (run env file moduleName).module.MatchesAt (run env file' moduleName).module ρ name ∨
        OneDeclares (run env file moduleName).module (run env file' moduleName).module name := by
  obtain ⟨s, s', s'', t', t'', hpair, hsymbols, hothers⟩ :=
    exists_loweredPair_of_rebodied hnative hnative' h env moduleName
  refine ⟨s''.builder.module.nameIn t''.builder.module, fun name hname => ?_⟩
  refine hpair.matchesAt_or_oneDeclares hsymbols fun p hp hsymbol => ?_
  rcases hname with hne | hsame
  · exact hothers p hp (hsymbol ▸ hne)
  · exact hsame ▸ hp

def printersFile : File :=
  ⟨"printers.aero", [⟨.fn (printer "first" ["a", "b"]), {}⟩, ⟨.fn (printer "second" ["b", "c"]), {}⟩]⟩

def brokenBody : Spanned StmtBlock :=
  ⟨⟨(printing ["d"]).node.stmts ++ [⟨.expr ⟨.var "unknown", {}⟩, {}⟩]⟩, {}⟩

def brokenFile : File :=
  ⟨"printers.aero",
    [⟨.fn { printer "first" ["a", "b"] with body := brokenBody }, {}⟩, ⟨.fn (printer "second" ["b", "c"]), {}⟩]⟩

theorem second_matches_of_broken_first : printersFile.isNative = true ∧ brokenFile.isNative = true ∧
      printersFile.Rebodied (printer "first" ["a", "b"]) brokenBody none brokenFile ∧
      Diagnostic.hasErrors (run bareEnv printersFile "printers").diagnostics = false ∧
      Diagnostic.hasErrors (run bareEnv brokenFile "printers").diagnostics = true ∧
      ∃ ρ : String → String, (run bareEnv printersFile "printers").module.MatchesAt
        (run bareEnv brokenFile "printers").module ρ "second" := by
  have hnative : printersFile.isNative = true := by decide
  have hnative' : brokenFile.isNative = true := by decide
  have hrebodied : printersFile.Rebodied (printer "first" ["a", "b"]) brokenBody none brokenFile :=
    ⟨rfl, [], _, _, _, {}, rfl, rfl, .function⟩
  obtain ⟨ρ, h⟩ := functions_match_of_rebodied bareEnv printersFile brokenFile "printers" _ _ _ hnative
    hnative' hrebodied
  refine ⟨hnative, hnative', hrebodied, by decide +kernel, by decide +kernel, ρ, ?_⟩
  refine (h "second" (Or.inl (by decide))).resolve_right fun ⟨p, hp, _⟩ => ?_
  cases p <;> simp [Primitive.name] at hp

end Lowering

end Aero

/-! ### Order -/

namespace Aero.Lowering

open IR List

variable {env : Env} {s t σ : State} {fns fns' : List Routine} {items : List (Spanned Item)} {file : File} {H : Prop}

/-! ### Declarations -/

/-- The functions of a file with a struct are the methods of its structs. -/
theorem filter_functionsOf (name : String) (items : List (Spanned Item)) :
    (functionsOf ⟨name, items⟩).filter (·.1.isSome) =
      (structsOf ⟨name, items⟩).flatMap fun d => d.methods.map fun m => (some d.name.node, m) := by
  induction items with
  | nil => rfl
  | cons item items ih =>
    cases hitem : item.node with
    | fn f =>
      have hfunctions : functionsOf ⟨name, item :: items⟩ = (none, f) :: functionsOf ⟨name, items⟩ := by
        simp [functionsOf, hitem]
      have hstructs : structsOf ⟨name, item :: items⟩ = structsOf ⟨name, items⟩ := by
        simp [structsOf, hitem]
      rw [hfunctions, hstructs, filter_cons_of_neg (by simp), ih]
    | struct d =>
      have hfunctions : functionsOf ⟨name, item :: items⟩ =
          (d.methods.map fun m => (some d.name.node, m)) ++ functionsOf ⟨name, items⟩ := by
        simp [functionsOf, hitem]
      have hstructs : structsOf ⟨name, item :: items⟩ = d :: structsOf ⟨name, items⟩ := by
        simp [structsOf, hitem]
      rw [hfunctions, hstructs, filter_append]
      congr 1
      exact filter_eq_self.mpr (by simp)

theorem SameLookups.peers (h : SameLookups s t) (htables : Tables H s) (hs : s.builder.InStep) (ht : t.builder.InStep)
    (hcustom : t.builder.custom = s.builder.custom) (hstructs : t.builder.module.structs = s.builder.module.structs)
    (halloc : t.builder.alloc = s.builder.alloc) : s.Peers t := by
  have hprototype (name : String) : t.builder.module.prototype? name = s.builder.module.prototype? name :=
    congrArg (Option.map _) (h.function?_eq name)
  exact
    { functions_eq := h.functions_eq
      methods_eq := h.methods_eq
      functions := fun name sig hsig =>
        have hsome := (htables.functions name sig hsig).1
        ⟨_, hsome, (hprototype _).trans hsome⟩
      methods := fun symbol sig hsig =>
        have hsome := (htables.methods symbol sig hsig).1
        ⟨_, hsome, (hprototype _).trans hsome⟩
      agree := ⟨hs, ht, hcustom, hstructs, halloc, fun name => .inl (hprototype name).symm⟩ }

/-- Functions declared in another order are found alike, if the methods keep their order. -/
theorem peers_foldl_withDeclared (hperm : fns'.Perm fns) (hnodup : (fns.map (symbolIn env)).Nodup)
    (hmethods : fns'.filter (·.1.isSome) = fns.filter (·.1.isSome))
    (htables : Tables H (fns.foldl (withDeclared env σ) σ)) (hstep : (fns.foldl (withDeclared env σ) σ).builder.InStep)
    (hstep' : (fns'.foldl (withDeclared env σ) σ).builder.InStep) :
    (fns.foldl (withDeclared env σ) σ).Peers (fns'.foldl (withDeclared env σ) σ) := by
  obtain ⟨hstructs, halloc, _⟩ := foldl_withDeclared_keeps env σ σ fns
  obtain ⟨hstructs', halloc', _⟩ := foldl_withDeclared_keeps env σ σ fns'
  refine (SameLookups.perm hperm hnodup (.refl)).peers htables hstep hstep' ?_ (hstructs'.trans hstructs.symm)
    (halloc'.trans halloc.symm)
  rw [foldl_withDeclared_custom, foldl_withDeclared_custom, hmethods]

/-! ### Files -/

theorem isNative_of_perm (h : file.isNative = true)
    (hperm : items.Perm file.items) : File.isNative { file with items := items } = true := by
  unfold File.isNative
  rw [all_eq_true]
  intro item hitem
  exact all_eq_true.mp h item (hperm.mem_iff.mp hitem)

theorem exists_loweredPair_of_perm {moduleName : String} (hnative : file.isNative = true)
    (hclean : Diagnostic.hasErrors (run env file moduleName).diagnostics = false)
    (hperm : items.Perm file.items) (hstructs : structsOf { file with items := items } = structsOf file) :
    ∃ declared declared' s s' s'' t t' t'',
      LoweredPair env file { file with items := items } moduleName declared declared' s s' s'' t t' t'' ∧
        declared'.Perm declared ∧ t.diagnostics = s.diagnostics := by
  obtain ⟨declared, s, s', hlowered⟩ := exists_lowered hnative env moduleName
  obtain ⟨declared', t, t', hlowered'⟩ := exists_lowered (isNative_of_perm hnative hperm) env moduleName
  obtain ⟨σ, hσ, hbare⟩ :=
    bare_declareStructs env file.name (structsOf file) (bare_start env.config moduleName)
  have hfunctions : (functionsOf { file with items := items }).Perm (functionsOf file) :=
    hperm.flatMap_right _
  have hmethods : (functionsOf { file with items := items }).filter (·.1.isSome) =
      (functionsOf file).filter (·.1.isSome) := by
    rw [filter_functionsOf file.name items, hstructs, ← filter_functionsOf file.name file.items]
  -- The first file is declared without errors, so every function is accepted and in any order.
  have hdeclares := hlowered.declares
  rw [declareFile_run, bind_run, hσ] at hdeclares
  obtain ⟨haccepted, hfresh⟩ := (declared_of_run hdeclares).allAccepted (hbare.declarable env)
    (hasErrors_eq_false_mono hlowered.reports hclean)
  have hdeclares' := hlowered'.declares
  rw [declareFile_run, bind_run, hstructs, hσ] at hdeclares'
  obtain ⟨rfl, rfl⟩ := (declared_of_run hdeclares).eq haccepted (hbare.declarable env) hfresh
  obtain ⟨rfl, rfl⟩ := (declared_of_run hdeclares').eq (haccepted.perm hfunctions) (hbare.declarable env)
    fun p _ => hbare.prototype? _
  obtain ⟨s'', t'', hpair⟩ := exists_loweredPair hlowered hlowered'
    (peers_foldl_withDeclared hfunctions haccepted.nodup hmethods hlowered.prepared.ready.tables
      hlowered.prepared.inStep hlowered'.prepared.inStep)
  obtain ⟨_, _, hdiagnostics⟩ := foldl_withDeclared_keeps env σ σ (functionsOf file)
  obtain ⟨_, _, hdiagnostics'⟩ := foldl_withDeclared_keeps env σ σ (functionsOf { file with items := items })
  exact ⟨_, _, _, _, s'', _, _, t'', hpair, hfunctions.filterMap _, hdiagnostics'.trans hdiagnostics.symm⟩

/-- The items of a file without errors can be put into another order that keeps the order of structs. There are
still no errors and, under one renaming of strings that keeps their texts, the functions of the two modules
under each name are the same. -/
theorem functions_match_of_perm (env : Env) (file : File) (items : List (Spanned Item)) (moduleName : String)
    (hnative : file.isNative = true) (hclean : Diagnostic.hasErrors (run env file moduleName).diagnostics = false)
    (hperm : items.Perm file.items) (hstructs : structsOf { file with items := items } = structsOf file) :
    Diagnostic.hasErrors (run env { file with items := items } moduleName).diagnostics = false ∧
      ∃ ρ : String → String, ∀ name, (run env file moduleName).module.MatchesAt
        (run env { file with items := items } moduleName).module ρ name := by
  obtain ⟨declared, declared', s, s', s'', t, t', t'', hpair, hsame, hdiagnostics⟩ :=
    exists_loweredPair_of_perm hnative hclean hperm hstructs
  refine ⟨?_, s''.builder.module.nameIn t''.builder.module, hpair.matchesAt_of_perm hsame⟩
  refine List.any_eq_false.mpr fun d hd => ?_
  exact List.any_eq_false.mp hclean d (hpair.diagnostics_subset hsame hdiagnostics hd)

/-- A struct with a method, and two functions that share a text with it. -/
def shapesFile : File :=
  let square : StructDef := ⟨⟨"Square", {}⟩, [⟨⟨"side", {}⟩, ⟨{ name := "int" }, {}⟩⟩], [printer "show" ["square"]]⟩
  ⟨"shapes.aero", [⟨.struct square, {}⟩, ⟨.fn (printer "first" ["a", "square"]), {}⟩,
    ⟨.fn (printer "second" ["b", "square"]), {}⟩]⟩

theorem shapes_match_reversed : shapesFile.isNative = true ∧
      Diagnostic.hasErrors (run bareEnv shapesFile "shapes").diagnostics = false ∧
      shapesFile.items.reverse.Perm shapesFile.items ∧
      structsOf { shapesFile with items := shapesFile.items.reverse } = structsOf shapesFile ∧
      Diagnostic.hasErrors
        (run bareEnv { shapesFile with items := shapesFile.items.reverse } "shapes").diagnostics = false ∧
      ∃ ρ : String → String, ∀ name, (run bareEnv shapesFile "shapes").module.MatchesAt
        (run bareEnv { shapesFile with items := shapesFile.items.reverse } "shapes").module ρ name := by
  have hnative : shapesFile.isNative = true := by decide
  have hclean : Diagnostic.hasErrors (run bareEnv shapesFile "shapes").diagnostics = false := by
    decide +kernel
  have hperm := List.reverse_perm shapesFile.items
  exact ⟨hnative, hclean, hperm, rfl,
    functions_match_of_perm bareEnv shapesFile shapesFile.items.reverse "shapes" hnative hclean hperm rfl⟩

end Aero.Lowering

/-! ### Texts -/

namespace Aero.Lowering

open IR

/-- Functions of two modules that match have the same text if and only if each string that they refer to has the
same contents in both modules. -/
theorem text_eq_iff_of_matchesAt {m m' : Module} {ρ : String → String} {name : String} {g : Function}
    (hm : m.Interned) (hm' : m'.Interned) (h : m.MatchesAt m' ρ name) (hg : m.function? name = some g) :
    ∃ g', m'.function? name = some g' ∧ (g'.text = g.text ↔
      ∀ x s, g.RefersTo x → m.stringConstant? x = some s → m'.stringConstant? x = some s) := by
  unfold Module.MatchesAt at h
  rw [hg] at h
  generalize hg' : m'.function? name = found at h
  cases h with
  | some hmatches =>
    obtain ⟨rfl, hrenames⟩ := hmatches
    exact ⟨_, rfl, hrenames.text_eq_iff hm hm'⟩

/-- If the functions of a file change places, the text of a function stays the same if and only if each string
that it refers to keeps its number. -/
theorem text_eq_iff_of_perm (env : Env) (file : File) (items : List (Spanned Item)) (moduleName : String)
    (hnative : file.isNative = true) (hclean : Diagnostic.hasErrors (run env file moduleName).diagnostics = false)
    (hperm : items.Perm file.items) (hstructs : structsOf { file with items := items } = structsOf file)
    (name : String) (g : Function) (hg : (run env file moduleName).module.function? name = some g) :
    ∃ g', (run env { file with items := items } moduleName).module.function? name = some g' ∧
      (g'.text = g.text ↔ ∀ x s, g.RefersTo x → (run env file moduleName).module.stringConstant? x = some s →
        (run env { file with items := items } moduleName).module.stringConstant? x = some s) := by
  obtain ⟨declared, declared', s, s', s'', t, t', t'', hpair, hsame, _⟩ :=
    exists_loweredPair_of_perm hnative hclean hperm hstructs
  exact text_eq_iff_of_matchesAt hpair.left.interned hpair.right.interned (hpair.matchesAt_of_perm hsame name) hg

theorem first_text_eq_iff_of_reversed :
    shapesFile.isNative = true ∧ Diagnostic.hasErrors (run bareEnv shapesFile "shapes").diagnostics = false ∧
      ∃ g g', (run bareEnv shapesFile "shapes").module.function? "first" = some g ∧
        (run bareEnv { shapesFile with items := shapesFile.items.reverse } "shapes").module.function? "first" =
          some g' ∧
        (g'.text = g.text ↔ ∀ x s, g.RefersTo x → (run bareEnv shapesFile "shapes").module.stringConstant? x = some s →
          (run bareEnv { shapesFile with items := shapesFile.items.reverse } "shapes").module.stringConstant? x =
            some s) := by
  have hnative : shapesFile.isNative = true := by decide
  have hclean : Diagnostic.hasErrors (run bareEnv shapesFile "shapes").diagnostics = false := by
    decide +kernel
  have hsome : ((run bareEnv shapesFile "shapes").module.function? "first").isSome = true := by
    decide +kernel
  obtain ⟨g, hg⟩ := Option.isSome_iff_exists.mp hsome
  obtain ⟨g', hg', hiff⟩ := text_eq_iff_of_perm bareEnv shapesFile shapesFile.items.reverse "shapes" hnative
    hclean (List.reverse_perm _) rfl "first" g hg
  exact ⟨hnative, hclean, g, g', hg, hg', hiff⟩

/-- A function whose text depends on its place. The first of two functions that print becomes the second, and
its strings get other numbers. -/
theorem first_text_ne_of_reversed : Diagnostic.hasErrors (run bareEnv printersFile "printers").diagnostics = false ∧
      Diagnostic.hasErrors
        (run bareEnv { printersFile with items := printersFile.items.reverse } "printers").diagnostics = false ∧
      ((run bareEnv { printersFile with items := printersFile.items.reverse } "printers").module.function?
          "first").map Function.text ≠
        ((run bareEnv printersFile "printers").module.function? "first").map Function.text := by
  refine ⟨?_, ?_, ?_⟩ <;> decide +kernel

/-- If another function gets a new body, the text of a function stays the same if and only if each string that
it refers to has the same contents as before. -/
theorem text_eq_iff_of_rebodied (env : Env) (file file' : File) (moduleName : String) (f : FnDef)
    (body : Spanned StmtBlock) (struct : Option String) (hnative : file.isNative = true)
    (hnative' : file'.isNative = true) (h : file.Rebodied f body struct file') (name : String)
    (hname : name ≠ symbolOf env.config.module struct f.name.node) (g g' : Function)
    (hg : (run env file moduleName).module.function? name = some g)
    (hg' : (run env file' moduleName).module.function? name = some g') :
    g'.text = g.text ↔ ∀ x s, g.RefersTo x → (run env file moduleName).module.stringConstant? x = some s →
      (run env file' moduleName).module.stringConstant? x = some s := by
  obtain ⟨s, s', s'', t', t'', hpair, hsymbols, hothers⟩ :=
    exists_loweredPair_of_rebodied hnative hnative' h env moduleName
  rcases hpair.matchesAt_or_oneDeclares hsymbols fun p hp hsymbol => hothers p hp (hsymbol ▸ hname) with
    hmatches | ⟨p, _, ⟨_, hnone⟩ | ⟨hnone, _⟩⟩
  · obtain ⟨found, hfound, hiff⟩ :=
      text_eq_iff_of_matchesAt hpair.left.interned hpair.right.interned hmatches hg
    obtain rfl := Option.some.inj (hfound.symm.trans hg')
    exact hiff
  · rw [hg'] at hnone
    cases hnone
  · rw [hg] at hnone
    cases hnone

theorem second_text_eq_iff_of_broken_first : printersFile.isNative = true ∧ brokenFile.isNative = true ∧
      printersFile.Rebodied (printer "first" ["a", "b"]) brokenBody none brokenFile ∧
      ∃ g g', (run bareEnv printersFile "printers").module.function? "second" = some g ∧
        (run bareEnv brokenFile "printers").module.function? "second" = some g' ∧
        (g'.text = g.text ↔ ∀ x s, g.RefersTo x →
          (run bareEnv printersFile "printers").module.stringConstant? x = some s →
          (run bareEnv brokenFile "printers").module.stringConstant? x = some s) := by
  have hnative : printersFile.isNative = true := by decide
  have hnative' : brokenFile.isNative = true := by decide
  have hrebodied : printersFile.Rebodied (printer "first" ["a", "b"]) brokenBody none brokenFile :=
    ⟨rfl, [], _, _, _, {}, rfl, rfl, .function⟩
  have hsome : ((run bareEnv printersFile "printers").module.function? "second").isSome = true := by
    decide +kernel
  have hsome' : ((run bareEnv brokenFile "printers").module.function? "second").isSome = true := by
    decide +kernel
  obtain ⟨g, hg⟩ := Option.isSome_iff_exists.mp hsome
  obtain ⟨g', hg'⟩ := Option.isSome_iff_exists.mp hsome'
  exact ⟨hnative, hnative', hrebodied, g, g', hg, hg', text_eq_iff_of_rebodied bareEnv printersFile brokenFile
    "printers" _ _ _ hnative hnative' hrebodied "second" (by decide) g g' hg hg'⟩

def printerFile (text : String) : File := ⟨"printer.aero", [⟨.fn (printer "first" [text]), {}⟩]⟩

/-- Functions that print different texts, and have the same text and the same hash. -/
theorem first_text_eq_of_other_string :
    Diagnostic.hasErrors (run bareEnv (printerFile "a") "printer").diagnostics = false ∧
      Diagnostic.hasErrors (run bareEnv (printerFile "b") "printer").diagnostics = false ∧
      ((run bareEnv (printerFile "a") "printer").module.function? "first").any (fun g =>
        g.values.contains (.global ".str.0")) = true ∧
      ((run bareEnv (printerFile "b") "printer").module.function? "first").map Function.text =
        ((run bareEnv (printerFile "a") "printer").module.function? "first").map Function.text ∧
      ((run bareEnv (printerFile "b") "printer").module.function? "first").map ContentHash.ofFunction =
        ((run bareEnv (printerFile "a") "printer").module.function? "first").map ContentHash.ofFunction ∧
      (run bareEnv (printerFile "a") "printer").module.stringConstant? ".str.0" = some "a" ∧
      (run bareEnv (printerFile "b") "printer").module.stringConstant? ".str.0" = some "b" := by
  have hsame : (run bareEnv (printerFile "b") "printer").module.function? "first" =
      (run bareEnv (printerFile "a") "printer").module.function? "first" := by decide +kernel
  refine ⟨?_, ?_, ?_, by rw [hsame], by rw [hsame], ?_, ?_⟩ <;> decide +kernel

end Aero.Lowering
