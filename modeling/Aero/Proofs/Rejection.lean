import Aero.Proofs.Hygiene

/-!
A function that can not be declared leaves no trace but its diagnostic: without it, the file is lowered to the same
module, with the same other diagnostics. What was reported before has no part in what is lowered after it.
-/

namespace Aero.Lowering

open IR IR.Build List

variable {α β : Type} {env : Env} {P : Common True} {s t : State} {act : Lower α} {f : FnDef}
  {declared : List (FnDef × FnSig)} {fns : List Routine} {d : Diagnostic} {sig : FnSig}

/-! ### States that differ in their reports -/

/-- The guise in which all is compared but the reports. -/
def Guise.same : Guise := .veiled (Equiv.refl String) id

theorem hides_refl : Hides (Equiv.refl String) id := fun _ _ => rfl

theorem State.like_reports (s : State) (left right : List Diagnostic) :
    ({ s with diagnostics := left } : State).Like .same { s with diagnostics := right } where
  functions_eq := fun _ => rfl
  methods_eq := fun _ => rfl
  functions := fun _ _ _ => trivial
  methods := fun _ _ _ => trivial
  builder := .refl _
  scopes_eq := (Scopes.rename_refl _).symm
  plain := Scopes.plain_veiled _
  loopExits_eq := rfl
  returnTy_eq := rfl
  same := fun _ => ⟨rfl, rfl⟩

abbrev Agrees (env : Env) (act : Lower α) : Prop := Twins .same env act act fun a a' => a' = a

theorem Agrees.bind {next : α → Lower β} (h : Agrees env act)
    (hnext : ∀ a, Agrees env (next a)) : Agrees env (act >>= next) :=
  Twins.bind h fun a _ heq => heq ▸ hnext a

/-- An action and what comes of it, whether it succeeds or fails. -/
theorem Agrees.attempt_bind {next : Except Diagnostic α → Lower β}
    (h : Agrees env act) (hnext : ∀ r, Agrees env (next r)) : Agrees env (attempt act >>= next) := by
  refine ⟨fun s t hst => ?_⟩
  have hrun := h.run s t hst
  simp only [bind_run, attempt]
  cases hs : act env s <;> cases ht : act env t <;> rw [hs, ht] at hrun
  · obtain ⟨rfl, hst'⟩ := hrun
    exact ((hnext _).run _ _ hst'.like).after hst'
  · exact hrun.elim
  · exact hrun.elim
  · obtain ⟨hmatch, hst'⟩ := hrun
    rw [hmatch.eq rfl]
    exact ((hnext _).run _ _ hst'.like).after hst'

theorem Agrees.of_done {act : Lower Unit} (h : ∀ P, Steady .same env P act Done) : Agrees env act :=
  .of_parallel fun P => (h P).mono fun _ _ _ _ _ => rfl

theorem agrees_report : Agrees env (report d) :=
  ⟨fun _ _ h => ⟨rfl, { h with }, [d], rfl, rfl⟩⟩

theorem agrees_orReport (h : Agrees env act) : Agrees env (orReport act) := by
  refine h.attempt_bind fun r => ?_
  cases r with
  | ok a => exact .pure rfl
  | error d => exact (agrees_report).bind fun _ => .pure rfl

/-! ### Whole files -/

theorem agrees_declareFunction {struct : Option String} : Agrees env (declareFunction struct f) := by
  have hdeclare : Twins .same env (declareFunction struct f) _ _ :=
    twins_declareFunction hides_refl (fun _ => rfl)
  have hsig (sig : FnSig) : sig.rename (Equiv.refl String) = sig := sig.rename_id
  have hfn : f.rename (Equiv.refl String) = f := f.rename_id
  simpa only [hsig, hfn] using hdeclare

theorem agrees_defineFunction : Agrees env (defineFunction f sig) := by
  have hdefine : Twins .same env (defineFunction f sig)
      (defineFunction (f.rename (Equiv.refl String)) (sig.rename (Equiv.refl String))) _ :=
    twins_defineFunction (.inr ⟨rfl, .inr trivial⟩)
  have hsig : sig.rename (Equiv.refl String) = sig := sig.rename_id
  have hfn : f.rename (Equiv.refl String) = f := f.rename_id
  rwa [hsig, hfn] at hdefine

theorem agrees_declareFunctions : Agrees env (declareFunctions fns) := by
  induction fns with
  | nil => exact .pure rfl
  | cons p fns ih =>
    exact (agrees_orReport (agrees_declareFunction)).bind fun _ => ih.bind fun _ => .pure rfl

theorem agrees_defineOrReport : Agrees env (defineOrReport f sig) := by
  refine (agrees_defineFunction).attempt_bind fun r => ?_
  cases r with
  | ok a => exact .pure rfl
  | error d => exact (Agrees.of_done fun _ => steady_note).bind fun _ => agrees_report

theorem agrees_defineAll : Agrees env (defineAll declared) := by
  induction declared with
  | nil => exact .pure rfl
  | cons p declared ih => exact (agrees_defineOrReport).bind fun _ => ih

theorem State.Like.lookup_eq (h : s.Like .same t) (name : String) :
    t.functions.lookup name = s.functions.lookup name := by
  have hmask : FnSig.masked id = id := funext FnSig.masked_id
  have hlookup := h.functions_eq name
  change (t.functions.lookup name).map (.masked id) = (s.functions.lookup name).map (FnSig.masked id) at hlookup
  rwa [hmask, Option.map_id] at hlookup

theorem steady_lowerEntry {userEntry : String} : Steady .same env P (lowerEntry userEntry) Done := by
  refine ⟨fun s t h _ => ?_⟩
  obtain ⟨code, hcode, hmirrored⟩ := lowerEntry_code env userEntry (s.functions.lookup "main")
  rw [hcode s rfl, hcode t (h.lookup_eq "main")]
  have hrun := (hmirrored (Guise.same.world s t) fun _ _ => trivial).run _ _ h.builder (le_refl _)
  exact ⟨h.setBuilder hrun.1, ⟨rfl, rfl⟩, trivial⟩

theorem steady_synthesizeEntry : Steady .same env P synthesizeEntry Done := by
  refine .read_bind (.bind_same (.lift (mirrors_declareFunction rfl)) fun _ done _ _ => ?_)
  refine .ite (fun _ => ?_) fun _ => steady_warn
  refine .seq (Steady.lift mirrors_defineFunction).discard fun _ _ => ?_
  exact steady_lowerEntry.seq fun _ _ => .lift mirrors_endFunction

/-- What is left to do for a file once some of its functions are declared. -/
def lowerRest (declared : List (FnDef × FnSig)) (fns : List Routine) : Lower Unit := do
  let others ← declareFunctions fns
  defineAll (declared ++ others)
  if (← read).config.module.synthesizeEntry then synthesizeEntry

theorem agrees_lowerRest : Agrees env (lowerRest declared fns) := by
  refine (agrees_declareFunctions).bind fun others => (agrees_defineAll).bind fun _ => .read_bind ?_
  exact Agrees.of_done fun _ => .ite (fun _ => steady_synthesizeEntry) fun _ => .done

/-! ### Functions that are rejected -/

theorem declareFunctions_append (l l' : List Routine) : declareFunctions (l ++ l') = (do
      let first ← declareFunctions l
      let others ← declareFunctions l'
      return first ++ others) := by
  induction l with
  | nil => simp only [nil_append, declareFunctions, pure_bind, bind_pure]
  | cons p l ih =>
    simp only [cons_append, declareFunctions, ih, bind_assoc, pure_bind, append_assoc]

/-- Declares the structs of a file, and the functions of some of its items. -/
def declareUpTo (file : File) (items : List (Spanned Item)) : Lower (List (FnDef × FnSig)) := do
  declareStructs file.name (structsOf file)
  declareFunctions (functionsOf { file with items := items })

theorem lowerFile_split {file : File} {before rest : List (Spanned Item)} (h : file.items = before ++ rest) :
    lowerFile file env s = (declareUpTo file before >>= fun declared =>
      lowerRest declared (functionsOf { file with items := rest })) env s := by
  have hfunctions : functionsOf file =
      functionsOf { file with items := before } ++ functionsOf { file with items := rest } := by
    rw [functionsOf, h, flatMap_append]
    rfl
  rw [lowerFile_run, bind_run, declareFile_run, ← bind_run, hfunctions, declareFunctions_append]
  simp only [declareUpTo, bind_assoc]
  rfl

def finalState : EStateM.Result Diagnostic State Unit → State
  | .ok _ s => s
  | .error _ s => s

theorem run_final (env : Env) (file : File) (moduleName : String) : (run env file moduleName).module =
        (finalState (lowerFile file env (.start env.config moduleName))).builder.module ∧
      (run env file moduleName).diagnostics =
        (finalState (lowerFile file env (.start env.config moduleName))).diagnostics := by
  unfold run
  cases lowerFile file env (.start env.config moduleName) <;> exact ⟨rfl, rfl⟩

theorem TwinEnds.final {r r' : EStateM.Result Diagnostic State Unit} {Q : Unit → Unit → Prop}
    (h : TwinEnds .same s t Q r r') : s.Progress .same t (finalState r) (finalState r') := by
  cases r <;> cases r'
  · exact h.2
  · exact h.elim
  · exact h.elim
  · exact h.2

theorem lowerRest_rejected {s' : State} (h : declareFunction none f env s = .error d s')
    (declared : List (FnDef × FnSig)) (fns : List Routine) :
    lowerRest declared ((none, f) :: fns) env s = lowerRest declared fns env (s.report d) := by
  have hsame : declareFunction none f env s = .error d s := by
    rcases declareFunction_cases env s (none, f) with ⟨sig, _, hrun⟩ | ⟨_, d', _, hrun⟩
    · rw [h] at hrun
      cases hrun
    · rw [h] at hrun
      obtain ⟨rfl, rfl⟩ := EStateM.Result.error.inj hrun
      exact h
  have hdeclare : declareFunctions ((none, f) :: fns) env s = declareFunctions fns env (s.report d) := by
    rw [declareFunctions_cons, bind_run, orReport_run, hsame]
    exact congrFun (congrFun (bind_pure (declareFunctions fns)) env) _
  unfold lowerRest
  rw [bind_run, bind_run, hdeclare]

/-- The declaration of a function is rejected with a diagnostic, when the structs of the file and the functions of the
items before it have been declared. -/
def Rejects (env : Env) (moduleName : String) (file : File) (before : List (Spanned Item)) (f : FnDef)
    (d : Diagnostic) : Prop :=
  ∃ declared s s', declareUpTo file before env (.start env.config moduleName) = .ok declared s ∧
    declareFunction none f env s = .error d s'

/-- Rejected functions leave no trace. If the declaration of a function of a file is rejected, because its name is
reserved or taken or because a type in its signature is not accepted, then without that function the file is lowered
to the same module, and its diagnostics are the same but for that of the rejection. -/
theorem run_without_rejected (env : Env) (moduleName : String) (file : File) (before after : List (Spanned Item))
    (f : FnDef) (span : Span) (d : Diagnostic) (hitems : file.items = before ++ ⟨.fn f, span⟩ :: after)
    (hrejects : Rejects env moduleName file before f d) :
    (run env { file with items := before ++ after } moduleName).module = (run env file moduleName).module ∧
      ∃ earlier later, (run env file moduleName).diagnostics = earlier ++ d :: later ∧
        (run env { file with items := before ++ after } moduleName).diagnostics = earlier ++ later := by
  obtain ⟨declared, s, s', hdeclared, hrejected⟩ := hrejects
  have hstructs : structsOf { file with items := before ++ after } = structsOf file := by
    rw [structsOf, structsOf, hitems, List.filterMap_append, List.filterMap_append]
    rfl
  have hdeclared' : declareUpTo { file with items := before ++ after } before env (.start env.config moduleName) =
      .ok declared s := by
    rw [declareUpTo, hstructs]
    exact hdeclared
  have hwith : lowerFile file env (.start env.config moduleName) =
      lowerRest declared (functionsOf { file with items := after }) env (s.report d) := by
    rw [lowerFile_split hitems, bind_run, hdeclared]
    exact lowerRest_rejected hrejected declared _
  have hwithout : lowerFile { file with items := before ++ after } env (.start env.config moduleName) =
      lowerRest declared (functionsOf { file with items := after }) env s := by
    rw [lowerFile_split rfl, bind_run, hdeclared']
  have hsame : State.Progress .same (s.report d) s (finalState (lowerFile file env (.start env.config moduleName)))
      (finalState (lowerFile { file with items := before ++ after } env (.start env.config moduleName))) := by
    rw [hwith, hwithout]
    have hlike := s.like_reports (s.diagnostics ++ [d]) s.diagnostics
    exact ((agrees_lowerRest).run _ _ hlike).final
  obtain ⟨hmodule, hreports⟩ := run_final env file moduleName
  obtain ⟨hmodule', hreports'⟩ := run_final env { file with items := before ++ after } moduleName
  obtain ⟨later, hleft, hright⟩ := hsame.reports
  refine ⟨?_, s.diagnostics, later, ?_, ?_⟩
  · have hmasked := congrArg Builder.module hsame.like.builder
    rw [hmodule, hmodule', ← Module.masked_id (finalState (lowerFile file env _)).builder.module]
    exact (Module.masked_id _).symm.trans hmasked
  · rw [hreports, hleft]
    exact List.append_assoc _ _ _
  · rw [hreports', hright]

/-- A file with three functions, of which the second has the name of a builtin function. -/
def reservedFile : File :=
  ⟨"reserved.aero", [⟨.fn (printer "first" ["a"]), {}⟩, ⟨.fn (printer "print" ["b"]), {}⟩,
    ⟨.fn (printer "second" ["c"]), {}⟩]⟩

theorem reservedFile_without_print :
    Rejects bareEnv "reserved" reservedFile [⟨.fn (printer "first" ["a"]), {}⟩] (printer "print" ["b"])
        ((Problem.reservedName "print").diagnostic {}) ∧
      (run bareEnv ⟨"reserved.aero", [⟨.fn (printer "first" ["a"]), {}⟩, ⟨.fn (printer "second" ["c"]), {}⟩]⟩
        "reserved").module = (run bareEnv reservedFile "reserved").module := by
  have hrejects : Rejects bareEnv "reserved" reservedFile [⟨.fn (printer "first" ["a"]), {}⟩]
      (printer "print" ["b"]) ((Problem.reservedName "print").diagnostic {}) := by
    have hbare : (State.start bareEnv.config "reserved").Bare := bare_start bareEnv.config "reserved"
    obtain ⟨s1, hstructs, _⟩ := bare_declareStructs bareEnv reservedFile.name (structsOf reservedFile) hbare
    obtain ⟨declared, s, hdeclared, _⟩ := exists_declared bareEnv
      (functionsOf ⟨"reserved.aero", [⟨.fn (printer "first" ["a"]), {}⟩]⟩) s1
    refine ⟨declared, s, s, ?_, ?_⟩
    · rw [declareUpTo, bind_run, hstructs]
      exact hdeclared
    · rw [declareFunction_run (none, printer "print" ["b"])]
      rfl
  exact ⟨hrejects, (run_without_rejected bareEnv "reserved" reservedFile [⟨.fn (printer "first" ["a"]), {}⟩]
    [⟨.fn (printer "second" ["c"]), {}⟩] _ {} _ rfl hrejects).1⟩

end Aero.Lowering
