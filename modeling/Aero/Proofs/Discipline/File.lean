import Aero.Proofs.Discipline.Definition

/-!
Whole files under a policy. The lowering of a file can be made with a record of how each struct, each declaration and
each body ends. The errors of the file are those of the record, in its order, and a declared function has a body if
the record says so.
-/

namespace Aero.Lowering

open IR IR.Build List

variable {α β : Type} {env : Env} {c : Mandate} {s s' : State} {handle : Diagnostic → Lower Unit} {E : State → Prop}
  {l : List α} {d : Diagnostic} {file : File} {act : Lower α} {moduleName : String}

/-! ### Records -/

/-- How an action ends. What it fails with is handled at once. -/
def ending (act : Lower α) (handle : Diagnostic → Lower Unit) : Lower (Except Diagnostic α) := do
  match ← attempt act with
  | .ok a => return .ok a
  | .error d =>
    handle d
    return .error d

/-- Acts on each element of a list, and yields it with the result. -/
def record (act : α → Lower β) (l : List α) : Lower (List (α × β)) :=
  l.mapM fun a => do return (a, ← act a)

def raised : Except Diagnostic α → List Diagnostic
  | .ok _ => []
  | .error d => [d]

def failures (done : List (α × Except Diagnostic β)) : List Diagnostic := done.flatMap fun p => raised p.2

def accepted (declarations : List ((Option String × FnDef) × Except Diagnostic FnSig)) : List (FnDef × FnSig) :=
  declarations.flatMap fun p => (p.2.toOption.map fun sig => (p.1.2, sig)).toList

/-- How the parts of a file ended. -/
structure Ledger where
  structs : List (StructDef × Except Diagnostic Unit)
  declarations : List ((Option String × FnDef) × Except Diagnostic FnSig)
  bodies : List ((FnDef × FnSig) × Except Diagnostic Unit)

def Ledger.errors (ledger : Ledger) : List Diagnostic :=
  failures ledger.structs ++ failures ledger.declarations ++ failures ledger.bodies

/-- What is done about a body that fails. -/
def reportBody (sig : FnSig) (d : Diagnostic) : Lower Unit := do
  note .debug ("discarding body of @" ++ sig.symbol ++ ": " ++ d.message)
  report d

/-- Lowers the parts of a file and records how they end. -/
def recordParts (file : File) : Lower Ledger := do
  note .debug ("translating '" ++ file.name ++ "' into " ++ (← state).builder.module.name)
  let structs ← record (fun d => ending (declareStruct d) report) (structsOf file)
  let declarations ← record (fun p => ending (declareFunction p.1 p.2) report) (functionsOf file)
  let bodies ← record (fun p => ending (defineFunction p.1 p.2) (reportBody p.2)) (accepted declarations)
  return ⟨structs, declarations, bodies⟩

def finishFile : Lower Unit := do
  if (← read).config.module.synthesizeEntry then synthesizeEntry

def recordFile (file : File) : Lower Ledger := do
  let ledger ← recordParts file
  finishFile
  return ledger

theorem discard_eq (act : Lower α) : discard act = act >>= fun _ => pure () := rfl

theorem record_cons (act : α → Lower β) (a : α) (l : List α) :
    record act (a :: l) = act a >>= fun b => record act l >>= fun done => pure ((a, b) :: done) := by
  simp only [record, mapM_cons, bind_assoc, pure_bind]

theorem orReport_eq (act : Lower α) : orReport act = Except.toOption <$> ending act report := by
  funext env s
  rw [orReport_run]
  change _ = (ending act report >>= fun result => pure result.toOption) env s
  rw [bind_run, ending, bind_run, attempt]
  cases act env s <;> rfl

theorem defineOrReport_eq (f : FnDef) (sig : FnSig) :
    defineOrReport f sig = discard (ending (defineFunction f sig) (reportBody sig)) := by
  funext env s
  change _ = (ending (defineFunction f sig) (reportBody sig) >>= fun _ => pure ()) env s
  rw [bind_run, ending, bind_run, defineOrReport, bind_run, attempt]
  cases defineFunction f sig env s <;> rfl

theorem forM_eq_record {act : α → Lower Unit} {recorded : α → Lower β} (h : ∀ a, act a = discard (recorded a))
    (l : List α) : l.forM act = discard (record recorded l) := by
  induction l with
  | nil => rfl
  | cons a l ih =>
    change (act a >>= fun _ => l.forM act) = _
    rw [ih, h, record_cons]
    simp only [discard_eq, bind_assoc, pure_bind]

theorem declareFunctions_eq (fns : List Routine) :
    declareFunctions fns = accepted <$> record (fun p => ending (declareFunction p.1 p.2) report) fns := by
  induction fns with
  | nil => rfl
  | cons p fns ih =>
    rw [declareFunctions, orReport_eq, ih, record_cons]
    simp only [map_bind, bind_map_left]
    rfl

theorem declareStructs_eq (structs : List StructDef) : (structs.forM fun d => discard (orReport (declareStruct d))) =
      discard (record (fun d => ending (declareStruct d) report) structs) := by
  refine forM_eq_record (fun d => ?_) structs
  rw [orReport_eq, discard_eq, discard_eq, bind_map_left]

theorem lowerFile_eq (file : File) : lowerFile file = discard (recordFile file) := by
  have hbodies : ∀ declared, defineAll declared = discard
      (record (fun p => ending (defineFunction p.1 p.2) (reportBody p.2)) declared) :=
    forM_eq_record fun p => defineOrReport_eq p.1 p.2
  funext env s
  rw [lowerFile_run, declareFile, declareStructs_eq]
  simp only [hbodies, declareFunctions_eq, recordFile, recordParts, discard_eq, bind_map_left, bind_assoc, pure_bind,
    bind_pure_unit]
  rfl

/-- What holds of the work that is done and the work that is left, and is kept by each step, holds in the end. -/
theorem outcome_record {act : α → Lower β} {I : List (α × β) → List α → State → Prop} {done : List (α × β)}
    (h : I done l s) (hstep : ∀ a ∈ l, ∀ done rest s, I done (a :: rest) s →
      Outcome (fun _ => False) (fun b => I (done ++ [(a, b)]) rest) (act a env s)) :
    Outcome (fun _ => False) (fun later s' => I (done ++ later) [] s' ∧ later.map Prod.fst = l)
      (record act l env s) := by
  induction l generalizing done s with
  | nil => exact ⟨(append_nil done).symm ▸ h, rfl⟩
  | cons a rest ih =>
    rw [record_cons]
    obtain ⟨ha, hrest⟩ := forall_mem_cons.mp hstep
    refine .bind (ha done rest s h) fun b s1 h1 => ?_
    refine .bind (ih h1 hrest) fun later s2 h2 => ⟨?_, congrArg (a :: ·) h2.2⟩
    rw [append_assoc] at h2
    exact h2.1

theorem failures_snoc (done : List (α × Except Diagnostic β)) (a : α) (result : Except Diagnostic β) :
    failures (done ++ [(a, result)]) = failures done ++ raised result := by
  rw [failures, flatMap_append, flatMap_singleton]
  rfl

theorem ending_ok {a : α} (h : act env s = .ok a s') : ending act handle env s = .ok (.ok a) s' := by
  rw [ending, bind_run, attempt, h]
  rfl

theorem ending_error (h : act env s = .error d s') :
    ending act handle env s = (handle d >>= fun _ => pure (.error d)) env s' := by
  rw [ending, bind_run, attempt, h]

theorem State.errors_report (h : d.isError = true) (s : State) : State.errors (s.report d) = s.errors ++ [d] := by
  rw [State.errors, filter_append, filter_cons_of_pos h]
  rfl

theorem Outcome.and {Q R : α → State → Prop} {result : EStateM.Result Diagnostic State α}
    (h : Outcome E Q result) (h' : Outcome E R result) : Outcome E (fun a s => Q a s ∧ R a s) result := by
  cases result with
  | ok a s => exact ⟨h, h'⟩
  | error d s => exact h

theorem Outcome.of_map {R : β → State → Prop} {f : α → β}
    (h : Outcome E R ((f <$> act) env s)) : Outcome E (fun a => R (f a)) (act env s) := by
  change Outcome E R ((act >>= fun a => pure (f a)) env s) at h
  rw [bind_run] at h
  cases hres : act env s with
  | ok a s' | error d s' =>
    rw [hres] at h
    exact h

/-! ### Declarations -/

/-- What has been declared, with its errors reported. -/
structure Recorded (e : List Diagnostic) (I : State → Prop) (Q : α → β → Prop) (done : List (α × Except Diagnostic β))
    (s : State) : Prop where
  keeps : I s
  errors_eq : s.errors = e ++ failures done
  results : ∀ p ∈ done, ∀ b, p.2 = .ok b → Q p.1 b

/-- Actions that succeed, or fail and change nothing. -/
theorem recorded_record {act : α → Lower β} {I : State → Prop} {Q : α → β → Prop} (hs : I s)
    (hreport : ∀ s d, I s → I (s.report d))
    (hact : ∀ a ∈ l, ∀ s, I s → (∃ b s', act a env s = .ok b s' ∧ I s' ∧ s'.errors = s.errors ∧ Q a b) ∨
        ∃ d, d.isError = true ∧ act a env s = .error d s) :
    Outcome (fun _ => False) (fun done s' => Recorded s.errors I Q done s' ∧ done.map Prod.fst = l)
      (record (fun a => ending (act a) report) l env s) := by
  have hstart : Recorded s.errors I Q [] s := ⟨hs, (append_nil _).symm, forall_mem_nil _⟩
  refine outcome_record (I := fun done _ => Recorded s.errors I Q done) hstart fun a ha done _ s h => ?_
  rcases hact a ha s h.keeps with ⟨b, s', hres, hkeeps, herrors, hb⟩ | ⟨d, hd, hres⟩
  · rw [ending_ok hres]
    refine ⟨hkeeps, ?_, forall_mem_append.mpr ⟨h.results, ?_⟩⟩
    · rw [herrors, h.errors_eq, failures_snoc, raised, append_nil]
    · refine forall_mem_singleton.mpr fun b' hb' => ?_
      exact Except.ok.inj hb' ▸ hb
  · rw [ending_error hres]
    refine ⟨hreport s d h.keeps, ?_, forall_mem_append.mpr ⟨h.results, ?_⟩⟩
    · rw [State.errors_report hd, h.errors_eq, failures_snoc, raised, append_assoc]
    · exact forall_mem_singleton.mpr nofun

/-! ### Bodies -/

theorem Concluded.report {sig : FnSig} {done : Bool} (h : Concluded c sig done s s') (level : LogLevel)
    (message : String) (d : Diagnostic) : Concluded c sig done s
      { s' with builder := s'.builder.note level message, diagnostics := s'.diagnostics ++ [d] } where
  idle :=
    { ready := (h.idle.ready.note level message).report d
      rests := fun name => { h.idle.rests name with builder := { (h.idle.rests name).builder with } } }
  proceeds :=
    { h.proceeds with
      ready := (h.idle.ready.note level message).report d
      awaits := fun sig' hne hawaits => (h.proceeds.awaits sig' hne hawaits).congr rfl }
  body := h.body

/-- Some functions have been defined and the others await their bodies. -/
structure Underway (c : Mandate) (e : List Diagnostic) (done : List ((FnDef × FnSig) × Except Diagnostic Unit))
    (rest : List (FnDef × FnSig)) (s : State) : Prop where
  idle : s.Idle c
  errors_eq : s.errors = e ++ failures done
  awaits : ∀ p ∈ rest, s.Awaits p.2
  nodup : (symbolsOf (done.map Prod.fst ++ rest)).Nodup
  bodies : ∀ p ∈ done, ∃ g, s.builder.module.function? p.1.2.symbol = some g ∧ (g.blocks ≠ [] ↔ p.2.isOk = true)

variable {e : List Diagnostic} {done : List ((FnDef × FnSig) × Except Diagnostic Unit)} {p : FnDef × FnSig}
  {rest : List (FnDef × FnSig)}

theorem Underway.next {result : Except Diagnostic Unit} (h : Underway c e done (p :: rest) s)
    (hdefined : Concluded c p.2 result.isOk s s') (herrors : s'.errors = s.errors ++ raised result) :
    Underway c e (done ++ [(p, result)]) rest s' := by
  have hnodup := h.nodup
  rw [symbolsOf, map_append] at hnodup
  obtain ⟨_, hrest, hdisjoint⟩ := nodup_append.mp hnodup
  obtain ⟨hfresh, _⟩ := nodup_cons.mp hrest
  constructor
  case idle => exact hdefined.idle
  case errors_eq => rw [herrors, h.errors_eq, failures_snoc, append_assoc]
  case awaits =>
    intro q hq
    refine hdefined.proceeds.awaits q.2 (fun heq => hfresh ?_) (h.awaits q (mem_cons_of_mem _ hq))
    exact mem_map.mpr ⟨q, hq, heq⟩
  case nodup => rw [map_append, append_assoc]; exact h.nodup
  case bodies =>
    refine forall_mem_append.mpr ⟨fun q hq => ?_, forall_mem_singleton.mpr hdefined.body⟩
    obtain ⟨g, hg, hblocks⟩ := h.bodies q hq
    refine ⟨g, hdefined.proceeds.keeps _ g (fun heq => ?_) hg, hblocks⟩
    exact hdisjoint _ (mem_map_of_mem (mem_map_of_mem hq)) _ mem_cons_self heq

theorem Underway.step (h : Underway c e done (p :: rest) s) (hown : c.own p.2.symbol)
    (hparams : ∀ q ∈ p.2.params, q.Firm (c.solid p.2.symbol)) :
    Outcome (fun _ => False) (fun result => Underway c e (done ++ [(p, result)]) rest)
      (ending (defineFunction p.1 p.2) (reportBody p.2) env s) := by
  have hrun := concluded_defineFunction env p.1 h.idle (h.awaits p mem_cons_self) hown hparams
  cases hres : defineFunction p.1 p.2 env s with
  | ok a s' =>
    rw [hres] at hrun
    obtain ⟨hdefined, herrors⟩ := hrun
    rw [ending_ok hres]
    exact h.next hdefined (herrors.trans (append_nil _).symm)
  | error d s' =>
    rw [hres] at hrun
    obtain ⟨hdefined, herrors, hd⟩ := hrun
    rw [ending_error hres]
    exact h.next (hdefined.report _ _ d) ((State.errors_report hd _).trans (congrArg (· ++ [d]) herrors))

theorem underway_record {l : List (FnDef × FnSig)} (hidle : s.Idle c) (hawaits : ∀ p ∈ l, s.Awaits p.2)
    (hnodup : (symbolsOf l).Nodup) (hown : ∀ p ∈ l, c.own p.2.symbol)
    (hparams : ∀ p ∈ l, ∀ q ∈ p.2.params, q.Firm (c.solid p.2.symbol)) :
    Outcome (fun _ => False) (fun done s' => Underway c s.errors done [] s' ∧ done.map Prod.fst = l)
      (record (fun p => ending (defineFunction p.1 p.2) (reportBody p.2)) l env s) := by
  have hstart : Underway c s.errors [] l s :=
    ⟨hidle, (append_nil _).symm, hawaits, hnodup, forall_mem_nil _⟩
  exact outcome_record hstart fun p hp _ _ _ h => h.step (hown p hp) (hparams p hp)

/-! ### The entry -/

def entryMandate (c : Mandate) : Mandate :=
  { c with
    own := fun name => c.own name ∨ name = entryDeclaration.name
    name := entryDeclaration.name
    index := none }

theorem entryDeclaration_name_ne (p : Primitive) : entryDeclaration.name ≠ p.name := by cases p <;> decide

theorem State.Rests.entry (h : s.Rests c) : s.Conforms (entryMandate c) where
  builder :=
    { (h entryDeclaration.name).builder with
      seated := fun i hi => by
        rw [(h entryDeclaration.name).builder.current_eq] at hi
        cases hi
      known := fun f hf => ((h entryDeclaration.name).builder.known f hf).imp_left .inl }
  functions := (h entryDeclaration.name).functions
  methods := (h entryDeclaration.name).methods

/-- A file is done: the parts are as they were, and nothing of the entry is only declared. -/
structure Finished (c : Mandate) (s s' : State) : Prop where
  conforms : s'.Conforms (entryMandate c)
  errors_eq : s'.errors = s.errors
  keeps : ∀ name g, s.builder.module.function? name = some g → s'.builder.module.function? name = some g
  known : ∀ f ∈ s'.builder.module.functions, f.blocks = [] → c.own f.name ∨ (∃ p : Primitive, f = p.declaration) ∨
    ∃ unit ∈ s'.builder.module.foreign, unit.symbol = f.name

theorem conforms_entry (h : s.Rests c) (hnew : s.builder.module.prototype? entryDeclaration.name = none) :
    ({ s with builder := (Build.defineFunction entryDeclaration.name (s.builder.addFn entryDeclaration)).2 } :
      State).Conforms { entryMandate c with index := some s.builder.module.functions.length } := by
  have hs := h.entry
  have hadded : (s.builder.addFn entryDeclaration).Conforms (entryMandate c) (Requests.Asks s.requested) :=
    hs.builder.addFn (Option.map_eq_none_iff.mp hnew) rfl (fun _ p hp => absurd hp (entryDeclaration_name_ne p))
      (.inl (.inr rfl))
  have hdecl := Builder.Declares.of_addFn hnew rfl rfl
  exact { hs with builder := conforms_defineFunction hadded hdecl (.inr rfl) }

theorem finished_synthesizeEntry (hidle : s.Idle c) :
    Outcome (fun _ => False) (fun _ => Finished c s) (synthesizeEntry env s) := by
  have hproceeds : Outcome (fun _ => False) (fun _ s' => Proceeds False False (fun _ => False) s s' ∧
      (s.builder.module.prototype? entryDeclaration.name = none →
        ∃ g, s'.builder.module.function? entryDeclaration.name = some g ∧ g.blocks ≠ []))
      (synthesizeEntry env s) := proceeds_synthesizeEntry hidle.ready
  cases hproto : s.builder.module.prototype? entryDeclaration.name with
  | some sig =>
    rw [synthesizeEntry_taken hproto]
    exact
      { conforms := { hidle.rests.entry with builder := { hidle.rests.entry.builder with } }
        errors_eq := by
          rw [State.errors, filter_append, filter_cons_of_neg Bool.false_ne_true, filter_nil,
            append_nil]
          rfl
        keeps := fun _ _ h => h
        known := fun f hf _ => (hidle.rests "").builder.known f hf }
  | none =>
    rw [synthesizeEntry_run, bind_run, liftM_run (declareFunction_new hproto)] at hproceeds ⊢
    let s1 : State :=
      { s with builder := (Build.defineFunction entryDeclaration.name (s.builder.addFn entryDeclaration)).2 }
    have hrun : Kept _ s1 (lowerEntry env.config.module.userEntry env s1) :=
      kept_lowerEntry _ (conforms_entry hidle.rests hproto)
    change Outcome _ _ ((lowerEntry env.config.module.userEntry >>= fun _ => liftM endFunction : Lower Unit) env s1)
      at hproceeds ⊢
    rw [bind_run] at hproceeds ⊢
    cases hres : lowerEntry env.config.module.userEntry env s1 with
    | error d s2 =>
      rw [hres] at hproceeds
      exact hproceeds
    | ok a s2 =>
      rw [hres] at hproceeds hrun
      obtain ⟨hkeeps, hdefined⟩ := hproceeds
      obtain ⟨hs2, herrors⟩ := hrun
      have hs3 : ({ s2 with builder := (endFunction s2.builder).2 } : State).Conforms (entryMandate c) :=
        { hs2 with builder := conforms_endFunction hs2.builder }
      refine ⟨hs3, herrors, fun name g => hkeeps.keeps name g id, fun f hf hblocks => ?_⟩
      -- Of the functions that are known, only the entry is new, and it has a body.
      rcases hs3.builder.known f hf with (hown | hname) | hother
      · exact .inl hown
      · obtain ⟨g, hg, hne⟩ := hdefined hproto
        have hfound := hs3.builder.function?_eq hf
        rw [hname] at hfound
        exact absurd hblocks (Option.some.inj (hfound.symm.trans hg) ▸ hne)
      · exact .inr hother

theorem finished_finishFile (hidle : s.Idle c) :
    Outcome (fun _ => False) (fun _ => Finished c s) (finishFile env s) := by
  change Outcome _ _ ((if env.config.module.synthesizeEntry then synthesizeEntry else pure ()) env s)
  split
  · exact finished_synthesizeEntry hidle
  · exact
      { conforms := hidle.rests.entry
        errors_eq := rfl
        keeps := fun _ _ h => h
        known := fun f hf _ => (hidle.rests "").builder.known f hf }

/-! ### Files -/

/-- What is asked of a file: a function that takes no array of void handles no void value, provided that the user's
entry does not have the name of a primitive. -/
def filePolicy (env : Env) (file : File) : Policy where
  alloc := env.config.alloc
  apart := ∀ p : Primitive, env.config.module.userEntry ≠ p.name
  solid := fun name => (∀ p : Primitive, env.config.module.userEntry ≠ p.name) ∧
    ∀ p ∈ functionsOf file, symbolIn env p = name → p.2.takesVoidArray = false
  apart_of_solid := And.left

/-- The work on a file, in which some functions have been declared. -/
def fileMandate (env : Env) (file : File) (signed : List Function) : Mandate :=
  { filePolicy env file with
    own := fun name => ∃ p ∈ functionsOf file, symbolIn env p = name
    signed := signed
    name := ""
    index := none }

theorem rests_start : (State.start env.config moduleName).Rests (fileMandate env file []) := fun _ =>
  { builder :=
      { alloc_eq := rfl
        current_eq := rfl
        seated := nofun
        nodup := nodup_nil
        honest := fun _ => forall_mem_nil _
        known := forall_mem_nil _
        present := forall_mem_nil _
        code := nofun
        fields := forall_mem_nil _ }
    functions := fun _ => forall_mem_nil _
    methods := fun _ => forall_mem_nil _ }

theorem State.Rests.sign {signed : List Function} (h : s.Rests (fileMandate env file []))
    (hsigned : ∀ g ∈ signed, g ∈ s.builder.module.functions.map Function.head) :
    s.Rests (fileMandate env file signed) := fun name =>
  { h name with builder := { (h name).builder with present := hsigned } }

theorem mem_accepted {declarations : List ((Option String × FnDef) × Except Diagnostic FnSig)} {q : FnDef × FnSig} :
    q ∈ accepted declarations ↔ ∃ p ∈ declarations, p.2 = .ok q.2 ∧ p.1.2 = q.1 := by
  obtain ⟨f, sig⟩ := q
  simp only [accepted, mem_flatMap, Option.mem_toList, Option.map_eq_some_iff, Prod.mk.injEq]
  refine exists_congr fun p => and_congr_right fun _ => ?_
  constructor
  · rintro ⟨sig', hsig, rfl, rfl⟩
    refine ⟨?_, rfl⟩
    cases hres : p.2 with
    | ok sig => rw [hres] at hsig; exact congrArg Except.ok (Option.some.inj hsig)
    | error d => rw [hres] at hsig; cases hsig
  · rintro ⟨hsig, rfl⟩
    exact ⟨sig, by rw [hsig]; rfl, rfl, rfl⟩

theorem State.Rests.report (h : s.Rests c) : State.Rests c (s.report d) := fun name => { h name with }

theorem recorded_structs {structs : List StructDef} (hs : s.Rests c) (hdeclaring : Declaring False s) :
    Outcome (fun _ => False) (fun done s' => Recorded s.errors (fun s => s.Rests c ∧ Declaring False s)
        (fun _ _ => True) done s' ∧ done.map Prod.fst = structs)
      (record (fun d => ending (declareStruct d) report) structs env s) := by
  refine recorded_record ⟨hs, hdeclaring⟩ (fun _ d hs => ⟨hs.1.report, hs.2.report d⟩) fun d _ s hs => ?_
  rcases declareStruct_cases env s d with ⟨fields, message, hfields, hnew, hrun⟩ | hfailed
  · refine .inl ⟨_, _, hrun, ⟨fun name => ?_, ?_⟩, rfl, trivial⟩
    · have hnoted : (s.builder.note .debug message).Conforms _ _ := { (hs.1 name).builder with }
      exact { hs.1 name with builder := conforms_defineType hnoted _ fun field hfield => (hfields field hfield).isVoid }
    · exact (hs.2.note .debug message).defineType hnew fun field hfield => { hfields field hfield with }
  · exact .inr hfailed

theorem recorded_functions (hs : s.Rests (fileMandate env file [])) (hdeclaring : Declaring False s) :
    Outcome (fun _ => False) (fun done s' => (Recorded s.errors (State.Rests (fileMandate env file [])) (SignedBy env)
        done s' ∧ done.map Prod.fst = functionsOf file) ∧ DeclaresAll False (functionsOf file) s s' (accepted done))
      (record (fun p => ending (declareFunction p.1 p.2) report) (functionsOf file) env s) := by
  have hdeclares : Outcome (fun _ => False) (fun declared s' => DeclaresAll False (functionsOf file) s s' declared)
      (declareFunctions (functionsOf file) env s) := by
    obtain ⟨declared, s', hrun, hdeclared⟩ := exists_declared env (functionsOf file) s
    rw [hrun]
    exact hdeclared.declaresAll hdeclaring False.elim False.elim
  rw [declareFunctions_eq] at hdeclares
  refine (recorded_record hs (fun _ d hs => hs.report) fun p hp s hs => ?_).and hdeclares.of_map
  rcases declareFunction_cases env s p with ⟨sig, haccepts, hrun⟩ | ⟨_, hfailed⟩
  · exact .inl ⟨sig, _, hrun, fun name => (hs name).declare haccepts id ⟨p, hp, rfl⟩,
      rfl, signedBy_of_signatureIn? haccepts.signature_eq⟩
  · exact .inr hfailed

def Ledger.signed (ledger : Ledger) : List Function :=
  (accepted ledger.declarations).map fun p => p.2.declaration

/-- The parts of a file have been lowered as the record says. -/
structure Settled (env : Env) (file : File) (ledger : Ledger) (s : State) : Prop where
  structs_eq : ledger.structs.map Prod.fst = structsOf file
  declarations_eq : ledger.declarations.map Prod.fst = functionsOf file
  bodies_eq : ledger.bodies.map Prod.fst = accepted ledger.declarations
  signed : ∀ p ∈ ledger.declarations, ∀ sig, p.2 = .ok sig → SignedBy env p.1 sig
  errors_eq : s.errors = ledger.errors
  bodies : ∀ p ∈ ledger.bodies, ∃ g, s.builder.module.function? p.1.2.symbol = some g ∧
    (g.blocks ≠ [] ↔ p.2.isOk = true)
  idle : s.Idle (fileMandate env file ledger.signed)

theorem settled_recordParts (hs : s.Rests (fileMandate env file [])) (hdeclaring : Declaring False s)
    (herrors : s.errors = []) : Outcome (fun _ => False) (Settled env file) (recordParts file env s) := by
  have hnote : ∀ message, Outcome (fun _ => False) (fun _ s' => (s'.Rests (fileMandate env file []) ∧
      s'.errors = []) ∧ Declaring False s') (note .debug message env s) := fun message =>
    ⟨⟨fun name => { hs name with builder := { (hs name).builder with } }, herrors⟩, hdeclaring.note _ _⟩
  refine .bind (Q := fun _ s' => s = s') rfl ?_
  rintro _ _ rfl
  refine .bind (hnote _) ?_
  rintro _ s1 ⟨⟨hs, herrors⟩, hdeclaring⟩
  refine .bind (recorded_structs hs hdeclaring) ?_
  rintro structs s2 ⟨hstructs, hstructs_eq⟩
  refine .bind (recorded_functions hstructs.keeps.1 hstructs.keeps.2) ?_
  rintro declarations s3 ⟨⟨hfns, hfns_eq⟩, hdeclares⟩
  -- All declarations are made, and from here on none of them may change.
  have hidle : s3.Idle (fileMandate env file ((accepted declarations).map fun p => p.2.declaration)) := by
    refine ⟨hdeclares.declaring.ready, hfns.keeps.sign fun g hg => ?_⟩
    rw [hdeclares.functions_eq, map_append, map_map]
    exact mem_append_right _ hg
  have hsigned : ∀ q ∈ accepted declarations, ∃ p ∈ functionsOf file, SignedBy env p q.2 := by
    intro q hq
    obtain ⟨p, hp, hsig, _⟩ := mem_accepted.mp hq
    exact ⟨p.1, hfns_eq ▸ mem_map_of_mem hp, hfns.results p hp q.2 hsig⟩
  refine .bind (underway_record hidle hdeclares.awaits hdeclares.nodup ?_ ?_) ?_
  · intro q hq
    obtain ⟨p, hp, hsigned⟩ := hsigned q hq
    exact ⟨p, hp, hsigned.symbol_eq.symm⟩
  · intro q hq param hparam
    obtain ⟨p, hp, hsigned⟩ := hsigned q hq
    exact (hsigned.firm param hparam).imp fun hsolid => hsolid.2 p hp hsigned.symbol_eq.symm
  · rintro bodies s4 ⟨hbodies, hbodies_eq⟩
    exact
      { structs_eq := hstructs_eq
        declarations_eq := hfns_eq
        bodies_eq := hbodies_eq
        signed := hfns.results
        errors_eq := by
          rw [hbodies.errors_eq, hfns.errors_eq, hstructs.errors_eq, herrors]
          rfl
        bodies := hbodies.bodies
        idle := hbodies.idle }

/-- Every file is lowered with a record, and its output is what the lowering leaves. -/
theorem exists_ledger (env : Env) (file : File) (moduleName : String) : ∃ ledger s1 s,
    recordFile file env (.start env.config moduleName) = .ok ledger s ∧
      lowerFile file env (.start env.config moduleName) = .ok () s ∧
      Settled env file ledger s1 ∧ Finished (fileMandate env file ledger.signed) s1 s := by
  have hparts : Outcome (fun _ => False) (Settled env file) (recordParts file env (.start env.config moduleName)) :=
    settled_recordParts (rests_start) (.start env.config moduleName) rfl
  have hrun : Outcome (fun _ => False) (fun ledger s => ∃ s1, Settled env file ledger s1 ∧
      Finished (fileMandate env file ledger.signed) s1 s) (recordFile file env (.start env.config moduleName)) := by
    refine .bind hparts fun ledger s1 hsettled => ?_
    exact .bind (finished_finishFile hsettled.idle) fun _ s hfinished => ⟨s1, hsettled, hfinished⟩
  rw [lowerFile_eq, discard_eq, bind_run]
  cases hres : recordFile file env (.start env.config moduleName) with
  | ok ledger s =>
    rw [hres] at hrun
    obtain ⟨s1, hsettled, hfinished⟩ := hrun
    exact ⟨ledger, s1, s, rfl, rfl, hsettled, hfinished⟩
  | error d s =>
    rw [hres] at hrun
    exact hrun.elim

theorem run_eq (h : lowerFile file env (.start env.config moduleName) = .ok () s) :
    run env file moduleName = ⟨s.builder.module, s.diagnostics, s.builder.log⟩ := by
  rw [run, h]

end Aero.Lowering
