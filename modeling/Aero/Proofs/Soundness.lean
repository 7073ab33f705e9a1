import Aero.Proofs.Declaration

/-!
Whole files. Structs and functions are declared first, so every body is lowered with tables that agree with the module.
Definitions are in static single assignment form; under the two conditions on symbols instructions are well typed; and
if, besides, every conditional has a branch, the verifier finds no defect.
-/

namespace Aero.Lowering

open IR IR.Build IR.Site List

variable {H N : Prop} {env : Env} {s s' : State} {w : Site H} {sig : FnSig} {E : State → Prop} {g : Function}
  {file : File}

/-! ### The entry -/

/-- The exit status is a word of 32 bits, wherever it comes from. -/
theorem steps_exitStatus {entry : Option FnSig} (hopen : w.Open)
    (hsig : ∀ sig, entry = some sig → w.builder.module.prototype? sig.symbol = some sig.prototype) :
    Steps env (exitStatus entry) s w E fun v s' w' => s.Same s' ∧ w ≤ w' ∧ w'.Open ∧ w'.Val v .i32 := by
  have hnote : ∀ {level : LogLevel} {message : String} {s1 : State} {w1 : Site H}, s.Same s1 → w ≤ w1 → w1.Open →
      Steps env (do note level message; return int32 1) s1 w1 E fun v s' w' =>
        s.Same s' ∧ w ≤ w' ∧ w'.Open ∧ w'.Val v .i32 := by
    intro level message s1 w1 hsame1 hle1 hopen1
    refine (Steps.lift (.of_emits emits_note hopen1)).bind ?_
    rintro _ s2 w2 _ ⟨hsame2, hle2, hopen2, _⟩
    exact .pure ⟨hsame1.trans hsame2, le_trans hle1 hle2, hopen2, val_int32 _⟩
  unfold exitStatus
  split
  · exact .pure ⟨.refl s, le_refl w, hopen, val_int32 _⟩
  · next sig =>
    split
    · exact hnote (.refl s) (le_refl w) hopen
    · next hparams =>
      have hparams : sig.params = [] := by simpa using hparams
      have htakes : sig.prototype.Takes [] := by
        rw [FnSig.prototype, hparams]
        exact ⟨prefix_rfl, fun _ => rfl⟩
      refine (Steps.lift (.of_emits (emits_call (forall_mem_nil _)
        fun _ => ⟨hsig sig rfl, htakes⟩) hopen)).bind ?_
      rintro result s1 w1 _ ⟨hsame1, hle1, hopen1, hresult, _⟩
      have hret : sig.prototype.ret = sig.ret := rfl
      rw [hret] at hresult
      split
      · next hty =>
        rw [hty] at hresult
        refine (Steps.lift (.of_emits (emits_intCast hresult.int rfl) hopen1)).imp ?_
        rintro v s2 w2 _ ⟨hsame2, hle2, hopen2, hv⟩
        exact ⟨hsame1.trans hsame2, le_trans hle1 hle2, hopen2, hv⟩
      · exact .pure ⟨hsame1, hle1, hopen1, val_int32 _⟩
      · exact hnote hsame1 hle1 hopen1

theorem steps_lowerEntry {userEntry : String} (htables : Tables H s)
    (hbuilder : s.builder = w.builder) (hopen : w.Open) (hret : w.fn.ret = .i32) :
    Steps env (lowerEntry userEntry) s w E fun _ s' w' =>
      Tables H s' ∧ Grows (.stmt N []) w w' ∧ w'.block.isTerminated = true := by
  refine (Steps.lift (.of_emits emits_cleanupAtExit hopen)).bind ?_
  rintro _ s1 w1 hbuilder1 ⟨hsame1, hle1, hopen1, _⟩
  refine .state_bind ?_
  refine (steps_exitStatus hopen1 fun sig hsig => ?_).bind ?_
  · have hlookup := (Option.filter_eq_some_iff.mp hsig).1
    rw [hsame1.functions_eq] at hlookup
    refine hle1.frame.prototypes _ _ ?_
    rw [← hbuilder]
    exact (htables.functions _ _ hlookup).1
  · rintro status s2 w2 hbuilder2 ⟨hsame2, hle2, hopen2, hstatus⟩
    have hle := le_trans hle1 hle2
    have hret2 : w2.fn.ret = .i32 := hle.ret_eq.trans hret
    refine (Steps.lift (reaches_finish (ends_ret hopen2 (hret2 ▸ hstatus)))).imp ?_
    rintro _ s3 w3 hbuilder3 ⟨hsame3, hfinished⟩
    have hquiet := hle.trans (hfinished.grows .plain nofun)
    refine ⟨htables.same ((hsame1.trans hsame2).trans hsame3) ?_ ?_ ?_, .of_le hquiet, hfinished.terminated⟩
    · rw [hbuilder, hbuilder3]
      exact hquiet.frame
    · rw [hbuilder3]
      exact w3.sound
    · rw [hbuilder, hbuilder3]
      exact hquiet.quiet trivial

/-! ### Whole files -/

theorem Ready.note (h : Ready H N s) (level : LogLevel) (message : String) :
    Ready H N { s with builder := s.builder.note level message } :=
  { h with tables := h.tables.note level message }

theorem Ready.report (h : Ready H N s) (d : Diagnostic) : Ready H N (s.report d) :=
  { h with tables := h.tables.report d }

theorem Declaring.ready (h : Declaring H s) : Ready H N s :=
  ⟨h.tables, h.layered, fun f hf hne => absurd (h.bare f hf) hne⟩

theorem proceeds_defineOrReport {f : FnDef} (hready : Ready H N s) (hawaits : s.Awaits sig)
    (hN : N → stmtsBranched f.body.node.stmts = true) :
    Outcome (fun _ => False) (fun _ => Proceeds H N (· = sig.symbol) s) (defineOrReport f sig env s) := by
  have hrun : Outcome (Proceeds H N (· = sig.symbol) s) (fun _ => Proceeds H N (· = sig.symbol) s)
      (defineFunction f sig env s) := proceeds_defineFunction hready hawaits hN
  rw [defineOrReport, bind_run, attempt]
  cases hres : defineFunction f sig env s with
  | ok a s' =>
    rw [hres] at hrun
    exact hrun
  | error d s' =>
    rw [hres] at hrun
    exact ⟨(hrun.ready.note _ _).report d, fun sig' hne h =>
      (hrun.awaits sig' hne h).congr rfl, hrun.keeps, hrun.prototypes⟩

def defineAll (declared : List (FnDef × FnSig)) : Lower Unit :=
  declared.forM fun (f, sig) => defineOrReport f sig

theorem defineAll_cons (f : FnDef) (sig : FnSig) (later : List (FnDef × FnSig)) :
    defineAll ((f, sig) :: later) = defineOrReport f sig >>= fun _ => defineAll later := rfl

theorem defineAll_append (earlier later : List (FnDef × FnSig)) :
    defineAll (earlier ++ later) = defineAll earlier >>= fun _ => defineAll later := by
  induction earlier with
  | nil => exact (pure_bind _ _).symm
  | cons p earlier ih => rw [cons_append, defineAll_cons, defineAll_cons, ih, bind_assoc]

theorem proceeds_defineAll {declared : List (FnDef × FnSig)} (hready : Ready H N s)
    (hawaits : ∀ p ∈ declared, s.Awaits p.2) (hnodup : (symbolsOf declared).Nodup)
    (hN : N → ∀ p ∈ declared, stmtsBranched p.1.body.node.stmts = true) :
    Outcome (fun _ => False) (fun _ => Proceeds H N (· ∈ symbolsOf declared) s) (defineAll declared env s) := by
  induction declared generalizing s with
  | nil => exact .refl hready
  | cons p declared ih =>
    obtain ⟨hne, hnodup⟩ := nodup_cons.mp hnodup
    refine .bind (proceeds_defineOrReport hready (hawaits p mem_cons_self) fun h =>
      hN h p mem_cons_self) fun _ s' hproceeds => ?_
    refine (ih hproceeds.ready (fun q hq => hproceeds.awaits q.2 (fun heq => ?_)
      (hawaits q (mem_cons_of_mem _ hq))) hnodup fun h q hq =>
        hN h q (mem_cons_of_mem _ hq)).mono (fun _ h => h) fun _ s'' hrest => ?_
    · exact hne (mem_map.mpr ⟨q, hq, heq⟩)
    · exact (hproceeds.trans hrest).mono fun _ => mem_cons.mpr

theorem Ready.addFn (h : Ready H N s) (htables : Tables H { s with builder := s.builder.addFn g })
    (hblocks : g.blocks = []) : Ready H N { s with builder := s.builder.addFn g } := by
  refine ⟨htables, h.layered, fun f hf hne => ?_⟩
  have hframe := s.builder.addFn_frame hblocks
  rcases mem_append.mp hf with hold | hnew
  · exact (h.wellFormed f hold hne).mono hframe.structs_eq hframe.prototypes
  · rw [mem_singleton.mp hnew] at hne
    exact absurd hblocks hne

theorem Proceeds.added (hblocks : g.blocks = []) (hnone : s.builder.module.prototype? g.name = none)
    (h : Proceeds H N (· = g.name) { s with builder := s.builder.addFn g } s') :
    Proceeds H N (fun _ => False) s s' where
  ready := h.ready
  awaits := fun sig _ hsig =>
    have hadded : State.Awaits { s with builder := s.builder.addFn g } sig ∧ g.name ≠ sig.symbol :=
      hsig.declare rfl hblocks hnone
    h.awaits sig (fun heq => hadded.2 heq.symm) hadded.1
  keeps := fun name f _ hf => by
    refine h.keeps name f (fun heq => ?_) ?_
    · rw [← heq, Module.prototype?, hf] at hnone
      cases hnone
    · change (s.builder.module.functions ++ [g]).find? _ = some f
      rw [find?_append, show s.builder.module.functions.find? _ = some f from hf]
      rfl
  prototypes := fun name sig hsig => h.prototypes name sig (by rw [Builder.addFn_prototype?, hsig, Option.some_or])

def entryDeclaration : Function := { name := "main", params := [], ret := .i32 }

theorem synthesizeEntry_run (env : Env) (s : State) : synthesizeEntry env s = (do
    if ← Build.declareFunction entryDeclaration then
      discard (Build.defineFunction "main")
      lowerEntry env.config.module.userEntry
      Build.endFunction else warn (.entryTaken env.config.module.userEntry) .none : Lower Unit) env s := rfl

theorem synthesizeEntry_taken {sig : Signature} (h : s.builder.module.prototype? entryDeclaration.name = some sig) :
    synthesizeEntry env s = warn (.entryTaken env.config.module.userEntry) .none env s := by
  rw [synthesizeEntry_run, bind_run, liftM_run (declareFunction_old h)]
  rfl

theorem proceeds_synthesizeEntry (h : Ready H N s) :
    Outcome (fun _ => False) (fun _ s' => Proceeds H N (fun _ => False) s s' ∧
      (s.builder.module.prototype? entryDeclaration.name = none →
        ∃ g, s'.builder.module.function? entryDeclaration.name = some g ∧ g.blocks ≠ [])) (synthesizeEntry env s) := by
  cases hproto : s.builder.module.prototype? entryDeclaration.name with
  | some sig =>
    rw [synthesizeEntry_taken hproto]
    exact ⟨⟨(h.note _ _).report _, fun sig _ h => h.congr rfl, fun _ _ _ h => h, fun _ _ h => h⟩, fun h => by cases h⟩
  | none =>
    let s1 : State := { s with builder := s.builder.addFn entryDeclaration }
    have hplain : ∀ n, entryDeclaration.name ≠ inlineSymbol n := by
      intro n heq
      have hhead := heq ▸ head?_inlineSymbol n
      exact absurd hhead (by decide)
    have htables : Tables H s1 :=
      h.tables.addFn (fun _ p => by cases p <;> decide) (fun _ => hplain) rfl
    have hready : Ready H N s1 := h.addFn htables rfl
    have hdecl := Builder.Declares.of_addFn hproto rfl rfl
    obtain ⟨log, hrun⟩ := hdecl.run htables.sound
    rw [synthesizeEntry_run, bind_run, liftM_run (declareFunction_new hproto)]
    change Outcome _ _ ((liftM (Build.defineFunction "main") >>= fun _ =>
      lowerEntry env.config.module.userEntry >>= fun _ => liftM Build.endFunction : Lower Unit) env s1)
    rw [bind_run, liftM_run hrun]
    have hentry : Steps env (lowerEntry env.config.module.userEntry)
        { s1 with builder := (hdecl.site log htables.sound).builder }
        (hdecl.site log htables.sound) (fun _ => False) _ :=
      steps_lowerEntry (N := N) (htables.site hdecl log) rfl rfl rfl
    refine .bind (hentry.run rfl) ?_
    rintro _ s2 ⟨w, hbuilder, htables2, hgrows, hclosed⟩
    have hframe : (hdecl.site log htables.sound).builder.Frame s2.builder :=
      hbuilder ▸ hgrows.frame
    let s3 : State := { s2 with builder := { s2.builder with current := none, insert := none } }
    have htables3 : Tables H s3 := { htables2 with }
    have hfn : s2.builder.module.functions[s.builder.module.functions.length]? = some w.fn := by
      rw [hbuilder, ← show w.index = s.builder.module.functions.length from hgrows.index_eq]
      exact w.fn_eq
    have hframe3 : (s1.builder.editing s.builder.module.functions.length).Frame
        (s3.builder.editing s.builder.module.functions.length) :=
      (hdecl.site_frame log htables.sound).trans { hframe with current_eq := rfl }
    have hproceeds : Proceeds H N (· = entryDeclaration.name) s1 s3 := by
      refine .of_frame hready hdecl htables3 hframe3 ?_
      intro g hg _
      have hsame : g = w.fn := Option.some.inj (hg.symm.trans hfn)
      change g.WellFormed H N s2.builder.module
      rw [hsame, hbuilder]
      exact hdecl.wellFormed hgrows hclosed
    refine ⟨hproceeds.added rfl hproto, fun _ => ⟨w.fn, ?_, ne_nil_of_mem w.block_mem⟩⟩
    exact Module.function?_eq_some_iff.mpr ⟨_, hframe3.findIdx? hdecl.findIdx, hfn⟩

theorem Declaring.start (config : Config) (moduleName : String) : Declaring H (.start config moduleName) where
  tables :=
    { sound := nofun
      registered := nofun
      functions := nofun
      methods := nofun
      fresh := fun _ _ _ => rfl
      outermost := rfl }
  bare := forall_mem_nil _
  layered := .nil
  named := rfl

theorem bare_start (config : Config) (moduleName : String) : (State.start config moduleName).Bare :=
  ⟨.start config moduleName, rfl, rfl, rfl, rfl, rfl⟩

def declareFile (file : File) : Lower (List (FnDef × FnSig)) := do
  note .debug ("translating '" ++ file.name ++ "' into " ++ (← state).builder.module.name)
  (structsOf file).forM fun s => discard (orReport (declareStruct s))
  declareFunctions (functionsOf file)

theorem lowerFile_run (file : File) (env : Env) (s : State) :
    lowerFile file env s = (declareFile file >>= fun declared => do
      defineAll declared
      if env.config.module.synthesizeEntry then synthesizeEntry : Lower Unit) env s := by
  simp only [declareFile, bind_assoc]
  rfl

theorem declareFile_run (file : File) (env : Env) (s : State) :
    declareFile file env s = (declareStructs file.name (structsOf file) >>= fun _ =>
      declareFunctions (functionsOf file)) env s := by
  simp only [declareFile, declareStructs, bind_assoc]

theorem declares_declareFile (h : Declaring H s) (hentry : H → ∀ p : Primitive, env.config.module.userEntry ≠ p.name)
    (hinline : H → ∀ p ∈ functionsOf file, ∀ n, symbolIn env p ≠ inlineSymbol n) :
    Outcome (fun _ => False) (fun declared s' => ∃ s1, DeclaresAll H (functionsOf file) s1 s' declared)
      (declareFile file env s) := by
  rw [declareFile_run]
  refine .bind (declares_declareStructs h) fun _ s1 h1 => ?_
  obtain ⟨declared, s2, hrun, hdeclared⟩ := exists_declared env (functionsOf file) s1
  rw [hrun]
  exact ⟨s1, hdeclared.declaresAll h1 hentry hinline⟩

/-- Whatever is written in a file, each definition of its module is well formed. -/
theorem ready_lowerFile (h : Declaring H s) (hentry : H → ∀ p : Primitive, env.config.module.userEntry ≠ p.name)
    (hinline : H → ∀ p ∈ functionsOf file, ∀ n, symbolOf env.config.module p.1 p.2.name.node ≠ inlineSymbol n)
    (hN : N → ∀ p ∈ functionsOf file, stmtsBranched p.2.body.node.stmts = true) :
    Outcome (fun _ => False) (fun _ => Ready H N) (lowerFile file env s) := by
  rw [lowerFile_run]
  refine .bind (declares_declareFile h hentry hinline) fun declared s1 ⟨_, h1⟩ => ?_
  refine .bind (proceeds_defineAll (N := N) h1.declaring.ready h1.awaits h1.nodup ?_) fun _ s2 h2 => ?_
  · intro hbranched p hp
    obtain ⟨⟨struct, hmem⟩, _⟩ := h1.source p hp
    exact hN hbranched _ hmem
  · split
    · exact (proceeds_synthesizeEntry h2.ready).mono (fun _ h => h) fun _ _ h => h.1.ready
    · exact h2.ready

theorem run_module {moduleName : String} {P : Module → Prop}
    (h : Outcome (fun _ => False) (fun _ s => P s.builder.module)
      (lowerFile file env (.start env.config moduleName))) : P (run env file moduleName).module := by
  unfold run
  cases hres : lowerFile file env (.start env.config moduleName) with
  | ok _ s =>
    rw [hres] at h
    exact h
  | error _ s =>
    rw [hres] at h
    exact h.elim

theorem run_wellFormed (env : Env) (file : File) (moduleName : String)
    (hentry : H → ∀ p : Primitive, env.config.module.userEntry ≠ p.name)
    (hinline : H → ∀ p ∈ functionsOf file, ∀ n, symbolOf env.config.module p.1 p.2.name.node ≠ inlineSymbol n)
    (hN : N → ∀ p ∈ functionsOf file, stmtsBranched p.2.body.node.stmts = true) {f : Function}
    (hf : f ∈ (run env file moduleName).module.functions) (hdefined : f.isDeclaration = false) :
    f.WellFormed H N (run env file moduleName).module := by
  have hne : f.blocks ≠ [] := fun h => by
    rw [Function.isDeclaration, h] at hdefined
    cases hdefined
  exact run_module (P := fun m => ∀ f ∈ m.functions, f.blocks ≠ [] → f.WellFormed H N m)
    ((ready_lowerFile (.start env.config moduleName) hentry hinline hN).mono (fun _ h => h)
      fun _ _ h => h.wellFormed) f hf hne

/-! ### Modules -/

open IR

/-- Every conditional in the functions and methods of a file has a branch. -/
def isBranched (file : File) : Bool :=
  (functionsOf file).all fun p => stmtsBranched p.2.body.node.stmts

/-- The entry of the user is not renamed to a primitive. -/
def EntryApart (options : ModuleOptions) : Prop := ∀ p : Primitive, options.userEntry ≠ p.name

/-- No function or method has the symbol of an inline block. -/
def InlineApart (options : ModuleOptions) (file : File) : Prop :=
  ∀ p ∈ functionsOf file, ∀ n, symbolOf options p.1 p.2.name.node ≠ inlineSymbol n

theorem inlineSymbol_ne_of_head? {symbol : String} (h : symbol.toList.head? ≠ some '_') (n : Nat) :
    symbol ≠ inlineSymbol n := by
  rintro rfl
  exact h (head?_inlineSymbol n)

/-- A function that counts down, and leaves the loop early at one number. -/
def countdown : FnDef where
  name := ⟨"countdown", {}⟩
  params := [⟨⟨"n", {}⟩, ⟨{ name := "int" }, {}⟩⟩]
  returnTy := some ⟨{ name := "int" }, {}⟩
  body :=
    let n : Spanned Expr := ⟨.var "n", {}⟩
    let char (c : Char) : Spanned Expr := ⟨.literal (.char c), {}⟩
    let leave : Branch := ⟨⟨.binary .eq n (char 'b'), {}⟩, ⟨⟨[⟨.breakLoop, {}⟩]⟩, {}⟩⟩
    let loop : List (Spanned Stmt) :=
      [⟨.expr ⟨.step .dec ⟨.var "n", {}⟩, {}⟩, {}⟩, ⟨.ifElse [leave] none, {}⟩]
    ⟨⟨[⟨.whileLoop ⟨.binary .gt n (char 'a'), {}⟩ ⟨⟨loop⟩, {}⟩, {}⟩, ⟨.ret (some n), {}⟩]⟩, {}⟩

def countdownFile : File := ⟨"countdown.aero", [⟨.fn countdown, {}⟩]⟩

def printing (texts : List String) : Spanned StmtBlock :=
  ⟨⟨texts.map fun text => ⟨.expr ⟨.call ⟨"print", {}⟩ [⟨.literal (.str text), {}⟩], {}⟩, {}⟩⟩, {}⟩

def printer (name : String) (texts : List String) : FnDef where
  name := ⟨name, {}⟩
  params := []
  returnTy := none
  body := printing texts

/-- The default options, where no compiler for inline blocks can be started. -/
def bareEnv : Env := { compiler := fun _ _ _ => .notStarted "no compiler" }

theorem countdown_defined : ∃ f ∈ (run bareEnv countdownFile "countdown").module.functions,
    f.name = "countdown" ∧ f.isDeclaration = false := by
  have hfound : ((run bareEnv countdownFile "countdown").module.functions.find? fun f =>
      f.name = "countdown" && !f.isDeclaration).isSome = true := by decide +kernel
  obtain ⟨f, hf⟩ := Option.isSome_iff_exists.mp hfound
  have hprops := List.find?_some hf
  rw [Bool.and_eq_true, decide_eq_true_eq, Bool.not_eq_true'] at hprops
  exact ⟨f, List.mem_of_find?_eq_some hf, hprops⟩

theorem entryApart_bareEnv : EntryApart bareEnv.config.module := by
  intro p
  cases p <;> decide

theorem inlineApart_countdown : InlineApart bareEnv.config.module countdownFile := by
  intro p hp
  rw [List.mem_singleton.mp hp]
  exact inlineSymbol_ne_of_head? (by decide)

/-- Every definition of a module is in static single assignment form. -/
theorem run_singleAssignment (env : Env) (file : File) (moduleName : String) (f : Function)
    (hf : f ∈ (run env file moduleName).module.functions) (hdefined : f.isDeclaration = false) :
    f.SingleAssignment := by
  have hwell : f.WellFormed False False (run env file moduleName).module :=
    run_wellFormed env file moduleName False.elim False.elim False.elim hf hdefined
  obtain ⟨c, hcoherent⟩ := hwell.coherent
  exact hcoherent.singleAssignment hwell.labelled.nodup

theorem run_singleAssignment_countdown : ∃ f ∈ (run bareEnv countdownFile "countdown").module.functions,
      f.name = "countdown" ∧ f.isDeclaration = false ∧ f.SingleAssignment := by
  obtain ⟨f, hf, hname, hdefined⟩ := countdown_defined
  exact ⟨f, hf, hname, hdefined, run_singleAssignment _ _ _ f hf hdefined⟩

/-- The verifier accepts every module, also one whose file has errors. -/
theorem run_defects_eq_nil (env : Env) (file : File) (moduleName : String)
    (hbranched : isBranched file = true) (hentry : EntryApart env.config.module)
    (hinline : InlineApart env.config.module file) : (run env file moduleName).module.defects = [] := by
  rw [Module.defects, List.flatMap_eq_nil_iff]
  intro f hf
  obtain ⟨hmem, hdefined⟩ := List.mem_filter.mp hf
  have hwell : f.WellFormed True True (run env file moduleName).module :=
    run_wellFormed env file moduleName (fun _ => hentry) (fun _ => hinline)
      (fun _ p hp => List.all_eq_true.mp hbranched p hp) hmem (by simpa using hdefined)
  obtain ⟨c, hcoherent⟩ := hwell.coherent
  exact Module.functionDefects_eq_nil hcoherent (hwell.typed trivial) (hwell.closed trivial)

theorem run_defects_eq_nil_countdown : isBranched countdownFile = true ∧ EntryApart bareEnv.config.module ∧
      InlineApart bareEnv.config.module countdownFile ∧
      (run bareEnv countdownFile "countdown").module.defects = [] := by
  have hbranched : isBranched countdownFile = true := by decide
  exact ⟨hbranched, entryApart_bareEnv, inlineApart_countdown,
    run_defects_eq_nil _ _ _ hbranched entryApart_bareEnv inlineApart_countdown⟩

/-- Every instruction and terminator of a definition follows its typing rule. -/
theorem run_typed (env : Env) (file : File) (moduleName : String)
    (hentry : EntryApart env.config.module) (hinline : InlineApart env.config.module file)
    (f : Function) (hf : f ∈ (run env file moduleName).module.functions) (hdefined : f.isDeclaration = false) :
    (∀ i ∈ f.instrs, i.WellTyped (run env file moduleName).module.prototype?) ∧
      ∀ b ∈ f.blocks, ∀ t, b.term = some t → t.WellTyped f.ret := by
  have hwell : f.WellFormed True False (run env file moduleName).module :=
    run_wellFormed env file moduleName (fun _ => hentry) (fun _ => hinline) False.elim hf hdefined
  have htyped := hwell.typed trivial
  exact ⟨htyped.instrs, htyped.ends⟩

theorem run_typed_countdown : ∃ f ∈ (run bareEnv countdownFile "countdown").module.functions,
      f.name = "countdown" ∧ f.isDeclaration = false ∧
      (∀ i ∈ f.instrs, i.WellTyped (run bareEnv countdownFile "countdown").module.prototype?) ∧
      ∀ b ∈ f.blocks, ∀ t, b.term = some t → t.WellTyped f.ret := by
  obtain ⟨f, hf, hname, hdefined⟩ := countdown_defined
  exact ⟨f, hf, hname, hdefined, run_typed _ _ _ entryApart_bareEnv inlineApart_countdown f hf hdefined⟩

end Aero.Lowering
