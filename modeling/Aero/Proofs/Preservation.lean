import Aero.Proofs.Discipline.File
import Aero.Proofs.Execute

/-!
What functions on numbers compute. If a function is lowered, then a call of its code returns what the
function means, for all arguments that it has a meaning for. The collector may be called before the return; it is a
function outside the module, of which is assumed that it leaves the variables alone.
-/

namespace Aero.Lowering

open IR IR.Build IR.Site Evaluation List

variable {ret ty : Ty} {file : File}

section

variable [L : Library] {env : Env} {s s' : State} {w w' : Site False} {f : Function} {c : Point cells}
  {bindings : List Binding} {bound : Nat} {p : Binding} {name : String} {value : Option Datum}
  {params : List ParamSig} {args : List Word} {fn : FnDef} {sig : FnSig} {m m' : Store}

/-! ### The collector -/

/-- A module knows the collector, if at all, as a function without a result. -/
def CollectsVoid (m : Module) : Prop :=
  ∀ sig, m.prototype? Primitive.gcCollect.name = some sig → sig.ret = .void

/-- A run gets from one site to another, whatever memory holds. -/
def Crosses (w w' : Site False) : Prop := Carries w w' (fun _ => True) fun _ => True

/-- A run crosses code that may call the collector. -/
def Passes (w w' : Site False) : Prop := CollectsVoid w'.builder.module → Crosses w w'

theorem Crosses.refl (w : Site False) : Crosses w w := fun _ _ c hc _ => ⟨c, .refl c, hc, trivial⟩

theorem Crosses.of_eq {w1 : Site False} (h : Crosses w1 w') (hfn : w1.fn = w.fn)
    (hblock : w1.block = w.block) : Crosses w w' := by
  intro f hf c hc _
  rw [← hfn]
  exact h f hf c ⟨hblock ▸ hc.block_eq, hblock ▸ hc.done_eq⟩ trivial

theorem crosses_call (hcollects : L.Collects) : Lowers env (liftM (if ret.isVoid then do
        push (.call none Primitive.gcCollect.name [] .void)
        return .undef .void
      else emit ret fun dst => .call (some dst) Primitive.gcCollect.name [] ret)) s w
      fun _ w' => ret = .void → Crosses w w' := by
  split
  · rw [liftM_bind]
    refine (Lowers.lift_run (emits_push (.call none Primitive.gcCollect.name [] .void) rfl (forall_mem_nil _) rfl
      False.elim fun h => h.elim)).bind ?_
    rintro _ _ w1 _ _ ⟨_, hopen, hrun⟩
    refine .pure fun _ f hf c hc _ => ?_
    obtain ⟨d, hruns, hd, _⟩ : ∃ d, f.Runs (fun _ => True) w.fn.nextReg c d ∧ d.At w1 ∧ d.memory = c.memory :=
      (emitted_of_push hopen rfl hrun).runs_effect hf hc trivial rfl rfl (hcollects c.memory)
    exact ⟨d, hruns, hd, trivial⟩
  · next hvoid =>
    refine (Lowers.lift (emits_emit ret _ (fun _ => rfl) (fun _ => forall_mem_nil _) (fun _ => rfl)
      False.elim)).mono ?_
    exact fun _ _ _ _ hret => absurd (isVoid_iff.mpr hret) hvoid

theorem passes_gcCollect (hcollects : L.Collects) :
    Lowers env (liftM gcCollect) s w fun _ w' => Passes w w' := by
  simp only [gcCollect, liftM_bind]
  refine (Lowers.lift emits_isTracked).bind ?_
  rintro tracked s1 _ _ _ rfl
  split
  · change Lowers env (liftM (callPrimitive .gcCollect []) >>= fun _ => pure PUnit.unit) s1 w _
    simp only [callPrimitive, Build.call, liftM_bind, bind_assoc]
    refine (Lowers.lift emits_declarePrimitive).bind ?_
    rintro _ s2 w2 _ _ ⟨hfn2, hblock2, _⟩
    refine (Lowers.lift emits_get).bind ?_
    rintro _ s3 _ _ _ ⟨rfl, rfl⟩
    split
    · next g hg =>
      rw [pure_bind]
      refine (crosses_call hcollects).bind fun _ _ w4 hle4 _ h => .pure fun hvoid => ?_
      refine (h (hvoid g.prototype (hle4.frame.prototypes _ _ ?_))).of_eq hfn2 hblock2
      rw [Module.prototype?, hg, Option.map_some]
    · simp only [liftM_bind, bind_assoc, pure_bind]
      refine (Lowers.lift emits_note).bind ?_
      rintro _ s4 w4 _ _ ⟨hfn4, hblock4⟩
      refine (crosses_call hcollects).bind fun _ _ w5 _ _ h => .pure fun _ => ?_
      exact ((h rfl).of_eq hfn4 hblock4).of_eq hfn2 hblock2
  · exact .pure fun _ => .refl w

/-! ### Parameters -/

/-- The code for a parameter that is a number puts it into a new variable. -/
def ParamRuns (param : ParamSig) (value : Value) (w : Site False) (slot : Slot) (w' : Site False) : Prop :=
  param.array = none → ∀ frames m x m', param.ty = .int x.width → m.declare? param.name x = some m' →
    Carries w w' (fun c => Matches w.fn.nextReg frames m c ∧ Holds w.fn.nextReg c value x)
      (Matches w'.fn.nextReg (declareIn param.name slot frames) m')

theorem runs_paramSlot {param : ParamSig} {value : Value} {extents : List Value} (hfits : param.Fits)
    (htakes : param.Takes w value extents) : Lowers env (liftM (paramSlot param value extents)) s w fun slot w' =>
      SlotOk w' slot ∧ ParamRuns param value w slot w' := by
  by_cases hnumber : param.array = none ∧ param.ty.isInt = true
  · obtain ⟨harray, hint⟩ := hnumber
    obtain ⟨n, hn⟩ := isInt_iff.mp hint
    have hnil : extents = [] := by
      have hlen := htakes.length_le
      rw [ParamSig.rank, harray] at hlen
      exact length_eq_zero_iff.mp (Nat.le_zero.mp hlen)
    rw [paramSlot, if_neg (by rw [hn]; exact Bool.false_ne_true), harray, hnil, liftM_bind]
    refine (carries_newSlot htakes.val.1).bind ?_
    rintro slot s1 w1 _ _ ⟨haddr, hslot, hcarries⟩
    have hsame : ({ slot with extents := [] } : Slot) = slot := by rw [hslot]
    rw [hsame]
    refine .pure ⟨hslot ▸ .plain haddr (fun _ h => by cases h) rfl, ?_⟩
    exact fun _ frames m x m' hty hdeclare => hcarries frames param.name m x m' hty hdeclare
  · refine (Lowers.lift (emits_paramSlot hfits htakes)).mono fun slot w' _ h =>
      ⟨h, fun harray frames m x m' hty => ?_⟩
    exact absurd ⟨harray, isInt_iff.mpr ⟨_, hty⟩⟩ hnumber

omit L in
theorem inner_of_declare? {slot : Slot} {scopes scopes' : Scopes}
    (h : scopes.declare? name slot = some scopes') : scopes'.inner = declareIn name slot scopes.inner := by
  have hnew : scopes.isDeclaredHere name = false := by
    rw [Bool.eq_false_iff]
    intro hdeclared
    rw [Scopes.declare?, if_pos hdeclared] at h
    cases h
  rw [← inner_declare? hnew, h, Option.getD_some]

omit L in
theorem ParamSig.IsOf.number {q : ParamSig} {width : Nat} (h : q.IsOf p) (hwidth : typeWidth? p.ty.node = some width) :
    q.ty = .int width ∧ q.array = none ∧ 0 < width ∧ width ≤ 64 := by
  obtain ⟨hdims, hname⟩ := typeWidth?_eq hwidth
  obtain ⟨hscalar, _, hpos, hle⟩ := intWidth?_scalarType? hname
  obtain ⟨hty, harray⟩ := h.scalar hdims _ hscalar
  exact ⟨hty, harray, hpos, hle⟩

omit L in
theorem bind?_cons {params : List Binding} (h : bind? (p :: params) args m = some m') :
    ∃ x rest m1, args = x :: rest ∧ typeWidth? p.ty.node = some x.width ∧
      m.declare? p.name.node x = some m1 ∧ bind? params rest m1 = some m' := by
  cases args with
  | nil => cases h
  | cons x rest =>
    simp only [bind?, Option.bind_eq_bind, Option.bind_eq_some_iff] at h
    obtain ⟨width, hwidth, hite⟩ := h
    obtain ⟨rfl, hdeclare⟩ := Option.ite_none_right_eq_some.mp hite
    obtain ⟨m1, hm1, hrest⟩ := Option.bind_eq_some_iff.mp hdeclare
    exact ⟨x, rest, m1, rfl, hwidth, hm1, hrest⟩

omit L in
theorem bind?_nil (h : bind? [] args m = some m') : args = [] ∧ m' = m := by
  cases args with
  | nil => exact ⟨rfl, (Option.some.inj h).symm⟩
  | cons x rest => cases h

theorem ParamsCode.carries {values : List Value} {scopes scopes' : Scopes}
    (hcode : ParamsCode ParamRuns params values scopes w scopes' w')
    (hof : List.Forall₂ (fun p q => ParamSig.IsOf q p) bindings params) (hbind : bind? bindings args m = some m') :
    Carries w w' (fun c => Matches w.fn.nextReg scopes.inner m c ∧
      List.Forall₂ (Holds w.fn.nextReg c) values args) (Matches w'.fn.nextReg scopes'.inner m') := by
  induction hcode generalizing bindings args m with
  | nil =>
    rw [forall₂_nil_right_iff.mp hof] at hbind
    obtain ⟨_, rfl⟩ := bind?_nil hbind
    exact fun f _ c hc hpre => ⟨c, .refl c, hc, hpre.1⟩
  | @cons param value slot params values scopes scopes1 scopes' w w1 w' hparam hle hdeclare hle' _ ih =>
    obtain ⟨p, bindings, hp, hrest, rfl⟩ := forall₂_cons_right_iff.mp hof
    obtain ⟨x, args, m1, rfl, hwidth, hm1, hbind⟩ := bind?_cons hbind
    obtain ⟨hty, harray, _, _⟩ := hp.number hwidth
    have hdrop : values.drop param.rank = values := by
      rw [ParamSig.rank, harray]
      rfl
    rw [hdrop] at ih
    rintro f hf c hc ⟨hm, hholds⟩
    obtain ⟨hx, hholds⟩ := forall₂_cons.mp hholds
    obtain ⟨d, hruns1, hd, hmd⟩ := hparam harray scopes.inner m x m1 hty (hp.name_eq ▸ hm1) f
      (hf.of_le hle') c hc ⟨hm, hx⟩
    rw [← inner_of_declare? hdeclare] at hmd
    obtain ⟨e, hruns2, he, hme⟩ := ih hrest hbind f hf d hd
      ⟨hmd, hholds.imp fun _ _ hy => hy.keep hruns1 hle.nextReg_le⟩
    exact ⟨e, hruns1.trans (hruns2.mono hle.nextReg_le), he, hme⟩

omit L in
theorem paramTys_of_bind? (hof : List.Forall₂ (fun p q => ParamSig.IsOf q p) bindings params)
    (hbind : bind? bindings args m = some m') :
    List.Forall₂ (fun ty x => ty = .int x.width ∧ 0 < x.width ∧ x.width ≤ 64) (paramTys params) args := by
  induction hof generalizing args m with
  | nil =>
    obtain ⟨rfl, _⟩ := bind?_nil hbind
    exact .nil
  | @cons p q bindings params hp _ ih =>
    obtain ⟨x, args, m1, rfl, hwidth, _, hbind⟩ := bind?_cons hbind
    obtain ⟨hty, harray, hpos, hle⟩ := hp.number hwidth
    rw [paramTys, flatMap_cons, map_append, ParamSig.tys_of_value harray, hty]
    exact .cons ⟨rfl, hpos, hle⟩ (ih hbind)

theorem holds_args {n k : Nat} {params : List Param}
    (htys : List.Forall₂ (fun ty x => ty = .int x.width ∧ 0 < x.width ∧ x.width ≤ 64)
      (params.map Param.ty) args) (hregs : ∀ j x, args[j]? = some x → c.regs (k + j) = some (.int x))
    (hle : k + params.length ≤ n) :
    List.Forall₂ (Holds n c) ((params.zipIdx k).map fun p => .ofReg p.2 p.1.ty) args := by
  induction params generalizing args k with
  | nil =>
    rw [forall₂_nil_left_iff.mp htys]
    exact .nil
  | cons p params ih =>
    obtain ⟨x, args, ⟨hty, hpos, hlimit⟩, hrest, rfl⟩ := forall₂_cons_left_iff.mp htys
    rw [length_cons] at hle
    have hlt : k < n := by omega
    refine .cons ⟨?_, hty, ?_, nofun, hpos, hlimit⟩ (ih hrest (fun j y hy => ?_) ?_)
    · exact Point.int?_eq_some.mpr (hregs 0 x rfl)
    · intro r hr
      cases hr
      exact hlt
    · rw [Nat.add_right_comm]
      exact hregs (j + 1) y hy
    · omega

/-! ### Functions -/

def StmtsRun (bound : Nat) (ret : Ty) (stmts : List (Spanned Stmt)) (s : State) (w : Site False)
    (s' : State) (w' : Site False) : Prop :=
  StmtRuns (Evaluation.stmts bound ret stmts) s.loopExits s.scopes.inner s'.scopes.inner w w'

theorem EndCode.ends (h : EndCode Passes ret w w') (hret : IsReturnTy ret)
    (hvoid : CollectsVoid w'.builder.module) (hf : w'.Embeds f) (hc : c.At w) : f.Ends c (zero? ret) := by
  obtain ⟨w1, w2, v, _, hpasses, hle, hfn, hblock, hreturned, hfinished⟩ := h
  have hframe := hle.frame.trans (hfinished.grows .plain nofun).frame
  obtain ⟨d, hruns, hd, _⟩ := hpasses (fun sig hsig => hvoid sig (hframe.prototypes _ _ hsig)) f
    (.of_eq (hf.of_finished hfinished) hfn hblock) c hc trivial
  refine hruns.goes.ends (ends_zero hret hreturned hfinished hf ?_)
  exact ⟨hblock ▸ hd.block_eq, hblock ▸ hd.done_eq⟩

omit L in
/-- The meaning of a call comes from its statements, or is zero if their end is reached. -/
theorem call_eq_some (h : Evaluation.call bound fn args = some value) :
    ∃ ret m flow m', returnType? fn = some ret ∧ bind? fn.params args (Store.push {}) = some m ∧
      stmts bound ret fn.body.node.stmts m = some (flow, m') ∧
      (flow = .next ∧ value = zero? ret ∨ flow = .ret value) := by
  simp only [Evaluation.call, Option.bind_eq_bind, Option.bind_eq_some_iff] at h
  obtain ⟨ret, hret, m, hm, ⟨flow, m'⟩, hstmts, hflow⟩ := h
  refine ⟨ret, m, flow, m', hret, hm, hstmts, ?_⟩
  cases flow with
  | next => exact .inl ⟨rfl, (Option.some.inj hflow).symm⟩
  | leave => cases hflow
  | ret value' => exact .inr (congrArg Flow.ret (Option.some.inj hflow))

/-- The code of a function returns the meaning of a call. -/
theorem FunctionCode.returns {module : Module} (hvoid : CollectsVoid module)
    (hcode : FunctionCode True ParamRuns (StmtsRun bound sig.ret fn.body.node.stmts) Passes sig module f)
    (hof : List.Forall₂ (fun p q => ParamSig.IsOf q p) fn.params sig.params)
    (hty : ∀ ret, returnType? fn = some ret → sig.ret = ret) (hret : IsReturnTy sig.ret)
    (hcall : Evaluation.call bound fn args = some value) : f.Returns (P := cells) [] (args.map .int) value := by
  obtain ⟨s, w, w', params, rfl, rfl, hinner, hexits, htys, hnext, hid, hinstrs, s1, w1, s2, w2, _, hopen1, _,
    hparams, hstmts, hgrows, hgrows', hend⟩ := hcode
  obtain ⟨ret, m, flow, m', hreturn, hbind, hflow, hvalue⟩ := call_eq_some hcall
  cases hty ret hreturn
  let c : Point cells := { block := 0, regs := fun r => (args.map .int)[r]?, memory := [] }
  have hc : c.At w := ⟨hid.symm, by rw [hinstrs]; rfl⟩
  have hm : Matches w.fn.nextReg s.scopes.inner (.push {}) c := by
    rw [hinner]
    exact ⟨rfl, .cons .nil .nil⟩
  have hargs : List.Forall₂ (Holds w.fn.nextReg c) (params.zipIdx.map fun p => .ofReg p.2 p.1.ty) args := by
    refine holds_args (htys ▸ paramTys_of_bind? hof hbind) (fun j x hx => ?_) ?_
    · rw [Nat.zero_add]
      exact (getElem?_map).trans (congrArg (Option.map Datum.int) hx)
    · rw [hnext, Nat.zero_add]
  -- The whole function embeds the code up to each of its sites.
  have hf := w'.embeds_self
  have hf2 := hf.of_grows hgrows' trivial fun h => h
  obtain ⟨d, hruns, hd, hmd⟩ :=
    hparams.carries hof hbind w'.fn (hf2.of_grows hgrows trivial fun h => h) c hc ⟨hm, hargs⟩
  refine ⟨0, w'.coherent.entry, hruns.goes.ends ?_⟩
  have hlands := hstmts hopen1 m _ hflow w'.fn hf2 d hd hmd
  rcases hvalue with ⟨rfl, rfl⟩ | rfl
  · obtain ⟨hopen2, e, hgoes, he, _⟩ := hlands
    refine hgoes.ends ?_
    rcases hend with ⟨hclosed, rfl⟩ | hend
    · rw [Block.isTerminated, hopen2] at hclosed
      cases hclosed
    · exact hend.ends hret hvoid hf he
  · exact hlands

theorem BodyLowers.runs (hcollects : L.Collects) (bound : Nat) (hfits : ∀ p ∈ sig.params, p.Fits)
    (hret : IsReturnTy sig.ret)
    (hbranched : stmtsBranched fn.body.node.stmts = true) :
    BodyLowers True env ParamRuns (StmtsRun bound sig.ret fn.body.node.stmts) Passes fn sig where
  params := fun param hparam _ _ _ _ htakes => runs_paramSlot (hfits param hparam) htakes
  stmts := fun s w hty hbody => executes_lowerStmts hret _ hbranched s w hty hbody
  collect := fun _ _ => passes_gcCollect hcollects
  skip := fun w _ => .refl w

omit L in
theorem isReturnTy_scalarType? (h : scalarType? name = some ty) : IsReturnTy ty := by
  rintro n rfl
  unfold scalarType? at h
  split at h
  case h_10 => split at h <;> cases h
  all_goals cases h <;> decide

omit L in
theorem FnSig.IsOf.ret_eq (h : sig.IsOf fn) (hret : returnType? fn = some ret) : sig.ret = ret ∧ IsReturnTy ret := by
  unfold returnType? at hret
  split at hret
  · next hnone =>
    cases hret
    exact ⟨h.void hnone, nofun⟩
  · next t ht =>
    obtain ⟨_, hscalar⟩ := Option.ite_none_left_eq_some.mp hret
    exact ⟨h.scalar t ret ht hscalar, isReturnTy_scalarType? hscalar⟩

omit L in
/-- A function takes just the parameters that are written, unless it is a method. -/
theorem FnSig.IsOf.params_of_length (h : sig.IsOf fn) (hlen : sig.params.length = fn.params.length) :
    List.Forall₂ (fun p q => ParamSig.IsOf q p) fn.params sig.params := by
  obtain ⟨struct, params, hparams, hof⟩ := h.params
  rw [hparams, length_append, hof.length_eq] at hlen
  rw [Nat.add_eq_right, length_eq_zero_iff] at hlen
  rw [hparams, hlen]
  exact hof

/-- A function whose body is lowered computes what it means. -/
theorem returns_of_defineFunction (hcollects : L.Collects) (hready : Ready False False s) (hawaits : s.Awaits sig)
    (hof : sig.IsOf fn) (hlen : sig.params.length = fn.params.length)
    (hbranched : stmtsBranched fn.body.node.stmts = true) (hrun : defineFunction fn sig env s = .ok () s') :
    Proceeds False False (· = sig.symbol) s s' ∧
      ∃ g, s'.builder.module.function? sig.symbol = some g ∧ (CollectsVoid s'.builder.module → ∀ bound args value,
        Evaluation.call bound fn args = some value → g.Returns (P := cells) [] (args.map .int) value) := by
  have hdefines : Outcome _ _ (defineFunction fn sig env s) :=
    defines_defineFunction (N := True) False.elim hready hawaits (.of_branched (fun _ => hbranched) hawaits.fits)
  rw [hrun] at hdefines
  obtain ⟨hproceeds, g, hg, _⟩ := hdefines
  refine ⟨hproceeds, g, hg, fun hvoid bound args value hcall => ?_⟩
  obtain ⟨ret, _, _, _, hreturn, _⟩ := call_eq_some hcall
  obtain ⟨rfl, hret⟩ := hof.ret_eq hreturn
  have hdefines : Outcome _ _ (defineFunction fn sig env s) :=
    defines_defineFunction False.elim hready hawaits (.runs hcollects bound hawaits.fits hret hbranched)
  rw [hrun] at hdefines
  obtain ⟨_, g', hg', hcode⟩ := hdefines
  cases hg.symm.trans hg'
  exact hcode.returns hvoid (hof.params_of_length hlen) (fun _ h => (hof.ret_eq h).1) hret hcall

/-! ### Files -/

/-- A function of a file is declared with a signature, and its body is lowered without an error. -/
def Defined (env : Env) (file : File) (moduleName : String) (fn : FnDef) (sig : FnSig) : Prop :=
  ∃ earlier later s0 s s',
    declareFile file env (.start env.config moduleName) = .ok (earlier ++ (fn, sig) :: later) s0 ∧
    defineAll earlier env s0 = .ok () s ∧
    defineFunction fn sig env s = .ok () s'

omit L in
theorem DeclaresAll.proceeds {fns : List Routine} {earlier later : List (FnDef × FnSig)} {s0 s1 : State}
    (h : DeclaresAll False fns s0 s1 (earlier ++ later)) (hrun : defineAll earlier env s1 = .ok () s) :
    Ready False False s ∧ (∀ p ∈ later, s.Awaits p.2) ∧ (symbolsOf later).Nodup := by
  have hnodup := h.nodup
  rw [symbolsOf, map_append, nodup_append] at hnodup
  obtain ⟨hearlier, hlater, hapart⟩ := hnodup
  have hproceeds : Outcome _ _ (defineAll earlier env s1) :=
    proceeds_defineAll h.declaring.ready
      (fun p hp => h.awaits p (mem_append_left _ hp)) hearlier False.elim
  rw [hrun] at hproceeds
  refine ⟨hproceeds.ready, fun p hp => hproceeds.awaits p.2 (fun hmem => ?_) ?_, hlater⟩
  · exact hapart _ hmem _ (mem_map_of_mem hp) rfl
  · exact h.awaits p (mem_append_right _ hp)

omit L in
/-- What is defined stays as it is while the rest of a file is lowered. -/
theorem keeps_lowerFile {earlier later : List (FnDef × FnSig)} {s0 s1 : State} {g : Function}
    (hdeclare : declareFile file env s0 = .ok (earlier ++ (fn, sig) :: later) s1)
    (hearlier : defineAll earlier env s1 = .ok () s)
    (hdefine : defineFunction fn sig env s = .ok () s') (hready : Ready False False s')
    (hawaits : ∀ p ∈ later, s'.Awaits p.2) (hnodup : (symbolsOf ((fn, sig) :: later)).Nodup)
    (hg : s'.builder.module.function? sig.symbol = some g) :
    Outcome (fun _ => False) (fun _ s'' => s''.builder.module.function? sig.symbol = some g ∧
      (CollectsVoid s''.builder.module → CollectsVoid s'.builder.module)) (lowerFile file env s0) := by
  obtain ⟨hnew, hnodup⟩ := nodup_cons.mp hnodup
  have hreport : defineOrReport fn sig env s = .ok () s' := by
    rw [defineOrReport, bind_run, attempt, hdefine]
    rfl
  have hrun : defineAll (earlier ++ (fn, sig) :: later) env s1 = defineAll later env s' := by
    rw [defineAll_append, bind_run, hearlier]
    change defineAll ((fn, sig) :: later) env s = _
    rw [defineAll_cons, bind_run, hreport]
  have hlater : Outcome _ _ (defineAll later env s') :=
    proceeds_defineAll hready hawaits hnodup False.elim
  rw [lowerFile_run, bind_run, hdeclare]
  refine .bind (hrun ▸ hlater) ?_
  intro _ s2 h2
  have hg2 := h2.keeps sig.symbol g hnew hg
  split
  · refine (proceeds_synthesizeEntry h2.ready).mono (fun _ h => h) fun _ _ h => ⟨h.1.keeps _ g id hg2, ?_⟩
    exact fun hvoid sig hsig => hvoid sig (h.1.prototypes _ _ (h2.prototypes _ _ hsig))
  · exact ⟨hg2, fun hvoid sig hsig => hvoid sig (h2.prototypes _ _ hsig)⟩

omit L in
theorem collectsVoid_run {moduleName : String} (hentry : EntryApart env.config.module) :
    CollectsVoid (run env file moduleName).module := by
  obtain ⟨_, _, s, _, hlower, _, hfinished⟩ := exists_ledger env file moduleName
  rw [run_eq hlower]
  intro sig hsig
  obtain ⟨f, hf, rfl⟩ := Option.map_eq_some_iff.mp hsig
  exact hfinished.conforms.builder.honest hentry f (mem_of_find?_eq_some hf) .gcCollect (by simpa using find?_some hf)

/-- The module of a file has the code of each function that is defined, and a call of it returns what
the function means. The entry may not take the name of a primitive, or the collector would be the user's own. -/
theorem run_preserves (hcollects : L.Collects) (env : Env) (file : File) (moduleName : String) (fn : FnDef)
    (sig : FnSig) (hentry : EntryApart env.config.module) (hdefined : Defined env file moduleName fn sig)
    (hlen : sig.params.length = fn.params.length) (hbranched : stmtsBranched fn.body.node.stmts = true) :
    ∃ g, (run env file moduleName).module.function? sig.symbol = some g ∧ ∀ bound args value,
      Evaluation.call bound fn args = some value → g.Returns (P := cells) [] (args.map .int) value := by
  obtain ⟨earlier, later, s0, s, s', hdeclare, hearlier, hdefine⟩ := hdefined
  have hdeclares : Outcome _ _ (declareFile file env (.start env.config moduleName)) :=
    declares_declareFile (H := False) (.start env.config moduleName) False.elim False.elim
  rw [hdeclare] at hdeclares
  obtain ⟨_, hall⟩ := hdeclares
  have hmem : (fn, sig) ∈ earlier ++ (fn, sig) :: later :=
    List.mem_append_right _ List.mem_cons_self
  obtain ⟨hready, hawaits, hnodup⟩ := hall.proceeds hearlier
  obtain ⟨hproceeds, g, hg, hreturns⟩ := returns_of_defineFunction hcollects hready
    (hawaits _ List.mem_cons_self) (hall.source _ hmem).2 hlen hbranched hdefine
  have hkeeps : (run env file moduleName).module.function? sig.symbol = some g ∧
      (CollectsVoid (run env file moduleName).module → CollectsVoid s'.builder.module) := by
    refine run_module (P := fun m => m.function? sig.symbol = some g ∧
      (CollectsVoid m → CollectsVoid s'.builder.module)) ?_
    refine keeps_lowerFile hdeclare hearlier hdefine hproceeds.ready (fun p hp => ?_) hnodup hg
    refine hproceeds.awaits p.2 (fun heq => ?_) (hawaits p (List.mem_cons_of_mem _ hp))
    exact (List.nodup_cons.mp hnodup).1 (List.mem_map.mpr ⟨p, hp, heq⟩)
  exact ⟨g, hkeeps.1, hreturns (hkeeps.2 (collectsVoid_run hentry))⟩

end

def countdownSig : FnSig := ⟨"countdown", [{ name := "n", ty := .i32 }], .i32⟩

theorem defined_countdown : Defined bareEnv countdownFile "countdown" countdown countdownSig := by
  have hdeclare : ∃ s, declareFile countdownFile bareEnv (.start bareEnv.config "countdown") =
      .ok [(countdown, countdownSig)] s := ⟨_, rfl⟩
  have hrun : (EStateM.run' ((declareFile countdownFile >>= fun _ =>
      defineFunction countdown countdownSig) bareEnv) (.start bareEnv.config "countdown")).isSome =
        true := by decide +kernel
  obtain ⟨s, hdeclare⟩ := hdeclare
  delta EStateM.run' EStateM.run at hrun
  rw [bind_run, hdeclare] at hrun
  cases hdefine : defineFunction countdown countdownSig bareEnv s with
  | ok a s' => exact ⟨[], [], s, s, s', hdeclare, rfl, hdefine⟩
  | error d s' =>
    simp only [hdefine] at hrun
    cases hrun

/-- From 100 the loop is left at 98. -/
theorem run_preserves_countdown : collector.Collects ∧ EntryApart bareEnv.config.module ∧
      Defined bareEnv countdownFile "countdown" countdown countdownSig ∧
      countdownSig.params.length = countdown.params.length ∧
      stmtsBranched countdown.body.node.stmts = true ∧
      Evaluation.call 4 countdown [.ofInt 32 100] = some (some (.int (.ofInt 32 98))) ∧
      ∃ g, (run bareEnv countdownFile "countdown").module.function? "countdown" = some g ∧
        g.Returns (P := cells) [] [.int (.ofInt 32 100)] (some (.int (.ofInt 32 98))) := by
  have hbranched : stmtsBranched countdown.body.node.stmts = true := by decide
  have hcall : Evaluation.call 4 countdown [.ofInt 32 100] = some (some (.int (.ofInt 32 98))) := rfl
  have hcollects : collector.Collects := fun _ => rfl
  obtain ⟨g, hg, hreturns⟩ := run_preserves hcollects bareEnv countdownFile "countdown" countdown countdownSig
    entryApart_bareEnv defined_countdown rfl hbranched
  exact ⟨hcollects, entryApart_bareEnv, defined_countdown, rfl, hbranched, hcall, g, hg, hreturns 4 _ _ hcall⟩

end Aero.Lowering
