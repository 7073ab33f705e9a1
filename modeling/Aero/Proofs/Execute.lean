import Aero.Proofs.Update

/-!
All statements on numbers. Whatever is put together from declarations, assignments, conditionals,
loops, jumps and blocks, its code follows evaluation.
-/

namespace Aero.Lowering

open IR IR.Build IR.Site Evaluation Option

variable [Library] {env : Env} {s : State} {w w' : Site False} {bound : Nat} {ret : Ty} {c : Point cells}
  {lowered body : Lower Unit} {step : Store → Option Store} {act round : Compute Flow} {f : Function} {span : Span}
  {ty : Option (Spanned TypeName)} {place : Spanned Place} {value e cond : Spanned Expr}

def IsReturnTy (ret : Ty) : Prop := ∀ n, ret = .int n → 0 < n ∧ n ≤ 64

/-! ### Single statements -/

theorem StmtRuns.of_updates {exits : List BlockId} {frames : List Frame}
    (hopen : w'.Open) (h : Updates step frames w w')
    (hact : ∀ m r, act m = some r → ∃ m', r = (.next, m') ∧ step m = some m') :
    StmtRuns act exits frames frames w w' := by
  refine .of_carries hopen fun m r hr => ?_
  obtain ⟨m', rfl, hm'⟩ := hact m r hr
  exact ⟨m', rfl, h m m' hm'⟩

theorem Does.stmtRuns (h : Lowers env lowered s w fun _ w' => Updates step s.scopes.inner w w')
    (hact : ∀ m r, act m = some r → ∃ m', r = (.next, m') ∧ step m = some m') :
    Does True env lowered s w fun s' w' => s.Extends s' ∧
      StmtRuns act s.loopExits s.scopes.inner s'.scopes.inner w w' := by
  refine (Does.of_lowers h).mono ?_
  rintro s' w' ⟨hagrees, hopen, hupdates⟩
  rw [hagrees.scopes_eq]
  exact ⟨hagrees.extends, .of_updates hopen hupdates hact⟩

omit [Library] in
theorem initial_of_filter_none (init : Option Expr)
    (h : ty.filter (!·.node.isAuto) = none) : initial (ty.map (·.node)) init = initial none init := by
  cases ty with
  | none => rfl
  | some t =>
    have hauto : (!t.node.isAuto) = false := by
      rw [filter_some] at h
      split at h
      · cases h
      · next hauto => exact Bool.eq_false_iff.mpr hauto
    unfold initial
    rw [map_some, filter_some, hauto]
    rfl

theorem executes_declare {name : Spanned String} {init : Option (Spanned Expr)} :
    Does True env (declareVariable name ty init span) s w fun s' w' => s.Extends s' ∧
      StmtRuns (stmt bound ret (.declare name ty init)) s.loopExits s.scopes.inner s'.scopes.inner w w' := by
  refine (does_declareVariable
    (Q := Introduces (initial (ty.map (·.node)) (init.map (·.node))) s.scopes.inner w)
    (fun t ht => ?_) fun ht => ?_).mono ?_
  · obtain ⟨rfl, hauto⟩ := filter_eq_some_iff.mp ht
    exact introduces_declaredSlot (by simpa using hauto)
  · rw [initial_of_filter_none _ ht]
    exact introduces_inferredSlot
  rintro s' w' ⟨hext, hopen, slot, w1, hdeclares, hfn, hblock, hnew, hscopes⟩
  refine ⟨hext, .of_carries hopen fun m r hr => ?_⟩
  simp only [stmt, bind_eq_bind, bind_eq_some_iff] at hr
  obtain ⟨⟨x, m1⟩, hx, m', hm', heq⟩ := hr
  cases heq
  refine ⟨m', rfl, fun f hf c hc hm => ?_⟩
  obtain ⟨d, hruns, hd, hmd⟩ := hdeclares name.node m x m1 m' hx hm' f (.of_eq hf hfn hblock) c hc hm
  rw [hscopes, inner_declare? hnew, hfn]
  exact ⟨d, hruns, ⟨hblock ▸ hd.block_eq, hblock ▸ hd.done_eq⟩, hmd⟩

theorem executes_assign : Does True env (Lowering.assign place value) s w fun s' w' => s.Extends s' ∧
      StmtRuns (stmt bound ret (.assign place value)) s.loopExits s.scopes.inner s'.scopes.inner w w' := by
  obtain ⟨place, span⟩ := place
  cases place with
  | var name =>
    refine .stmtRuns (updates_assign) fun m r hr => ?_
    simp only [stmt, bind_eq_bind, bind_eq_some_iff] at hr
    obtain ⟨m', hm', heq⟩ := hr
    cases heq
    exact ⟨m', rfl, hm'⟩
  | _ =>
    refine (Does.of_lowers (lowers_assign _)).mono fun s' w' h => ⟨h.1.extends, ?_⟩
    exact .of_none fun m => rfl

theorem executes_compoundAssign {op : BinOp} :
    Does True env (compoundAssign op place value span) s w fun s' w' => s.Extends s' ∧
      StmtRuns (stmt bound ret (.compoundAssign op place value)) s.loopExits s.scopes.inner s'.scopes.inner w w' := by
  obtain ⟨place, placeSpan⟩ := place
  cases place with
  | var name =>
    refine .stmtRuns (updates_compoundAssign) fun m r hr => ?_
    obtain ⟨_, hr⟩ := ite_none_right_eq_some.mp hr
    obtain ⟨m', hm', heq⟩ := bind_eq_some_iff.mp hr
    cases heq
    exact ⟨m', rfl, hm'⟩
  | _ =>
    refine (Does.of_lowers lowers_compoundAssign).mono fun s' w' h =>
      ⟨h.1.extends, ?_⟩
    exact .of_none fun m => rfl

theorem executes_expr : Does True env (discard (lower e)) s w fun s' w' => s.Extends s' ∧
      StmtRuns (stmt bound ret (.expr e)) s.loopExits s.scopes.inner s'.scopes.inner w w' := by
  refine .stmtRuns (updates_discard) fun m r hr => ?_
  simp only [stmt, bind_eq_bind, bind_eq_some_iff] at hr
  obtain ⟨⟨x, m'⟩, hx, heq⟩ := hr
  cases heq
  exact ⟨m', rfl, by rw [hx]; rfl⟩

theorem executes_break : Does True env (breakLoop span) s w fun s' w' => s.Extends s' ∧
      StmtRuns (stmt bound ret .breakLoop) s.loopExits s.scopes.inner s'.scopes.inner w w' := by
  refine does_breakLoop.mono ?_
  rintro s' w' ⟨hagrees, exit, exits, hexits, hfinished⟩
  refine ⟨hagrees.extends, fun _ m r hr f hf c hc hm => ?_⟩
  cases hr
  have hblock := hf.closed (hfinished.block_eq ▸ w'.block_mem)
  refine ⟨exit, by rw [hexits]; rfl, c.jump exit, f.goes_br hblock hc, ⟨rfl, rfl⟩, w.fn.nextReg, ?_⟩
  exact (hm.jump exit (le_refl _)).pop

/-! ### Returns -/

theorem read?_zero {ty : Ty} (h : IsReturnTy ty) (hvoid : ty ≠ .void) (c : Point cells) :
    ∃ x, zero? ty = some x ∧ c.read? (Build.zero ty) = some x := by
  cases ty with
  | int n =>
    obtain ⟨hpos, hle⟩ := h n rfl
    exact ⟨_, rfl, Point.int?_eq_some.mp (holds_ofInt 0 c 0 hpos hle).read⟩
  | void => exact absurd rfl hvoid
  | _ => exact ⟨_, rfl, rfl⟩

theorem ends_void (hblock : f.block? w.block.id = some (w.block.close (.ret none))) (hc : c.At w) : f.Ends c none :=
  ⟨c, .refl c, (f.step?_closed hblock hc.block_eq hc.done_eq).trans rfl⟩

theorem ends_value {v : Value} {x : Datum}
    (hblock : f.block? w.block.id = some (w.block.close (.ret (some v)))) (hc : c.At w)
    (hread : c.read? v = some x) : f.Ends c (some x) := by
  refine ⟨c, .refl c, (f.step?_closed hblock hc.block_eq hc.done_eq).trans ?_⟩
  rw [Terminator.exec?, hread]
  rfl

theorem ends_zero {Q : Value → Site False → Prop} {w1 : Site False} {v : Option Value}
    (hret : IsReturnTy ret) (hreturned : Returned none ret Q w v w1)
    (hfinished : w1.Finished (.ret v) w') (hf : w'.Embeds f) (hc : c.At w) : f.Ends c (zero? ret) := by
  have hblock := hf.closed (hfinished.block_eq ▸ w'.block_mem)
  cases v with
  | none =>
    obtain ⟨rfl, rfl⟩ := hreturned
    exact ends_void hblock hc
  | some v =>
    obtain ⟨hvoid, rfl, rfl⟩ := hreturned
    obtain ⟨x, hx, hread⟩ := read?_zero hret hvoid c
    rw [hx]
    exact ends_value hblock hc hread

theorem executes_return (hret : IsReturnTy s.returnTy) {value : Option (Spanned Expr)} :
    Does True env (returnFrom value span) s w fun s' w' => s.Extends s' ∧
      StmtRuns (stmt bound s.returnTy (.ret value)) s.loopExits s.scopes.inner s'.scopes.inner w w' := by
  refine (does_returnFrom (Q := fun v w' => ∀ e ∈ value, ∀ m x m' r, expr e.node m = some (x, m') →
    returned? s.returnTy x = some r →
    Carries w w' (Matches w.fn.nextReg s.scopes.inner m) (·.read? v = some r)) ?_).mono ?_
  · intro e he _
    refine (computes_lowerExpr e.span e.node s w).bind ?_
    rintro v s1 w1 hle1 _ ⟨hv, hexpr⟩
    refine (yields_coerceReturn hret hv).mono fun u w2 hle2 hu => ⟨hu.1, ?_⟩
    intro e' he' m x m' r hx hr f hf c hc hm
    cases mem_unique he he'
    obtain ⟨d, hruns, hd, _, hxd⟩ := hexpr m x m' hx f (hf.of_le hle2) c hc hm
    obtain ⟨e, hkeeps, he, hread⟩ := hu.2 x r hr f hf d hd hxd
    exact ⟨e, hruns.trans (hkeeps.runs.mono hle1.nextReg_le), he, hread⟩
  rintro s' w' ⟨hagrees, v, w1, hle, hreturned, hfinished⟩
  refine ⟨hagrees.extends, fun _ m r hr f hf c hc hm => ?_⟩
  cases value with
  | none =>
    cases hr
    exact ends_zero hret hreturned hfinished hf hc
  | some e =>
    have hblock := hf.closed (hfinished.block_eq ▸ w'.block_mem)
    cases v with
    | none => exact hreturned.elim
    | some v =>
      simp only [stmt, bind_eq_bind, bind_eq_some_iff] at hr
      obtain ⟨⟨x, m'⟩, hx, y, hy, heq⟩ := hr
      cases heq
      obtain ⟨d, hruns, hd, hread⟩ :=
        hreturned e rfl m x m' y hx hy f (hf.of_finished hfinished) c hc hm
      exact hruns.goes.ends (ends_value hblock hd hread)

/-! ### Loops -/

theorem updates_lowerStep {step : Option (Spanned Expr)} :
    Lowers env (lowerStep step) s w fun _ w' => Updates (after step) s.scopes.inner w w' := by
  cases step with
  | none =>
    refine .pure fun m m' hm' f _ c hc hm => ?_
    cases hm'
    exact ⟨c, .refl c, hc, hm⟩
  | some e => exact updates_discard

theorem decides_guard : Lowers env (Lowering.guard e) s w fun v w' => w'.Val v .i1 ∧
      Decides (Evaluation.guard e.node) s.scopes.inner w (some v) w' :=
  (computes_lowerGuard e.span e.node s w).mono fun _ _ _ h => ⟨h.1.typed .i1, h.2⟩

theorem executes_forLoop {init : Lower Unit} {start : Compute Flow} {cond step : Option (Spanned Expr)}
    (hinit : Does True env init s.pushed w fun s' w' => s.pushed.Extends s' ∧
      StmtRuns start s.loopExits s.pushed.scopes.inner s'.scopes.inner w w')
    (hbody : ∀ s' w', s'.returnTy = s.returnTy →
      Does True env body s' w' fun s'' w'' => s'.Agrees s'' ∧ BlockRuns round s'.loopExits s'.scopes.inner w' w'') :
    Does True env (forLoop init (cond.map guard) (lowerStep step) body) s w fun s' w' =>
      s.Agrees s' ∧ BlockRuns (inScope (andThen start (loop (during cond) round (after step) bound)))
        s.loopExits s.scopes.inner w w' := by
  refine (does_forLoop (L := fun s1 => Decides (during cond) s1.scopes.inner)
    (B := fun s1 exit w w' => BlockRuns round (exit :: s.loopExits) s1.scopes.inner w w')
    (S := fun s1 => Updates (after step) s1.scopes.inner) hinit ?_ ?_ ?_ ?_).mono ?_
  · intro s1 g hg s' w' hagrees
    obtain ⟨e, rfl, rfl⟩ := map_eq_some_iff.mp hg
    rw [← hagrees.scopes_eq]
    exact decides_guard
  · intro hcond s1 w'
    rw [map_eq_none_iff.mp hcond]
    exact ⟨fun _ => rfl, rfl⟩
  · intro s1 s' w' hagrees
    rw [← hagrees.scopes_eq]
    exact updates_lowerStep
  · intro s1 exit s' w' hext hagrees
    have hexits : s'.loopExits = exit :: s.loopExits :=
      hagrees.loopExits_eq.trans (congrArg (exit :: ·) hext.loopExits_eq)
    have hscopes : s'.scopes = s1.scopes := hagrees.scopes_eq
    rw [← hexits, ← hscopes]
    exact hbody s' w' (hagrees.returnTy_eq.trans hext.returnTy_eq)
  · rintro s' w' ⟨hagrees, _, s1, w1, hext, hstart, _, hgrows, hcode⟩
    have hloop := (hcode.blockRuns bound).stmtRuns
    refine ⟨hagrees, (hstart.andThen hloop hext.tail_eq fun f hf => ?_).inScope hext.tail_eq⟩
    exact hf.of_grows hgrows trivial fun h => h

theorem executes_whileLoop (hbody : ∀ s' w', s'.returnTy = s.returnTy →
      Does True env body s' w' fun s'' w'' => s'.Agrees s'' ∧ BlockRuns round s'.loopExits s'.scopes.inner w' w'') :
    Does True env (whileLoop (guard cond) body) s w fun s' w' => s.Agrees s' ∧
      BlockRuns (loop (Evaluation.guard cond.node) round some bound) s.loopExits s.scopes.inner w w' := by
  refine (does_whileLoop (L := Decides (Evaluation.guard cond.node) s.scopes.inner)
    (B := fun exit w w' => BlockRuns round (exit :: s.loopExits) s.scopes.inner w w') ?_ ?_).mono ?_
  · intro s' w' hagrees
    rw [← hagrees.scopes_eq]
    exact decides_guard
  · intro exit s' w' hagrees
    have hexits : s'.loopExits = exit :: s.loopExits := hagrees.loopExits_eq
    have hscopes : s'.scopes = s.scopes := hagrees.scopes_eq
    rw [← hexits, ← hscopes]
    exact hbody s' w' hagrees.returnTy_eq
  · exact fun s' w' h => ⟨h.1, h.2.2.blockRuns bound⟩

/-! ### All statements -/

theorem Does.ofBlock (h : Does True env lowered s w fun s' w' => s.Agrees s' ∧
      BlockRuns act s.loopExits s.scopes.inner w w') : Does True env lowered s w fun s' w' => s.Extends s' ∧
      StmtRuns act s.loopExits s.scopes.inner s'.scopes.inner w w' := by
  refine h.mono ?_
  rintro s' w' ⟨hagrees, hblock⟩
  rw [hagrees.scopes_eq]
  exact ⟨hagrees.extends, hblock.stmtRuns⟩

mutual

theorem executes_lowerStmt (hret : IsReturnTy ret) (span : Span) : ∀ stmt,
    stmt.isBranched = true → ∀ s w, s.returnTy = ret →
    Does True env (lowerStmt span stmt) s w fun s' w' => s.Extends s' ∧
      StmtRuns (Evaluation.stmt bound ret stmt) s.loopExits s.scopes.inner s'.scopes.inner w w'
  | .declare name ty init, _, s, w, _ => by
      exact executes_declare
  | .assign place value, _, s, w, _ => by
      exact executes_assign
  | .compoundAssign op place value, _, s, w, _ => by
      exact executes_compoundAssign
  | .expr e, _, s, w, _ => by
      exact executes_expr
  | .ifElse branches none, hbranched, s, w, hty => by
      obtain ⟨hne, hbranches⟩ := Bool.and_eq_true_iff.mp hbranched
      refine .ofBlock ((does_ifElse (B := fun _ _ => True)
        (executes_lowerBranches hret branches hbranches s hty) (fun _ h => by cases h)
        fun _ => lowerBranches_ne_nil hne).mono fun s' w' h => ⟨h.1, ?_⟩)
      exact IfCode.blockRuns (h.2.1 trivial) fun m => rfl
  | .ifElse branches (some ⟨other, _⟩), hbranched, s, w, hty => by
      obtain ⟨hbranched, hother⟩ := Bool.and_eq_true_iff.mp hbranched
      obtain ⟨hne, hbranches⟩ := Bool.and_eq_true_iff.mp hbranched
      refine .ofBlock ((does_ifElse
        (B := fun w w' => BlockRuns (block bound ret other) s.loopExits s.scopes.inner w w')
        (executes_lowerBranches hret branches hbranches s hty) ?_
        fun _ => lowerBranches_ne_nil hne).mono fun s' w' h => ⟨h.1, ?_⟩)
      · intro act hact s' w' hagrees
        cases hact
        rw [← hagrees.scopes_eq, ← hagrees.loopExits_eq]
        exact executes_lowerBlock hret other hother s' w' (hagrees.returnTy_eq.trans hty)
      · rw [Evaluation.stmt]
        exact IfCode.blockRuns (h.2.1 trivial) fun w w' h => h
  | .whileLoop cond ⟨body, _⟩, hbranched, s, w, hty => by
      exact (executes_whileLoop fun s' w' hty' =>
        executes_lowerBlock hret body hbranched s' w' (hty'.trans hty)).ofBlock
  | .forLoop none cond step ⟨body, _⟩, hbranched, s, w, hty => by
      have hinit : Does True env (pure ()) s.pushed w fun s' w' => s.pushed.Extends s' ∧
          StmtRuns (fun m => some (.next, m)) s.loopExits s.pushed.scopes.inner s'.scopes.inner w
            w' := by
        refine (Does.of_lowers (Lowers.pure rfl)).mono ?_
        rintro s' _ ⟨hagrees, _, rfl⟩
        rw [hagrees.scopes_eq]
        exact ⟨hagrees.extends, .skip⟩
      exact (executes_forLoop hinit fun s' w' hty' =>
        executes_lowerBlock hret body hbranched s' w' (hty'.trans hty)).ofBlock
  | .forLoop (some ⟨init, ispan⟩) cond step ⟨body, _⟩, hbranched, s, w, hty => by
      obtain ⟨hinit, hbody⟩ := Bool.and_eq_true_iff.mp hbranched
      exact (executes_forLoop (executes_lowerStmt hret ispan init hinit s.pushed w hty)
        fun s' w' hty' => executes_lowerBlock hret body hbody s' w' (hty'.trans hty)).ofBlock
  | .breakLoop, _, s, w, _ => by
      exact executes_break
  | .ret value, _, s, w, hty => by
      subst hty
      exact executes_return hret
  | .block ⟨body, _⟩, hbranched, s, w, hty => by
      exact (executes_lowerBlock hret body hbranched s w hty).ofBlock
  | .inline lang code volatile, _, s, w, _ => by
      refine does_inlineBlock.mono fun s' w' h => ⟨h.1.extends, ?_⟩
      exact .of_none fun m => rfl

theorem executes_lowerBlock (hret : IsReturnTy ret) : ∀ block, block.isBranched = true → ∀ s w, s.returnTy = ret →
    Does True env (lowerBlock block) s w fun s' w' => s.Agrees s' ∧
      BlockRuns (Evaluation.block bound ret block) s.loopExits s.scopes.inner w w'
  | ⟨stmts⟩, hbranched, s, w, hty => by
      have hstmts : Does True env (lowerStmts stmts) s.pushed w fun s' w' => s.pushed.Extends s' ∧
          StmtRuns (Evaluation.stmts bound ret stmts) s.loopExits s.pushed.scopes.inner s'.scopes.inner w w' :=
        Does.of_steps fun _ hbody => executes_lowerStmts hret stmts hbranched s.pushed w hty hbody
      refine hstmts.withScope.mono ?_
      rintro s' w' ⟨hagrees, s1, hext, hruns⟩
      exact ⟨hagrees, hruns.inScope hext.tail_eq⟩

theorem executes_lowerStmts (hret : IsReturnTy ret) : ∀ stmts,
    stmtsBranched stmts = true → ∀ s w, s.returnTy = ret → Body s w →
    Steps env (lowerStmts stmts) s w (Fails False False s) fun _ s' w' =>
      Body s' w' ∧ Grows (.stmt True s.loopExits) w w' ∧ s.Extends s' ∧
        StmtRuns (Evaluation.stmts bound ret stmts) s.loopExits s.scopes.inner s'.scopes.inner w w'
  | [], _, s, w, _, hbody => by
      exact Steps.pure ⟨hbody, .refl w, (State.Agrees.refl s).extends, .skip⟩
  | ⟨stmt, span⟩ :: rest, hbranched, s, w, hty, hbody => by
      obtain ⟨hfirst, hrest⟩ := Bool.and_eq_true_iff.mp hbranched
      refine steps_isTerminated.bind ?_
      rintro b s _ _ ⟨rfl, rfl, hb⟩
      cases b with
      | true =>
        refine (Steps.lift reaches_note).imp ?_
        rintro _ s' w' hbuilder ⟨hsame, _, _, hle⟩
        refine ⟨hbody.same hle hsame hbuilder, .of_le hle, hsame.toAgrees.extends, fun hopen => ?_⟩
        rw [Block.isTerminated, hopen] at hb
        cases hb
      | false =>
        have hopen : w.Open := open_iff.mpr hb.symm
        refine Does.steps (.bind (executes_lowerStmt hret span stmt hfirst s w hty) ?_) hopen hbody
        intro s1 w1 hext hbody1 hgrows1 hruns
        refine (executes_lowerStmts hret rest hrest s1 w1 (hext.returnTy_eq.trans hty) hbody1).imp ?_
        rintro _ s2 w2 _ ⟨hbody2, hgrows2, hext2, hruns2⟩
        rw [hext.loopExits_eq] at hruns2
        exact ⟨hbody2, hgrows2, hext2, hruns.andThen hruns2 hext.tail_eq fun f hf =>
          hf.of_grows hgrows2 trivial fun h => h⟩

theorem executes_lowerBranches (hret : IsReturnTy ret) : ∀ branches,
    branchesBranched branches = true → ∀ s, s.returnTy = ret → List.Forall₂ (ArmOk False True env s)
      ((arms bound ret branches).map (branchSpec s.loopExits s.scopes.inner)) (lowerBranches branches)
  | [], _, s, _ => by
      exact .nil
  | ⟨cond, ⟨body, _⟩⟩ :: rest, hbranched, s, hty => by
      obtain ⟨hbody, hrest⟩ := Bool.and_eq_true_iff.mp hbranched
      refine .cons ⟨fun s' w' hagrees => ?_, fun s' w' hagrees => ?_⟩ (executes_lowerBranches hret rest hrest s hty)
      · rw [← hagrees.scopes_eq]
        exact decides_guard
      · rw [← hagrees.scopes_eq, ← hagrees.loopExits_eq]
        exact executes_lowerBlock hret body hbody s' w' (hagrees.returnTy_eq.trans hty)

end

end Aero.Lowering
