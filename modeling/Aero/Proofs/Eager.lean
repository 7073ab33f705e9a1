import Aero.Proofs.Soundness

/-!
Guards and expressions. Outside a guard both sides of a connective are evaluated. If the atoms of a
guard have truth values and evaluating them has no effect, its code as a guard and its code as an
expression yield the same truth value.
-/

namespace Aero.Lowering

open IR IR.Build IR.Site List

variable {H : Prop} {P : Platform} {env : Env} {s t s' : State} {w w' last : Site H} {act : Lower Value} {b a : Bool}
  {n : Nat} {f : Function} {v : Value} {c d : Point P} {truth : Spanned Expr → Bool} {α : Type}

/-! ### Code of composed actions -/

theorem Later.refl (hbody : Body s w) (hopen : w.Open) : Later s w s w :=
  ⟨.refl s, hbody, hopen, .refl _, le_refl _⟩

theorem Later.trans {w'' : Site H} (h : Later s w t w') (h' : Later t w' s' w'') : Later s w s' w'' :=
  ⟨h.same.trans h'.same, h'.body, h'.isOpen, h.frame.trans h'.frame, le_trans h.nextReg_le h'.nextReg_le⟩

theorem Later.of_same (h : Later t w s' w') (hsame : s.Same t) : Later s w s' w' :=
  { h with same := hsame.trans h.same }

theorem Embeds.congr (hbuilder : w'.builder = w.builder) (h : w'.Embeds f) : w.Embeds f := by
  obtain ⟨hfn, hblock⟩ := eq_of_builder_eq hbuilder
  rw [Embeds, hfn, hblock] at h
  exact h

/-- The code of an action comes before that of the next one. -/
structure Prior (env : Env) (act : Lower Value) (s : State) (w : Site H) (a : Value) (t : State)
    (w1 : Site H) (last : Site H) : Prop where
  le : w ≤ w1
  later : Later s w t w1
  code : Code env act s a w1
  embeds : ∀ f : Function, last.Embeds f → w1.Embeds f

theorem Code.bind {next : Value → Lower Value} {Q : Value → Site H → Prop}
    (h : Code env (act >>= next) s v last) (hbody : Body s w) (hopen : w.Open)
    (hact : Lowers env act s w Q) (hnext : ∀ a t w1, Q a w1 → Lowers env (next a) t w1 fun _ _ => True) :
    ∃ a t w1, Q a w1 ∧ Prior env act s w a t w1 last ∧ Code env (next a) t v last := by
  obtain ⟨s', hrun, _, hbuilder⟩ := h
  have hact' := hact.run hopen hbody
  rw [bind_run] at hrun
  cases hres : act env s with
  | error d t =>
    rw [hres] at hrun
    cases hrun
  | ok a t =>
    rw [hres] at hact' hrun
    obtain ⟨w1, hle, hopen1, hsame, hbuilder1, hQ⟩ := hact'
    have hbody1 := hbody.same hle hsame hbuilder1
    have hnext' := (hnext a t w1 hQ).run hopen1 hbody1
    change next a env t = .ok v s' at hrun
    rw [hrun] at hnext'
    obtain ⟨w2, hle2, _, hsame2, hbuilder2, _⟩ := hnext'
    refine ⟨a, t, w1, hQ, ⟨hle, ⟨hsame, hbody1, hopen1, hle.frame, hle.nextReg_le⟩,
      ⟨t, hres, hsame, hbuilder1⟩, fun f hf => ?_⟩, s', hrun, hsame2, hbuilder⟩
    exact .of_le (Embeds.congr (hbuilder.symm.trans hbuilder2) hf) hle2

theorem Code.within (h : Code env act s v last) (hbody : Body s w) (hopen : w.Open)
    (hact : Lowers env act s w fun v w' => w'.Has v) : v.Within (· < last.fn.nextReg) := by
  obtain ⟨s', hrun, _, hbuilder⟩ := h
  have hact' := hact.run hopen hbody
  rw [hrun] at hact'
  obtain ⟨w', _, _, _, hbuilder', hv⟩ := hact'
  obtain ⟨hfn, _⟩ := eq_of_builder_eq (hbuilder.symm.trans hbuilder')
  rw [hfn]
  exact hv.within

/-! ### Atoms without effect -/

/-- Memory and the first registers are as at another point. -/
structure Alike (n : Nat) (c d : Point P) : Prop where
  memory_eq : d.memory = c.memory
  regs_eq : ∀ r, r < n → d.regs r = c.regs r

theorem Alike.trans {m : Nat} {e : Point P} (h : Alike n c d) (h' : Alike m d e) (hle : n ≤ m) : Alike n c e :=
  ⟨h'.memory_eq.trans h.memory_eq, fun r hr => (h'.regs_eq r (lt_of_lt_of_le hr hle)).trans (h.regs_eq r hr)⟩

/-- Code runs to its end and has no effect. -/
abbrev Undisturbed (f : Function) (n : Nat) (c d : Point P) : Prop :=
  f.Keeps (fun _ => True) n c d

theorem alike_of_keeps {ok : Instr → Prop} (h : f.Keeps ok n c d) : Alike n c d :=
  ⟨h.memory_eq, h.runs.regs_eq⟩

/-- Wherever a value is tested later, the test yields a truth value and has no effect. -/
def ReadsAs (env : Env) (f : Function) (s : State) (w : Site H) (d : Point P) (v : Value) (b : Bool) : Prop :=
  ∀ (span : Span) (t : State) (w1 : Site H) (u : Value) (w2 : Site H), Later s w t w1 →
    Code env (toBool v span) t u w2 → w2.Embeds f → ∀ c : Point P, c.At w1 →
    Alike w.fn.nextReg d c →
    ∃ e, Undisturbed f w1.fn.nextReg c e ∧ e.At w2 ∧ e.int? u = some (.ofBool b)

/-- An expression has a truth value and no effect: wherever its code comes later, while memory and
what was known are as at a point, it runs to its end and changes nothing. -/
def Tests (env : Env) (s : State) (w : Site H) (c0 : Point P) (a : Spanned Expr) (b : Bool) : Prop :=
  ∀ (f : Function) (t : State) (w1 : Site H) (v : Value) (w2 : Site H), Later s w t w1 →
    Code env (lowerExpr a.span a.node) t v w2 → w2.Embeds f → ∀ c : Point P, c.At w1 →
    Alike w.fn.nextReg c0 c →
    ∃ d, Undisturbed f w1.fn.nextReg c d ∧ d.At w2 ∧ ReadsAs env f t w2 d v b

theorem readsAs_bool (hty : v.ty = .i1) (hv : v.Within (· < w.fn.nextReg))
    (hread : d.int? v = some (.ofBool b)) : ReadsAs env f s w d v b := by
  intro span t w1 u w2 hlater hcode _ c hc halike
  have hpure : toBool v span = pure v := by
    unfold toBool
    rw [hty]
    rfl
  obtain ⟨t', hrun, _, hbuilder⟩ := hcode
  rw [hpure] at hrun
  cases hrun
  obtain ⟨_, hblock⟩ := eq_of_builder_eq (hbuilder.symm.trans hlater.body.builder_eq)
  refine ⟨c, .refl c, ⟨hblock ▸ hc.block_eq, hblock ▸ hc.done_eq⟩, ?_⟩
  rw [← hread, Point.int?, Point.int?]
  rw [Point.read?_eq hv halike.regs_eq]

/-! ### Connectives between expressions -/

def Connective.binOp : Connective → BinOp
  | and => .and
  | or => .or

def Connective.binaryOp : Connective → BinaryOp
  | and => .and
  | or => .or

section

variable (op : Connective)

theorem Connective.onBools?_eq : onBools? op.binaryOp = some op.eval := by
  cases op <;> rfl

theorem Connective.not_floating : op.binaryOp.isFloating = false := by
  cases op <;> rfl

theorem Connective.admits (_ : H) : BinaryOp.Admits op.binaryOp .i1 := by
  cases op <;> rfl

theorem code_logical {l r : Value} {span : Span}
    (h : Code env (binaryValues op.binOp l r span) s v w) : Code env (logical op.binaryOp l r span) s v w := by
  obtain ⟨s', hrun, hsame, hbuilder⟩ := h
  refine ⟨s', ?_, hsame, hbuilder⟩
  cases hl : isOperand l with
  | false =>
    simp only [binaryValues, hl] at hrun
    cases hrun
  | true =>
    cases hr : isOperand r with
    | false =>
      simp only [binaryValues, hl, hr] at hrun
      cases hrun
    | true =>
      simp only [binaryValues, hl, hr] at hrun
      cases op <;> exact hrun

end

variable {c0 : Point P} {span : Span}

/-- Both sides are evaluated, and then both are tested. -/
theorem tests_join (op : Connective) {l r : Spanned Expr} (hl : Tests env s w c0 l a) (hr : Tests env s w c0 r b) :
    Tests env s w c0 ⟨.binary op.binOp l r, span⟩ (op.eval a b) := by
  rcases l with ⟨l, lspan⟩
  rcases r with ⟨r, rspan⟩
  intro f t w1 v w2 hlater hcode hf c hc halike
  -- The two sides.
  obtain ⟨x, t1, w3, hx, hprior1, hcode⟩ := hcode.bind hlater.body hlater.isOpen
    (lowers_lowerExpr lspan l t w1) fun x t w hx => (lowers_lowerExpr rspan r t w).bind
      fun y _ _ hle _ hy => (lowers_binaryValues (hx.mono hle) hy).mono fun _ _ _ _ => trivial
  obtain ⟨d1, hkeeps1, hd1, hreads1⟩ :=
    hl f t w1 x w3 hlater hprior1.code (hprior1.embeds f hf) c hc halike
  have hlater1 := hlater.trans hprior1.later
  obtain ⟨y, t2, w4, ⟨hle2, hy⟩, hprior2, hcode⟩ := hcode.bind hlater1.body hlater1.isOpen
    ((lowers_lowerExpr rspan r t1 w3).mono fun _ _ hle hy => And.intro hle hy) fun y t w hy =>
      (lowers_binaryValues (hx.mono hy.1) hy.2).mono fun _ _ _ _ => trivial
  obtain ⟨d2, hkeeps2, hd2, hreads2⟩ :=
    hr f t1 w3 y w4 hlater1 hprior2.code (hprior2.embeds f hf) d1 hd1
      (halike.trans (alike_of_keeps hkeeps1) hlater.nextReg_le)
  have hlater2 := hprior2.later
  -- The two tests.
  have hcode := code_logical op hcode
  obtain ⟨p, t3, w5, ⟨hle3, hp⟩, hprior3, hcode⟩ := hcode.bind hlater2.body hlater2.isOpen
    ((lowers_toBool span (hx.mono hle2)).mono fun _ _ hle hp => And.intro hle hp) fun p t w hp =>
      (lowers_toBool span (hy.mono hp.1)).bind fun q _ _ hle _ hq =>
        (Lowers.lift (emits_binary (hp.2.mono hle) hq op.admits)).mono fun _ _ _ _ => trivial
  obtain ⟨d3, hkeeps3, hd3, hread3⟩ :=
    hreads1 span t2 w4 p w5 (hlater2.of_same hprior1.later.same) hprior3.code (hprior3.embeds f hf) d2 hd2
      (alike_of_keeps hkeeps2)
  have hlater3 := hprior3.later
  obtain ⟨q, t4, w6, ⟨hle4, hq⟩, hprior4, hcode⟩ := hcode.bind hlater3.body hlater3.isOpen
    ((lowers_toBool span (hy.mono hle3)).mono fun _ _ hle hq => And.intro hle hq) fun q t w hq =>
      (Lowers.lift (emits_binary (hp.mono hq.1) hq.2 op.admits)).mono fun _ _ _ _ => trivial
  obtain ⟨d4, hkeeps4, hd4, hread4⟩ :=
    hreads2 span t3 w5 q w6 (hlater3.of_same hlater2.same) hprior4.code (hprior4.embeds f hf) d3 hd3
      (alike_of_keeps hkeeps3)
  -- The operation.
  obtain ⟨_, hrunp, _⟩ := hprior3.code
  obtain ⟨_, hrunq, _⟩ := hprior4.code
  have hpty := toBool_ty hrunp
  have hqty := toBool_ty hrunq
  have hopen6 := hprior4.later.isOpen
  have hwithin := hcode.within hprior4.later.body hopen6 (.lift (emits_binary (hp.mono hle4) hq op.admits).left)
  obtain ⟨t', hrun, _, hbuilder⟩ := hcode
  have hbinary := hbuilder ▸ hprior4.later.body.builder_eq ▸ liftM_inv hrun
  rw [← hkeeps4.runs.int?_eq hp.1.within] at hread3
  obtain ⟨d5, hkeeps5, hd5, hread5⟩ := binary_runs (fun _ => True) hbinary hopen6 hf hd4
    (fun _ => trivial) op.onBools?_eq hpty hqty hread3 hread4
  have hnext3 := hprior1.le.nextReg_le
  have hnext4 := le_trans hnext3 hle2.nextReg_le
  have hnext5 := le_trans hnext4 hle3.nextReg_le
  have hnext6 := le_trans hnext5 hle4.nextReg_le
  refine ⟨d5, ?_, hd5, readsAs_bool ((binary_ty op.not_floating hbinary).trans hpty) hwithin hread5⟩
  exact hkeeps1.trans ((hkeeps2.mono hnext3).trans ((hkeeps3.mono hnext4).trans
    ((hkeeps4.mono hnext5).trans (hkeeps5.mono hnext6))))

theorem tests_not {e : Spanned Expr} (he : Tests env s w c0 e a) : Tests env s w c0 ⟨.unary .not e, span⟩ (!a) := by
  rcases e with ⟨e, espan⟩
  intro f t w1 v w2 hlater hcode hf c hc halike
  obtain ⟨x, t1, w3, hx, hprior1, hcode⟩ := hcode.bind hlater.body hlater.isOpen
    (lowers_lowerExpr espan e t w1) fun x t w hx =>
      (lowers_unaryValue hx).mono fun _ _ _ _ => trivial
  obtain ⟨d1, hkeeps1, hd1, hreads1⟩ :=
    he f t w1 x w3 hlater hprior1.code (hprior1.embeds f hf) c hc halike
  have hlater1 := hprior1.later
  obtain ⟨p, t2, w4, ⟨hle2, hp⟩, hprior2, hcode⟩ := Code.bind hcode hlater1.body hlater1.isOpen
    ((lowers_toBool span hx).mono fun _ _ hle hp => And.intro hle hp) fun p t w hp =>
      (Lowers.lift (emits_not hp.2)).mono fun _ _ _ _ => trivial
  obtain ⟨d2, hkeeps2, hd2, hread2⟩ := hreads1 span t1 w3 p w4
    ((Later.refl hlater1.body hlater1.isOpen).of_same hlater1.same) hprior2.code
    (hprior2.embeds f hf) d1 hd1 ⟨rfl, fun _ _ => rfl⟩
  obtain ⟨_, hrunp, _⟩ := hprior2.code
  have hpty := toBool_ty hrunp
  have hopen4 := hprior2.later.isOpen
  have hwithin := hcode.within hprior2.later.body hopen4 (.lift (emits_not hp).left)
  obtain ⟨t', hrun, _, hbuilder⟩ := hcode
  have hnot := hbuilder ▸ hprior2.later.body.builder_eq ▸ liftM_inv hrun
  obtain ⟨d3, hkeeps3, hd3, hread3⟩ :=
    not_runs (fun _ => True) hnot hopen4 hf hd2 (fun _ _ => trivial) hpty hread2
  have hnext3 := hprior1.le.nextReg_le
  refine ⟨d3, ?_, hd3, readsAs_bool ((binary_ty rfl hnot).trans hpty) hwithin hread3⟩
  exact hkeeps1.trans ((hkeeps2.mono hnext3).trans (hkeeps3.mono (le_trans hnext3 hle2.nextReg_le)))

/-- If the atoms of an expression have truth values and no effect, so has the expression. -/
theorem tests_formula (span : Span) (e : Expr) (h : ∀ a ∈ (formula span e).atoms, Tests env s w c0 a (truth a)) :
    Tests env s w c0 ⟨e, span⟩ ((formula span e).eval truth) := by
  fun_induction formula span e with
  | case1 span inner innerSpan ih =>
    intro f t w1 v w2 hlater hcode
    exact ih h f t w1 v w2 hlater hcode
  | case2 span l lspan r rspan ihl ihr =>
    exact tests_join .and (ihl fun a ha => h a (mem_append_left _ ha))
      (ihr fun a ha => h a (mem_append_right _ ha))
  | case3 span l lspan r rspan ihl ihr =>
    exact tests_join .or (ihl fun a ha => h a (mem_append_left _ ha))
      (ihr fun a ha => h a (mem_append_right _ ha))
  | case4 span e espan ih => exact tests_not (ih h)
  | case5 span e => exact h _ (mem_singleton_self _)

/-- The test of an expression that has a truth value yields it. -/
theorem Tests.code {a : Spanned Expr} (h : Tests env s w c0 a b) {w1 : Site H}
    (hlater : Later s w t w1) (hcode : Code env (test a) t v last) (hf : last.Embeds f) (hc : c.At w1)
    (halike : Alike w.fn.nextReg c0 c) :
    ∃ d, Undisturbed f w1.fn.nextReg c d ∧ d.At last ∧ d.int? v = some (.ofBool b) := by
  obtain ⟨x, t1, w2, hx, hprior, hcode⟩ := Code.bind hcode hlater.body hlater.isOpen
    (lowers_lowerExpr a.span a.node t w1) fun x t w hx =>
      (lowers_toBool a.span hx).mono fun _ _ _ _ => trivial
  obtain ⟨d, hkeeps, hd, hreads⟩ :=
    h f t w1 x w2 hlater hprior.code (hprior.embeds f hf) c hc halike
  have hlater2 := hprior.later
  obtain ⟨e, hkeeps', he, hread⟩ := hreads a.span t1 w2 v last
    ((Later.refl hlater2.body hlater2.isOpen).of_same hlater2.same) hcode hf d hd
    ⟨rfl, fun _ _ => rfl⟩
  exact ⟨e, hkeeps.trans (hkeeps'.mono hprior.le.nextReg_le), he, hread⟩

/-! ### Guards -/

theorem Formula.Asks.mem_atoms {g : Formula α} {asked : List (α × Bool)} {o : α ⊕ Bool}
    (h : g.Asks asked o) {a : α} (ho : o = .inl a) : a ∈ g.atoms := by
  induction h with
  | due b =>
    cases ho
    exact mem_singleton_self _
  | answer => cases ho
  | @not g asked o _ ih =>
    cases o with
    | inl b =>
      cases ho
      exact ih rfl
    | inr => cases ho
  | left op r _ ih => exact mem_append_left _ (ih ho)
  | settled => cases ho
  | right _ _ _ _ ih => exact mem_append_right _ (ih ho)

theorem Formula.eval_map {β : Type} (f : α → β) (truth : β → Bool) (g : Formula α) :
    (g.map f).eval truth = g.eval (truth ∘ f) := by
  induction g with
  | atom a => rfl
  | not g ih => rw [map, eval, eval, ih]
  | join op l r ihl ihr => rw [map, eval, eval, ihl, ihr]

theorem Formula.atoms_map {β : Type} (f : α → β) (g : Formula α) : (g.map f).atoms = g.atoms.map f := by
  induction g with
  | atom a => rfl
  | not g ih => exact ih
  | join op l r ihl ihr => rw [map, atoms, atoms, ihl, ihr, map_append]

/-- An atom answers its truth value and has no effect. -/
structure AnswersTruth (f : Function) (n : Nat) (truth : Spanned Expr → Bool)
    (x : Spanned Expr × Piece H) (c : Point P) (b : Bool) (d : Point P) : Prop where
  eq_truth : b = truth x.1
  keeps : Undisturbed f n c d
  stop : d.At x.2.stop
  read : d.int? x.2.value = some (.ofBool b)

theorem Visits.keeps {asked : List ((Spanned Expr × Piece H) × Bool)}
    (h : Visits f n (AnswersTruth f n truth) c asked d) :
    Undisturbed f n c d ∧ ∀ p ∈ asked, p.2 = (truth ∘ Prod.fst) p.1 := by
  induction h with
  | done h => exact ⟨h.weaken fun _ _ => trivial, forall_mem_nil _⟩
  | visit h _ hanswer _ ih =>
    refine ⟨(h.weaken fun _ _ => trivial).trans (hanswer.keeps.trans ih.1), ?_⟩
    exact forall_mem_cons.mpr ⟨hanswer.eq_truth, ih.2⟩

/-- As a guard, a formula of atoms that have truth values and no effect yields its truth value. -/
theorem GuardCode.runs_truth {g : Formula (Spanned Expr × Piece H)} {g0 : Formula (Spanned Expr)}
    (h : GuardCode env s w g0 v last g) (htests : ∀ a ∈ g0.atoms, Tests env s w c0 a (truth a))
    (hc0 : c0.At w) (hf : last.Embeds f) :
    ∃ d, Undisturbed f w.fn.nextReg c0 d ∧ d.At last ∧ d.int? v = some (.ofBool (g0.eval truth)) := by
  obtain ⟨asked, o, d, hasks, hvisits, ho⟩ := h.runs P f
    (AnswersTruth f w.fn.nextReg truth) hf (fun _ _ _ _ h => ⟨h.stop, h.read⟩) c0 hc0
  obtain ⟨hkeeps, htruth⟩ := hvisits.keeps
  cases o with
  | inl x =>
    -- The atom that is due has a truth value, so it answers.
    have hx := hasks.mem_atoms rfl
    have hx0 : x.1 ∈ g0.atoms := by
      rw [← h.atoms_eq, Formula.atoms_map]
      exact mem_map_of_mem hx
    obtain ⟨t, hlater, hcode⟩ := h.isCode x hx
    obtain ⟨e, hkeeps', he, hread⟩ := (htests x.1 hx0).code hlater hcode (h.embeds f hf x hx) ho.1
      (alike_of_keeps hkeeps)
    exact absurd ⟨rfl, hkeeps'.mono hlater.nextReg_le, he, hread⟩ (ho.2 (truth x.1) e)
  | inr b =>
    have hb := hasks.eq_eval htruth rfl
    rw [← Formula.eval_map, h.atoms_eq] at hb
    exact ⟨d, hkeeps, ho.1, hb ▸ ho.2⟩

/-- A run through a part of the code, up to where it ends for the first time. -/
structure Piece.Runs (f : Function) (p : Piece H) (c : Point P) (b : Bool) (d : Point P) : Prop where
  path : Relation.ReflTransGen (fun c d => f.Step c d ∧ ¬ c.At p.stop) c d
  stop : d.At p.stop
  read : d.int? p.value = some (.ofBool b)

/-- What the code of a guard does. It ends at a site, and parts of it are the code of the atoms. -/
structure GuardLowered (env : Env) (s : State) (w : Site H) (e : Spanned Expr) (v : Value)
    (s' : State) (last : Site H) (g : Formula (Spanned Expr × Piece H)) : Prop where
  builder_eq : s'.builder = last.builder
  le : w ≤ last
  ty_eq : v.ty = .i1
  /-- Phis come first in their blocks and name each predecessor once, also after more code. -/
  merging : ∀ later : Site H, Grows .any last later → later.fn.Merging
  atoms_eq : g.map Prod.fst = formula e.span e.node
  isCode : ∀ x ∈ g.atoms, x.2.IsCode (test x.1) env s w
  /-- A run asks the atoms that evaluation asks, in the same order, and ends with the outcome. -/
  evaluates : ∀ (P : Platform) (f : Function) (c : Point P), last.Embeds f → c.At w →
    Evaluates f w.fn.nextReg (fun x => x.2.Runs f) g c v last
  /-- If the atoms have truth values and no effect, the code as a guard and the code as an expression
  yield the same truth value. -/
  agrees : ∀ (P : Platform) (c : Point P) (truth : Spanned Expr → Bool), c.At w →
    (∀ a ∈ (formula e.span e.node).atoms, Tests env s w c a (truth a)) →
    ∃ b, b = (formula e.span e.node).eval truth ∧
      (∀ f, last.Embeds f → ∃ d, Undisturbed f w.fn.nextReg c d ∧ d.At last ∧ d.int? v = some (.ofBool b)) ∧
      ∀ (u : Value) (eager : Site H) (f : Function), Code env (test e) s u eager →
        eager.Embeds f → ∃ d, Undisturbed f w.fn.nextReg c d ∧ d.At eager ∧ d.int? u = some (.ofBool b)

/-- The code of a guard evaluates its atoms from left to right until the outcome is known, and ends
with the outcome where code is added next. In a finished module, too, phis come first and name each
predecessor once. -/
theorem guard_evaluates (env : Env) :
    (∀ {H : Prop} {s s' : State} {w : Site H} {e : Spanned Expr} {v : Value}, Body s w → w.Open →
      guard e env s = .ok v s' → ∃ last g, GuardLowered env s w e v s' last g) ∧
    ∀ (file : File) (moduleName : String), ∀ f ∈ (run env file moduleName).module.functions,
      f.isDeclaration = false → f.Merging := by
  refine ⟨?_, ?_⟩
  · rintro H s s' w ⟨e, span⟩ v hbody hopen hrun
    have hlowers : Lowers env (lowerGuard span e) s w _ := lowers_guardCode span e s w
    have hlowers := hlowers.run hopen hbody
    change lowerGuard span e env s = _ at hrun
    rw [hrun] at hlowers
    obtain ⟨last, hle, _, _, hbuilder, _, hty, g, hg⟩ := hlowers
    refine ⟨last, g, hbuilder, hle, hty, fun later _ => later.merging, hg.atoms_eq, hg.isCode, ?_, ?_⟩
    · intro P f c hf hc
      exact hg.runs P f _ hf (fun _ _ _ _ h => ⟨h.stop, h.read⟩) c hc
    · intro P c truth hc htests
      refine ⟨_, rfl, fun f hf => hg.runs_truth htests hc hf, fun u eager f hcode hf => ?_⟩
      exact (tests_formula span e htests).code (.refl hbody hopen) hcode hf hc ⟨rfl, fun _ _ => rfl⟩
  · intro file moduleName f hf hdefined
    exact (run_wellFormed (H := False) (N := False) env file moduleName False.elim False.elim
      False.elim hf hdefined).merging

theorem tests_bool : Tests env s w c ⟨.literal (.bool b), span⟩ b := by
  rintro f t w1 v w2 hlater ⟨t', hrun, _, hbuilder⟩ _ d hd _
  cases hrun
  obtain ⟨_, hblock⟩ := eq_of_builder_eq (hbuilder.symm.trans hlater.body.builder_eq)
  refine ⟨d, .refl d, ⟨hblock ▸ hd.block_eq, hblock ▸ hd.done_eq⟩, ?_⟩
  refine readsAs_bool rfl nofun ?_
  cases b <;> rfl

def bareState : State where
  builder := { module := { name := "main", functions := [{ name := "main", params := [], ret := .void }] } }

def bareSig : FnSig := ⟨"main", [], .void⟩

theorem bareState_declares :
    bareState.builder.Declares bareSig.symbol 0 { name := "main", params := [], ret := .void } :=
  ⟨rfl, rfl, rfl, rfl⟩

theorem bareState_tables : Tables False bareState where
  sound := False.elim
  registered := nofun
  functions := nofun
  methods := nofun
  fresh := False.elim
  outermost := rfl

def bareSite : Site False := bareState_declares.site #[] bareState_tables.sound

def bareStart : State := ({ bareState with builder := bareSite.builder }).enter .void

theorem bareStart_body : Body bareStart bareSite :=
  .enter bareState_tables bareState_declares rfl #[]

/-- The guard `true && !(false || true)`. -/
def literalGuard : Spanned Expr :=
  let lit (b : Bool) : Spanned Expr := ⟨.literal (.bool b), {}⟩
  ⟨.binary .and (lit true) ⟨.unary .not ⟨.paren ⟨.binary .or (lit false) (lit true), {}⟩, {}⟩, {}⟩, {}⟩

def Expr.isTrueLiteral : Expr → Bool
  | .literal (.bool b) => b
  | _ => false

theorem guard_evaluates_literals : ∃ v s' last g, guard literalGuard bareEnv bareStart = .ok v s' ∧
    GuardLowered bareEnv bareStart bareSite literalGuard v s' last g ∧
    ∀ (P : Platform) (f : Function) (c : Point P), last.Embeds f → c.At bareSite →
      ∃ d, Undisturbed f 0 c d ∧ d.At last ∧ d.int? v = some (.ofBool false) := by
  have hok : (match guard literalGuard bareEnv bareStart with
      | .ok _ _ => true
      | .error _ _ => false) = true := by decide +kernel
  cases hrun : guard literalGuard bareEnv bareStart with
  | error d s' =>
    rw [hrun] at hok
    cases hok
  | ok v s' =>
    obtain ⟨last, g, h⟩ := (guard_evaluates bareEnv).1 bareStart_body rfl hrun
    refine ⟨v, s', last, g, rfl, h, fun P f c hf hc => ?_⟩
    let truth : Spanned Expr → Bool := fun a => Expr.isTrueLiteral a.node
    have htests : ∀ a ∈ (formula literalGuard.span literalGuard.node).atoms,
        Tests bareEnv bareStart bareSite c a (truth a) := by
      intro a ha
      rcases List.mem_cons.mp ha with rfl | ha
      · exact tests_bool
      rcases List.mem_cons.mp ha with rfl | ha
      · exact tests_bool
      · rw [List.mem_singleton.mp ha]
        exact tests_bool
    obtain ⟨b, hb, hguard, _⟩ := h.agrees P c truth hc htests
    rw [show b = false from hb] at hguard
    exact hguard f hf

end Aero.Lowering
