import Aero.Proofs.Guard

/-!
Short-circuit evaluation. A guard is a formula over atoms, of which evaluation asks one after the
other until the outcome is known. A run of the code of a guard asks the same atoms in the same order,
and ends where code is added next with the outcome at hand.
-/

namespace Aero.Lowering

open IR IR.Build IR.Site List

variable {l u v r : Value} {b : Bool}

/-! ### Formulas -/

/-- What a guard is built of. -/
inductive Formula (α : Type) where
  | atom (a : α)
  | not (g : Formula α)
  | join (op : Connective) (l r : Formula α)

def Connective.settles : Connective → Bool → Bool
  | and, b => !b
  | or, b => b

def Connective.eval : Connective → Bool → Bool → Bool
  | and, a, b => a && b
  | or, a, b => a || b

theorem Connective.settles_iff (op : Connective) (b : Bool) : op.settles b = true ↔ b = op.skipped := by
  cases op <;> cases b <;> decide

theorem Connective.eval_eq (op : Connective) (a b : Bool) : op.eval a b = if op.settles a then a else b := by
  cases op <;> cases a <;> cases b <;> rfl

def formula (span : Span) : Expr → Formula (Spanned Expr)
  | .paren ⟨inner, span⟩ => formula span inner
  | .binary .and ⟨l, lspan⟩ ⟨r, rspan⟩ => .join .and (formula lspan l) (formula rspan r)
  | .binary .or ⟨l, lspan⟩ ⟨r, rspan⟩ => .join .or (formula lspan l) (formula rspan r)
  | .unary .not ⟨e, espan⟩ => .not (formula espan e)
  | e => .atom ⟨e, span⟩

namespace Formula

variable {α β : Type}

def map (f : α → β) : Formula α → Formula β
  | atom a => atom (f a)
  | not g => not (g.map f)
  | join op l r => join op (l.map f) (r.map f)

def atoms : Formula α → List α
  | atom a => [a]
  | not g => g.atoms
  | join _ l r => l.atoms ++ r.atoms

def eval (truth : α → Bool) : Formula α → Bool
  | atom a => truth a
  | not g => !g.eval truth
  | join op l r => op.eval (l.eval truth) (r.eval truth)

/-- Evaluation has asked some atoms in this order, with these answers, and stands at an atom that is to
be asked next or at the outcome. The right side of a connective is asked only if the left side does
not settle the outcome. -/
inductive Asks : Formula α → List (α × Bool) → α ⊕ Bool → Prop where
  | due (a : α) : Asks (atom a) [] (.inl a)
  | answer (a : α) (b : Bool) : Asks (atom a) [(a, b)] (.inr b)
  | not {g : Formula α} {asked : List (α × Bool)} {o : α ⊕ Bool} (h : Asks g asked o) :
      Asks (.not g) asked (o.map id Bool.not)
  | left {l : Formula α} {asked : List (α × Bool)} {a : α} (op : Connective) (r : Formula α)
      (h : Asks l asked (.inl a)) : Asks (join op l r) asked (.inl a)
  | settled {op : Connective} {l : Formula α} {asked : List (α × Bool)} {b : Bool} (r : Formula α)
      (h : Asks l asked (.inr b)) (hb : op.settles b = true) : Asks (join op l r) asked (.inr b)
  | right {op : Connective} {l r : Formula α} {asked more : List (α × Bool)} {b : Bool}
      {o : α ⊕ Bool} (h : Asks l asked (.inr b)) (hb : op.settles b = false) (h' : Asks r more o) :
      Asks (join op l r) (asked ++ more) o

/-- If each atom answers its truth value, the outcome is the truth value of the formula. -/
theorem Asks.eq_eval {g : Formula α} {truth : α → Bool} {asked : List (α × Bool)} {o : α ⊕ Bool}
    (h : g.Asks asked o) (htruth : ∀ p ∈ asked, p.2 = truth p.1) (ho : o = .inr b) : b = g.eval truth := by
  induction h generalizing b with
  | due a => cases ho
  | answer a c =>
    cases ho
    exact htruth _ (mem_singleton_self _)
  | @not g asked o _ ih =>
    cases o with
    | inl a => cases ho
    | inr c =>
      cases ho
      rw [eval, ← ih htruth rfl]
  | left op r _ _ => cases ho
  | settled r _ hb ih =>
    cases ho
    rw [eval, Connective.eval_eq, ← ih htruth rfl, if_pos hb]
  | right _ hb _ ihl ihr =>
    have hl := ihl (fun p hp => htruth p (mem_append_left _ hp)) rfl
    have hr := ihr (fun p hp => htruth p (mem_append_right _ hp)) ho
    rw [eval, Connective.eval_eq, ← hl, ← hr, hb]
    rfl

end Formula

/-! ### The code between atoms -/

variable {H : Prop} {P : Platform}

/-- Instructions that only find out where to go: phis and negations. -/
def IsGlue : Instr → Prop
  | .phi .. => True
  | .binary _ .xor _ _ => True
  | _ => False

theorem Connective.exec?_terminator (op : Connective) (rhs past : BlockId)
    {c : Point P} (hl : c.int? l = some (.ofBool b)) :
    (op.terminator l rhs past).exec? c = some (.running (c.jump (if op.settles b then past else rhs))) := by
  cases op <;> simp only [terminator, Terminator.exec?, hl] <;> cases b <;> rfl

namespace Circuit

variable {op : Connective} {left start right last : Site H} {f : Function} {n : Nat} {c : Point P}

variable (h : Circuit op l left start r right v last) (hf : last.Embeds f)
include h hf

/-- Where both ways meet, the phi yields the truth value of the way that was taken. -/
theorem merges {source : BlockId} (hn : n ≤ right.fn.nextReg) {d : Point P} (hd : d.block = last.block.id)
    (hdone : d.done = 0) (hbefore : d.before = some source)
    (hread : source = left.block.id ∧ b = op.skipped ∨ source = right.block.id ∧ d.int? r = some (.ofBool b)) :
    ∃ e, f.Keeps IsGlue n d e ∧ e.At last ∧ e.int? v = some (.ofBool b) := by
  obtain ⟨dst, hdst, rfl, hinstrs⟩ := h.merge
  have hphi : last.block.instrs[d.done]? = some (.phi dst .i1
      [(.ofBool op.skipped, left.block.id), (r, right.block.id)]) := by
    rw [hinstrs, hdone]
    rfl
  have hexec : (Instr.phi dst .i1 [(.ofBool op.skipped, left.block.id), (r, right.block.id)]).exec? d
      = some (d.set dst (.int (.ofBool b))).next := by
    rcases hread with ⟨rfl, rfl⟩ | ⟨rfl, hr⟩
    · have hskipped : d.read? (.ofBool op.skipped) = some (.int (.ofBool op.skipped)) := by
        cases op <;> rfl
      simp [Instr.exec?, hbefore, hskipped]
    · simp [Instr.exec?, hbefore, h.ends_ne, Point.int?_eq_some.mp hr]
  refine ⟨_, ⟨⟨.single (Function.stepBy_instr hf hd.symm hphi trivial hexec), ?_⟩, rfl⟩, ⟨hd, ?_⟩,
    Point.int?_eq_some.mpr (if_pos rfl)⟩
  · intro reg hreg
    exact if_neg (ne_of_lt (lt_of_lt_of_le (lt_of_lt_of_le hreg hn) hdst))
  · change d.done + 1 = _
    rw [hdone, hinstrs]
    rfl

theorem skips (hn : n ≤ right.fn.nextReg) (hc : c.At left) (hl : c.int? l = some (.ofBool b))
    (hb : op.settles b = true) : ∃ d, f.Keeps IsGlue n c d ∧ d.At last ∧ d.int? v = some (.ofBool b) := by
  have hexec := op.exec?_terminator start.block.id last.block.id hl
  rw [if_pos hb] at hexec
  have hjump := Function.Runs.jump IsGlue n (hf.closed h.left_closed) hc.block_eq hc.done_eq hexec
  obtain ⟨d, hsilent, hd⟩ := h.merges hf hn (d := c.jump last.block.id) rfl rfl
    (congrArg some hc.block_eq) (.inl ⟨rfl, (op.settles_iff b).mp hb⟩)
  exact ⟨d, .trans ⟨hjump, rfl⟩ hsilent, hd⟩

theorem enters (hc : c.At left)
    (hl : c.int? l = some (.ofBool b)) (hb : op.settles b = false) : ∃ d, f.Keeps IsGlue n c d ∧ d.At start := by
  have hexec := op.exec?_terminator start.block.id last.block.id hl
  rw [hb] at hexec
  have hjump := Function.Runs.jump IsGlue n (hf.closed h.left_closed) hc.block_eq hc.done_eq hexec
  refine ⟨_, ⟨hjump, rfl⟩, rfl, ?_⟩
  rw [h.isEmpty]
  rfl

theorem leaves (hn : n ≤ right.fn.nextReg) (hc : c.At right) (hr : c.int? r = some (.ofBool b)) :
    ∃ d, f.Keeps IsGlue n c d ∧ d.At last ∧ d.int? v = some (.ofBool b) := by
  have hjump := Function.Runs.jump IsGlue n (hf.closed h.right_closed) hc.block_eq hc.done_eq rfl
  obtain ⟨d, hsilent, hd⟩ := h.merges hf hn (d := c.jump last.block.id) rfl rfl
    (congrArg some hc.block_eq) (.inr ⟨rfl, hr⟩)
  exact ⟨d, .trans ⟨hjump, rfl⟩ hsilent, hd⟩

end Circuit

/-! ### Code of atoms -/

variable {env : Env} {s t : State} {w w' : Site H}

/-- Two states of a body: the second comes later, but in the same scopes. -/
structure Later (s : State) (w : Site H) (t : State) (w' : Site H) : Prop where
  same : s.Same t
  body : Body t w'
  isOpen : w'.Open
  frame : w.builder.Frame w'.builder
  nextReg_le : w.fn.nextReg ≤ w'.fn.nextReg

/-- The code of an action ends at a site and yields a value. -/
def Code (env : Env) (act : Lower Value) (s : State) (v : Value) (w : Site H) : Prop :=
  ∃ s', act env s = .ok v s' ∧ s.Same s' ∧ s'.builder = w.builder

/-- A part of the code of a body, with its value. -/
structure Piece (H : Prop) where
  start : Site H
  stop : Site H
  value : Value

def Piece.IsCode (p : Piece H) (act : Lower Value) (env : Env) (s : State) (w : Site H) : Prop :=
  ∃ t, Later s w t p.start ∧ Code env act t p.value p.stop

def test (a : Spanned Expr) : Lower Value := do
  let v ← lowerExpr a.span a.node
  toBool v a.span

theorem Lowers.with_code {act : Lower Value} {Q : Value → Site H → Prop} (h : Lowers env act s w Q) :
    Lowers env act s w fun v w' => Q v w' ∧ Code env act s v w' := by
  refine ⟨fun hopen hbody => ?_⟩
  have hrun := h.run hopen hbody
  cases hres : act env s with
  | error d s' =>
    rw [hres] at hrun
    exact hrun
  | ok v s' =>
    rw [hres] at hrun
    obtain ⟨w', hle, hopen', hsame, hbuilder, hQ⟩ := hrun
    exact ⟨w', hle, hopen', hsame, hbuilder, hQ, s', hres, hsame, hbuilder⟩

theorem liftM_inv {α : Type} {act : Build α} {a : α} (h : (liftM act : Lower α) env s = .ok a t) :
    act s.builder = (a, t.builder) := by
  cases h
  rfl

theorem toBool_cases (v : Value) (span : Span) :
    toBool v span = pure v ∧ v.ty = .i1 ∨ toBool v span = liftM (isNonzero v) ∨
      toBool v span = liftM (isNonzeroFloat v) ∨ toBool v span = fail .notBoolean span := by
  unfold toBool
  split
  · next hty => exact .inl ⟨rfl, hty⟩
  · exact .inr (.inl rfl)
  · exact .inr (.inl rfl)
  · exact .inr (.inr (.inl rfl))
  · exact .inr (.inr (.inl rfl))
  · exact .inr (.inr (.inr rfl))

theorem toBool_ty {span : Span} (h : toBool v span env s = .ok u t) : u.ty = .i1 := by
  rcases toBool_cases v span with ⟨heq, hty⟩ | heq | heq | heq <;> rw [heq] at h
  · cases h
    exact hty
  · exact icmp_ty (liftM_inv h)
  · exact fcmp_ty (liftM_inv h)
  · cases h

/-! ### Runs of guards -/

section Visits

variable {α : Type}

/-- A run goes through the code of some atoms, one after the other, and silently between them. The
atoms answer in some way. -/
inductive Visits (f : Function) (n : Nat) (answers : α × Piece H → Point P → Bool → Point P → Prop) :
    Point P → List ((α × Piece H) × Bool) → Point P → Prop where
  | done {c d : Point P} (h : f.Keeps IsGlue n c d) : Visits f n answers c [] d
  | visit {c d d' e : Point P} {x : α × Piece H} {b : Bool} {asked : List ((α × Piece H) × Bool)}
      (h : f.Keeps IsGlue n c d) (hstart : d.At x.2.start) (hanswer : answers x d b d')
      (hrest : Visits f n answers d' asked e) : Visits f n answers c ((x, b) :: asked) e

/-- A run of the code of a guard asks the atoms that evaluation asks. It gets stuck in an atom that
does not answer, or it reaches a site with the outcome at hand. -/
def Evaluates (f : Function) (n : Nat) (answers : α × Piece H → Point P → Bool → Point P → Prop)
    (g : Formula (α × Piece H)) (c : Point P) (v : Value) (last : Site H) : Prop :=
  ∃ asked o d, g.Asks asked o ∧ Visits f n answers c asked d ∧
    match o with
    | .inl x => d.At x.2.start ∧ ∀ b e, ¬ answers x d b e
    | .inr b => d.At last ∧ d.int? v = some (.ofBool b)

variable {f : Function} {m n : Nat} {answers : α × Piece H → Point P → Bool → Point P → Prop}
  {c d e : Point P} {asked more : List ((α × Piece H) × Bool)}

theorem Visits.mono (h : Visits f n answers c asked d) (hle : m ≤ n) : Visits f m answers c asked d := by
  induction h with
  | done h => exact .done (h.mono hle)
  | visit h hstart hanswer _ ih => exact .visit (h.mono hle) hstart hanswer ih

theorem Visits.after (h : f.Keeps IsGlue n c d) (h' : Visits f n answers d asked e) : Visits f n answers c asked e := by
  cases h' with
  | done h' => exact .done (h.trans h')
  | visit h' hstart hanswer hrest => exact .visit (h.trans h') hstart hanswer hrest

theorem Visits.trans (h : Visits f n answers c asked d) (h' : Visits f n answers d more e) :
    Visits f n answers c (asked ++ more) e := by
  induction h with
  | done h => exact h'.after h
  | visit h hstart hanswer _ ih => exact .visit h hstart hanswer (ih h')

theorem Visits.silent (h : Visits f n answers c asked d) (h' : f.Keeps IsGlue n d e) :
    Visits f n answers c asked e := by
  have := h.trans (.done h')
  rwa [append_nil] at this

end Visits

/-- What is known of the code of a guard: the parts that are the code of its atoms, and how it
runs. -/
structure GuardCode (env : Env) (s : State) (w : Site H) (g0 : Formula (Spanned Expr)) (v : Value)
    (last : Site H) (g : Formula (Spanned Expr × Piece H)) : Prop where
  atoms_eq : g.map Prod.fst = g0
  isCode : ∀ x ∈ g.atoms, x.2.IsCode (test x.1) env s w
  embeds : ∀ f : Function, last.Embeds f → ∀ x ∈ g.atoms, x.2.stop.Embeds f
  runs : ∀ (P : Platform) (f : Function)
    (answers : Spanned Expr × Piece H → Point P → Bool → Point P → Prop), last.Embeds f →
    (∀ x c b d, answers x c b d → d.At x.2.stop ∧ d.int? x.2.value = some (.ofBool b)) →
    ∀ c : Point P, c.At w → Evaluates f w.fn.nextReg answers g c v last

namespace GuardCode

variable {g : Formula (Spanned Expr × Piece H)} {g0 : Formula (Spanned Expr)} {last : Site H}

theorem later {s0 : State} {w0 : Site H} (h : GuardCode env s w g0 v last g)
    (hlater : Later s0 w0 s w) : ∀ x ∈ g.atoms, x.2.IsCode (test x.1) env s0 w0 := by
  intro x hx
  obtain ⟨t, ht, hcode⟩ := h.isCode x hx
  exact ⟨t, ⟨hlater.same.trans ht.same, ht.body, ht.isOpen, hlater.frame.trans ht.frame,
    le_trans hlater.nextReg_le ht.nextReg_le⟩, hcode⟩

theorem atom {a : Spanned Expr} (hbody : Body s w) (hopen : w.Open) (hcode : Code env (test a) s v last) :
    GuardCode env s w (.atom a) v last (.atom (a, ⟨w, last, v⟩)) where
  atoms_eq := rfl
  isCode := by
    intro x hx
    rw [mem_singleton.mp hx]
    exact ⟨s, ⟨.refl s, hbody, hopen, .refl _, le_refl _⟩, hcode⟩
  embeds := by
    intro f hf x hx
    rw [mem_singleton.mp hx]
    exact hf
  runs := by
    intro P f answers _ hanswers c hc
    by_cases hsome : ∃ b d, answers (a, ⟨w, last, v⟩) c b d
    · obtain ⟨b, d, hanswer⟩ := hsome
      exact ⟨_, _, d, .answer _ b, .visit (.refl c) hc hanswer (.done (.refl d)), hanswers _ _ _ _ hanswer⟩
    · refine ⟨_, _, c, .due _, .done (.refl c), hc, fun b d hanswer => hsome ⟨b, d, hanswer⟩⟩

theorem not (h : GuardCode env s w g0 v last g) (hle : w ≤ last) (hopen : last.Open)
    (hty : v.ty = .i1) (hrun : Build.not v last.builder = (u, w'.builder))
    (hembeds : ∀ f, w'.Embeds f → last.Embeds f) : GuardCode env s w (.not g0) u w' (.not g) where
  atoms_eq := congrArg Formula.not h.atoms_eq
  isCode := h.isCode
  embeds := fun f hf => h.embeds f (hembeds f hf)
  runs := by
    intro P f answers hf hanswers c hc
    obtain ⟨asked, o, d, hasks, hvisits, ho⟩ := h.runs P f answers (hembeds f hf) hanswers c hc
    cases o with
    | inl x => exact ⟨asked, _, d, .not hasks, hvisits, ho⟩
    | inr b =>
      obtain ⟨hd, hread⟩ := ho
      obtain ⟨e, hkeeps, he, hneg⟩ := not_runs IsGlue hrun hopen hf hd (fun _ _ => trivial) hty hread
      refine ⟨asked, _, e, .not hasks, ?_, he, hneg⟩
      exact hvisits.silent (hkeeps.mono hle.nextReg_le)

theorem join {left start right : Site H} {s' : State} {op : Connective}
    {gl gr : Formula (Spanned Expr × Piece H)} {l0 r0 : Formula (Spanned Expr)}
    (hl : GuardCode env s w l0 l left gl) (hr : GuardCode env s' start r0 r right gr)
    (hlater : Later s w s' start) (h : Circuit op l left start r right v last) :
    GuardCode env s w (.join op l0 r0) v last (.join op gl gr) where
  atoms_eq := by rw [Formula.map, hl.atoms_eq, hr.atoms_eq]
  isCode := fun x hx => (mem_append.mp hx).elim (hl.isCode x) (hr.later hlater x)
  embeds := fun f hf x hx => (mem_append.mp hx).elim (hl.embeds f (hf.of_le h.left_le) x)
    (hr.embeds f (h.right_embeds f hf) x)
  runs := by
    intro P f answers hf hanswers c hc
    have hn : w.fn.nextReg ≤ right.fn.nextReg :=
      le_trans hlater.nextReg_le h.right_le.nextReg_le
    obtain ⟨asked, o, d, hasks, hvisits, ho⟩ :=
      hl.runs P f answers (hf.of_le h.left_le) hanswers c hc
    cases o with
    | inl x => exact ⟨asked, _, d, .left op gr hasks, hvisits, ho⟩
    | inr b =>
      obtain ⟨hd, hread⟩ := ho
      cases hb : op.settles b with
      | true =>
        obtain ⟨e, hsilent, he⟩ := h.skips hf hn hd hread hb
        exact ⟨asked, _, e, .settled gr hasks hb, hvisits.silent hsilent, he⟩
      | false =>
        obtain ⟨e, hsilent, he⟩ := h.enters hf hd hread hb
        obtain ⟨more, o, d', hasks', hvisits', ho⟩ :=
          hr.runs P f answers (h.right_embeds f hf) hanswers e he
        have hall := (hvisits.silent hsilent).trans (hvisits'.mono hlater.nextReg_le)
        cases o with
        | inl x => exact ⟨asked ++ more, _, d', .right hasks hb hasks', hall, ho⟩
        | inr b' =>
          obtain ⟨e', hsilent', he'⟩ := h.leaves hf hn ho.1 ho.2
          exact ⟨asked ++ more, _, e', .right hasks hb hasks', hall.silent hsilent', he'⟩

end GuardCode

theorem lowers_guardCode (span : Span) (e : Expr) (s : State) (w : Site H) :
    Lowers env (lowerGuard span e) s w fun v w' => w'.Val v .i1 ∧ v.ty = .i1 ∧
      ∃ g, GuardCode env s w (formula span e) v w' g := by
  have hcircuit : ∀ op {lhs rhs : Lower Value} {l0 r0 : Formula (Spanned Expr)} (s : State) (w : Site H),
      (∀ s w, Lowers env lhs s w fun v (w' : Site H) => w'.Val v .i1 ∧ v.ty = .i1 ∧ ∃ g, GuardCode env s w l0 v w' g) →
      (∀ s w, Lowers env rhs s w fun v (w' : Site H) => w'.Val v .i1 ∧ v.ty = .i1 ∧ ∃ g, GuardCode env s w r0 v w' g) →
      Lowers env (shortCircuit op lhs rhs) s w fun v w' => w'.Val v .i1 ∧ v.ty = .i1 ∧
        ∃ g, GuardCode env s w (.join op l0 r0) v w' g := by
    intro op lhs rhs l0 r0 s w hlhs hrhs
    refine (lowers_shortCircuit op
      (R := fun s' w' v w'' => Later s w s' w' ∧ ∃ g, GuardCode env s' w' r0 v w'' g) (hlhs s w)
      ?_).mono ?_
    · intro s' w' hsame hgrows hbody hopen
      refine (hrhs s' w').mono fun v w'' _ h => ⟨h.1, ?_, h.2.2⟩
      exact ⟨hsame, hbody, hopen, hgrows.frame, hgrows.nextReg_le⟩
    · rintro v w' _ ⟨hv, l, left, s', start, r, right, ⟨_, gl, hl⟩, ⟨hlater, gr, hr⟩, hcirc⟩
      obtain ⟨_, _, hval, _⟩ := hcirc.merge
      exact ⟨hv, hval ▸ rfl, _, hl.join hr hlater hcirc⟩
  fun_induction lowerGuard span e generalizing s w with
  | case1 span inner _ ih => exact ih s w
  | case2 span l _ r _ ihl ihr => exact hcircuit .and s w ihl ihr
  | case3 span l _ r _ ihl ihr => exact hcircuit .or s w ihl ihr
  | case4 span e _ ih =>
    refine (ih s w).bind ?_
    rintro b s1 w1 hle1 _ ⟨hb, hty, g, hg⟩
    refine ⟨fun hopen hbody => Lowers.run ?_ hopen hbody⟩
    refine (Lowers.lift (emits_not hb)).with_code.mono ?_
    rintro u w' hle ⟨hu, s', hrun, _, hbuilder⟩
    have hnot := hbuilder ▸ hbody.builder_eq ▸ liftM_inv hrun
    exact ⟨hu, (binary_ty rfl hnot).trans hty, _, hg.not hle1 hopen hty hnot fun _ hf => hf.of_le hle⟩
  | case5 span e hparen hand hor hnot =>
    have hatom : formula span e = .atom ⟨e, span⟩ := by
      rw [formula.eq_def]
      split
      · exact absurd rfl (hparen _ _)
      · exact absurd rfl (hand _ _ _ _)
      · exact absurd rfl (hor _ _ _ _)
      · exact absurd rfl (hnot _ _)
      · rfl
    refine ⟨fun hopen hbody => Lowers.run ?_ hopen hbody⟩
    refine ((lowers_lowerExpr span e s w).bind (R := fun v w' => w'.Val v .i1) ?_).with_code.mono ?_
    · exact fun v _ _ _ _ hv => lowers_toBool span hv
    · rintro v w' _ ⟨hv, s', hrun, hsame, hbuilder⟩
      have hcode : Code env (test ⟨e, span⟩) s v w' := ⟨s', hrun, hsame, hbuilder⟩
      refine ⟨hv, ?_, _, hatom ▸ GuardCode.atom hbody hopen hcode⟩
      rw [bind_run] at hrun
      split at hrun
      · exact toBool_ty hrun
      · cases hrun

theorem lowers_guard {e : Spanned Expr} : Lowers env (guard e) s w fun v w' => w'.Val v .i1 :=
  (lowers_guardCode e.span e.node s w).mono fun _ _ _ h => h.1

end Aero.Lowering
