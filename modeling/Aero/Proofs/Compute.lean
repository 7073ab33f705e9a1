import Aero.Proofs.Arithmetic
import Aero.Proofs.ShortCircuit
import Aero.Proofs.Store

/-!
Expressions on numbers. The code of an expression carries a run from its start to its end, changes
variables as evaluation does and leaves the value of the expression in an operand. In a guard, a run
goes through the right side of a connective only where evaluation comes to it.
-/

namespace Aero.Lowering

open IR IR.Build IR.Site Evaluation Option

variable [Library] {env : Env} {s : State} {w w1 w' : Site False} {pre mid post : Point cells → Prop}
  {ptr v u : Value} {V : View} {α β : Type} {name : String} {word : α → Word} {act : Compute α} {span : Span}
  {ty : Ty}

/-- From where one condition holds, the code between two sites leads to where another holds. -/
def Carries (w w' : Site False) (pre post : Point cells → Prop) : Prop :=
  ∀ f : Function, w'.Embeds f → ∀ c : Point cells, c.At w → pre c →
    ∃ d, f.Runs (fun _ => True) w.fn.nextReg c d ∧ d.At w' ∧ post d

theorem Carries.trans (h : Carries w w1 pre mid) (h' : Carries w1 w' mid post) (hle : w ≤ w1)
    (hle' : w1 ≤ w') : Carries w w' pre post := by
  intro f hf c hc hpre
  obtain ⟨d, hruns, hd, hmid⟩ := h f (hf.of_le hle') c hc hpre
  obtain ⟨e, hruns', he, hpost⟩ := h' f hf d hd hmid
  exact ⟨e, hruns.trans (hruns'.mono hle.nextReg_le), he, hpost⟩

theorem Yields.carries (h : Yields w w' pre post) (hle : w ≤ w') (V : View) (m : Store) :
    Carries w w' (fun c => V.holds w.fn.nextReg m c ∧ pre c) fun d => V.holds w'.fn.nextReg m d ∧ post d := by
  rintro f hf c hc ⟨hm, hpre⟩
  obtain ⟨d, hkeeps, hd, hpost⟩ := h f hf c hc hpre
  exact ⟨d, hkeeps.runs, hd, V.keeps hm hkeeps hle.nextReg_le, hpost⟩

/-- The code between two sites does what a computation does to variables, and leaves the word of its
result in an operand. -/
def Computes (word : α → Word) (act : Compute α) (V : View) (w : Site False) (v : Value) (w' : Site False) : Prop :=
  ∀ m a m', act m = some (a, m') → Carries w w' (V.holds w.fn.nextReg m) fun d =>
    V.holds w'.fn.nextReg m' d ∧ Holds w'.fn.nextReg d v (word a)

theorem Computes.of_none (h : ∀ m, act m = none) : Computes word act V w v w' := by
  intro m a m' hact
  rw [h m] at hact
  cases hact

/-- The result of a computation is worked on. -/
theorem Computes.bind {word' : β → Word} {act' : Compute β} (h : Computes word act V w v w1)
    (hle : w ≤ w1) (hle' : w1 ≤ w') (hstep : ∀ m b m', act' m = some (b, m') → ∃ a, act m = some (a, m') ∧
      Yields w1 w' (Holds w1.fn.nextReg · v (word a)) (Holds w'.fn.nextReg · u (word' b))) :
    Computes word' act' V w u w' := by
  intro m b m' hact
  obtain ⟨a, ha, hyields⟩ := hstep m b m' hact
  exact (h m a m' ha).trans (hyields.carries hle' V m') hle hle'

/-! ### Variables -/

omit [Library] in
theorem lowers_lookup_slot : Lowers env (lookup name span) s w fun slot w' => w' = w ∧ SlotOk w' slot ∧
      s.scopes.outermost = [] ∧ s.scopes.resolve? name = some slot := by
  refine .state_bind fun hbody => ?_
  split
  · next slot hslot => exact .pure ⟨rfl, hbody.slotOk hslot, hbody.tables.outermost, hslot⟩
  · exact .fail

theorem lowers_lookup_finds :
    Lowers env (lookup name span) s w fun slot w' => w' = w ∧ SlotOk w' slot ∧ ∀ n m c, Matches n s.scopes.inner m c →
        ∃ place, m.place? name = some place ∧ SlotMatches n m.cells c slot place := by
  refine lowers_lookup_slot.mono ?_
  rintro slot w' _ ⟨hw, hslot, houter, hfound⟩
  exact ⟨hw, hslot, fun n m c hm => hm.lookup houter hfound⟩

theorem computes_load (hfinds : V.Finds name ptr ty) (hptr : w.Val ptr .ptr) :
    Lowers env (liftM (load ty ptr)) s w fun v w' => w'.Has v ∧
      Computes id (fun m => do return (← m.cells[← m.place? name]?, m)) V w v w' := by
  refine (Lowers.lift_run (emits_load hptr)).mono ?_
  rintro v w' hle ⟨⟨hv, _⟩, hopen, hrun⟩
  refine ⟨hv, fun m x m' hread f hf c hc hm => ?_⟩
  simp only [bind_eq_bind, bind_eq_some_iff] at hread
  obtain ⟨place, hplace, _, hx, heq⟩ := hread
  cases heq
  have hcell := hfinds hm hplace
  obtain ⟨y, hy, rfl, hpos, hlimit⟩ := hcell.cell
  rw [hx] at hy
  cases hy
  obtain ⟨d, hkeeps, hd, hresult⟩ :=
    load_holds hrun hopen hf hc hcell.read (V.memory hm hplace hx) hpos hlimit
  exact ⟨d, hkeeps.runs, hd, V.keeps hm hkeeps hle.nextReg_le, hresult⟩

theorem carries_store (hfinds : V.Finds name ptr ty) (haddr : w.Addr ptr ty) (hv : w.Has v) :
    Lowers env (liftM (store v ptr)) s w fun _ w' => ∀ m place x y, m.place? name = some place →
      m.cells[place]? = some y → x.width = y.width →
      Carries w w' (fun c => V.holds w.fn.nextReg m c ∧ Holds w.fn.nextReg c v x)
        fun d => V.holds w'.fn.nextReg (m.set place x) d ∧ Holds w'.fn.nextReg d v x := by
  refine (Lowers.lift_run (emits_store (hv.typed ty) haddr)).mono ?_
  rintro _ w' hle ⟨_, hopen, hrun⟩ m place x y hplace hy hwidth f hf c hc ⟨hm, hx⟩
  obtain ⟨hlt, _⟩ := List.getElem?_eq_some_iff.mp (V.memory hm hplace hy)
  obtain ⟨d, hruns, hd, hmemory⟩ := store_runs hrun hopen hf hc (hfinds hm hplace).read hx.read hlt
  exact ⟨d, hruns, hd, V.set hm hplace hy hwidth hruns.regs_eq hmemory hle.nextReg_le, hx.keep hruns hle.nextReg_le⟩

theorem computes_lowerVar (name : String) (span : Span) (hsees : V.Sees s.scopes) :
    Lowers env (lowerVar name span) s w fun v w' => w'.Has v ∧ Computes id (expr (.var name)) V w v w' := by
  refine lowers_lookup_slot.bind ?_
  rintro slot s1 _ _ hsame ⟨rfl, hslot, houter, hfound⟩
  have hcell : V.Finds name slot.ptr slot.ty := fun hm hplace => (hsees houter hfound hm hplace).toCellMatches
  split
  · exact .fail
  · next elem len harray =>
    refine (lowers_firstElement hslot).mono fun v w' _ hv => ⟨hv, ?_⟩
    intro m x m' hx f _ c _ hm
    simp only [expr, bind_eq_bind, bind_eq_some_iff] at hx
    obtain ⟨place, hplace, _⟩ := hx
    obtain ⟨_, _, hty, _⟩ := (hcell hm hplace).cell
    rw [harray] at hty
    cases hty
  · rw [expr]
    exact computes_load hcell hslot.addr.val

omit [Library] in
/-- The address of a variable that can be assigned to. -/
theorem lowers_variablePlace_slot (name : String) (span : Span) :
    Lowers env (variablePlace name span) s w fun p w' => PlaceOk w' p ∧ p.stringByte = false ∧ w' = w ∧
      s.scopes.outermost = [] ∧ ∃ slot, s.scopes.resolve? name = some slot ∧ p.ptr = slot.ptr ∧ p.ty = slot.ty := by
  refine lowers_lookup_slot.bind ?_
  rintro slot s1 _ _ hsame ⟨rfl, hslot, houter, hfound⟩
  refine .otherwise fun _ => ?_
  refine .otherwise fun _ => ?_
  exact .pure ⟨⟨hslot.addr, nofun⟩, rfl, rfl, houter, slot, hfound, rfl, rfl⟩

theorem lowers_variablePlace_finds :
    Lowers env (variablePlace name span) s w fun p w' => PlaceOk w' p ∧ p.stringByte = false ∧
      Finds s.scopes.inner name p.ptr p.ty ∧ w' = w := by
  refine (lowers_variablePlace_slot name span).mono ?_
  rintro p w' _ ⟨hplace, hbyte, hw, houter, slot, hfound, hptr, hty⟩
  refine ⟨hplace, hbyte, fun n m c hm => ?_, hw⟩
  obtain ⟨place, hplace, hmatches⟩ := hm.lookup houter hfound
  rw [hptr, hty]
  exact ⟨place, hplace, hmatches.toCellMatches⟩

def StepYields (op : StepOp) (ty : Ty) (w : Site False) (v : Value) (w' : Site False) (u : Value) : Prop :=
  ∀ x y, ty = .int x.width → step? op x = some y → Yields w w' (Holds w.fn.nextReg · v x) (Holds w'.fn.nextReg · u y)

omit [Library] in
theorem value_one {n : Nat} (hone : 1 < n) : (Word.ofInt n 1).value = 1 := by
  rw [Word.value_eq_toInt hone]
  exact BitVec.toInt_one hone

theorem yields_step (op : StepOp) {sign : BinOp} {make : Value → Value → Build Value} (ty : Ty)
    (hmake : IsOperation make sign) (hsign : ∀ x y, step? op x = some y → x.width ≠ 1 ∧
      ∃ k, arithmetic? sign x.width x.value 1 = some k ∧ .ofInt x.width k = y) (hv : w.Has v) :
    Lowers env (liftM (make v (one ty))) s w fun u w' => w'.Has u ∧ StepYields op ty w v w' u := by
  refine (yields_operation hmake hv (val_one ty).1).mono fun u w' _ hu => ⟨hu.1, ?_⟩
  rintro x y rfl hy f hf c hc hx
  obtain ⟨hne, k, hk, rfl⟩ := hsign x y hy
  have hone : 1 < x.width := by
    have := hx.pos
    omega
  refine hu.2 x (.ofInt x.width 1) k rfl (.inl hone) ?_ f hf c hc ⟨hx, holds_ofInt _ c 1 hx.pos hx.le⟩
  rwa [value_one hone]

theorem computes_stepPlace (op : StepOp) {p : PlaceRef} (span : Span) (hplace : PlaceOk w p)
    (hfinds : V.Finds name p.ptr p.ty) : Lowers env (stepPlace op p span) s w fun v w' => w'.Has v ∧
      Computes id (Evaluation.modify name (step? op)) V w v w' := by
  refine .otherwise fun _ => ?_
  refine (computes_load hfinds hplace.1.val).bind ?_
  rintro current s1 w1 hle1 _ ⟨hcurrent, hload⟩
  have hstore : ∀ next s2 w2, w1 ≤ w2 →
      w2.Has next ∧ StepYields op p.ty w1 current w2 next →
      Lowers env (do Build.store next p.ptr; return next) s2 w2 fun v w' => w'.Has v ∧
        Computes id (Evaluation.modify name (step? op)) V w v w' := by
    rintro next s2 w2 hle2 ⟨hnext, hstep⟩
    refine (carries_store hfinds ((hplace.1.mono hle1).mono hle2) hnext).bind ?_
    intro _ s3 w3 hle3 _ hwrite
    refine .pure ⟨hnext.mono hle3, fun m y m' hmodify f hf c hc hm => ?_⟩
    simp only [Evaluation.modify, bind_eq_bind, bind_eq_some_iff] at hmodify
    obtain ⟨place, hplace, x, hx, _, hy, heq⟩ := hmodify
    cases heq
    obtain ⟨_, hx', hty, _⟩ := (hfinds hm hplace).cell
    rw [hx] at hx'
    cases hx'
    have hwidth : y.width = x.width := by
      unfold step? at hy
      split at hy
      · cases hy
      · cases op <;> cases hy <;> rfl
    have hread := hload m x m (by simp [hplace, hx])
    exact ((hread.trans ((hstep x y hty hy).carries hle2 V m) hle1 hle2).trans
      (hwrite m place y x hplace hx hwidth) (le_trans hle1 hle2) hle3) f hf c hc hm
  cases op with
  | inc =>
    refine (yields_step .inc p.ty isOperation_add ?_ hcurrent).bind ?_
    · intro x y hy
      obtain ⟨hne, hy⟩ := ite_none_left_eq_some.mp hy
      cases hy
      exact ⟨hne, _, rfl, rfl⟩
    · exact fun next s2 w2 hle2 _ hnext => hstore next s2 w2 hle2 hnext
  | dec =>
    refine (yields_step .dec p.ty isOperation_sub ?_ hcurrent).bind ?_
    · intro x y hy
      obtain ⟨hne, hy⟩ := ite_none_left_eq_some.mp hy
      cases hy
      exact ⟨hne, _, rfl, rfl⟩
    · exact fun next s2 w2 hle2 _ hnext => hstore next s2 w2 hle2 hnext

/-! ### Expressions -/

theorem Computes.pure {a : α} (hact : ∀ m, act m = some (a, m))
    (hv : ∀ n (c : Point cells), Holds n c v (word a)) : Computes word act V w v w := by
  intro m b m' hb f _ c hc hm
  rw [hact m] at hb
  cases hb
  exact ⟨c, .refl c, hc, hm, hv _ c⟩

theorem computes_lowerLiteral (l : Literal) (span : Span) : Lowers env (lowerLiteral l span) s w fun v w' => w'.Has v ∧
      Computes id (expr (.literal l)) V w v w' := by
  cases l with
  | number x =>
    simp only [lowerLiteral]
    split
    · next hint =>
      refine .pure ⟨(val_int32 _).1, .pure (a := .ofInt 32 x.toInt64.toInt) (fun m => ?_)
        fun n c => holds_ofInt n c x.toInt64 (by decide) (by decide)⟩
      simp [expr, literal?, hint]
    · next hint => exact .pure ⟨has_of_reg? rfl, .of_none fun m => by simp [expr, literal?, hint]⟩
  | str text => exact lowers_constString.mono fun v w' _ hv => ⟨hv, .of_none fun m => rfl⟩
  | char c =>
    simp only [lowerLiteral]
    split
    · next hchar =>
      have hvalue : (Int64.ofNat c.toNat).toInt = c.toNat :=
        Int64.toInt_ofNat_of_lt (by omega)
      refine .pure ⟨(val_int8 _).1, .pure (a := .ofInt 8 c.toNat) (fun m => ?_) fun n d => ?_⟩
      · simp [expr, literal?, hchar]
      · rw [← hvalue]
        exact holds_ofInt n d (Int64.ofNat c.toNat) (by decide) (by decide)
    · exact .fail
  | bool b =>
    exact .pure ⟨has_of_reg? rfl, .pure (fun m => rfl) fun n c => holds_ofBool n c b⟩

omit [Library] in
theorem intWidth?_scalarType? {width : Nat} (h : intWidth? name = some width) :
    scalarType? name = some (.int width) ∧ isCastTarget name = true ∧ 0 < width ∧ width ≤ 64 := by
  unfold intWidth? at h
  split at h <;> cases h <;> decide

theorem computes_cast {operand : Lower Value} {act : Compute Word} (target : Spanned String) (span : Span)
    (hoperand : Lowers env operand s w fun v w' => w'.Has v ∧ Computes id act V w v w') :
    Lowers env (cast target operand span) s w fun v w' => w'.Has v ∧ Computes id (fun m => do
        let width ← intWidth? target.node
        let (x, m) ← act m
        return (x.convert width, m)) V w v w' := by
  cases hwidth : intWidth? target.node with
  | none =>
    refine (lowers_cast (hoperand.mono fun _ _ _ h => h.1)).mono fun v w' _ hv => ⟨hv, ?_⟩
    exact .of_none fun m => rfl
  | some width =>
    obtain ⟨hty, htarget, hpos, hle⟩ := intWidth?_scalarType? hwidth
    unfold cast
    rw [hty, filter_some, if_pos htarget]
    refine hoperand.bind ?_
    rintro v s1 w1 hle1 _ ⟨hv, hact⟩
    have hresult : ∀ {u : Value} {w2 : Site False}, w1 ≤ w2 → (∀ x, Yields w1 w2
        (Holds w1.fn.nextReg · v x) (Holds w2.fn.nextReg · u (x.convert width))) →
        Computes id (fun m => do
          let (x, m) ← act m
          return (x.convert width, m)) V w u w2 := by
      intro u w2 hle2 hyields
      refine hact.bind hle1 hle2 fun m y m' hm => ?_
      simp only [bind_eq_bind, bind_eq_some_iff] at hm
      obtain ⟨⟨x, m1⟩, hx, heq⟩ := hm
      cases heq
      exact ⟨x, hx, hyields x⟩
    split
    · next hsame =>
      refine lowers_warn.bind ?_
      intro _ s2 w2 hle2 _ hquiet
      refine .pure ⟨hv.mono hle2, hresult hle2 fun x => .same hquiet fun c hx => ?_⟩
      have hwidth : x.width = width := Ty.int.inj (hx.ty_eq.symm.trans hsame)
      rw [← hwidth, Word.convert_width hx.pos, hquiet.1]
      exact hx
    · exact (yields_castValue hv).mono fun u w2 hle2 hu =>
        ⟨hu.1, hresult hle2 fun x => hu.2 x hpos hle⟩

/-- The code of an expression computes what evaluation gives for the variables of a view. -/
theorem computes_view (span : Span) : ∀ e s w, V.Sees s.scopes →
    Lowers env (lowerExpr span e) s w fun v w' => w'.Has v ∧ Computes id (expr e) V w v w'
  | .literal l, s, w, _ => by
      exact computes_lowerLiteral l span
  | .var name, s, w, hsees => by
      exact computes_lowerVar name span hsees
  | .paren ⟨inner, innerSpan⟩, s, w, hsees => by
      exact computes_view innerSpan inner s w hsees
  | .binary op ⟨l, lspan⟩ ⟨r, rspan⟩, s, w, hsees => by
      refine (computes_view lspan l s w hsees).bind ?_
      rintro l' s1 w1 hle1 hsame1 ⟨hl, hlhs⟩
      refine (computes_view rspan r s1 w1 (hsame1.scopes_eq ▸ hsees)).bind ?_
      rintro r' s2 w2 hle2 _ ⟨hr, hrhs⟩
      refine (yields_binaryValues op span (hl.mono hle2) hr).mono fun v w3 hle3 hv => ⟨hv.1, ?_⟩
      intro m z m' hz f hf c hc hm
      simp only [expr, bind_eq_bind, bind_eq_some_iff] at hz
      obtain ⟨⟨x, m1⟩, hx, ⟨y, m2⟩, hy, _, hop, heq⟩ := hz
      cases heq
      have hf2 := hf.of_le hle3
      obtain ⟨d, hruns1, hd, hm1, hxd⟩ := hlhs m x m1 hx f (hf2.of_le hle2) c hc hm
      obtain ⟨e, hruns2, he, hm2, hye⟩ := hrhs m1 y m2 hy f hf2 d hd hm1
      obtain ⟨g, hruns3, hg⟩ := (hv.2 x y z hop).carries hle3 V m2 f hf e he ⟨hm2, hxd.keep hruns2 hle2.nextReg_le, hye⟩
      exact ⟨g, hruns1.trans ((hruns2.trans (hruns3.mono hle2.nextReg_le)).mono hle1.nextReg_le), hg⟩
  | .unary op ⟨e, espan⟩, s, w, hsees => by
      refine (computes_view espan e s w hsees).bind ?_
      rintro v s1 w1 hle1 _ ⟨hv, hact⟩
      refine (yields_unaryValue op span hv).mono fun u w2 hle2 hu => ⟨hu.1, ?_⟩
      refine hact.bind hle1 hle2 fun m y m' hy => ?_
      simp only [expr, bind_eq_bind, bind_eq_some_iff] at hy
      obtain ⟨⟨x, m1⟩, hx, heq⟩ := hy
      cases heq
      exact ⟨x, hx, hu.2 x⟩
  | .step op ⟨.var name, pspan⟩, s, w, hsees => by
      refine (lowers_variablePlace_slot name pspan).bind ?_
      rintro p s1 _ _ _ ⟨hplace, _, rfl, houter, slot, hfound, hptr, hty⟩
      refine computes_stepPlace op span hplace fun hm hname => ?_
      rw [hptr, hty]
      exact (hsees houter hfound hm hname).toCellMatches
  | .cast target ⟨e, espan⟩, s, w, hsees => by
      exact computes_cast target span (computes_view espan e s w hsees)
  | .step op ⟨.field object name, pspan⟩, s, w, _
  | .step op ⟨.index base indices, pspan⟩, s, w, _
  | .call name args, s, w, _ | .methodCall receiver method args, s, w, _ | .field object name, s, w, _
  | .array elems, s, w, _ | .index base indices, s, w, _ =>
    (lowers_lowerExpr span _ s w).mono fun v w' _ hv => ⟨hv, .of_none fun m => by simp [expr]⟩

/-- The code of an expression computes what evaluation gives. -/
theorem computes_lowerExpr (span : Span) (e : Expr) (s : State) (w : Site False) :
    Lowers env (lowerExpr span e) s w fun v w' => w'.Has v ∧ Computes id (expr e) s.scopes.inner w v w' :=
  computes_view span e s w (View.ofFrames_sees s.scopes)

/-! ### Guards -/

/-- Evaluation of a connective that asks the right side only if the left side leaves the outcome
open. -/
def Connective.ask (op : Connective) (lhs rhs : Compute Bool) : Compute Bool := fun m => do
  let (b, m) ← lhs m
  if op.settles b then return (b, m) else rhs m

omit [Library] in
theorem guard_and (l r : Spanned Expr) : Evaluation.guard (.binary .and l r) =
    Connective.and.ask (Evaluation.guard l.node) (Evaluation.guard r.node) := by
  funext m
  simp only [Evaluation.guard, Connective.ask]
  rcases Evaluation.guard l.node m with _ | ⟨_ | _, _⟩ <;> rfl

omit [Library] in
theorem guard_or (l r : Spanned Expr) : Evaluation.guard (.binary .or l r) =
    Connective.or.ask (Evaluation.guard l.node) (Evaluation.guard r.node) := by
  funext m
  simp only [Evaluation.guard, Connective.ask]
  rcases Evaluation.guard l.node m with _ | ⟨_ | _, _⟩ <;> rfl

/-- A run of the code of a connective goes through its sides as evaluation does. -/
theorem Circuit.computes {op : Connective} {lhs rhs : Compute Bool} {l r : Value}
    {left start right last : Site False} (h : Circuit op l left start r right v last)
    (hle : w ≤ left) (hv : last.Has v) (hl : Computes .ofBool lhs V w l left)
    (hr : Computes .ofBool rhs V start r right) : Computes .ofBool (op.ask lhs rhs) V w v last := by
  obtain ⟨dst, hdst, rfl, _⟩ := h.merge
  have hlast : right.fn.nextReg ≤ last.fn.nextReg :=
    le_of_lt (lt_of_le_of_lt hdst (hv.within _ rfl))
  have hstart : left.fn.nextReg ≤ right.fn.nextReg := h.nextReg_eq ▸ h.right_le.nextReg_le
  have hresult : ∀ {d : Point cells} {b : Bool}, d.int? (.ofReg dst .i1) = some (.ofBool b) →
      Holds last.fn.nextReg d (.ofReg dst .i1) (.ofBool b) := fun hread =>
    ⟨hread, rfl, hv.within, nofun, Nat.one_pos, (by decide : 1 ≤ 64)⟩
  intro m b m' hask f hf c hc hm
  simp only [Connective.ask, bind_eq_bind, bind_eq_some_iff] at hask
  obtain ⟨⟨a, m1⟩, ha, hask⟩ := hask
  obtain ⟨d, hruns, hd, hm1, hread⟩ := hl m a m1 ha f (hf.of_le h.left_le) c hc hm
  cases hb : op.settles a with
  | true =>
    rw [hb] at hask
    cases hask
    obtain ⟨e, hkeeps, he, hout⟩ := h.skips hf hstart hd hread.read hb
    exact ⟨e, hruns.trans ((hkeeps.runs.weaken fun _ _ => trivial).mono hle.nextReg_le), he,
      V.keeps hm1 hkeeps (le_trans hstart hlast), hresult hout⟩
  | false =>
    rw [hb] at hask
    obtain ⟨e, hkeeps, he⟩ := h.enters hf hd hread.read hb
    obtain ⟨g, hruns', hg, hm2, hread'⟩ := hr m1 b m' hask f (h.right_embeds f hf) e he
      (V.keeps hm1 hkeeps (le_of_eq h.nextReg_eq.symm))
    obtain ⟨k, hkeeps', hk, hout⟩ := h.leaves hf (le_refl _) hg hread'.read
    have hall := (hkeeps.runs.weaken fun _ _ => trivial).trans
      ((hruns'.trans ((hkeeps'.runs.weaken fun _ _ => trivial).mono h.right_le.nextReg_le)).mono
        (le_of_eq h.nextReg_eq.symm))
    exact ⟨k, hruns.trans (hall.mono hle.nextReg_le), hk, V.keeps hm2 hkeeps' hlast, hresult hout⟩

theorem computes_shortCircuit (op : Connective) {lhs rhs : Lower Value} {l r : Compute Bool}
    (s : State) (w : Site False)
    (hlhs : ∀ s w, Lowers env lhs s w fun v w' => w'.Has v ∧ Computes .ofBool l s.scopes.inner w v w')
    (hrhs : ∀ s w, Lowers env rhs s w fun v w' => w'.Has v ∧ Computes .ofBool r s.scopes.inner w v w') :
    Lowers env (shortCircuit op lhs rhs) s w fun v w' => w'.Has v ∧
      Computes .ofBool (op.ask l r) s.scopes.inner w v w' := by
  refine (lowers_shortCircuit op (L := fun v w' => w ≤ w' ∧ Computes .ofBool l s.scopes.inner w v w')
    (R := fun _ start v w' => Computes .ofBool r s.scopes.inner start v w')
    ((hlhs s w).mono fun v w' hle h => ⟨h.1.typed .i1, hle, h.2⟩) ?_).mono ?_
  · intro s' w' hsame _ _ _
    rw [← hsame.scopes_eq]
    exact (hrhs s' w').mono fun v w'' _ h => ⟨h.1.typed .i1, h.2⟩
  · rintro v w' _ ⟨hv, _, _, _, _, _, _, ⟨hle, hl⟩, hr, hcircuit⟩
    exact ⟨hv.1, hcircuit.computes hle hv.1 hl hr⟩

/-- The code of a guard computes the outcome that evaluation gives. -/
theorem computes_lowerGuard (span : Span) (e : Expr) (s : State) (w : Site False) :
    Lowers env (lowerGuard span e) s w fun v w' => w'.Has v ∧
      Computes .ofBool (Evaluation.guard e) s.scopes.inner w v w' := by
  fun_induction lowerGuard span e generalizing s w with
  | case1 span inner _ ih =>
    exact ih s w
  | case2 span l _ r _ ihl ihr =>
    rw [guard_and]
    exact computes_shortCircuit .and s w ihl ihr
  | case3 span l _ r _ ihl ihr =>
    rw [guard_or]
    exact computes_shortCircuit .or s w ihl ihr
  | case4 span e _ ih =>
    refine (ih s w).bind ?_
    rintro b s1 w1 hle1 _ ⟨hb, hact⟩
    refine (yields_not hb).mono fun u w2 hle2 hu => ⟨hu.1, ?_⟩
    refine hact.bind hle1 hle2 fun m y m' hy => ?_
    simp only [Evaluation.guard, bind_eq_bind, bind_eq_some_iff] at hy
    obtain ⟨⟨b, m1⟩, hb, heq⟩ := hy
    cases heq
    exact ⟨b, hb, hu.2 b⟩
  | case5 span e hparen hand hor hnot =>
    have hguard : Evaluation.guard e = fun m => do
        let (x, m) ← expr e m
        return (x.isTrue, m) := by
      rw [Evaluation.guard.eq_def]
      split
      · exact absurd rfl (hparen _ _)
      · exact absurd rfl (hand _ _ _ _)
      · exact absurd rfl (hor _ _ _ _)
      · exact absurd rfl (hnot _ _)
      · rfl
    refine (computes_lowerExpr span e s w).bind ?_
    rintro v s1 w1 hle1 _ ⟨hv, hact⟩
    refine (yields_toBool span hv).mono fun u w2 hle2 hu => ⟨hu.1, ?_⟩
    refine hact.bind hle1 hle2 fun m b m' hb => ?_
    simp only [hguard, bind_eq_bind, bind_eq_some_iff] at hb
    obtain ⟨⟨x, m1⟩, hx, heq⟩ := hb
    cases heq
    exact ⟨x, hx, hu.2 x⟩

end Aero.Lowering
