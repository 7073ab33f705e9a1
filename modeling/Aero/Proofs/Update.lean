import Aero.Proofs.Follow
import Aero.Proofs.Statement

/-!
Statements that change variables. A declaration adds a cell that holds the first value, and an
assignment puts the value into the cell of its variable, at the width of the variable.
-/

namespace Aero.Lowering

open IR IR.Build IR.Site Evaluation

variable [Library] {env : Env} {s : State} {w w1 w' : Site False} {frames : List Frame} {v : Value} {slot : Slot}
  {ty target ret ty' : Ty} {width : Nat} {act : Compute Word} {name : String} {span : Span}
  {init : Option (Spanned Expr)} {value e : Spanned Expr}

/-! ### Declarations -/

def declareIn (name : String) (slot : Slot) : List Frame → List Frame
  | frame :: frames => ((name, slot) :: frame) :: frames
  | [] => []

omit [Library] in
theorem inner_declare? {scopes : Scopes} (h : scopes.isDeclaredHere name = false) :
    ((scopes.declare? name slot).getD scopes).inner = declareIn name slot scopes.inner := by
  rw [Scopes.declare?, if_neg (Bool.eq_false_iff.mp h)]
  cases hinner : scopes.inner with
  | nil => rfl
  | cons frame frames => rfl

/-- The code between two sites makes a slot for a new variable and puts the result of a computation
there. -/
def Introduces (act : Compute Word) (frames : List Frame) (w : Site False) (slot : Slot) (w' : Site False) : Prop :=
  ∀ name m x m1 m', act m = some (x, m1) → m1.declare? name x = some m' → Carries w w' (Matches w.fn.nextReg frames m)
      (Matches w'.fn.nextReg (declareIn name slot frames) m')

theorem Matches.newCell {n k : Nat} {m m' : Store} {c d : Point cells} {x : Word}
    (h : Matches n frames m c) (hdeclare : m.declare? name x = some m')
    (hregs : ∀ r, r < n → d.regs r = c.regs r) (hmemory : d.memory = c.memory ++ [.int x])
    (hle : n ≤ k) (harray : slot.array = none) (hty : slot.ty = .int x.width)
    (hwithin : slot.ptr.Within (· < k)) (hread : d.read? slot.ptr = some (.cell c.memory.length))
    (hpos : 0 < x.width) (hlimit : x.width ≤ 64) : Matches k (declareIn name slot frames) m' d := by
  have hlength : c.memory.length = m.cells.length := by rw [h.memory_eq, List.length_map]
  cases frames with
  | nil =>
    rw [Store.declare?, List.forall₂_nil_left_iff.mp h.scopes] at hdeclare
    cases hdeclare
  | cons frame frames =>
    exact h.declare hdeclare hregs hmemory hle harray hty hwithin (hlength ▸ hread) hpos hlimit

/-- A new slot is that of a new variable, which begins with the number an operand holds. -/
theorem carries_newSlot (hv : w.Has v) : Lowers env (liftM (newSlot v ty none)) s w fun slot w' =>
      w'.Addr slot.ptr ty ∧ slot = { ptr := slot.ptr, ty := ty } ∧
        ∀ frames name m x m', ty = .int x.width → m.declare? name x = some m' →
          Carries w w' (fun c => Matches w.fn.nextReg frames m c ∧ Holds w.fn.nextReg c v x)
            (Matches w'.fn.nextReg (declareIn name slot frames) m') := by
  simp only [newSlot, liftM_bind]
  refine (Lowers.lift_run emits_alloca).bind ?_
  rintro ptr s1 w1 hle1 _ ⟨hptr, hopen1, halloca⟩
  refine (Lowers.lift_run (emits_store (hv.typed ty |>.mono hle1) hptr)).bind ?_
  rintro _ s2 w2 hle2 _ ⟨_, hopen2, hstore⟩
  refine .pure ⟨hptr.mono hle2, rfl, ?_⟩
  rintro frames name m x m' hty hdeclare f hf c hc ⟨hm, hx⟩
  obtain ⟨d, hruns1, hd, hmemory1, hread1⟩ := alloca_runs halloca hopen1 (hf.of_le hle2) hc
  have hlt : c.memory.length < d.memory.length := by
    rw [hmemory1, List.length_append]
    exact Nat.lt_succ_self _
  obtain ⟨e, hruns2, he, hmemory2⟩ :=
    store_runs hstore hopen2 hf hd hread1 (hx.keep hruns1 hle1.nextReg_le).read hlt
  have hmemory : e.memory = c.memory ++ [.int x] := by
    rw [hmemory2, hmemory1]
    simp
  have hruns := hruns1.trans (hruns2.mono hle1.nextReg_le)
  refine ⟨e, hruns, he, ?_⟩
  exact hm.newCell hdeclare hruns.regs_eq hmemory (le_trans hle1.nextReg_le hle2.nextReg_le) rfl
    hty (hptr.mono hle2).1.within ((hruns2.read?_eq hptr.1.within).trans hread1) hx.pos hx.le

theorem introduces_newSlot (hv : w1.Has v) (hle : w ≤ w1) (hact : Computes id act frames w v w1)
    (hty : ∀ n c m x m', act m = some (x, m') → Holds (P := cells) n c v x → ty = .int x.width) :
    Lowers env (liftM (newSlot v ty none)) s w1 fun slot w' =>
      SlotOk w' slot ∧ Introduces act frames w slot w' := by
  refine (carries_newSlot hv).mono ?_
  rintro slot w' hle' ⟨haddr, hslot, hcarries⟩
  refine ⟨hslot ▸ .plain haddr nofun rfl, ?_⟩
  intro name m x m1 m' hx hdeclare f hf c hc hm
  obtain ⟨d, hruns1, hd, hm1, hxd⟩ := hact m x m1 hx f (hf.of_le hle') c hc hm
  obtain ⟨e, hruns2, he, hm'⟩ :=
    hcarries frames name m1 x m' (hty _ d m x m1 hx hxd) hdeclare f hf d hd ⟨hm1, hxd⟩
  exact ⟨e, hruns1.trans (hruns2.mono hle.nextReg_le), he, hm'⟩

theorem Introduces.of_none (h : ∀ m, act m = none) : Introduces act frames w slot w' := by
  intro name m x m1 m' hact
  rw [h m] at hact
  cases hact

theorem introduces_scalarSlot {name : Spanned String} (hpos : 0 < width) (hle : width ≤ 64) :
    Lowers env (scalarSlot name (.int width) init) s w fun slot w' => SlotOk w' slot ∧
      Introduces (valueAt width (init.map (·.node))) s.scopes.inner w slot w' := by
  unfold scalarSlot
  split
  · exact (Lowers.fail (Q := fun _ _ => False)).bind fun _ _ _ _ _ h => h.elim
  · next init _ =>
    refine (computes_lowerExpr init.span init.node s w).bind ?_
    rintro v s1 w1 hle1 _ ⟨hv, hinit⟩
    refine (yields_coerce hv).bind ?_
    rintro u s2 w2 hle2 _ ⟨hu, hconvert⟩
    refine introduces_newSlot hu (le_trans hle1 hle2) (hinit.bind hle1 hle2 fun m y m' hy => ?_) ?_
    · simp only [Option.map_some, valueAt, Option.bind_eq_bind, Option.bind_eq_some_iff] at hy
      obtain ⟨⟨x, m1⟩, hx, heq⟩ := hy
      cases heq
      exact ⟨x, hx, hconvert x hpos hle⟩
    · intro n c m y m' hy _
      simp only [Option.map_some, valueAt, Option.bind_eq_bind, Option.bind_eq_some_iff] at hy
      obtain ⟨⟨x, m1⟩, hx, heq⟩ := hy
      cases heq
      rw [Word.convert_width_eq]
  · refine introduces_newSlot (val_zero _).1 (le_refl w) (.pure (fun m => rfl) fun n c => holds_ofInt n c 0 hpos hle) ?_
    intro n c m x m' hx _
    cases hx
    rfl

omit [Library] in
theorem typeWidth?_eq {t : TypeName} (h : typeWidth? t = some width) :
    t.dims.isEmpty = true ∧ intWidth? t.name = some width := by
  obtain ⟨harray, hwidth⟩ := Option.ite_none_left_eq_some.mp h
  exact ⟨by simpa [TypeName.isArray] using harray, hwidth⟩

omit [Library] in
theorem resolveScalar_int (span : Span)
    (h : intWidth? name = some width) : resolveScalar name span = pure (.int width) := by
  rw [resolveScalar, (intWidth?_scalarType? h).1]

theorem introduces_declaredSlot {name : Spanned String} {t : Spanned TypeName} (hauto : t.node.isAuto = false) :
    Lowers env (declaredSlot name t init) s w fun slot w' => SlotOk w' slot ∧
      Introduces (initial (some t.node) (init.map (·.node))) s.scopes.inner w slot w' := by
  have hinitial : initial (some t.node) (init.map (·.node)) =
      fun m => (typeWidth? t.node).bind fun width => valueAt width (init.map (·.node)) m := by
    unfold initial
    rw [Option.filter_some, hauto]
    rfl
  rw [hinitial]
  cases hwidth : typeWidth? t.node with
  | none => exact (lowers_declaredSlot name).mono fun _ _ _ h => ⟨h, .of_none fun m => rfl⟩
  | some width =>
    obtain ⟨hdims, hname⟩ := typeWidth?_eq hwidth
    obtain ⟨_, _, hpos, hle⟩ := intWidth?_scalarType? hname
    rw [declaredSlot, resolveDeclared, resolveScalar_int _ hname, pure_bind, if_pos hdims]
    exact introduces_scalarSlot hpos hle

omit [Library] in
theorem inferredType?_int {n : Nat} (hty : ty = .int n) (h : inferredType? ty = some ty') : ty' = .int n := by
  subst hty
  exact (Option.some.inj h).symm

/-- Without a type, a variable has the width of its first value. -/
theorem introduces_inferredSlot {name : Spanned String} :
    Lowers env (inferredSlot name init span) s w fun slot w' => SlotOk w' slot ∧
      Introduces (initial none (init.map (·.node))) s.scopes.inner w slot w' := by
  unfold inferredSlot
  split
  · exact .fail
  · refine (lowers_arrayLiteral none _ (operands_ok _)).bind ?_
    exact fun _ _ _ _ _ hbuffer =>
      (lowers_buffer hbuffer).mono fun _ _ _ h => ⟨h, .of_none fun m => rfl⟩
  · next init _ =>
    refine (computes_lowerExpr init.span init.node s w).bind ?_
    rintro v s1 w1 hle1 _ ⟨hv, hinit⟩
    split
    · exact .fail
    · next ty hty =>
      cases hint : v.ty.isInt with
      | false =>
        refine (lowers_coerce hv).bind fun u s2 w2 hle2 _ hu => ?_
        refine (lowers_scalar hu).mono fun slot w' hle' hslot => ⟨hslot, ?_⟩
        intro name m x m1 m' hx _ f hf c hc hm
        obtain ⟨_, _, _, _, hx⟩ := hinit m x m1 hx f ((hf.of_le hle').of_le hle2) c hc hm
        rw [hx.isInt] at hint
        cases hint
      | true =>
        obtain ⟨n, hn⟩ := isInt_iff.mp hint
        rw [inferredType?_int hn hty]
        unfold coerce
        rw [if_pos hn]
        refine introduces_newSlot hv hle1 hinit fun k c m x m' _ hx => ?_
        exact hn.symm.trans hx.ty_eq

/-! ### Assignment -/

theorem carries_storeInto {place : PlaceRef} {context : Coercion} {refused : Lower Value}
    (hplace : PlaceOk w place) (hbyte : place.stringByte = false)
    (hfinds : Finds frames name place.ptr place.ty) (hv : w.Has v) : Lowers env (do
      let v ←
        if place.stringByte then
          if isByteSource v.ty then Build.intCast v .i8 true else refused
        else coerce v place.ty context span
      Build.store v place.ptr) s w fun _ w' => ∀ m p x y, m.place? name = some p → m.cells[p]? = some y →
        Carries w w' (fun c => Matches w.fn.nextReg frames m c ∧ Holds w.fn.nextReg c v x)
          (Matches w'.fn.nextReg frames (m.set p (x.convert y.width))) := by
  rw [if_neg (Bool.eq_false_iff.mp hbyte)]
  cases hint : place.ty.isInt with
  | false =>
    refine (lowers_coerce hv).bind fun u s1 w1 hle1 _ hu => ?_
    refine (Lowers.lift (emits_store hu (hplace.1.mono hle1))).mono fun _ w' _ _ => ?_
    rintro m p x y hp _ f _ c _ ⟨hm, _⟩
    obtain ⟨_, _, hty, _⟩ := (hfinds.cell hm hp).cell
    rw [hty] at hint
    cases hint
  | true =>
    obtain ⟨n, hn⟩ := isInt_iff.mp hint
    rw [hn]
    refine (yields_coerce hv).bind ?_
    rintro u s1 w1 hle1 _ ⟨hu, hconvert⟩
    refine (carries_store hfinds.view (hplace.1.mono hle1) hu).mono fun _ w' hle' hstore => ?_
    rintro m p x y hp hy f hf c hc ⟨hm, hx⟩
    obtain ⟨z, hz, hty, hpos, hle⟩ := (hfinds.cell hm hp).cell
    rw [hy] at hz
    cases hz
    have hwidth : n = y.width := Ty.int.inj (hn.symm.trans hty)
    subst hwidth
    obtain ⟨d, hkeeps, hd, hconverted⟩ := hconvert x hpos hle f (hf.of_le hle') c hc hx
    obtain ⟨e, hruns, he, hme, _⟩ := hstore m p (x.convert y.width) y hp hy
      (Word.convert_width_eq x _) f hf d hd ⟨hm.keeps hkeeps hle1.nextReg_le, hconverted⟩
    exact ⟨e, hkeeps.runs.trans (hruns.mono hle1.nextReg_le), he, hme⟩

theorem updates_assignPlace : Lowers env (assignPlace ⟨.var name, span⟩ value) s w fun _ w' =>
      Updates (Evaluation.assign name (expr value.node)) s.scopes.inner w w' := by
  refine lowers_variablePlace_finds.bind ?_
  rintro target s1 _ _ hsame ⟨htarget, hbyte, hfinds, rfl⟩
  refine (computes_lowerExpr value.span value.node s1 _).bind ?_
  rintro v s2 w2 hle2 _ ⟨hv, hvalue⟩
  refine (carries_storeInto (htarget.mono hle2) hbyte hfinds hv).mono ?_
  intro _ w3 hle3 hstore m m' hm' f hf c hc hm
  simp only [Evaluation.assign, Option.bind_eq_bind, Option.bind_eq_some_iff] at hm'
  obtain ⟨p, hp, ⟨x, m1⟩, hx, y, hy, heq⟩ := hm'
  cases heq
  rw [hsame.scopes_eq] at hvalue
  obtain ⟨d, hruns1, hd, hm1, hxd⟩ := hvalue m x m1 hx f (hf.of_le hle3) c hc hm
  obtain ⟨e, hruns2, he⟩ := hstore m1 p x y (hfinds.place_eq hm hp hruns1 hm1) hy f hf d hd ⟨hm1, hxd⟩
  exact ⟨e, hruns1.trans (hruns2.mono hle2.nextReg_le), he⟩

theorem updates_assign : Lowers env (Lowering.assign ⟨.var name, span⟩ value) s w fun _ w' =>
      Updates (Evaluation.assign name (expr value.node)) s.scopes.inner w w' := by
  unfold assign arrayPlace?
  rw [bind_assoc]
  refine lowers_lookup_finds.bind ?_
  rintro slot s1 _ _ hsame ⟨rfl, hslot, hfinds⟩
  cases harray : slot.array with
  | none =>
    refine (updates_assignPlace).mono fun _ w' _ h => ?_
    rwa [hsame.scopes_eq] at h
  | some shape =>
    refine (lowers_assignArray hslot harray).mono fun _ w' _ _ => ?_
    intro m m' _ f _ c _ hm
    obtain ⟨_, _, hmatches⟩ := hfinds _ m c hm
    rw [hmatches.array_eq] at harray
    cases harray

theorem updates_compoundAssign {op : BinOp} {placeSpan : Span} :
    Lowers env (compoundAssign op ⟨.var name, placeSpan⟩ value span) s w fun _ w' =>
      Updates (combine op name (expr value.node)) s.scopes.inner w w' := by
  refine .otherwise fun _ => ?_
  refine lowers_variablePlace_finds.bind ?_
  rintro target s1 _ _ hsame1 ⟨htarget, hbyte, hfinds, rfl⟩
  refine (computes_load hfinds.view htarget.1.val).bind ?_
  rintro current s2 w2 hle2 hsame2 ⟨hcurrent, hload⟩
  refine (computes_lowerExpr value.span value.node s2 w2).bind ?_
  rintro rhs s3 w3 hle3 _ ⟨hrhs, hvalue⟩
  refine (yields_binaryValues op span (hcurrent.mono hle3) hrhs).bind ?_
  rintro result s4 w4 hle4 _ ⟨hresult, hop⟩
  refine .otherwise fun _ => ?_
  refine (carries_storeInto (((htarget.mono hle2).mono hle3).mono hle4) hbyte hfinds hresult).mono ?_
  intro _ w5 hle5 hstore m m' hm' f hf c hc hm
  simp only [combine, Option.bind_eq_bind, Option.bind_eq_some_iff] at hm'
  obtain ⟨p, hp, x, hx, ⟨y, m1⟩, hy, z, hz, heq⟩ := hm'
  cases heq
  rw [hsame2.scopes_eq, hsame1.scopes_eq] at hvalue
  have hf4 := hf.of_le hle5
  have hf3 := hf4.of_le hle4
  obtain ⟨d, hruns1, hd, hmd, hxd⟩ := hload m x m (by simp [hp, hx]) f (hf3.of_le hle3) c hc hm
  obtain ⟨e, hruns2, he, hme, hye⟩ := hvalue m y m1 hy f hf3 d hd hmd
  obtain ⟨g, hruns3, hg, hmg, hzg⟩ := (hop x y z hz).carries hle4 s.scopes.inner m1 f hf4 e he
    ⟨hme, hxd.keep hruns2 hle3.nextReg_le, hye⟩
  -- The variable still has the width that it was read with.
  have hp1 := hfinds.place_eq hmd hp hruns2 hme
  obtain ⟨x', hx', hty', _⟩ := (hfinds.cell hme hp1).cell
  obtain ⟨_, hx'', hty, _⟩ := (hfinds.cell hm hp).cell
  rw [hx] at hx''
  cases hx''
  have hwidth : x'.width = x.width := Ty.int.inj (hty'.symm.trans hty)
  obtain ⟨i, hruns4, hi, hmi⟩ := hstore m1 p z x' hp1 hx' f hf g hg ⟨hmg, hzg⟩
  rw [hwidth] at hmi
  have hle23 := le_trans hle2.nextReg_le hle3.nextReg_le
  exact ⟨i, ((hruns1.trans (hruns2.mono hle2.nextReg_le)).trans (hruns3.mono hle23)).trans
    (hruns4.mono (le_trans hle23 hle4.nextReg_le)), hi, hmi⟩

theorem updates_discard : Lowers env (discard (lower e)) s w fun _ w' =>
      Updates (fun m => (expr e.node m).map (·.2)) s.scopes.inner w w' := by
  refine (computes_lowerExpr e.span e.node s w).bind ?_
  rintro v s1 w1 _ _ ⟨_, hvalue⟩
  refine .pure fun m m' hm' f hf c hc hm => ?_
  obtain ⟨⟨x, m1⟩, hx, rfl⟩ := Option.map_eq_some_iff.mp hm'
  obtain ⟨d, hruns, hd, hm1, _⟩ := hvalue m x m1 hx f hf c hc hm
  exact ⟨d, hruns, hd, hm1⟩

/-! ### Returns -/

/-- A number that is more than a truth value becomes a floating-point number. -/
theorem yields_sitofp (htarget : target = .float ∨ target = .double) (hv : w.Has v) :
    Lowers env (liftM (Build.cast .sitofp v target)) s w fun u w' => w'.Val u target ∧
      ∀ x r, 1 < x.width → returned? target x = some r →
        Yields w w' (Holds w.fn.nextReg · v x) (·.read? u = some r) := by
  refine (Lowers.lift_run (emits_cast hv False.elim)).mono ?_
  rintro u w' _ ⟨hu, hopen, hrun⟩
  refine ⟨hu, fun x r hone hr f hf c hc hx => ?_⟩
  have hvalue := Word.value_eq_toInt hone
  refine foldOr_runs (fun _ => True) hrun hopen hf hc (fun _ => rfl) (fun _ => rfl) (fun _ => trivial) ?_
    fun dst => Instr.perform?_cast dst hx.read ?_
  · intro u hu
    obtain ⟨k, hk, rfl⟩ := Option.map_eq_some_iff.mp hu
    have hfloat : x.toFloat = k.toFloat := by
      rw [Word.toFloat, ← hx.const k hk, Int64.ofInt_toInt]
    rcases htarget with rfl | rfl <;> rw [returned?, hfloat] at hr <;> exact hr
  · rcases htarget with rfl | rfl <;> rw [returned?, Word.toFloat, hvalue] at hr <;> exact hr

omit [Library] in
theorem intCast_bool (hv : v.ty = .i1) (signed : Bool) : Build.intCast v .i32 signed = Build.intCast v .i32 true := by
  cases signed <;> simp [Build.intCast, hv, Ty.width?]

theorem yields_siToFp (htarget : target = .float ∨ target = .double) (hv : w.Has v) :
    Lowers env (liftM (siToFp v target)) s w fun u w' => w'.Val u target ∧ ∀ x r, returned? target x = some r →
        Yields w w' (Holds w.fn.nextReg · v x) (·.read? u = some r) := by
  unfold siToFp
  split
  · next hbool =>
    have hty : v.ty = .i1 := of_decide_eq_true hbool
    rw [liftM_bind, intCast_bool hty]
    refine (yields_intCast hv).bind ?_
    rintro wide s1 w1 hle1 _ ⟨hwide, hcast⟩
    refine (yields_sitofp htarget hwide).mono fun u w2 hle2 hu => ⟨hu.1, ?_⟩
    intro x r hr f hf c hc hx
    have hwidth : x.width = 1 := Ty.int.inj (hx.ty_eq.symm.trans hty)
    have hvalue : (x.convert 32).value = x.value :=
      Word.value_convert (hwidth ▸ by decide) (by decide)
    have hr' : returned? target (x.convert 32) = some r := by
      rcases htarget with rfl | rfl <;> rw [returned?, Word.toFloat, hvalue] <;> exact hr
    exact ((hcast x (by decide) (by decide)).trans (hu.2 (x.convert 32) r (by simp) hr') hle1 hle2) f hf c hc hx
  · next hbool =>
    refine (yields_sitofp htarget hv).mono fun u w' _ hu => ⟨hu.1, fun x r hr f hf c hc hx => ?_⟩
    refine hu.2 x r (lt_of_le_of_ne hx.pos fun hone => hbool ?_) hr f hf c hc hx
    exact decide_eq_true (hx.ty_eq.trans (hone ▸ rfl))

def ReturnYields (ret : Ty) (w : Site False) (v : Value) (u : Value) (w' : Site False) : Prop :=
  w'.Val u ret ∧ ∀ x r, returned? ret x = some r → Yields w w' (Holds w.fn.nextReg · v x) (·.read? u = some r)

theorem yields_returnFloat (hret : ret = .float ∨ ret = .double)
    (hv : w.Has v) : Lowers env (coerceReturn v ret span) s w fun u w' => ReturnYields ret w v u w' := by
  cases hint : v.ty.isInt with
  | false =>
    refine (lowers_coerceReturn hv).mono fun u w' _ hu => ⟨hu, fun x r _ => ?_⟩
    exact .of_not_int hint fun _ h => h
  | true =>
    obtain ⟨n, hn⟩ := isInt_iff.mp hint
    have hcoerce : coerceReturn v ret span = liftM (siToFp v ret) := by
      rcases hret with rfl | rfl <;> simp [coerceReturn, coerce, hn, Ty.isPtr]
    rw [hcoerce]
    exact yields_siToFp hret hv

theorem yields_coerceReturn (hret : ∀ n, ret = .int n → 0 < n ∧ n ≤ 64) (hv : w.Has v) :
    Lowers env (coerceReturn v ret span) s w fun u w' => ReturnYields ret w v u w' := by
  cases ret with
  | int bits =>
    obtain ⟨hpos, hle⟩ := hret bits rfl
    unfold coerceReturn
    split
    · exact .fail
    · refine (yields_coerce hv).mono fun u w' _ hu => ⟨hu.1.typed _, ?_⟩
      intro x r hr f hf c hc hx
      cases hr
      obtain ⟨d, hkeeps, hd, hconverted⟩ := hu.2 x hpos hle f hf c hc hx
      exact ⟨d, hkeeps, hd, Point.int?_eq_some.mp hconverted.read⟩
  | float => exact yields_returnFloat (.inl rfl) hv
  | double => exact yields_returnFloat (.inr rfl) hv
  | _ => exact (lowers_coerceReturn hv).mono fun u w' _ hu => ⟨hu, nofun⟩

end Aero.Lowering
