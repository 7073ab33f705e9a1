import Aero.Proofs.Cells
import Aero.Proofs.Operator

/-!
Conversions and operators on numbers. The code of an operator leaves memory as it is and makes an
operand that holds what evaluation gives for the numbers of the operands.
-/

namespace Aero.IR

theorem Site.Has.typed {v : Value} {w : Site False} (h : w.Has v) (ty : Ty) : w.Val v ty :=
  ⟨h, False.elim⟩

end Aero.IR

namespace Aero.Lowering

open IR IR.Build IR.Site Evaluation

variable [Library] {env : Env} {s : State} {w w1 w' : Site False} {pre mid post : Point cells → Prop}
  {make : Value → Value → Build Value} {op : BinOp} {n bits : Nat} {instr : BinaryOp} {span : Span} {x y z : Word}

/-- From where one condition holds, the code between two sites leads to where another holds and leaves
memory as it is. -/
def Yields (w w' : Site False) (pre post : Point cells → Prop) : Prop :=
  ∀ f : Function, w'.Embeds f → ∀ c : Point cells, c.At w → pre c →
    ∃ d, f.Keeps (fun _ => True) w.fn.nextReg c d ∧ d.At w' ∧ post d

theorem Yields.refl (h : ∀ c, pre c → post c) : Yields w w pre post :=
  fun _ _ c hc hpre => ⟨c, .refl c, hc, h c hpre⟩

theorem Yields.same (hsame : w'.fn = w.fn ∧ w'.block = w.block) (h : ∀ c, pre c → post c) : Yields w w' pre post :=
  fun _ _ c hc hpre => ⟨c, .refl c, ⟨hsame.2 ▸ hc.block_eq, hsame.2 ▸ hc.done_eq⟩, h c hpre⟩

theorem Yields.trans (h : Yields w w1 pre mid) (h' : Yields w1 w' mid post) (hle : w ≤ w1)
    (hle' : w1 ≤ w') : Yields w w' pre post := by
  intro f hf c hc hpre
  obtain ⟨d, hkeeps, hd, hmid⟩ := h f (hf.of_le hle') c hc hpre
  obtain ⟨e, hkeeps', he, hpost⟩ := h' f hf d hd hmid
  exact ⟨e, hkeeps.trans (hkeeps'.mono hle.nextReg_le), he, hpost⟩

/-! ### Conversions -/

omit [Library] in
theorem isInt_iff {ty : Ty} : ty.isInt = true ↔ ∃ n, ty = .int n := by
  cases ty <;> simp [Ty.isInt]

variable {v l r : Value}

/-- What is said of numbers holds of operands of other types. -/
theorem Yields.of_not_int (hv : v.ty.isInt = false)
    (hpre : ∀ c, pre c → Holds w.fn.nextReg c v x) : Yields w w' pre post := by
  intro f _ c _ hc
  rw [(hpre c hc).isInt] at hv
  cases hv

omit [Library] in
theorem value_zero (hpos : 0 < n) : (Word.ofInt n 0).value = 0 := by
  by_cases hone : 1 < n
  · rw [Word.value_eq_toInt hone]
    exact BitVec.toInt_zero
  · obtain rfl : n = 1 := by omega
    rfl

theorem yields_isNonzero (hv : w.Has v) : Lowers env (liftM (isNonzero v)) s w fun u w' => w'.Has u ∧ ∀ x, 1 < x.width →
      Yields w w' (Holds w.fn.nextReg · v x) (Holds w'.fn.nextReg · u (.ofBool x.isTrue)) := by
  refine (Lowers.lift_run (emits_isNonzero hv False.elim)).mono ?_
  rintro u w' _ ⟨hu, hopen, hrun⟩
  refine ⟨hu.1, fun x hone f hf c hc hx => ?_⟩
  rw [isNonzero, hx.ty_eq] at hrun
  have hzero := holds_ofInt w.fn.nextReg c 0 hx.pos hx.le
  refine icmp_holds hopen hu.1 hf hc .ne hrun hx hzero rfl hone ?_
  exact (value_zero hx.pos).symm ▸ rfl

theorem yields_intCast (hv : w.Has v) :
    Lowers env (liftM (intCast v (.int bits) true)) s w fun u w' => w'.Has u ∧ ∀ x, 1 < bits → bits ≤ 64 →
        Yields w w' (Holds w.fn.nextReg · v x) (Holds w'.fn.nextReg · u (x.convert bits)) := by
  refine (Lowers.lift_run (emits_intCast ⟨hv, False.elim⟩ rfl)).mono ?_
  rintro u w' _ ⟨hu, hopen, hrun⟩
  refine ⟨hu.1, fun x hone hle f hf c hc hx => ?_⟩
  rw [Word.convert, if_neg (ne_of_gt hone)]
  exact intCast_holds hopen hu.1 hf hc hrun hx hone hle

omit [Library] in
theorem toBool_int (span : Span) (hv : v.ty = .int n) (hn : n ≠ 1) : toBool v span = liftM (isNonzero v) := by
  rw [toBool, hv]
  match n, hn with
  | 0, _ => rfl
  | _ + 2, _ => rfl

theorem yields_toBool (span : Span) (hv : w.Has v) : Lowers env (toBool v span) s w fun u w' => w'.Has u ∧
      ∀ x, Yields w w' (Holds w.fn.nextReg · v x) (Holds w'.fn.nextReg · u (.ofBool x.isTrue)) := by
  cases hint : v.ty.isInt with
  | false =>
    refine (lowers_toBool span hv).mono fun u w' _ hu => ⟨hu.1, fun x => ?_⟩
    exact .of_not_int hint fun _ h => h
  | true =>
    obtain ⟨n, hn⟩ := isInt_iff.mp hint
    by_cases hone : n = 1
    · subst hone
      rw [toBool, hn]
      refine .pure ⟨hv, fun x => .refl fun c hx => ?_⟩
      rwa [Word.ofBool_isTrue (Ty.int.inj (hx.ty_eq.symm.trans hn))]
    · rw [toBool_int span hn hone]
      refine (yields_isNonzero hv).mono fun u w' _ hu => ⟨hu.1, fun x f hf c hc hx => ?_⟩
      have hwidth : x.width = n := Ty.int.inj (hx.ty_eq.symm.trans hn)
      exact hu.2 x (by have := hx.pos; omega) f hf c hc hx

omit [Library] in
theorem coerce_int (context : Coercion) (span : Span) (hv : v.ty = .int n)
    (hne : n ≠ bits) : coerce v (.int bits) context span =
      if bits = 1 then liftM (isNonzero v) else liftM (intCast v (.int bits) true) := by
  unfold coerce
  rw [hv, if_neg fun heq => hne (Ty.int.inj heq)]
  match bits with
  | 0 => rfl
  | 1 => rfl
  | _ + 2 => rfl

theorem yields_coerce {context : Coercion} (hv : w.Has v) :
    Lowers env (coerce v (.int bits) context span) s w fun u w' => w'.Has u ∧ ∀ x, 0 < bits → bits ≤ 64 →
        Yields w w' (Holds w.fn.nextReg · v x) (Holds w'.fn.nextReg · u (x.convert bits)) := by
  cases hint : v.ty.isInt with
  | false =>
    refine (lowers_coerce hv).mono fun u w' _ hu => ⟨hu.1, fun x _ _ => ?_⟩
    exact .of_not_int hint fun _ h => h
  | true =>
    obtain ⟨n, hn⟩ := isInt_iff.mp hint
    by_cases heq : n = bits
    · subst heq
      unfold coerce
      rw [if_pos hn]
      refine .pure ⟨hv, fun x _ _ => .refl fun c hx => ?_⟩
      rwa [← Ty.int.inj (hx.ty_eq.symm.trans hn), Word.convert_width hx.pos]
    · rw [coerce_int context span hn heq]
      have hwidth : ∀ {c : Point cells} {x : Word}, Holds w.fn.nextReg c v x → x.width = n :=
        fun hx => Ty.int.inj (hx.ty_eq.symm.trans hn)
      split
      · next hone =>
        refine (yields_isNonzero hv).mono fun u w' _ hu => ⟨hu.1, fun x _ _ f hf c hc hx => ?_⟩
        rw [Word.convert, if_pos hone]
        have := hwidth hx
        exact hu.2 x (by have := hx.pos; omega) f hf c hc hx
      · exact (yields_intCast hv).mono fun u w' _ hu =>
          ⟨hu.1, fun x hpos hle => hu.2 x (by omega) hle⟩

omit [Library] in
theorem one_lt_commonWidth (x y : Word) : 1 < commonWidth x y :=
  lt_of_lt_of_le (by decide) (le_max_right _ 32)

omit [Library] in
/-- The common width has room for both numbers. -/
theorem value_left (x y : Word) : (x.convert (commonWidth x y)).value = x.value :=
  Word.value_convert (le_trans (le_max_left _ _) (le_max_left _ _)) (one_lt_commonWidth x y)

omit [Library] in
theorem value_right (x y : Word) : (y.convert (commonWidth x y)).value = y.value :=
  Word.value_convert (le_trans (le_max_right _ _) (le_max_left _ _)) (one_lt_commonWidth x y)

theorem yields_promotePair (hl : w.Has l) (hr : w.Has r) :
    Lowers env (promotePair l r span) s w fun p w' => (w'.Has p.1 ∧ w'.Has p.2) ∧ ∀ x y,
      Yields w w' (fun c => Holds w.fn.nextReg c l x ∧ Holds w.fn.nextReg c r y) fun d =>
        Holds w'.fn.nextReg d p.1 (x.convert (commonWidth x y)) ∧
          Holds w'.fn.nextReg d p.2 (y.convert (commonWidth x y)) := by
  by_cases hint : l.ty.isInt = true ∧ r.ty.isInt = true
  · obtain ⟨a, ha⟩ := isInt_iff.mp hint.1
    obtain ⟨b, hb⟩ := isInt_iff.mp hint.2
    rw [promotePair, ha, hb]
    refine (yields_coerce hl).bind ?_
    rintro l' s1 w1 hle1 _ ⟨hl', hyields1⟩
    refine (yields_coerce (hr.mono hle1)).bind ?_
    rintro r' s2 w2 hle2 _ ⟨hr', hyields2⟩
    refine .pure ⟨⟨hl'.mono hle2, hr'⟩, fun x y f hf c hc hxy => ?_⟩
    have hwidth : commonWidth x y = max (max a b) 32 := by
      rw [commonWidth, Ty.int.inj (hxy.1.ty_eq.symm.trans ha), Ty.int.inj (hxy.2.ty_eq.symm.trans hb)]
    have hpos : 0 < commonWidth x y := Nat.lt_of_succ_lt (one_lt_commonWidth x y)
    have hle : commonWidth x y ≤ 64 := Nat.max_le.mpr ⟨Nat.max_le.mpr ⟨hxy.1.le, hxy.2.le⟩, by decide⟩
    rw [hwidth] at hpos hle ⊢
    obtain ⟨d, hkeeps1, hd, hx⟩ := hyields1 x hpos hle f (hf.of_le hle2) c hc hxy.1
    obtain ⟨e, hkeeps2, he, hy⟩ :=
      hyields2 y hpos hle f hf d hd (hxy.2.keep hkeeps1.runs hle1.nextReg_le)
    exact ⟨e, hkeeps1.trans (hkeeps2.mono hle1.nextReg_le), he, hx.keep hkeeps2.runs hle2.nextReg_le, hy⟩
  · refine (lowers_promotePair hl hr).mono ?_
    rintro p w' _ ⟨ty, _, hp, hq⟩
    refine ⟨⟨hp.1, hq.1⟩, fun x y f _ c _ hxy => absurd ⟨hxy.1.isInt, hxy.2.isInt⟩ hint⟩

/-! ### Operators -/

/-- An operator of the builder that is an operation on words where its operands are numbers. -/
structure IsOperation (make : Value → Value → Build Value) (op : BinOp) : Prop where
  emits : ∀ (w : Site False) (l r : Value), w.Has l → w.Has r →
    Emits (make l r) w fun v w' => w'.Has v
  eq : ∃ instr, operation? op = some instr ∧ ∀ n l r, l.ty = .int n → make l r = Build.binary instr l r

omit [Library] in
theorem isOperation_arith {integral floating : BinaryOp} (hop : operation? op = some integral)
    (hfloating : floating.isFloating = true) (hintegral : integral.isFloating = false) :
    IsOperation (arith floating integral) op where
  emits _ _ _ hl hr :=
    (emits_arith (hl.typed .i32) (hr.typed .i32) False.elim hfloating hintegral).left
  eq := ⟨integral, hop, fun n l r hn => by rw [arith, hn]; rfl⟩

omit [Library] in
theorem isOperation_add : IsOperation Build.add .add := isOperation_arith rfl rfl rfl

omit [Library] in
theorem isOperation_sub : IsOperation Build.sub .sub := isOperation_arith rfl rfl rfl

omit [Library] in
theorem isOperation_binary (hop : operation? op = some instr) : IsOperation (Build.binary instr) op where
  emits _ _ _ hl hr :=
    (emits_binary (hl.typed .i32) (hr.typed .i32) False.elim).left
  eq := ⟨instr, hop, fun _ _ _ _ => rfl⟩

theorem yields_operation (hmake : IsOperation make op) (hl : w.Has l) (hr : w.Has r) :
    Lowers env (liftM (make l r)) s w fun u w' => w'.Has u ∧ ∀ x y k, y.width = x.width →
      1 < x.width ∨ op ∈ onTruthValues → arithmetic? op x.width x.value y.value = some k →
      Yields w w' (fun c => Holds w.fn.nextReg c l x ∧ Holds w.fn.nextReg c r y)
        (Holds w'.fn.nextReg · u (.ofInt x.width k)) := by
  refine (Lowers.lift_run (hmake.emits w l r hl hr)).mono ?_
  rintro u w' _ ⟨hu, hopen, hrun⟩
  refine ⟨hu, fun x y k hwidth hwide hk f hf c hc hxy => ?_⟩
  obtain ⟨instr, hop, heq⟩ := hmake.eq
  rw [heq _ l r hxy.1.ty_eq] at hrun
  exact binary_holds hopen hu hf hc op hrun hop hxy.1 hxy.2 hwidth hwide hk

theorem yields_arithmetic (hmake : IsOperation make op) (hl : w.Has l) (hr : w.Has r) :
    Lowers env (arithmetic make l r span) s w fun u w' => w'.Has u ∧ ∀ x y k,
      arithmetic? op (commonWidth x y) x.value y.value = some k →
      Yields w w' (fun c => Holds w.fn.nextReg c l x ∧ Holds w.fn.nextReg c r y)
        (Holds w'.fn.nextReg · u (.ofInt (commonWidth x y) k)) := by
  refine (yields_promotePair hl hr).bind ?_
  rintro ⟨l', r'⟩ s1 w1 hle1 _ ⟨⟨hl', hr'⟩, hpair⟩
  refine (yields_operation hmake hl' hr').mono ?_
  rintro u w' hle ⟨hu, hyields⟩
  refine ⟨hu, fun x y k hk => (hpair x y).trans ?_ hle1 hle⟩
  have hresult := hyields (x.convert (commonWidth x y)) (y.convert (commonWidth x y)) k (by simp)
    (.inl (by simpa using one_lt_commonWidth x y)) ?_
  · rwa [Word.convert_width_eq] at hresult
  · rwa [Word.convert_width_eq, value_left, value_right]

theorem yields_compare (hl : w.Has l) (hr : w.Has r) :
    Lowers env (compare op l r span) s w fun u w' => w'.Has u ∧ ∀ x y b, comparison? op x.value y.value = some b →
      Yields w w' (fun c => Holds w.fn.nextReg c l x ∧ Holds w.fn.nextReg c r y)
        (Holds w'.fn.nextReg · u (.ofBool b)) := by
  by_cases hint : l.ty.isInt = true ∧ r.ty.isInt = true
  · obtain ⟨a, ha⟩ := isInt_iff.mp hint.1
    obtain ⟨b, hb⟩ := isInt_iff.mp hint.2
    unfold compare
    rw [ha, hb]
    refine (yields_promotePair hl hr).bind ?_
    rintro ⟨l', r'⟩ s1 w1 hle1 _ ⟨⟨hl', hr'⟩, hpair⟩
    refine .ite (fun hfp => ?_) fun hword => ?_
    · refine (Lowers.lift (emits_fcmp hl' hr' False.elim)).mono ?_
      refine fun u w' hle hu => ⟨hu.1, fun x y b hb f hf c hc hxy => ?_⟩
      obtain ⟨d, _, _, hx, _⟩ := hpair x y f (hf.of_le hle) c hc hxy
      rw [hx.ty_eq] at hfp
      cases hfp
    · refine (Lowers.lift_run (emits_icmp hl' hr' False.elim)).mono ?_
      rintro u w' hle ⟨hu, hopen, hrun⟩
      refine ⟨hu.1, fun x y b hb => (hpair x y).trans ?_ hle1 hle⟩
      rintro f hf c hc ⟨hx, hy⟩
      refine icmp_holds hopen hu.1 hf hc op hrun hx hy (by simp) (by simpa using one_lt_commonWidth x y) ?_
      rwa [value_left, value_right]
  · refine (lowers_compare hl hr).mono fun u w' _ hu => ⟨hu, ?_⟩
    exact fun x y b _ f _ c _ hxy => absurd ⟨hxy.1.isInt, hxy.2.isInt⟩ hint

theorem yields_logical (op : BinOp) (join : Bool → Bool → Bool) (hop : operation? op = some instr)
    (hbits : op ∈ onTruthValues)
    (hjoin : ∀ a b, (arithmetic? op 1 (Word.ofBool a).value (Word.ofBool b).value).map (Word.ofInt 1) =
      some (.ofBool (join a b))) (span : Span) (hl : w.Has l) (hr : w.Has r) :
    Lowers env (logical instr l r span) s w fun u w' => w'.Has u ∧ ∀ x y,
      Yields w w' (fun c => Holds w.fn.nextReg c l x ∧ Holds w.fn.nextReg c r y)
        (Holds w'.fn.nextReg · u (.ofBool (join x.isTrue y.isTrue))) := by
  refine (yields_toBool span hl).bind ?_
  rintro l' s1 w1 hle1 _ ⟨hl', hyields1⟩
  refine (yields_toBool span (hr.mono hle1)).bind ?_
  rintro r' s2 w2 hle2 _ ⟨hr', hyields2⟩
  refine (yields_operation (isOperation_binary hop) (hl'.mono hle2) hr').mono ?_
  rintro u w3 hle3 ⟨hu, hyields3⟩
  refine ⟨hu, fun x y f hf c hc hxy => ?_⟩
  have hf2 := hf.of_le hle3
  obtain ⟨k, hk, hvalue⟩ := Option.map_eq_some_iff.mp (hjoin x.isTrue y.isTrue)
  rw [← hvalue]
  obtain ⟨d, hkeeps1, hd, hx⟩ := hyields1 x f (hf2.of_le hle2) c hc hxy.1
  obtain ⟨e, hkeeps2, he, hy⟩ := hyields2 y f hf2 d hd (hxy.2.keep hkeeps1.runs hle1.nextReg_le)
  obtain ⟨g, hkeeps3, hresult⟩ := hyields3 (.ofBool x.isTrue) (.ofBool y.isTrue) k rfl (.inr hbits)
    hk f hf e he ⟨hx.keep hkeeps2.runs hle2.nextReg_le, hy⟩
  exact ⟨g, hkeeps1.trans ((hkeeps2.trans (hkeeps3.mono hle2.nextReg_le)).mono hle1.nextReg_le), hresult⟩

omit [Library] in
theorem binary?_arithmetic (hop : operation? op = some instr) (h : binary? op x y = some z) :
    ∃ k, arithmetic? op (commonWidth x y) x.value y.value = some k ∧ .ofInt (commonWidth x y) k = z := by
  unfold binary? at h
  split at h
  · cases hop
  · cases hop
  · split at h
    · cases h
    · have hcomparison : op.isComparison = false := by cases op <;> cases hop <;> rfl
      rw [hcomparison] at h
      exact Option.map_eq_some_iff.mp h

omit [Library] in
theorem binary?_comparison (hop : op.isComparison = true) (h : binary? op x y = some z) :
    ∃ b, comparison? op x.value y.value = some b ∧ .ofBool b = z := by
  unfold binary? at h
  split at h
  · cases hop
  · cases hop
  · rw [if_pos hop] at h
    split at h
    · cases h
    · exact Option.map_eq_some_iff.mp h

theorem yields_binaryValues (op : BinOp) (span : Span) (hl : w.Has l) (hr : w.Has r) :
    Lowers env (binaryValues op l r span) s w fun u w' => w'.Has u ∧ ∀ x y z, binary? op x y = some z →
      Yields w w' (fun c => Holds w.fn.nextReg c l x ∧ Holds w.fn.nextReg c r y) (Holds w'.fn.nextReg · u z) := by
  by_cases hint : l.ty.isInt = true ∧ r.ty.isInt = true
  · obtain ⟨a, ha⟩ := isInt_iff.mp hint.1
    obtain ⟨b, hb⟩ := isInt_iff.mp hint.2
    have harith : ∀ {op make}, IsOperation make op →
        Lowers env (arithmetic make l r span) s w fun u w' => w'.Has u ∧ ∀ x y z, binary? op x y = some z →
          Yields w w' (fun c => Holds w.fn.nextReg c l x ∧ Holds w.fn.nextReg c r y) (Holds w'.fn.nextReg · u z) := by
      intro op make hmake
      refine (yields_arithmetic hmake hl hr).mono fun u w' _ hu => ⟨hu.1, ?_⟩
      intro x y z hz
      obtain ⟨instr, hop, _⟩ := hmake.eq
      obtain ⟨k, hk, rfl⟩ := binary?_arithmetic hop hz
      exact hu.2 x y k hk
    have hlOperand : isOperand l = true := by rw [isOperand, ha]; rfl
    have hrOperand : isOperand r = true := by rw [isOperand, hb]; rfl
    unfold binaryValues
    rw [hlOperand, hrOperand]
    refine .ite nofun fun _ => .ite nofun fun _ => ?_
    cases op with
    | and =>
      refine (yields_logical .bitAnd (· && ·) rfl (by decide) (by decide) span hl hr).mono fun u w' _ hu => ⟨hu.1, ?_⟩
      rintro x y z ⟨⟩
      exact hu.2 x y
    | or =>
      refine (yields_logical .bitOr (· || ·) rfl (by decide) (by decide) span hl hr).mono fun u w' _ hu => ⟨hu.1, ?_⟩
      rintro x y z ⟨⟩
      exact hu.2 x y
    | add =>
      refine .ite (fun hchars => ?_) fun _ => .ite (fun h => ?_) fun _ =>
        harith (isOperation_arith rfl rfl rfl)
      · -- The sum of two characters is a text, and evaluation gives no number.
        simp only [Bool.and_eq_true, Ty.isChar, decide_eq_true_eq] at hchars
        refine (Lowers.lift (Text.emits_ofPair (hl.typed .i8) (hr.typed .i8))).mono
          fun u w' _ hu => ⟨hu.1, fun x y z hz f _ c _ hxy => ?_⟩
        have hx : x.width = 8 := Ty.int.inj (hxy.1.ty_eq.symm.trans hchars.1)
        have hy : y.width = 8 := Ty.int.inj (hxy.2.ty_eq.symm.trans hchars.2)
        have hnone : binary? .add x y = none := if_pos ⟨rfl, hx, hy⟩
        rw [hnone] at hz
        cases hz
      · rw [ha, hb] at h
        cases h
    | sub | mul | div => exact harith (isOperation_arith rfl rfl rfl)
    | mod =>
      unfold remainder
      rw [ha, hb]
      exact harith (isOperation_arith rfl rfl rfl)
    | bitAnd | bitOr | bitXor | shl | shr =>
      unfold bitwise
      rw [ha, hb]
      exact harith (isOperation_binary rfl)
    | eq | ne | lt | le | gt | ge =>
      refine (yields_compare hl hr).mono fun u w' _ hu => ⟨hu.1, fun x y z hz => ?_⟩
      obtain ⟨b, hb, rfl⟩ := binary?_comparison rfl hz
      exact hu.2 x y b hb
  · refine (lowers_binaryValues hl hr).mono fun u w' _ hu => ⟨hu, ?_⟩
    exact fun x y z _ f _ c _ hxy => absurd ⟨hxy.1.isInt, hxy.2.isInt⟩ hint

theorem yields_not (hv : w.Has v) : Lowers env (liftM (Build.not v)) s w fun u w' => w'.Has u ∧ ∀ b,
      Yields w w' (Holds w.fn.nextReg · v (.ofBool b)) (Holds w'.fn.nextReg · u (.ofBool !b)) := by
  refine (Lowers.lift_run (emits_not (hv.typed .i1))).mono ?_
  rintro u w' _ ⟨hu, hopen, hrun⟩
  refine ⟨hu.1, fun b f hf c hc hb => ?_⟩
  have hones := holds_ofInt w.fn.nextReg c (-1) hb.pos hb.le
  rw [Build.not, hb.ty_eq] at hrun
  have hresult := binary_holds hopen hu.1 hf hc .bitXor hrun rfl hb hones rfl (.inr (by decide)) rfl
  cases b <;> exact hresult

theorem yields_unaryValue (op : UnaryOp) (span : Span) (hv : w.Has v) :
    Lowers env (unaryValue op v span) s w fun u w' => w'.Has u ∧ ∀ x,
      Yields w w' (Holds w.fn.nextReg · v x) (Holds w'.fn.nextReg · u (unary op x)) := by
  cases op with
  | neg =>
    refine .ite (fun hnumeric => ?_) fun _ => .fail
    refine (Lowers.lift_run (emits_neg hv.val False.elim)).mono ?_
    rintro u w' _ ⟨hu, hopen, hrun⟩
    refine ⟨hu.1, fun x f hf c hc hx => ?_⟩
    have hzero := holds_ofInt w.fn.nextReg c 0 hx.pos hx.le
    have hneg : .neg v = Build.binary .sub (.ofInt (.int x.width) 0) v := by
      rw [Build.neg, hx.ty_eq]
      rfl
    rw [hneg] at hrun
    have hresult := binary_holds hopen hu.1 hf hc .sub hrun rfl hzero hx rfl (.inr (by decide)) rfl
    have hvalue : (Word.ofInt x.width (0 : Int64).toInt).value = 0 := value_zero hx.pos
    rwa [hvalue, Int.zero_sub] at hresult
  | plus => exact .ite (fun _ => .pure ⟨hv, fun x => .refl fun _ h => h⟩) fun _ => .fail
  | not =>
    refine (yields_toBool span hv).bind ?_
    rintro b s1 w1 hle1 _ ⟨hb, hbool⟩
    refine (yields_not hb).mono fun u w' hle hu => ⟨hu.1, fun x => ?_⟩
    exact (hbool x).trans (hu.2 x.isTrue) hle1 hle

omit [Library] in
theorem castValue_int (bits : Nat) (span : Span) (hv : v.ty = .int n) : castValue v (.int bits) span =
    if bits = 1 then toBool v span else coerce v (.int bits) .operand span := by
  unfold castValue
  rw [hv]
  match bits with
  | 0 => rfl
  | 1 => rfl
  | _ + 2 => rfl

theorem yields_castValue (hv : w.Has v) :
    Lowers env (castValue v (.int bits) span) s w fun u w' => w'.Has u ∧ ∀ x, 0 < bits → bits ≤ 64 →
        Yields w w' (Holds w.fn.nextReg · v x) (Holds w'.fn.nextReg · u (x.convert bits)) := by
  cases hint : v.ty.isInt with
  | false =>
    refine (lowers_castValue hv).mono fun u w' _ hu => ⟨hu.1, fun x _ _ => ?_⟩
    exact .of_not_int hint fun _ h => h
  | true =>
    obtain ⟨n, hn⟩ := isInt_iff.mp hint
    rw [castValue_int bits span hn]
    split
    · next hone =>
      subst hone
      exact (yields_toBool span hv).mono fun u w' _ hu => ⟨hu.1, fun x _ _ => hu.2 x⟩
    · exact yields_coerce hv

end Aero.Lowering
