import Aero.Lowering.Arithmetic
import Aero.Proofs.Evaluation
import Aero.Proofs.Execution
import Mathlib.Algebra.Ring.Nat

/-!
Numbers, the words that hold them, and folding. An operation on words yields the word of what the operation gives on
their numbers. A constant that takes the place of an operation is normalized to its type, and it is what the operation
yields wherever it yields anything. A quotient that overflows is kept from folding at 64 bits only.
-/

open BitVec hiding cast_eq or_comm

namespace Aero.IR

variable {x : Word} {n : Nat}

namespace Word

theorem value_eq_toInt (h : 1 < x.width) : x.value = x.bits.toInt :=
  if_neg (ne_of_gt h)

theorem ofInt_value (hpos : 0 < x.width) : ofInt x.width x.value = x := by
  rcases x with ⟨n, a⟩
  by_cases hn : n = 1
  · subst hn
    rw [ofInt, value, if_pos rfl, ofInt_natCast, ofNat_toNat, setWidth_eq]
  · rw [ofInt, value, if_neg hn, BitVec.ofInt_toInt]

theorem ofInt_bmod (hn : n ≤ 64) (i : Int) : ofInt n (i.bmod (2 ^ 64)) = ofInt n i := by
  have hbits : BitVec.ofInt n (i.bmod (2 ^ 64)) = BitVec.ofInt n i := by
    apply eq_of_toInt_eq
    rw [toInt_ofInt, toInt_ofInt, Int.bmod_bmod_of_dvd (Nat.pow_dvd_pow 2 hn)]
  rw [ofInt, hbits, ofInt]

@[simp] theorem isTrue_ofBool (b : Bool) : (ofBool b).isTrue = b := by
  cases b <;> rfl

theorem ofBool_isTrue (h : x.width = 1) : ofBool x.isTrue = x := by
  rcases x with ⟨n, a⟩
  subst h
  revert a
  decide

/-- A constant that was cut to a width is the number of its word. -/
theorem toInt_normalize (r : Int64) (hpos : 0 < n) (hn : n ≤ 64) : (normalize r n).toInt = (ofInt n r.toInt).value := by
  rw [ofInt_toInt r hn, ← Int64.toInt_toBitVec]
  by_cases hone : n = 1
  · subst hone
    rw [normalize_one_toBitVec, value, if_pos rfl, toInt_setWidth]
    rw [Int.bmod_eq_of_le_mul_two (by omega) (by omega)]
  · rw [normalize_toBitVec r (by omega), toInt_signExtend_of_le hn, value, if_neg hone]

theorem convert_width (hpos : 0 < x.width) : x.convert x.width = x := by
  rw [convert]
  split
  · next hone => exact ofBool_isTrue hone
  · exact ofInt_value hpos

@[simp] theorem convert_width_eq (x : Word) (n : Nat) : (x.convert n).width = n := by
  rw [convert]
  split
  · next hone => exact hone.symm
  · rfl

theorem value_convert (hn : x.width ≤ n) (hone : 1 < n) : (x.convert n).value = x.value := by
  rw [convert, if_neg (ne_of_gt hone), value_eq_toInt hone]
  rcases x with ⟨k, a⟩
  by_cases hk : k = 1
  · subst hk
    rcases eq_zero_or_eq_one a with rfl | rfl
    · exact toInt_zero
    · exact toInt_one hone
  · rw [value, if_neg hk]
    exact toInt_signExtend_of_le hn

end Word

end Aero.IR

namespace Aero.Evaluation

open IR

variable {n : Nat} {b a : BitVec n} {op : BinOp} {instr : BinaryOp} {k : Int}

def operation? : BinOp → Option BinaryOp
  | .add => some .add
  | .sub => some .sub
  | .mul => some .mul
  | .div => some .sdiv
  | .mod => some .srem
  | .bitAnd => some .and
  | .bitOr => some .or
  | .bitXor => some .xor
  | .shl => some .shl
  | .shr => some .ashr
  | _ => none

theorem ofInt_sub (i j : Int) : BitVec.ofInt n (i - j) = BitVec.ofInt n i - BitVec.ofInt n j := by
  rw [Int.sub_eq_add_neg, ofInt_add, ofInt_neg, sub_eq_add_neg]

theorem ofInt_mul_pow (i : Int) (k : Nat) : BitVec.ofInt n (i * 2 ^ k) = BitVec.ofInt n i <<< k := by
  have hpow : BitVec.ofInt n (2 ^ k) = BitVec.twoPow n k := by
    have hcast : (2 : Int) ^ k = ((2 ^ k : Nat) : Int) := (Int.natCast_pow 2 k).symm
    apply eq_of_toNat_eq
    rw [hcast, ofInt_natCast, toNat_ofNat, toNat_twoPow]
  rw [shiftLeft_eq_mul_twoPow, ofInt_mul, hpow]

theorem div_two_pow (i : Int) (k : Nat) : i / 2 ^ k = i >>> k := by
  rw [Int.shiftRight_eq_div_pow]
  rfl

theorem toNat_of_shift (h : 0 ≤ b.toInt) : b.toNat = b.toInt.toNat := by
  rw [toInt_eq_toNat_of_msb (msb_eq_false_iff_two_mul_lt.mpr ?_), Int.toNat_natCast]
  rw [toInt_eq_toNat_cond] at h
  split at h
  · assumption
  · have := b.isLt
    omega

/-- A quotient of the numbers of two words is defined if and only if it is defined on the words. -/
theorem divides_iff (hn : 0 < n) : divides n a.toInt b.toInt = true ↔ ¬ (b = 0 ∨ a = BitVec.intMin n ∧ b = -1) := by
  have hmin : a.toInt = -(2 ^ (n - 1)) ↔ a = BitVec.intMin n := by
    rw [← toInt_intMin_of_pos hn, toInt_inj]
  have hone : b.toInt = -1 ↔ b = -1 := by
    have hallOnes : (-1#n).toInt = -1 := by
      rw [neg_one_eq_allOnes, toInt_allOnes, if_pos hn]
    rw [← hallOnes, toInt_inj]
    rfl
  have hzero : b.toInt = 0 ↔ b = 0 := by
    rw [← toInt_zero, toInt_inj]
    rfl
  simp [divides, hmin, hone, hzero, imp_iff_not_or]

theorem onBits?_arithmetic (hop : operation? op = some instr) (hn : 0 < n)
    (hk : arithmetic? op n a.toInt b.toInt = some k) : instr.onBits? a b = some (BitVec.ofInt n k) := by
  have hdiv : divides n a.toInt b.toInt = true → ∀ c : BitVec n, c.toInt = k.bmod (2 ^ n) →
      (if b = 0 ∨ a = BitVec.intMin n ∧ b = -1 then none else some c) = some (BitVec.ofInt n k) := by
    intro h c hc
    rw [if_neg ((divides_iff hn).mp h)]
    exact congrArg some (eq_of_toInt_eq (hc.trans (toInt_ofInt k).symm))
  cases op <;> cases hop <;> simp only [arithmetic?, Option.ite_none_right_eq_some] at hk
  case add =>
    cases hk
    rw [ofInt_add, ofInt_toInt, ofInt_toInt]
    rfl
  case sub =>
    cases hk
    rw [ofInt_sub, ofInt_toInt, ofInt_toInt]
    rfl
  case mul =>
    cases hk
    rw [ofInt_mul, ofInt_toInt, ofInt_toInt]
    rfl
  case div =>
    obtain ⟨h, hk⟩ := hk
    cases hk
    exact hdiv h _ (toInt_sdiv a b)
  case mod =>
    obtain ⟨h, hk⟩ := hk
    cases hk
    refine hdiv h _ ((toInt_srem a b).trans ?_)
    rw [← toInt_srem, toInt_bmod_cancel]
  case bitAnd | bitOr | bitXor =>
    cases hk
    simp only [onBits, ofInt_toInt]
    rfl
  case shl =>
    obtain ⟨h, hk⟩ := hk
    cases hk
    have hnat := toNat_of_shift h.1
    have hlt : b.toNat < n := by omega
    rw [ofInt_mul_pow, ofInt_toInt, ← hnat]
    exact if_pos hlt
  case shr =>
    obtain ⟨h, hk⟩ := hk
    cases hk
    have hnat := toNat_of_shift h.1
    have hlt : b.toNat < n := by omega
    rw [div_two_pow, ← hnat, ← toInt_sshiftRight, ofInt_toInt]
    exact if_pos hlt

theorem smod_of_shift {b : Int64} (hn : n ≤ 64) (h : isShift n b = true) :
    b.toBitVec.smod 64 = BitVec.ofNat 64 b.toInt.toNat := by
  simp only [isShift, Bool.and_eq_true, decide_eq_true_eq] at h
  have hb : b = Int64.ofNat b.toInt.toNat := by
    rw [← Int64.ofInt_eq_ofNat, Int.toNat_of_nonneg h.1, Int64.ofInt_toInt]
  have hlt : b.toInt.toNat < 64 := by omega
  have hsmod := smod_size_of_lt hlt
  rwa [← hb] at hsmod

theorem toInt_shiftLeft {a b : Int64} (hn : n ≤ 64) (h : isShift n b = true) :
    (a <<< b).toInt = (a.toInt * 2 ^ b.toInt.toNat).bmod (2 ^ 64) := by
  have hlt : b.toInt.toNat < 2 ^ 64 := by
    have := b.toInt_lt
    omega
  rw [← Int64.toInt_toBitVec, Int64.toBitVec_shiftLeft, smod_of_shift hn h, shiftLeft_eq',
    toNat_ofNat, Nat.mod_eq_of_lt hlt, ← toInt_ofInt, ofInt_mul_pow,
    ← Int64.toInt_toBitVec a, ofInt_toInt]

theorem toInt_shiftRight {a b : Int64} (hn : n ≤ 64) (h : isShift n b = true) :
    (a >>> b).toInt = a.toInt / 2 ^ b.toInt.toNat := by
  have hlt : b.toInt.toNat < 2 ^ 64 := by
    have := b.toInt_lt
    omega
  rw [div_two_pow, ← Int64.toInt_toBitVec, Int64.toBitVec_shiftRight, smod_of_shift hn h,
    BitVec.sshiftRight', toNat_ofNat, Nat.mod_eq_of_lt hlt, toInt_sshiftRight, Int64.toInt_toBitVec]

/-- An operation on constants yields the constant of the result. -/
theorem onInts?_arithmetic {a b r : Int64}
    (hop : operation? op = some instr) (hn : n ≤ 64) (hr : instr.onInts? n a b = some r)
    (hk : arithmetic? op n a.toInt b.toInt = some k) : Word.ofInt n r.toInt = Word.ofInt n k := by
  -- Operations on bits are the same before and after the cut.
  have hbits : ∀ {c : Int64} (f : BitVec n → BitVec n → BitVec n)
      (g : BitVec 64 → BitVec 64 → BitVec 64), c.toBitVec = g a.toBitVec b.toBitVec →
      (∀ x y, (g x y).setWidth n = f (x.setWidth n) (y.setWidth n)) →
      .ofInt n c.toInt = Word.ofInt n (onBits n f a.toInt b.toInt) := by
    intro c f g hc hg
    have hword : ∀ d : Int64, BitVec.ofInt n d.toInt = d.toBitVec.setWidth n := fun d =>
      signExtend_eq_setWidth_of_le _ hn
    rw [Word.ofInt, Word.ofInt, onBits, ofInt_toInt, hword, hword, hword, hc, hg]
  cases op <;> cases hop <;>
    simp only [arithmetic?, BinaryOp.onInts?, Option.ite_none_right_eq_some] at hk hr
  case add =>
    cases hk
    cases hr
    rw [Int64.toInt_add, Word.ofInt_bmod hn]
  case sub =>
    cases hk
    cases hr
    rw [Int64.toInt_sub, Word.ofInt_bmod hn]
  case mul =>
    cases hk
    cases hr
    rw [Int64.toInt_mul, Word.ofInt_bmod hn]
  case div =>
    obtain ⟨_, hk⟩ := hk
    obtain ⟨_, hr⟩ := hr
    cases hk
    cases hr
    rw [Int64.toInt_div, Word.ofInt_bmod hn]
  case mod =>
    obtain ⟨_, hk⟩ := hk
    obtain ⟨_, hr⟩ := hr
    cases hk
    cases hr
    rw [Int64.toInt_mod]
  case bitAnd =>
    cases hk
    cases hr
    exact hbits _ _ (Int64.toBitVec_and a b) fun _ _ => setWidth_and
  case bitOr =>
    cases hk
    cases hr
    exact hbits _ _ (Int64.toBitVec_or a b) fun _ _ => setWidth_or
  case bitXor =>
    cases hk
    cases hr
    exact hbits _ _ (Int64.toBitVec_xor a b) fun _ _ => setWidth_xor
  case shl =>
    obtain ⟨_, hk⟩ := hk
    obtain ⟨hshift, hr⟩ := hr
    cases hk
    cases hr
    rw [toInt_shiftLeft hn hshift, Word.ofInt_bmod hn]
  case shr =>
    obtain ⟨_, hk⟩ := hk
    obtain ⟨hshift, hr⟩ := hr
    cases hk
    cases hr
    rw [toInt_shiftRight hn hshift]

/-! ### Comparisons -/

theorem onBits_comparison {c : Bool} (hc : comparison? op a.toInt b.toInt = some c) :
    (Lowering.intPredicate op).onBits a b = c := by
  cases op <;> simp only [comparison?, Option.some.injEq, reduceCtorEq] at hc <;> subst hc
  case eq | ne =>
    simp only [Lowering.intPredicate, IntPredicate.onBits, toInt_inj, ne_eq]
  all_goals
    rw [Bool.eq_iff_iff]
    simp only [Lowering.intPredicate, IntPredicate.onBits, slt_iff_toInt_lt,
      sle_iff_toInt_le, decide_eq_true_eq]

end Aero.Evaluation

/-! ### Folding and running -/

namespace Aero.IR

open Option

/-- A constant of a width that is normalized to it. -/
structure Value.Normal (v : Value) (bits : Nat) (k : Int64) : Prop where
  ty_eq : v.ty = .int bits
  int?_eq : v.int? = some k
  normalize_eq : normalize k bits = k

/-- A constant takes the place of an instruction: where the instruction has a result, the constant reads as it. -/
structure Value.Replaces (u : Value) (i : Instr) (bits : Nat) : Prop where
  normal : ∃ k, u.Normal bits k
  agrees : ∀ {P : Platform} (c : Point P) (args : List Datum) (d : Datum),
    i.operands.mapM c.read? = some args → i.compute? args = some d → c.read? u = some d

/-- A conversion of whole numbers from one width to another: numbers are cut to fewer bits, and truth values are
widened by zeros only. -/
def CastOp.Resizes (op : CastOp) (bits target : Nat) : Prop :=
  match op with
  | .trunc => target ≤ bits
  | .zext => True
  | .sext => 1 < bits
  | _ => False

variable {n m : Nat} {a b k : Int64} {l r u : Value} {op : BinaryOp}

/-! ### Normalized constants -/

theorem normalize_normalize (v : Int64) (hpos : 0 < n) (hn : n ≤ 64) : normalize (normalize v n) n = normalize v n := by
  apply Int64.toInt_inj.mp
  rw [Word.toInt_normalize _ hpos hn, Word.toInt_normalize _ hpos hn]
  exact congrArg Word.value (Word.ofInt_value (x := .ofInt n v.toInt) hpos)

theorem normal_ofInt (v : Int64) (hpos : 0 < n) (hn : n ≤ 64) : (Value.ofInt (.int n) v).Normal n (normalize v n) :=
  ⟨rfl, rfl, normalize_normalize v hpos hn⟩

theorem normal_ofBool (p : Bool) : ∃ k, (Value.ofBool p).Normal 1 k := by
  cases p
  · exact ⟨0, rfl, rfl, by decide⟩
  · exact ⟨1, rfl, rfl, by decide⟩

/-- A normalized constant is the signed number in its lowest bits. -/
theorem toInt_of_normalize (ha : normalize a n = a) (hwide : 1 < n) (hn : n ≤ 64) :
    (a.toBitVec.setWidth n).toInt = a.toInt := by
  have hvalue := Word.toInt_normalize a (Nat.lt_of_succ_lt hwide) hn
  rw [ha, Word.ofInt_toInt a hn, Word.value_eq_toInt hwide] at hvalue
  exact hvalue.symm

theorem toBitVec_unsignedAt (a : Int64) (hn : n ≤ 64) :
    (unsignedAt n a).toBitVec = (a.toBitVec.setWidth n).setWidth 64 := by
  have hmask : (lowMask n).toNat = 2 ^ n - 1 := by
    have hle : 2 ^ n ≤ 2 ^ 64 := Nat.pow_le_pow_right (by decide) hn
    rw [lowMask, Nat.min_eq_left hn]
    exact Nat.mod_eq_of_lt (Nat.lt_of_lt_of_le (Nat.sub_lt (Nat.two_pow_pos n) Nat.one_pos) hle)
  have hlt : a.toBitVec.toNat % 2 ^ n < 2 ^ 64 := Nat.lt_of_le_of_lt (Nat.mod_le _ _) a.toBitVec.isLt
  apply eq_of_toNat_eq
  change (unsignedAt n a).toNat = _
  rw [unsignedAt, UInt64.toNat_and, hmask, Nat.and_two_pow_sub_one_eq_mod, toNat_setWidth, toNat_setWidth,
    Nat.mod_eq_of_lt hlt]
  rfl

/-! ### Operations -/

open Evaluation in
/-- Where an operation on bits is defined, so is the operation on the numbers they stand for. -/
theorem arithmetic?_of_onBits? {instr : BinaryOp} {op : BinOp} {x y z : BitVec n} (hop : operation? op = some instr)
    (hwide : 1 < n) (hz : instr.onBits? x y = some z) : ∃ k, arithmetic? op n x.toInt y.toInt = some k := by
  have hshift : y.toNat < n → 0 ≤ y.toInt ∧ y.toInt < n := by
    intro hlt
    have hpow : n - 1 < 2 ^ (n - 1) := Nat.lt_two_pow_self
    have hdouble : 2 ^ n = 2 * 2 ^ (n - 1) := by
      rw [← Nat.pow_succ', Nat.succ_eq_add_one, Nat.sub_add_cancel (by omega)]
    rw [toInt_eq_toNat_of_lt (by omega)]
    omega
  have hpos : 0 < n := Nat.lt_of_succ_lt hwide
  cases op <;> cases hop
  case div | mod =>
    obtain ⟨hdefined, _⟩ := ite_none_left_eq_some.mp hz
    exact ⟨_, if_pos ((divides_iff hpos).mpr hdefined)⟩
  case shl | shr =>
    obtain ⟨hlt, _⟩ := ite_none_right_eq_some.mp hz
    exact ⟨_, if_pos (hshift hlt)⟩
  all_goals exact ⟨_, rfl⟩

open Evaluation in
/-- An operation on normalized constants agrees in the lowest bits with the operation on those bits. -/
theorem onInts?_agrees {z : BitVec n} (hwide : 1 < n) (hn : n ≤ 64)
    (ha : normalize a n = a) (hb : normalize b n = b) (hk : op.onInts? n a b = some k)
    (hz : op.onBits? (a.toBitVec.setWidth n) (b.toBitVec.setWidth n) = some z) : k.toBitVec.setWidth n = z := by
  obtain ⟨source, hsource⟩ : ∃ source, operation? source = some op := by
    cases op with
    | add => exact ⟨.add, rfl⟩
    | sub => exact ⟨.sub, rfl⟩
    | mul => exact ⟨.mul, rfl⟩
    | sdiv => exact ⟨.div, rfl⟩
    | srem => exact ⟨.mod, rfl⟩
    | and => exact ⟨.bitAnd, rfl⟩
    | or => exact ⟨.bitOr, rfl⟩
    | xor => exact ⟨.bitXor, rfl⟩
    | shl => exact ⟨.shl, rfl⟩
    | ashr => exact ⟨.shr, rfl⟩
    | _ => cases hz
  obtain ⟨i, hi⟩ := arithmetic?_of_onBits? hsource hwide hz
  have hbits := onBits?_arithmetic hsource (Nat.lt_of_succ_lt hwide) hi
  rw [toInt_of_normalize ha hwide hn, toInt_of_normalize hb hwide hn] at hi
  have hword := onInts?_arithmetic hsource hn hk hi
  rw [Word.ofInt_toInt k hn] at hword
  rw [hbits] at hz
  exact (eq_of_heq (Word.mk.inj hword).2).trans (some.inj hz)

theorem holds_agrees (pred : IntPredicate) (hwide : 1 < n) (hn : n ≤ 64) (ha : normalize a n = a)
    (hb : normalize b n = b) : pred.holds n a b = pred.onBits (a.toBitVec.setWidth n) (b.toBitVec.setWidth n) := by
  have hsigned : ∀ {k : Int64}, normalize k n = k → k.toInt = (k.toBitVec.setWidth n).toInt :=
    fun hk => (toInt_of_normalize hk hwide hn).symm
  have hunsigned : ∀ k : Int64, (unsignedAt n k).toNat = (k.toBitVec.setWidth n).toNat := by
    intro k
    change (unsignedAt n k).toBitVec.toNat = _
    rw [toBitVec_unsignedAt k hn, toNat_setWidth_of_le hn]
  rw [Bool.eq_iff_iff]
  cases pred <;>
    simp only [IntPredicate.holds, IntPredicate.onBits, decide_eq_true_eq, ne_eq, ← Int64.toInt_inj, ← toInt_inj,
      Int64.lt_iff_toInt_lt, Int64.le_iff_toInt_le, slt_iff_toInt_lt, sle_iff_toInt_le,
      UInt64.lt_iff_toNat_lt, UInt64.le_iff_toNat_le, ult_iff_lt, ule_iff_le, lt_def, le_def,
      hsigned ha, hsigned hb, hunsigned]

theorem foldCast?_agrees {op : CastOp} (hop : op.Resizes n m) (hn : n ≤ 64) (hm : m ≤ 64) (hl : l.Normal n a)
    (hfold : foldCast? op l (.int m) = some u) : ∃ k, u = .ofInt (.int m) k ∧
      op.onWord? ⟨n, a.toBitVec.setWidth n⟩ (.int m) = some (.int ⟨m, k.toBitVec.setWidth m⟩) := by
  cases op with
  | trunc =>
    rw [foldCast?, hl.int?_eq] at hfold
    refine ⟨a, (some.inj hfold).symm, ?_⟩
    rw [CastOp.onWord?, setWidth_setWidth_of_le _ hop]
  | zext =>
    simp only [foldCast?, hl.int?_eq, hl.ty_eq] at hfold
    refine ⟨_, (some.inj hfold).symm, ?_⟩
    have hbits : (unsignedAt n a).toInt64.toBitVec = (a.toBitVec.setWidth n).setWidth 64 := toBitVec_unsignedAt a hn
    rw [CastOp.onWord?, hbits, setWidth_setWidth_of_le _ hm]
  | sext =>
    rw [foldCast?, hl.int?_eq] at hfold
    refine ⟨a, (some.inj hfold).symm, ?_⟩
    have hsign : Word.ofInt m (a.toBitVec.setWidth n).toInt = ⟨m, (a.toBitVec.setWidth n).signExtend m⟩ := rfl
    rw [CastOp.onWord?, ← hsign, toInt_of_normalize hl.normalize_eq hop hn, Word.ofInt_toInt a hm]
  | _ => exact hop.elim

/-! ### Folding -/

theorem Value.Normal.read? {P : Platform} (hl : l.Normal n a) (hn : n ≤ 64) (c : Point P) :
    c.int? l = some ⟨n, a.toBitVec.setWidth n⟩ :=
  Point.int?_const hn hl.int?_eq hl.ty_eq

/-- An operation that yields a constant was folded, and nothing was emitted. -/
theorem Build.folded_of_const {folded : Option Value} {ty : Ty} {make : Reg → Instr} {s s' : Builder}
    (hrun : foldOr folded ty make s = (u, s')) (hconst : u.isConst = true) : folded = some u ∧ s' = s := by
  cases folded with
  | some v =>
    obtain ⟨rfl, rfl⟩ := Prod.mk.inj hrun
    exact ⟨rfl, rfl⟩
  | none =>
    obtain ⟨rfl, _⟩ := Prod.mk.inj hrun
    cases hconst

theorem replaces_ofInt {i : Instr} (hpos : 0 < m) (hm : m ≤ 64)
    (hagrees : ∀ {P : Platform} (c : Point P) (args : List Datum) (d : Datum), i.operands.mapM c.read? = some args →
      i.compute? args = some d → d = .int ⟨m, k.toBitVec.setWidth m⟩) : (Value.ofInt (.int m) k).Replaces i m where
  normal := ⟨_, normal_ofInt k hpos hm⟩
  agrees := by
    intro P c args d hargs hd
    rw [hagrees c args d hargs hd]
    exact Point.int?_eq_some.mp (Point.int?_ofInt hpos hm k)

theorem replaces_binary (dst : Reg) (hwide : 1 < n) (hn : n ≤ 64) (hl : l.Normal n a)
    (hr : r.Normal n b) (hop : op.isFloating = false) (hfold : foldBinary? op l r = some u) :
    u.Replaces (.binary dst op l r) n := by
  simp only [foldBinary?, hop, hl.int?_eq, hr.int?_eq, hl.ty_eq, Ty.width?, Bool.false_eq_true, if_false,
    bind_eq_bind, bind_some, bind_eq_some_iff] at hfold
  obtain ⟨k, hk, hu⟩ := hfold
  cases hu
  refine replaces_ofInt (Nat.lt_of_succ_lt hwide) hn fun c args d hargs hd => ?_
  cases (mapM_pair (hl.read? hn c) (hr.read? hn c)).symm.trans hargs
  simp only [Instr.compute?, BinaryOp.onWords?, dite_true, map_eq_some_iff] at hd
  obtain ⟨_, ⟨z, hz, rfl⟩, rfl⟩ := hd
  rw [onInts?_agrees hwide hn hl.normalize_eq hr.normalize_eq hk hz]

theorem replaces_icmp {pred : IntPredicate} (dst : Reg) (hwide : 1 < n) (hn : n ≤ 64) (hl : l.Normal n a)
    (hr : r.Normal n b) (hfold : foldIcmp? pred l r = some u) : u.Replaces (.icmp dst pred l r) 1 := by
  simp only [foldIcmp?, hl.int?_eq, hr.int?_eq, hl.ty_eq, Ty.width?, getD_some] at hfold
  cases hfold
  refine ⟨normal_ofBool _, fun c args d hargs hd => ?_⟩
  cases (mapM_pair (hl.read? hn c) (hr.read? hn c)).symm.trans hargs
  simp only [Instr.compute?, IntPredicate.onWords?, BitVec.cast_eq] at hd
  rw [holds_agrees pred hwide hn hl.normalize_eq hr.normalize_eq, ← hd]
  cases pred.onBits (a.toBitVec.setWidth n) (b.toBitVec.setWidth n) <;> rfl

theorem replaces_cast {op : CastOp} (dst : Reg) (hop : op.Resizes n m) (hn : n ≤ 64) (hpos : 0 < m) (hm : m ≤ 64)
    (hl : l.Normal n a) (hfold : foldCast? op l (.int m) = some u) : u.Replaces (.cast dst op l (.int m)) m := by
  obtain ⟨k, rfl, hword⟩ := foldCast?_agrees hop hn hm hl hfold
  refine replaces_ofInt hpos hm fun c args d hargs hd => ?_
  have hread : (Instr.cast dst op l (.int m)).operands.mapM c.read? = some [.int ⟨n, a.toBitVec.setWidth n⟩] := by
    simp [Instr.operands, Point.int?_eq_some.mp (hl.read? hn c)]
  cases hread.symm.trans hargs
  exact some.inj (hd.symm.trans hword)

/-- Folding agrees with running, for operations and comparisons of normalized constants, and for conversions between
widths; truth values are only widened by zeros, and are only made by cutting a number. -/
theorem folding_agrees (hn : n ≤ 64) (hl : l.Normal n a) (hr : r.Normal n b) {s s' : Builder}
    (hconst : u.isConst = true) (dst : Reg) :
    (∀ op : BinaryOp, op.isFloating = false → 1 < n → Build.binary op l r s = (u, s') →
      s' = s ∧ u.Replaces (.binary dst op l r) n) ∧
    (∀ pred : IntPredicate, 1 < n → Build.icmp pred l r s = (u, s') → s' = s ∧ u.Replaces (.icmp dst pred l r) 1) ∧
    (∀ (op : CastOp) (m : Nat), op.Resizes n m → 0 < m → m ≤ 64 → Build.cast op l (.int m) s = (u, s') →
      s' = s ∧ u.Replaces (.cast dst op l (.int m)) m) := by
  refine ⟨fun op hop hwide hrun => ?_, fun pred hwide hrun => ?_, fun op m hop hpos hm hrun => ?_⟩
  · obtain ⟨hfold, hs⟩ := Build.folded_of_const hrun hconst
    exact ⟨hs, replaces_binary dst hwide hn hl hr hop hfold⟩
  · obtain ⟨hfold, hs⟩ := Build.folded_of_const hrun hconst
    exact ⟨hs, replaces_icmp dst hwide hn hl hr hfold⟩
  · obtain ⟨hfold, hs⟩ := Build.folded_of_const hrun hconst
    exact ⟨hs, replaces_cast dst hop hn hpos hm hl hfold⟩

/-- One less than the least byte is folded to the greatest, and so the difference would be when it is run. -/
theorem folding_agrees_leastByte : Build.binary .sub (Build.int8 (-128)) (Build.int8 1) (.start "m") =
      (Build.int8 127, .start "m") ∧
    (Build.int8 127).Replaces (.binary 0 .sub (Build.int8 (-128)) (Build.int8 1)) 8 := by
  have hrun : Build.binary .sub (Build.int8 (-128)) (Build.int8 1) (.start "m") = (Build.int8 127, .start "m") := by rfl
  have hl : (Build.int8 (-128)).Normal 8 (-128) := ⟨rfl, by decide, by decide⟩
  have hr : (Build.int8 1).Normal 8 1 := ⟨rfl, by decide, by decide⟩
  exact ⟨hrun, ((folding_agrees (by decide) hl hr rfl 0).1 .sub rfl (by decide) hrun).2⟩

/-! ### Division -/

open Evaluation

theorem divides_eq_true {i j : Int} : divides n i j = true ↔ j ≠ 0 ∧ ¬ (i = -(2 ^ (n - 1)) ∧ j = -1) := by
  simp [divides, imp_iff_not_or]

/-- What is not folded at 64 bits are the quotients that are not defined there. -/
theorem isDivision_iff : isDivision a b = true ↔ divides 64 a.toInt b.toInt = true := by
  have hzero : b.toInt = 0 ↔ b = 0 := Int64.toInt_inj (y := 0)
  have hone : b.toInt = -1 ↔ b = -1 := Int64.toInt_inj (y := -1)
  have hmin : a.toInt = -(2 ^ (64 - 1)) ↔ a = Int64.minValue := Int64.toInt_inj (y := Int64.minValue)
  rw [divides_eq_true, hmin, ne_eq, hzero, hone]
  simp [isDivision, imp_iff_not_or, or_comm]

/-- A division of normalized constants is folded where it is defined and, at any width but 64, also where the quotient
overflows. -/
theorem division_folds_iff {op : BinaryOp} (hop : op = .sdiv ∨ op = .srem) (hwide : 1 < n) (hn : n ≤ 64)
    (hl : l.Normal n a) (hr : r.Normal n b) : (foldBinary? op l r).isSome = true ↔
      divides n a.toInt b.toInt = true ∨ n < 64 ∧ a.toInt = -(2 ^ (n - 1)) ∧ b.toInt = -1 := by
  have hfold : (foldBinary? op l r).isSome = isDivision a b := by
    rcases hop with rfl | rfl <;>
      simp only [foldBinary?, BinaryOp.isFloating, BinaryOp.onInts?, hl.int?_eq, hr.int?_eq, hl.ty_eq, Ty.width?,
        Bool.false_eq_true, if_false, Option.bind_eq_bind, Option.bind_some] <;>
      cases isDivision a b <;> rfl
  rw [hfold, isDivision_iff, divides_eq_true, divides_eq_true]
  rcases Nat.lt_or_eq_of_le hn with hlt | rfl
  · -- A narrower number is not the least word of 64 bits.
    have hpow : (2 : Int) ^ (n - 1) < 2 ^ 63 := by
      exact_mod_cast Nat.pow_lt_pow_right (by decide : 1 < 2) (by omega : n - 1 < 63)
    have hleast : -(2 ^ (n - 1)) ≤ a.toInt := by
      rw [← toInt_of_normalize hl.normalize_eq hwide hn]
      exact BitVec.le_toInt _
    omega
  · omega

/-- Seven by two is folded, and seven by zero is not. -/
theorem division_folds_seven : (foldBinary? .sdiv (Build.int32 7) (Build.int32 2)).isSome = true ∧
    ¬ (foldBinary? .srem (Build.int32 7) (Build.int32 0)).isSome = true := by
  have hseven : (Build.int32 7).Normal 32 7 := ⟨rfl, by decide, by decide⟩
  have hfolds := division_folds_iff (.inl rfl) (by decide) (by decide) hseven (r := Build.int32 2) (b := 2)
    ⟨rfl, by decide, by decide⟩
  have hstays := division_folds_iff (.inr rfl) (by decide) (by decide) hseven (r := Build.int32 0) (b := 0)
    ⟨rfl, by decide, by decide⟩
  exact ⟨hfolds.mpr (by decide), fun h => absurd (hstays.mp h) (by decide)⟩

/-- The least number of 32 bits has no quotient by minus one, and yet it is folded. -/
theorem overflowing_division_folds : divides 32 (-(2 ^ 31)) (-1) = false ∧
    foldBinary? .sdiv (Build.int32 (-(2 ^ 31))) (Build.int32 (-1)) = some (Build.int32 (-(2 ^ 31))) := by
  decide

end Aero.IR
