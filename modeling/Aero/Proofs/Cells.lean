import Aero.Proofs.Folding

/-!
Code that works on numbers. Memory is a list of cells, one for each variable. An operand holds a number
if reading it gives the word of the number and, for a constant, the constant is the number.
-/

namespace Aero.IR

open Option

variable {bits : Nat} {k : Int} {instr : BinaryOp} {b : Bool}

def Datum.hasTy : Datum → Ty → Bool
  | .int x, ty => ty = .int x.width
  | .float _, ty => ty.isFp
  | .null, ty | .cell _, ty => ty.isPtr
  | .undef, _ => false

/-- The functions outside a module: what a call of one gives back, and what it does to the variables. -/
class Library where
  call? : String → List Datum → List Datum → Option (Option Datum × List Datum)

/-- The collector gives back nothing and leaves all variables as they are. -/
def Library.Collects (L : Library) : Prop := ∀ memory, L.call? Primitive.gcCollect.name [] memory = some (none, memory)

/-- A library of nothing but a collector that finds nothing to free. -/
instance collector : Library where
  call? callee _ memory := if callee = Primitive.gcCollect.name then some (none, memory) else none

/-- A platform with a cell for each variable. -/
abbrev cells [Library] : Platform where
  Memory := List Datum
  global? _ := none
  exec? i args memory :=
    match i, args with
    | .alloca _ _, [] => some (some (.cell memory.length), memory ++ [.undef])
    | .load _ ty _, [.cell a] => (memory[a]?.filter (·.hasTy ty)).map fun d => (some d, memory)
    | .store _ _, [d, .cell a] =>
      if a < memory.length then some (none, memory.set a d) else none
    | .call _ callee _ _, args => Library.call? callee args memory
    | _, _ => none

variable {H : Prop} {P : Platform} {n m : Nat} {c d : Point P} {v : Value} {x : Word}

/-- An operand that was at hand before a register holds a number. -/
structure Holds (n : Nat) (c : Point P) (v : Value) (x : Word) : Prop where
  read : c.int? v = some x
  ty_eq : v.ty = .int x.width
  within : v.Within (· < n)
  const : ∀ k, v.int? = some k → k.toInt = x.value
  pos : 0 < x.width
  le : x.width ≤ 64

theorem Holds.keep {f : Function} {ok : Instr → Prop} (h : Holds n c v x) (hruns : f.Runs ok n c d)
    (hle : n ≤ m) : Holds m d v x :=
  { h with
    read := (hruns.int?_eq h.within).trans h.read
    within := .mono h.within fun _ hr => lt_of_lt_of_le hr hle }

theorem Holds.isInt (h : Holds n c v x) : v.ty.isInt = true := by
  rw [h.ty_eq]
  rfl

theorem holds_ofInt (n : Nat) (c : Point P) (k : Int64) (hpos : 0 < bits) (hle : bits ≤ 64) :
    Holds n c (.ofInt (.int bits) k) (.ofInt bits k.toInt) where
  read := by rw [Point.int?_ofInt hpos hle, Word.ofInt_toInt k hle]
  ty_eq := rfl
  within := nofun
  const := by
    rintro _ hk
    cases hk
    exact Word.toInt_normalize k hpos hle
  pos := hpos
  le := hle

theorem holds_ofReg {r : Reg} (hread : c.read? (.ofReg r (.int x.width)) = some (.int x)) (hr : r < n)
    (hpos : 0 < x.width) (hle : x.width ≤ 64) : Holds n c (.ofReg r (.int x.width)) x where
  read := Point.int?_eq_some.mpr hread
  ty_eq := rfl
  within := fun _ h => Option.some.inj h ▸ hr
  const := nofun
  pos := hpos
  le := hle

theorem Point.read?_ofInt (c : Point P) (k : Int64) (hpos : 0 < bits) (hle : bits ≤ 64) :
    c.read? (.ofInt (.int bits) k) = some (.int (.ofInt bits k.toInt)) :=
  Point.int?_eq_some.mp (holds_ofInt 0 c k hpos hle).read

theorem holds_ofBool (n : Nat) (c : Point P) (b : Bool) : Holds n c (.ofBool b) (.ofBool b) where
  read := by cases b <;> rfl
  ty_eq := rfl
  within := nofun
  const := by
    rintro _ hk
    cases hk
    cases b <;> rfl
  pos := Nat.one_pos
  le := (by decide : 1 ≤ 64)

theorem Word.value_ofInt (hwide : 1 < bits) (hlow : -2 ^ (bits - 1) ≤ k) (hhigh : k < 2 ^ (bits - 1)) :
    (Word.ofInt bits k).value = k := by
  rw [value_eq_toInt hwide]
  exact BitVec.toInt_ofInt_eq_self (Nat.lt_of_succ_lt hwide) hlow hhigh

theorem Holds.normal {k : Int64} (h : Holds n c v x) (hk : v.int? = some k) : v.Normal x.width k := by
  refine ⟨h.ty_eq, hk, Int64.toInt_inj.mp ?_⟩
  rw [Word.toInt_normalize k h.pos h.le, h.const k hk, Word.ofInt_value h.pos]

/-- A constant that takes the place of an instruction holds what the instruction yields. -/
theorem Value.Replaces.holds {i : Instr} (h : v.Replaces i x.width) (n : Nat) (args : List Datum)
    (hargs : i.operands.mapM c.read? = some args) (hx : i.compute? args = some (.int x))
    (hpos : 0 < x.width) (hle : x.width ≤ 64) : Holds n c v x := by
  obtain ⟨k, hnormal⟩ := h.normal
  have hread := Point.int?_eq_some.mpr (h.agrees c args _ hargs hx)
  refine ⟨hread, hnormal.ty_eq, ?_, ?_, hpos, hle⟩
  · have hconst := hnormal.int?_eq
    rcases v with ⟨kind, _⟩
    cases kind with
    | reg => cases hconst
    | _ => exact nofun
  · intro k' hk'
    cases hnormal.int?_eq.symm.trans hk'
    have hvalue := Word.toInt_normalize k hpos hle
    rw [hnormal.normalize_eq, Word.ofInt_toInt k hle] at hvalue
    rw [hvalue, some.inj ((hnormal.read? hle c).symm.trans hread)]

/-! ### Operations -/

namespace Build

variable {w w' : Site H} {f : Function} {l r : Value} {y : Word}

def onTruthValues : List BinOp := [.sub, .bitAnd, .bitOr, .bitXor]

open Evaluation in
theorem onWords?_arithmetic {op : BinOp} (hop : operation? op = some instr)
    (hwidth : y.width = x.width) (hpos : 0 < x.width) (hwide : 1 < x.width ∨ op ∈ onTruthValues)
    (hk : arithmetic? op x.width x.value y.value = some k) : instr.onWords? x y = some (.ofInt x.width k) := by
  by_cases hone : 1 < x.width
  · rw [Word.value_eq_toInt hone, Word.value_eq_toInt (hwidth ▸ hone)] at hk
    rcases y with ⟨_, b⟩
    cases hwidth
    rw [BinaryOp.onWords?, dif_pos rfl, BitVec.cast_eq, onBits?_arithmetic hop (Nat.lt_of_succ_lt hone) hk]
    rfl
  · have hx : x.width = 1 := Nat.le_antisymm (Nat.le_of_not_lt hone) hpos
    have hbits := hwide.resolve_left hone
    rcases x with ⟨n, a⟩
    rcases y with ⟨_, b⟩
    subst hx
    cases hwidth
    simp only [onTruthValues, List.mem_cons, List.not_mem_nil, or_false] at hbits
    rcases hbits with rfl | rfl | rfl | rfl <;> cases hop <;> cases hk <;> revert a b <;> decide

/-- In a function, the code between two sites makes an operand that holds a number and leaves memory as it is. -/
abbrev Makes (f : Function) (c : Point P) (w : Site H) (v : Value) (w' : Site H) (x : Word) : Prop :=
  ∃ d, f.Keeps (fun _ => True) w.fn.nextReg c d ∧ d.At w' ∧ Holds w'.fn.nextReg d v x

section Makes

variable (hopen : w.Open) (hv : w'.Has v) (hf : w'.Embeds f) (hc : c.At w)
include hopen hv hf hc

/-- An operation that is folded to the constant of a number, or else is emitted and yields it. -/
theorem foldOr_holds {folded : Option Value} {make : Reg → Instr}
    (hrun : foldOr folded (.int x.width) make w.builder = (v, w'.builder)) (hpos : 0 < x.width) (hle : x.width ≤ 64)
    (hdst : ∀ r, (make r).dst? = some r) (hphi : ∀ r, (make r).isPhi = false)
    (hfold : ∀ u, folded = some u → Holds w.fn.nextReg c u x)
    (hperform : ∀ r, (make r).perform? c = some (some (.int x), c.memory)) : Makes f c w v w' x := by
  obtain ⟨d, hkeeps, hd, hread⟩ := foldOr_runs (fun _ => True) hrun hopen hf hc hdst hphi
    (fun _ => trivial) (fun u hu => Point.int?_eq_some.mp (hfold u hu).read) hperform
  refine ⟨d, hkeeps, hd, Point.int?_eq_some.mpr hread, foldOr_ty hrun fun u hu => (hfold u hu).ty_eq,
    hv.within, ?_, hpos, hle⟩
  intro k hk
  cases folded with
  | some u =>
    cases (Prod.mk.inj hrun).1
    exact (hfold _ rfl).const k hk
  | none =>
    rw [← (Prod.mk.inj hrun).1] at hk
    cases hk

open Evaluation in
theorem binary_holds (op : BinOp)
    (hrun : binary instr l r w.builder = (v, w'.builder)) (hop : operation? op = some instr)
    (hl : Holds w.fn.nextReg c l x) (hr : Holds w.fn.nextReg c r y) (hwidth : y.width = x.width)
    (hwide : 1 < x.width ∨ op ∈ onTruthValues) (hk : arithmetic? op x.width x.value y.value = some k) :
    Makes f c w v w' (.ofInt x.width k) := by
  rw [binary, hl.ty_eq] at hrun
  refine foldOr_holds hopen hv hf hc hrun hl.pos hl.le (fun _ => rfl) (fun _ => rfl) ?_ fun dst =>
      Instr.perform?_binary dst hl.read hr.read (onWords?_arithmetic hop hwidth hl.pos hwide hk)
  intro u hu
  have hfloating : instr.isFloating = false := by
    cases op <;> cases hop <;> rfl
  simp only [foldBinary?, hfloating, hl.ty_eq, Ty.width?, Bool.false_eq_true, if_false,
    bind_eq_bind, bind_some, bind_eq_some_iff] at hu
  obtain ⟨a, ha, b, hb, z, hz, hu⟩ := hu
  cases hu
  rw [← hl.const a ha, ← hr.const b hb] at hk
  rw [← onInts?_arithmetic hop hl.le hz hk]
  exact holds_ofInt _ c z hl.pos hl.le

theorem icmp_words_hold {pred : IntPredicate}
    (hrun : icmp pred l r w.builder = (v, w'.builder)) (hl : Holds w.fn.nextReg c l x) (hr : Holds w.fn.nextReg c r y)
    (hwidth : y.width = x.width) (hwide : 1 < x.width) (hwords : pred.onWords? x y = some b) :
    Makes f c w v w' (.ofBool b) := by
  refine foldOr_holds hopen hv hf hc hrun Nat.one_pos (by decide : 1 ≤ 64)
    (fun _ => rfl) (fun _ => rfl) ?_ fun dst => Instr.perform?_icmp dst hl.read hr.read hwords
  intro u hu
  have hconst := hu
  simp only [foldIcmp?, bind_eq_bind, bind_eq_some_iff] at hconst
  obtain ⟨p, hp, q, hq, _⟩ := hconst
  have hreplaces := replaces_icmp 0 hwide hl.le (hl.normal hp) (hwidth ▸ hr.normal hq) hu
  refine hreplaces.holds (x := .ofBool b) _ _ (mapM_pair hl.read hr.read) ?_ Nat.one_pos (by decide : 1 ≤ 64)
  rw [Instr.compute?, hwords]
  rfl

open Evaluation in
theorem icmp_holds (op : BinOp)
    (hrun : icmp (Lowering.intPredicate op) l r w.builder = (v, w'.builder)) (hl : Holds w.fn.nextReg c l x)
    (hr : Holds w.fn.nextReg c r y) (hwidth : y.width = x.width) (hwide : 1 < x.width)
    (hb : comparison? op x.value y.value = some b) : Makes f c w v w' (.ofBool b) := by
  refine icmp_words_hold hopen hv hf hc hrun hl hr hwidth hwide ?_
  rw [Word.value_eq_toInt hwide, Word.value_eq_toInt (hwidth ▸ hwide)] at hb
  rcases y with ⟨_, q⟩
  cases hwidth
  rw [IntPredicate.onWords?, dif_pos rfl, BitVec.cast_eq, onBits_comparison hb]

theorem cast_holds {op : CastOp} {z : BitVec bits}
    (hrun : cast op l (.int bits) w.builder = (v, w'.builder)) (hl : Holds w.fn.nextReg c l x) (hpos : 0 < bits)
    (hle : bits ≤ 64) (hop : op.Resizes x.width bits)
    (hword : op.onWord? x (.int bits) = some (.int ⟨bits, z⟩)) : Makes f c w v w' ⟨bits, z⟩ := by
  refine foldOr_holds hopen hv hf hc hrun hpos hle (fun _ => rfl) (fun _ => rfl) ?_
    fun dst => Instr.perform?_cast dst hl.read hword
  intro u hu
  obtain ⟨k, hk⟩ : ∃ k, l.int? = some k := by
    cases hk : l.int? with
    | some k => exact ⟨k, rfl⟩
    | none => cases op <;> simp [foldCast?, hk] at hu <;> exact hop.elim
  have hreplaces := replaces_cast 0 hop hl.le hpos hle (hl.normal hk) hu
  refine hreplaces.holds (x := ⟨bits, z⟩) _ [.int x] ?_ hword hpos hle
  simp [Instr.operands, Point.int?_eq_some.mp hl.read]

theorem intCast_holds (hrun : intCast l (.int bits) true w.builder = (v, w'.builder))
    (hl : Holds w.fn.nextReg c l x) (hone : 1 < bits) (hle : bits ≤ 64) : Makes f c w v w' (.ofInt bits x.value) := by
  have hpos : 0 < bits := Nat.lt_of_succ_lt hone
  simp only [intCast, hl.ty_eq, Ty.width?, Bool.true_and, decide_eq_true_eq] at hrun
  split at hrun
  · next heq =>
    cases heq
    obtain ⟨rfl, hbuilder⟩ := Prod.mk.inj hrun
    obtain ⟨hfn, hblock⟩ := Site.eq_of_builder_eq hbuilder.symm
    rw [Word.ofInt_value hl.pos]
    exact ⟨c, .refl c, ⟨hblock ▸ hc.block_eq, hblock ▸ hc.done_eq⟩, hfn ▸ hl⟩
  split at hrun
  · next _ hlt =>
    refine cast_holds hopen hv hf hc hrun hl hpos hle (le_of_lt hlt) ?_
    rw [Word.value_eq_toInt (lt_trans hone hlt)]
    exact congrArg (fun b => some (Datum.int ⟨bits, b⟩))
      (BitVec.signExtend_eq_setWidth_of_le _ (le_of_lt hlt)).symm
  split at hrun
  · next _ _ hwide =>
    refine cast_holds hopen hv hf hc hrun hl hpos hle hwide ?_
    rw [Word.value_eq_toInt hwide]
    rfl
  · next _ _ hbit =>
    have hwidth : x.width = 1 := Nat.le_antisymm (Nat.le_of_not_lt hbit) hl.pos
    refine cast_holds hopen hv hf hc hrun hl hpos hle trivial ?_
    rw [Word.value, if_pos hwidth, BitVec.ofInt_natCast, BitVec.ofNat_toNat]
    rfl

theorem intCast_unsigned_holds (hrun : intCast l (.int bits) false w.builder = (v, w'.builder))
    (hl : Holds w.fn.nextReg c l x) (hpos : 0 < bits) (hle : bits ≤ 64) :
    Makes f c w v w' ⟨bits, x.bits.setWidth bits⟩ := by
  simp only [intCast, hl.ty_eq, Ty.width?] at hrun
  split at hrun
  · next heq =>
    cases heq
    obtain ⟨rfl, hbuilder⟩ := Prod.mk.inj hrun
    obtain ⟨hfn, hblock⟩ := Site.eq_of_builder_eq hbuilder.symm
    rw [BitVec.setWidth_eq]
    exact ⟨c, .refl c, ⟨hblock ▸ hc.block_eq, hblock ▸ hc.done_eq⟩, hfn ▸ hl⟩
  split at hrun
  · next hlt => exact cast_holds hopen hv hf hc hrun hl hpos hle (le_of_lt hlt) rfl
  · exact cast_holds hopen hv hf hc hrun hl hpos hle trivial rfl

end Makes

/-! ### Memory -/

theorem perform?_of_exec? {i : Instr} {result : Option Datum} {memory : P.Memory} (args : List Datum)
    (hargs : i.operands.mapM c.read? = some args) (hnone : i.compute? args = none)
    (hexec : P.exec? i args c.memory = some (result, memory)) : i.perform? c = some (result, memory) := by
  rw [Instr.perform?, hargs]
  simp [hnone, hexec]

theorem emit_runs {ty : Ty} {make : Reg → Instr} {x : Datum} {memory : P.Memory} (args : List Datum)
    (hrun : emit ty make w.builder = (v, w'.builder)) (hopen : w.Open) (hf : w'.Embeds f) (hc : c.At w)
    (hdst : ∀ r, (make r).dst? = some r) (hphi : (make w.fn.nextReg).isPhi = false)
    (hargs : (make w.fn.nextReg).operands.mapM c.read? = some args) (hnone : (make w.fn.nextReg).compute? args = none)
    (hexec : P.exec? (make w.fn.nextReg) args c.memory = some (some x, memory)) :
    ∃ d, f.Runs (fun _ => True) w.fn.nextReg c d ∧ d.At w' ∧ d.memory = memory ∧ d.read? v = some x := by
  obtain ⟨rfl, hemitted⟩ := Site.emitted_of_emit hopen hdst hrun
  exact hemitted.runs_result hf hc trivial hphi (hdst _) (perform?_of_exec? args hargs hnone hexec)

section Memory

variable [Library] {c d : Point cells} {ptr : Value} {a : Nat}

theorem load_holds (hrun : load (.int x.width) ptr w.builder = (v, w'.builder)) (hopen : w.Open)
    (hf : w'.Embeds f) (hc : c.At w) (hptr : c.read? ptr = some (.cell a))
    (hcell : c.memory[a]? = some (.int x)) (hpos : 0 < x.width) (hle : x.width ≤ 64) : Makes f c w v w' x := by
  obtain ⟨d, hruns, hd, hmemory, hread⟩ := emit_runs [.cell a] hrun hopen hf hc (fun _ => rfl) rfl
    (by simp [Instr.operands, hptr]) rfl (show _ = some (some (.int x), c.memory) by simp [hcell, Datum.hasTy])
  obtain ⟨rfl, hemitted⟩ := Site.emitted_of_emit hopen (fun _ => rfl) hrun
  exact ⟨d, ⟨hruns, hmemory⟩, hd, holds_ofReg hread (hemitted.nextReg_eq ▸ Nat.lt_succ_self _) hpos hle⟩

theorem store_runs (hrun : store v ptr w.builder = ((), w'.builder)) (hopen : w.Open)
    (hf : w'.Embeds f) (hc : c.At w) (hptr : c.read? ptr = some (.cell a))
    (hv : c.int? v = some x) (ha : a < c.memory.length) :
    ∃ d, f.Runs (fun _ => True) w.fn.nextReg c d ∧ d.At w' ∧ d.memory = c.memory.set a (.int x) := by
  refine (Site.emitted_of_push hopen rfl hrun).runs_effect (x := none) hf hc trivial rfl rfl ?_
  exact perform?_of_exec? [.int x, .cell a] (by simp [Instr.operands, hptr, Point.int?_eq_some.mp hv]) rfl (if_pos ha)

theorem alloca_runs {ty : Ty} (hrun : alloca ty w.builder = (v, w'.builder)) (hopen : w.Open)
    (hf : w'.Embeds f) (hc : c.At w) :
    ∃ d, f.Runs (fun _ => True) w.fn.nextReg c d ∧ d.At w' ∧ d.memory = c.memory ++ [.undef] ∧
      d.read? v = some (.cell c.memory.length) :=
  emit_runs [] hrun hopen hf hc (fun _ => rfl) rfl rfl rfl rfl

end Memory

end Build

end Aero.IR
