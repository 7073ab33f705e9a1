import Aero.IR.Fold
import Aero.IR.Primitive
import Aero.Proofs.Dominance

/-!
Words cut to a width, and the types of instructions. Each instruction has a rule for the types of its operands, and a
store fits every address whose type is known. A closed function that is coherent and follows the rules has no defect.
-/

namespace Aero.IR

open BitVec

variable {bits k n : Nat}

theorem smod_size_of_lt (h : k < 64) : (Int64.ofNat k).toBitVec.smod 64 = BitVec.ofNat 64 k := by
  have hall : ∀ k : Fin 64, (Int64.ofNat k).toBitVec.smod 64 = BitVec.ofNat 64 k := by decide
  exact hall ⟨k, h⟩

/-- A word shifted to the top and back is the number in its lowest bits. -/
theorem sshiftRight_shiftLeft {x : BitVec 64} (hpos : 0 < bits) (hlt : bits < 64) :
    (x <<< (64 - bits)).sshiftRight (64 - bits) = (x.setWidth bits).signExtend 64 := by
  apply eq_of_getLsbD_eq
  intro i hi
  rw [getLsbD_sshiftRight, getLsbD_signExtend, msb_eq_getLsbD_last,
    msb_eq_getLsbD_last, getLsbD_shiftLeft, getLsbD_shiftLeft]
  have hword : ¬ 64 ≤ i := Nat.not_le_of_lt hi
  by_cases hi' : i < bits
  · have hsum : 64 - bits + i < 64 := by omega
    have hlow : ¬ 64 - bits + i < 64 - bits := by omega
    simp [hi, hi', hsum, hword]
  · have hsum : ¬ 64 - bits + i < 64 := by omega
    have hlast : 64 - 1 - (64 - bits) = bits - 1 := by omega
    have hlow : ¬ 64 - 1 < 64 - bits := by omega
    have hbits : bits - 1 < bits := by omega
    simp [hi, hi', hsum, hlast, hlow, hbits]

theorem normalize_toBitVec (v : Int64) (hbits : 1 < bits) :
    (normalize v bits).toBitVec = (v.toBitVec.setWidth bits).signExtend 64 := by
  unfold normalize
  rw [if_neg (Nat.ne_of_gt hbits)]
  split
  · next hge =>
    rw [signExtend_eq_setWidth_of_le _ hge, setWidth_setWidth_of_le _ hge, setWidth_eq]
  · next hlt =>
    have hk : 64 - bits < 64 := by omega
    rw [Int64.toBitVec_shiftRight, Int64.toBitVec_shiftLeft, smod_size_of_lt hk,
      BitVec.sshiftRight', shiftLeft_eq', toNat_ofNat, Nat.mod_eq_of_lt (by omega),
      sshiftRight_shiftLeft (by omega) (by omega)]

theorem normalize_one_toBitVec (v : Int64) : (normalize v 1).toBitVec = (v.toBitVec.setWidth 1).setWidth 64 := by
  have hone : (1 : Int64).toBitVec = 1#64 := rfl
  rw [normalize, if_pos rfl, Int64.toBitVec_and]
  apply eq_of_getLsbD_eq
  intro i hi
  by_cases hi' : i = 0
  · simp [hi']
  · simp [hi']

/-- A number of 32 bits that is not negative as a word is unchanged. -/
theorem normalize_ofNat (hn : n < UInt32.size)
    (hpos : ¬ normalize (Int64.ofNat n) 32 < 0) : (normalize (Int64.ofNat n) 32).toInt.toNat = n := by
  have htoInt : (normalize (Int64.ofNat n) 32).toInt = (n : Int).bmod (2 ^ 32) := by
    rw [← Int64.toInt_toBitVec, normalize_toBitVec _ (by decide),
      toInt_signExtend_of_le (by decide), toInt_setWidth]
    have hnat : (Int64.ofNat n).toBitVec.toNat = n := by
      change (BitVec.ofNat 64 n).toNat = n
      exact Nat.mod_eq_of_lt (Nat.lt_trans hn (by decide))
    rw [hnat]
  rw [Int64.lt_iff_toInt_lt] at hpos
  have hzero : (0 : Int64).toInt = 0 := rfl
  simp only [Int.bmod_def, UInt32.size] at *
  omega

/-! ### Instructions -/

open List Option

variable {c : Certificate} {i : Instr} {b : Block}

/-- The prototype of a function: what callers need to know of it. -/
def Function.prototype (f : Function) : Signature := ⟨f.params.map Param.ty, f.ret, f.variadic⟩

def Module.prototype? (m : Module) (name : String) : Option Signature :=
  (m.function? name).map Function.prototype

/-- Arguments have the types of the parameters, and more of them follow only where they may. -/
def Signature.Takes (s : Signature) (args : List Value) : Prop :=
  s.params <+: args.map Value.ty ∧ (s.variadic = false → args.length = s.params.length)

/-- The types a conversion goes between. Integers become strictly narrower or wider, and a truth
value is never read as signed. -/
def CastOp.Converts : CastOp → Ty → Ty → Prop
  | .trunc, .int a, .int b => b < a
  | .zext, .int a, .int b => a < b
  | .sext, .int a, .int b => a < b ∧ a ≠ 1
  | .fptrunc, .double, .float => True
  | .fpext, .float, .double => True
  | .sitofp, .int a, target => target.isFp = true ∧ a ≠ 1
  | .fptosi, source, .int _ => source.isFp = true
  | _, _, _ => False

/-- The typing rule of an instruction, given the prototypes of functions. -/
def Instr.WellTyped (prototype? : String → Option Signature) : Instr → Prop
  | .alloca _ _ | .inlineAsm _ _ _ _ => True
  | .load _ _ ptr | .store _ ptr => ptr.ty = .ptr
  | .binary _ op lhs rhs =>
    lhs.ty = rhs.ty ∧ (if op.isFloating then lhs.ty.isFp else lhs.ty.isInt) = true
  | .fneg _ value => value.ty.isFp = true
  | .icmp _ _ lhs rhs => lhs.ty = rhs.ty ∧ (lhs.ty.isInt = true ∨ lhs.ty = .ptr ∧ rhs = .null)
  | .fcmp _ _ lhs rhs => lhs.ty = rhs.ty ∧ lhs.ty.isFp = true
  | .cast _ op value target => op.Converts value.ty target
  | .gep _ _ ptr indices => ptr.ty = .ptr ∧ ∀ i ∈ indices, i.ty.isInt = true
  | .call dst callee args ret =>
    ∃ s, prototype? callee = some s ∧ s.Takes args ∧ s.ret = ret ∧ (dst = none ↔ ret = .void)
  | .phi _ ty incoming => ty = .i1 ∧ ∀ p ∈ incoming, p.1.ty = .i1
  | .select _ cond onTrue onFalse => cond.ty = .i1 ∧ onTrue.ty = onFalse.ty

/-- The typing rule of a terminator in a function with a return type. -/
def Terminator.WellTyped (ret : Ty) : Terminator → Prop
  | .condBr cond _ _ => cond.ty = .i1
  | .ret value => value.elim .void Value.ty = ret
  | .br _ | .unreachable => True

theorem Instr.WellTyped.mono {s t : String → Option Signature} (h : i.WellTyped s)
    (hst : ∀ name sig, s name = some sig → t name = some sig) : i.WellTyped t := by
  cases i with
  | call dst callee args ret =>
    obtain ⟨sig, hsig, hrest⟩ := h
    exact ⟨sig, hst callee sig hsig, hrest⟩
  | _ => exact h

/-- An address is not known to hold anything but a type. -/
def Function.Addresses (m : Module) (f : Function) (ptr : Value) (ty : Ty) : Prop :=
  ptr.Within fun r => ∀ i ∈ f.instrs, ∀ found, m.slotOf? i = some (r, found) → found = ty

/-- A function whose instructions and terminators follow their rules. -/
structure Function.Typed (m : Module) (f : Function) : Prop where
  instrs : ∀ i ∈ f.instrs, i.WellTyped m.prototype?
  ends : ∀ b ∈ f.blocks, ∀ t, b.term = some t → t.WellTyped f.ret
  stores : ∀ value ptr, .store value ptr ∈ f.instrs → f.Addresses m ptr value.ty

def Function.Closed (f : Function) : Prop := ∀ b ∈ f.blocks, b.isTerminated = true

namespace Module

variable {m : Module} {f : Function}

theorem callDefects_of_takes {callee : String} {args : List Value} {s : Signature}
    (hsig : m.prototype? callee = some s) (hargs : s.Takes args) : callDefects m f callee args = [] := by
  obtain ⟨target, htarget, rfl⟩ := map_eq_some_iff.mp hsig
  have hlen : target.params.length ≤ args.length := by
    have := hargs.1.length_le
    simpa [Function.prototype] using this
  simp only [callDefects, htarget]
  by_cases hvariadic : target.variadic = true
  · simp [hvariadic, hlen]
  · have hexact : args.length = target.params.length := by
      simpa [Function.prototype] using hargs.2 (by simpa [Function.prototype] using hvariadic)
    simp [hexact]

variable (hcoherent : Coherent c f)
include hcoherent

theorem endDefects_of_closed (htyped : f.Typed m) (hclosed : f.Closed) (hb : b ∈ f.blocks) : endDefects f b = [] := by
  obtain ⟨t, ht⟩ := isSome_iff_exists.mp (hclosed b hb)
  have hknown : t.successors.filter (fun id => (f.block? id).isNone) = [] := by
    rw [filter_eq_nil_iff]
    intro id hid
    have hsucc : id ∈ b.successors := by rw [Block.successors, ht]; exact hid
    obtain ⟨d, hd, hdid⟩ := (hcoherent.edges b hb id hsucc).2.1
    rw [Function.block?, isNone_iff_eq_none, find?_eq_none]
    intro hnone
    exact hnone d hd (decide_eq_true hdid)
  have hret := htyped.ends b hb t ht
  cases t with
  | ret value =>
    simp only [Terminator.WellTyped] at hret
    simp [endDefects, ht, hret, Terminator.successors]
  | _ => simp only [endDefects, ht, hknown, map_nil, append_nil]

theorem instrDefects_of_typed (htyped : f.Typed m) (hb : b ∈ f.blocks) (hi : i ∈ b.instrs) :
    instrDefects m f (m.slots f) b i = [] := by
  have hmem : i ∈ f.instrs := mem_flatMap.mpr ⟨b, hb, hi⟩
  cases i with
  | call dst callee args ret =>
    obtain ⟨s, hsig, hargs, _⟩ := htyped.instrs _ hmem
    exact callDefects_of_takes hsig hargs
  | store value ptr =>
    simp only [instrDefects]
    split
    · next expected hfound =>
      obtain ⟨r, hr, hfind⟩ := bind_eq_some_iff.mp hfound
      obtain ⟨slot, hslot, rfl⟩ := map_eq_some_iff.mp hfind
      have hreg := find?_some hslot
      have hin := mem_of_find?_eq_some hslot
      rw [slots, mem_reverse, mem_filterMap] at hin
      obtain ⟨j, hj, hjslot⟩ := hin
      have hr' : slot.1 = r := by simpa using hreg
      rw [if_pos (htyped.stores value ptr hmem r hr j hj slot.2 (hr' ▸ hjslot))]
    · rfl
  | phi dst ty incoming =>
    simp only [instrDefects, map_eq_nil_iff, filter_eq_nil_iff]
    intro p hp
    obtain ⟨d, hd, hid, hedge, _⟩ := hcoherent.phis b hb _ hi p hp
    rw [Function.hasEdge_iff.mpr ⟨d, hd, hid, hedge⟩]
    simp
  | _ => rfl

/-- A closed function that is coherent and typed has no defect. -/
theorem functionDefects_eq_nil (htyped : f.Typed m) (hclosed : f.Closed) : m.functionDefects f = [] := by
  simp only [functionDefects, flatMap_eq_nil_iff, append_eq_nil_iff]
  intro b hb
  exact ⟨endDefects_of_closed hcoherent htyped hclosed hb, fun i hi => instrDefects_of_typed hcoherent htyped hb hi⟩

end Module

end Aero.IR
