import Aero.Proofs.Dominance

/-!
How functions run. Registers hold data, and a run goes from instruction to instruction and from block
to block. Operations on whole numbers, phis and branches have a meaning of their own; all else, such
as memory, calls and floating-point numbers, is up to the platform. A run that the platform does not
carry on has no next step.
-/

namespace Aero.IR

/-- A number of some width in bits. -/
structure Word where
  width : Nat
  bits : BitVec width
deriving DecidableEq

namespace Word

/-- The number a word stands for: truth values are zero and one, and all others have a sign. -/
def value (x : Word) : Int := if x.width = 1 then x.bits.toNat else x.bits.toInt

def ofInt (width : Nat) (v : Int) : Word := ⟨width, BitVec.ofInt width v⟩

def ofBool (b : Bool) : Word := ⟨1, BitVec.ofBool b⟩

def isTrue (x : Word) : Bool := x.value ≠ 0

/-- The number at another width; as a truth value, whether it is not zero. -/
def convert (x : Word) (width : Nat) : Word :=
  if width = 1 then ofBool x.isTrue else ofInt width x.value

def toFloat (x : Word) : Float := (Int64.ofInt x.value).toFloat

end Word

/-- What a register holds. -/
inductive Datum where
  | int (x : Word)
  | float (x : Float)
  | null
  | undef
  /-- An address. -/
  | cell (a : Nat)

/-! ### Operations -/

def BinaryOp.onBits? {n : Nat} (op : BinaryOp) (a b : BitVec n) : Option (BitVec n) :=
  match op with
  | .add => some (a + b)
  | .sub => some (a - b)
  | .mul => some (a * b)
  | .and => some (a &&& b)
  | .or => some (a ||| b)
  | .xor => some (a ^^^ b)
  | .shl => if b.toNat < n then some (a <<< b.toNat) else none
  | .ashr => if b.toNat < n then some (a.sshiftRight b.toNat) else none
  | .sdiv => if b = 0 ∨ a = BitVec.intMin n ∧ b = -1 then none else some (a.sdiv b)
  | .srem => if b = 0 ∨ a = BitVec.intMin n ∧ b = -1 then none else some (a.srem b)
  | _ => none

def BinaryOp.onWords? (op : BinaryOp) (x y : Word) : Option Word :=
  if h : y.width = x.width then (op.onBits? x.bits (y.bits.cast h)).map (Word.mk x.width) else none

def IntPredicate.onBits {n : Nat} (pred : IntPredicate) (a b : BitVec n) : Bool :=
  match pred with
  | .eq => a = b
  | .ne => a ≠ b
  | .slt => a.slt b
  | .sle => a.sle b
  | .sgt => b.slt a
  | .sge => b.sle a
  | .ult => a.ult b
  | .uge => b.ule a

def IntPredicate.onWords? (pred : IntPredicate) (x y : Word) : Option Bool :=
  if h : y.width = x.width then some (pred.onBits x.bits (y.bits.cast h)) else none

def CastOp.onWord? (op : CastOp) (x : Word) (target : Ty) : Option Datum :=
  match op, target with
  | .trunc, .int n | .zext, .int n => some (.int ⟨n, x.bits.setWidth n⟩)
  | .sext, .int n => some (.int ⟨n, x.bits.signExtend n⟩)
  | .sitofp, .float => some (.float (toSingle (Int64.ofInt x.bits.toInt).toFloat))
  | .sitofp, .double => some (.float (Int64.ofInt x.bits.toInt).toFloat)
  | _, _ => none

def Instr.compute? : Instr → List Datum → Option Datum
  | .binary _ op _ _, [.int x, .int y] => (op.onWords? x y).map .int
  | .icmp _ pred _ _, [.int x, .int y] => (pred.onWords? x y).map fun b => .int (.ofBool b)
  | .cast _ op _ target, [.int x] => op.onWord? x target
  | .select _ _ _ _, [.int c, onTrue, onFalse] => some (if c.isTrue then onTrue else onFalse)
  | _, _ => none

/-! ### Runs -/

/-- What functions run on: how memory looks, what globals stand for, and what other instructions do
with their operands and the memory. -/
structure Platform where
  Memory : Type
  global? : String → Option Datum
  exec? : Instr → List Datum → Memory → Option (Option Datum × Memory)

/-- A point of a run: the block, how many of its instructions are done, the block before, and what
registers and memory hold. -/
structure Point (P : Platform) where
  block : BlockId
  done : Nat := 0
  before : Option BlockId := none
  regs : Reg → Option Datum
  memory : P.Memory

namespace Point

variable {P : Platform}

def read? (c : Point P) (v : Value) : Option Datum :=
  match v.kind with
  | .int n => v.ty.width?.map fun width => .int (.ofInt width n.toInt)
  | .float x => some (.float x)
  | .null => some .null
  | .undef => some .undef
  | .reg r => c.regs r
  | .global name => P.global? name

def int? (c : Point P) (v : Value) : Option Word :=
  match c.read? v with
  | some (.int x) => some x
  | _ => none

def next (c : Point P) : Point P := { c with done := c.done + 1 }

def set (c : Point P) (r : Reg) (d : Datum) : Point P :=
  { c with regs := fun q => if q = r then some d else c.regs q }

/-- Writes the result of an instruction, if it has a register for one. -/
def write? (c : Point P) : Option Reg → Option Datum → Option (Point P)
  | none, _ => some c
  | some r, some d => some (c.set r d)
  | some _, none => none

def jump (c : Point P) (target : BlockId) : Point P :=
  { c with block := target, done := 0, before := some c.block }

end Point

variable {P : Platform}

/-- What an instruction other than a phi yields, and the memory after it. -/
def Instr.perform? (i : Instr) (c : Point P) : Option (Option Datum × P.Memory) := do
  let args ← i.operands.mapM c.read?
  match i.compute? args with
  | some d => some (some d, c.memory)
  | none => P.exec? i args c.memory

def Instr.exec? (i : Instr) (c : Point P) : Option (Point P) :=
  match i with
  | .phi dst _ incoming => do
      let source ← c.before
      let (v, _) ← incoming.find? (·.2 = source)
      return (c.set dst (← c.read? v)).next
  | i => (i.perform? c).bind fun p => ({ c with memory := p.2 }.write? i.dst? p.1).map .next

/-- A run goes on, or has returned a value. -/
inductive Status (P : Platform) where
  | running (c : Point P)
  | returned (value : Option Datum)

def Terminator.exec? (t : Terminator) (c : Point P) : Option (Status P) :=
  match t with
  | .br target => some (.running (c.jump target))
  | .condBr cond thenBlock elseBlock => do
      return .running (c.jump (if (← c.int? cond).isTrue then thenBlock else elseBlock))
  | .ret none => some (.returned none)
  | .ret (some value) => do return .returned (some (← c.read? value))
  | .unreachable => none

/-- Runs the next instruction of a block, or its terminator after the last one. -/
def Block.step? (b : Block) (c : Point P) : Option (Status P) :=
  match b.instrs[c.done]? with
  | some i => (i.exec? c).map .running
  | none => b.term.bind (·.exec? c)

namespace Function

def step? (f : Function) (c : Point P) : Option (Status P) := (f.block? c.block).bind (·.step? c)

/-- One point of a run comes right after another. -/
def Step (f : Function) (c d : Point P) : Prop := f.step? c = some (.running d)

/-- A run gets from one point to another. -/
def Goes (f : Function) : Point P → Point P → Prop := Relation.ReflTransGen f.Step

/-- A run from a point returns a value. -/
def Ends (f : Function) (c : Point P) (value : Option Datum) : Prop :=
  ∃ d, f.Goes c d ∧ f.step? d = some (.returned value)

def Returns (f : Function) (memory : P.Memory) (args : List Datum) (value : Option Datum) : Prop :=
  ∃ entry, f.entry? = some entry ∧ f.Ends { block := entry, regs := fun r => args[r]?, memory := memory } value

end Function

end Aero.IR
