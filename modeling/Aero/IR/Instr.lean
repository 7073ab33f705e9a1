import Aero.IR.Value

/-!
Instructions and terminators. An instruction that produces a value writes a register of its own; a terminator ends a
basic block. In byte strings, printable ASCII stands for itself; a quote, a backslash and every other byte is a
backslash and two upper-case hexadecimal digits.
-/

namespace Aero.IR

def utf8Bytes (s : String) : List UInt8 := s.toUTF8.toList

def hexUpper (n : Nat) : Char := (Nat.digitChar n).toUpper

/-- Whether a byte is written as itself. -/
def isPlainByte (b : UInt8) : Bool :=
  0x20 ≤ b && b < 0x7F && b != 0x22 && b != 0x5C

def escapeByte (b : UInt8) : List Char :=
  if isPlainByte b then [Char.ofNat b.toNat]
  else ['\\', hexUpper (b.toNat / 16), hexUpper (b.toNat % 16)]

def escapeBytes (bytes : List UInt8) : String := String.ofList (bytes.flatMap escapeByte)

/-! ### Instructions -/

abbrev BlockId := Nat

/-- The spelling of a block that has no label. -/
def BlockId.text (id : BlockId) : String := "bb" ++ toString id

/-- Two-operand arithmetic; the operations from `fadd` on are floating. -/
inductive BinaryOp where
  | add | sub | mul | sdiv | srem | shl | ashr | and | or | xor
  | fadd | fsub | fmul | fdiv | frem
deriving DecidableEq, Repr

namespace BinaryOp

def mnemonic : BinaryOp → String
  | add => "add"
  | sub => "sub"
  | mul => "mul"
  | sdiv => "sdiv"
  | srem => "srem"
  | shl => "shl"
  | ashr => "ashr"
  | and => "and"
  | or => "or"
  | xor => "xor"
  | fadd => "fadd"
  | fsub => "fsub"
  | fmul => "fmul"
  | fdiv => "fdiv"
  | frem => "frem"

def all : List BinaryOp :=
  [add, sub, mul, sdiv, srem, shl, ashr, and, or, xor, fadd, fsub, fmul, fdiv, frem]

def ofMnemonic? (s : String) : Option BinaryOp := all.find? (·.mnemonic = s)

end BinaryOp

/-- Integer comparisons; `ult` and `uge` read their operands as unsigned. -/
inductive IntPredicate where
  | eq | ne | slt | sle | sgt | sge | ult | uge
deriving DecidableEq, Repr

namespace IntPredicate

def mnemonic : IntPredicate → String
  | eq => "eq"
  | ne => "ne"
  | slt => "slt"
  | sle => "sle"
  | sgt => "sgt"
  | sge => "sge"
  | ult => "ult"
  | uge => "uge"

def all : List IntPredicate := [eq, ne, slt, sle, sgt, sge, ult, uge]

def ofMnemonic? (s : String) : Option IntPredicate := all.find? (·.mnemonic = s)

end IntPredicate

/-- Ordered floating-point comparisons, all false on NaN. -/
inductive FloatPredicate where
  | oeq | one | olt | ole | ogt | oge
deriving DecidableEq, Repr

namespace FloatPredicate

def mnemonic : FloatPredicate → String
  | oeq => "oeq"
  | one => "one"
  | olt => "olt"
  | ole => "ole"
  | ogt => "ogt"
  | oge => "oge"

def all : List FloatPredicate := [oeq, one, olt, ole, ogt, oge]

def ofMnemonic? (s : String) : Option FloatPredicate := all.find? (·.mnemonic = s)

end FloatPredicate

inductive CastOp where
  | trunc | zext | sext | fptrunc | fpext | sitofp | fptosi
deriving DecidableEq, Repr

namespace CastOp

def mnemonic : CastOp → String
  | trunc => "trunc"
  | zext => "zext"
  | sext => "sext"
  | fptrunc => "fptrunc"
  | fpext => "fpext"
  | sitofp => "sitofp"
  | fptosi => "fptosi"

def all : List CastOp := [trunc, zext, sext, fptrunc, fpext, sitofp, fptosi]

def ofMnemonic? (s : String) : Option CastOp := all.find? (·.mnemonic = s)

end CastOp

inductive Instr where
  | alloca (dst : Reg) (ty : Ty)
  | load (dst : Reg) (ty : Ty) (ptr : Value)
  | store (value ptr : Value)
  | binary (dst : Reg) (op : BinaryOp) (lhs rhs : Value)
  | fneg (dst : Reg) (value : Value)
  | icmp (dst : Reg) (pred : IntPredicate) (lhs rhs : Value)
  | fcmp (dst : Reg) (pred : FloatPredicate) (lhs rhs : Value)
  | cast (dst : Reg) (op : CastOp) (value : Value) (target : Ty)
  /-- The address of an element inside what `ptr` points at, read as `base`. -/
  | gep (dst : Reg) (base : Ty) (ptr : Value) (indices : List Value)
  | call (dst : Option Reg) (callee : String) (args : List Value) (ret : Ty)
  | phi (dst : Reg) (ty : Ty) (incoming : List (Value × BlockId))
  | select (dst : Reg) (cond onTrue onFalse : Value)
  | inlineAsm (code constraints : String) (args : List Value) (sideEffects : Bool)
deriving DecidableEq

inductive Terminator where
  | br (target : BlockId)
  | condBr (cond : Value) (thenBlock elseBlock : BlockId)
  | ret (value : Option Value)
  | unreachable
deriving DecidableEq

namespace Instr

def dst? : Instr → Option Reg
  | alloca dst _ | load dst _ _ | binary dst _ _ _ | fneg dst _ | icmp dst _ _ _
  | fcmp dst _ _ _ | cast dst _ _ _ | gep dst _ _ _ | phi dst _ _ | select dst _ _ _ => some dst
  | call dst _ _ _ => dst
  | store _ _ | inlineAsm _ _ _ _ => none

def callee? : Instr → Option String
  | call _ callee _ _ => some callee
  | _ => none

def operandList (values : List Value) : String := ", ".intercalate (values.map Value.typed)

/-- One line of a module's text; `label` spells the blocks that a phi names. -/
def text (label : BlockId → String) : Instr → String
  | alloca dst ty => Reg.text dst ++ " = alloca " ++ ty.text
  | load dst ty ptr => Reg.text dst ++ " = load " ++ ty.text ++ ", " ++ ptr.typed
  | store value ptr => "store " ++ value.typed ++ ", " ++ ptr.typed
  | binary dst op lhs rhs =>
      Reg.text dst ++ " = " ++ op.mnemonic ++ " " ++ lhs.typed ++ ", " ++ rhs.text
  | fneg dst value => Reg.text dst ++ " = fneg " ++ value.typed
  | icmp dst pred lhs rhs =>
      Reg.text dst ++ " = icmp " ++ pred.mnemonic ++ " " ++ lhs.typed ++ ", " ++ rhs.text
  | fcmp dst pred lhs rhs =>
      Reg.text dst ++ " = fcmp " ++ pred.mnemonic ++ " " ++ lhs.typed ++ ", " ++ rhs.text
  | cast dst op value target =>
      Reg.text dst ++ " = " ++ op.mnemonic ++ " " ++ value.typed ++ " to " ++ target.text
  | gep dst base ptr indices =>
      Reg.text dst ++ " = getelementptr inbounds " ++ base.text ++ ", " ++ ptr.typed ++ ", " ++ operandList indices
  | call dst callee args ret =>
      (match dst with
        | some r => Reg.text r ++ " = "
        | none => "") ++
        "call " ++ ret.text ++ " @" ++ callee ++ "(" ++ operandList args ++ ")"
  | phi dst ty incoming =>
      Reg.text dst ++ " = phi " ++ ty.text ++ " " ++ ", ".intercalate
          (incoming.map fun (v, b) => "[ " ++ v.text ++ ", %" ++ label b ++ " ]")
  | select dst cond onTrue onFalse =>
      Reg.text dst ++ " = select " ++ cond.typed ++ ", " ++ onTrue.typed ++ ", " ++ onFalse.typed
  | inlineAsm code constraints args sideEffects =>
      "call void asm " ++ (if sideEffects then "sideeffect " else "") ++ "\"" ++
        escapeBytes (utf8Bytes code) ++ "\", \"" ++ constraints ++ "\"(" ++ operandList args ++ ")"

end Instr

namespace Terminator

def successors : Terminator → List BlockId
  | br target => [target]
  | condBr _ thenBlock elseBlock => [thenBlock, elseBlock]
  | ret _ | unreachable => []

/-- One line of a module's text; `label` spells the target blocks. -/
def text (label : BlockId → String) : Terminator → String
  | br target => "br label %" ++ label target
  | condBr cond thenBlock elseBlock =>
      "br " ++ cond.typed ++ ", label %" ++ label thenBlock ++ ", label %" ++ label elseBlock
  | ret (some value) => "ret " ++ value.typed
  | ret none => "ret void"
  | unreachable => "unreachable"

end Terminator

end Aero.IR
