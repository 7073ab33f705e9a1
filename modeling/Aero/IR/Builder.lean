import Aero.Diagnostic
import Aero.IR.Fold
import Aero.IR.Primitive

/-!
Building a module. A `Builder` holds the module so far and an insertion point, which is a function and one of its
blocks; a `Build` action emits code there and yields operands. A block that has a terminator takes no more instructions,
and operations on constants are folded away. Under tracked allocation every buffer is registered with its size, so that
it can be collected and its length can be asked for.
-/

namespace Aero.IR

inductive AllocStrategy where
  | tracked
  | untracked
deriving DecidableEq, Repr

structure CustomType where
  name : String
  fields : List (String × Ty)
  methods : List (String × String) := []
deriving DecidableEq

namespace CustomType

def ty (t : CustomType) : Ty := .struct t.name

/-- Position and type of a field; the last field of a name counts. Positions are words of 32
bits. -/
def field? (t : CustomType) (name : String) : Option (Nat × Ty) := do
  let (_, i) ← t.fields.zipIdx.reverse.find? (·.1.1 = name)
  let position := i % UInt32.size
  let (_, ty) ← t.fields[position]?
  return (position, ty)

def method? (t : CustomType) (name : String) : Option String :=
  (t.methods.find? (·.1 = name)).map (·.2)

/-- The type with a method added, or replaced if it has one of this name. -/
def addMethod (t : CustomType) (name symbol : String) : CustomType :=
  { t with methods := t.methods.filter (·.1 ≠ name) ++ [(name, symbol)] }

end CustomType

structure Builder where
  module : Module
  /-- The position of the function being defined. -/
  current : Option Nat := none
  /-- The block that instructions go to. -/
  insert : Option BlockId := none
  /-- The texts of the string constants so far, each with the name of its global. -/
  strings : List (String × String) := []
  custom : List CustomType := []
  alloc : AllocStrategy := .tracked
  log : Array LogLine := #[]

abbrev Build := StateM Builder

namespace Builder

def noBlock : BlockId := UInt32.size - 1

def noReg : Reg := UInt32.size - 1

def function? (b : Builder) : Option Function := b.current.bind (b.module.functions[·]?)

def block? (b : Builder) : Option Block := do
  let f ← b.function?
  let id ← b.insert
  f.block? id

def modifyFunction (b : Builder) (change : Function → Function) : Builder :=
  match b.current with
  | some i =>
      { b with module := { b.module with functions := b.module.functions.modify i change } }
  | none => b

def modifyBlock (b : Builder) (change : Block → Block) : Builder :=
  match b.insert with
  | some id => b.modifyFunction (·.modifyBlock id change)
  | none => b

def note (b : Builder) (level : LogLevel) (message : String) : Builder :=
  { b with log := b.log.push ⟨level, message⟩ }

/-- Whether nothing more can be emitted: the block has a terminator, or there is none. -/
def isTerminated (b : Builder) : Bool :=
  match b.block? with
  | some block => block.isTerminated
  | none => true

def custom? (b : Builder) (name : String) : Option CustomType := b.custom.find? (·.name = name)

def blockLabel (b : Builder) (id : BlockId) : String :=
  match b.function? with
  | some f => f.labelOf id
  | none => BlockId.text id

/-- A label that no block of a function has: the given one, or one marked with the new block. -/
def freshLabel (f : Function) (label : String) : String :=
  if f.blocks.any (·.label = label) then label ++ "." ++ toString f.nextBlock else label

def start (name : String) (alloc : AllocStrategy := .tracked) (level : OptLevel := .o0) : Builder :=
  { module := { name := name, optLevel := level }, alloc := alloc }

end Builder

namespace Build

/-! ### Constants -/

/-- The zero of a type; types without one have an undefined value. -/
def zero (ty : Ty) : Value :=
  match ty with
  | .int _ => .ofInt ty 0
  | .float => .ofSingle 0.0
  | .double => .ofDouble 0.0
  | .ptr => .null
  | _ => .undef ty

def int32 (v : Int64) : Value := .ofInt .i32 v

def int64 (v : Int64) : Value := .ofInt .i64 v

def int8 (v : Int64) : Value := .ofInt .i8 v

/-- The address of a NUL-terminated string constant; equal texts share one global. -/
def constString (s : String) : Build Value := fun b =>
  match b.strings.lookup s with
  | some name => (.global name, b)
  | none =>
      let name := ".str." ++ toString b.strings.length
      let global : Global := ⟨name, .array .i8 (s.utf8ByteSize + 1), .str s, true⟩
      (.global name, { b with
        module := { b.module with globals := b.module.globals ++ [global] }
        strings := b.strings ++ [(s, name)] })

/-! ### Functions -/

/-- Declares a function unless its name is taken; tells whether it did. -/
def declareFunction (f : Function) : Build Bool := fun b =>
  if (b.module.function? f.name).isSome then (false, b)
  else (true, { b with module := { b.module with functions := b.module.functions ++ [f] } })

/-- A new block at the end of the function, its label made unique. -/
def appendBlock (label : String) : Build BlockId := fun b =>
  match b.function? with
  | none =>
      (Builder.noBlock, b.note .warn ("append_block('" ++ label ++ "') outside of a function"))
  | some f =>
      let id := f.nextBlock
      let unique := Builder.freshLabel f label
      let b := b.note .trace ("block " ++ unique ++ " (" ++ BlockId.text id ++ ") in @" ++ f.name)
      let block : Block := { id := id, label := unique }
      (id, b.modifyFunction fun f =>
        { f with nextBlock := f.nextBlock + 1, blocks := f.blocks ++ [block] })

def position (block : BlockId) : Build Unit := modify fun b => { b with insert := some block }

/-- Starts the body of a declared function at a new entry block; yields its parameters. -/
def defineFunction (name : String) : Build (Option (List Value)) := do
  let b ← get
  match b.module.functions.findIdx? (·.name = name), b.module.function? name with
  | some i, some f =>
      set { b with current := some i }
      modify (·.modifyFunction fun f => { f with nextReg := f.params.length })
      let entry ← appendBlock "entry"
      position entry
      return some (f.params.zipIdx.map fun (p, r) => .ofReg r p.ty)
  | _, _ => return none

/-- Drops the blocks of the function, which becomes a declaration again. -/
def discardBody : Build Unit :=
  modify fun b =>
    let b := b.modifyFunction fun f =>
      { f with blocks := [], nextBlock := 0, nextReg := f.params.length }
    { b with insert := none }

def endFunction : Build Unit := modify fun b => { b with current := none, insert := none }

/-! ### Blocks -/

def eraseBlock (block : BlockId) : Build Unit :=
  modify fun b =>
    let b := b.modifyFunction fun f => { f with blocks := f.blocks.filter (·.id ≠ block) }
    if b.insert = some block then { b with insert := none } else b

def moveBlockToEnd (block : BlockId) : Build Unit :=
  modify (·.modifyFunction fun f =>
    match f.blocks.findIdx? (·.id = block), f.block? block with
    | some i, some last => { f with blocks := f.blocks.eraseIdx i ++ [last] }
    | _, _ => f)

/-! ### Emission -/

def freshReg : Build Reg := fun b =>
  match b.function? with
  | some f => (f.nextReg, b.modifyFunction fun f => { f with nextReg := f.nextReg + 1 })
  | none => (Builder.noReg, b)

/-- Appends an instruction, unless the block is terminated or there is none. -/
def push (i : Instr) : Build Unit :=
  modify fun b =>
    match b.insert, b.block? with
    | none, _ =>
        b.note .warn ("dropping instruction without insertion point: " ++ i.text b.blockLabel)
    | some _, none => b
    | some _, some block =>
        if block.isTerminated then
          b.note .trace ("dropping instruction after terminator in " ++ block.label)
        else b.modifyBlock fun block => { block with instrs := block.instrs ++ [i] }

def emit (ty : Ty) (make : Reg → Instr) : Build Value := do
  let dst ← freshReg
  push (make dst)
  return .ofReg dst ty

/-- Ends the block, unless it has a terminator already. -/
def terminate (t : Terminator) : Build Unit :=
  modify (·.modifyBlock fun block =>
    if block.isTerminated then block else { block with term := some t })

def br (target : BlockId) : Build Unit := terminate (.br target)

def condBr (cond : Value) (thenBlock elseBlock : BlockId) : Build Unit :=
  terminate (.condBr cond thenBlock elseBlock)

def ret (value : Value) : Build Unit := terminate (.ret (some value))

def retVoid : Build Unit := terminate (.ret none)

def unreachable : Build Unit := terminate .unreachable

/-! ### Memory -/

def alloca (ty : Ty) : Build Value := emit .ptr fun dst => .alloca dst ty

def load (ty : Ty) (ptr : Value) : Build Value := emit ty fun dst => .load dst ty ptr

def store (value ptr : Value) : Build Unit := push (.store value ptr)

def gep (base : Ty) (ptr : Value) (indices : List Value) : Build Value :=
  emit .ptr fun dst => .gep dst base ptr indices

/-! ### Arithmetic -/

/-- The constant a folding gave, or else an instruction. -/
def foldOr (folded : Option Value) (ty : Ty) (make : Reg → Instr) : Build Value :=
  match folded with
  | some v => pure v
  | none => emit ty make

def binary (op : BinaryOp) (lhs rhs : Value) : Build Value :=
  foldOr (foldBinary? op lhs rhs) lhs.ty fun dst => .binary dst op lhs rhs

def arith (floating integral : BinaryOp) (lhs rhs : Value) : Build Value :=
  binary (if lhs.ty.isFp then floating else integral) lhs rhs

def add (lhs rhs : Value) : Build Value := arith .fadd .add lhs rhs

def sub (lhs rhs : Value) : Build Value := arith .fsub .sub lhs rhs

def mul (lhs rhs : Value) : Build Value := arith .fmul .mul lhs rhs

def div (lhs rhs : Value) : Build Value := arith .fdiv .sdiv lhs rhs

def rem (lhs rhs : Value) : Build Value := arith .frem .srem lhs rhs

def neg (value : Value) : Build Value :=
  if value.ty.isFp then
    foldOr (value.float?.map fun x => ⟨.float (-x), value.ty⟩) value.ty fun dst => .fneg dst value
  else binary .sub (zero value.ty) value

def not (value : Value) : Build Value := binary .xor value (.ofInt value.ty (-1))

def icmp (pred : IntPredicate) (lhs rhs : Value) : Build Value :=
  foldOr (foldIcmp? pred lhs rhs) .i1 fun dst => .icmp dst pred lhs rhs

def fcmp (pred : FloatPredicate) (lhs rhs : Value) : Build Value :=
  foldOr (foldFcmp? pred lhs rhs) .i1 fun dst => .fcmp dst pred lhs rhs

def select (cond onTrue onFalse : Value) : Build Value :=
  foldOr (cond.int?.map fun c => if c = 0 then onFalse else onTrue) onTrue.ty fun dst => .select dst cond onTrue onFalse

def phi (ty : Ty) (incoming : List (Value × BlockId)) : Build Value :=
  emit ty fun dst => .phi dst ty incoming

/-! ### Conversions -/

def cast (op : CastOp) (value : Value) (target : Ty) : Build Value :=
  foldOr (foldCast? op value target) target fun dst => .cast dst op value target

/-- An integer at another width; truth values are always widened with zeros. -/
def intCast (value : Value) (target : Ty) (signed : Bool) : Build Value :=
  match value.ty.width?, target.width? with
  | some width, some wanted =>
      if width = wanted then pure value
      else if wanted < width then cast .trunc value target
      else if signed && 1 < width then cast .sext value target
      else cast .zext value target
  | _, _ => pure value

def fpCast (value : Value) (target : Ty) : Build Value :=
  match value.ty, target with
  | .float, .double => cast .fpext value target
  | .double, .float => cast .fptrunc value target
  | _, _ => pure value

/-- A signed integer as a floating-point number; the truth value `true` is one. -/
def siToFp (value : Value) (target : Ty) : Build Value := do
  let value ← if value.ty.isBool then intCast value .i32 false else pure value
  cast .sitofp value target

def fpToSi (value : Value) (target : Ty) : Build Value := cast .fptosi value target

/-! ### Calls -/

/-- Calls a function by name. A call without a result yields an undefined value of type void. -/
def call (callee : String) (args : List Value) : Build Value := do
  let b ← get
  let ret ←
    match b.module.function? callee with
    | some f => pure f.ret
    | none => do
        modify (·.note .warn ("call to undeclared function @" ++ callee))
        pure .void
  if ret.isVoid then
    push (.call none callee args .void)
    return .undef .void
  else emit ret fun dst => .call (some dst) callee args ret

def declarePrimitive (p : Primitive) : Build Unit := discard (declareFunction p.declaration)

def callPrimitive (p : Primitive) (args : List Value) : Build Value := do
  declarePrimitive p
  call p.name args

def printf (format : String) (args : List Value) : Build Value := do
  let format ← constString format
  callPrimitive .printf (format :: args)

def strlen (s : Value) : Build Value := callPrimitive .strlen [s]

def inlineAsm (code constraints : String) (args : List Value) (sideEffects : Bool) : Build Unit :=
  push (.inlineAsm code constraints args sideEffects)

/-! ### Custom types -/

/-- Defines a struct type, in place of an earlier one of its name. -/
def defineType (name : String) (fields : List (String × Ty)) : Build Ty := do
  modify fun b =>
    let structs := b.module.structs.filter (·.name ≠ name) ++ [⟨name, fields.map (·.2)⟩]
    { b with
      module := { b.module with structs := structs }
      custom := b.custom.filter (·.name ≠ name) ++ [{ name := name, fields := fields }] }
  return .struct name

/-- Gives a custom type a method; tells whether there is such a type. -/
def addMethod (typeName method symbol : String) : Build Bool := fun b =>
  if (b.custom? typeName).isSome then
    (true, { b with
      custom := b.custom.map fun t => if t.name = typeName then t.addMethod method symbol else t })
  else (false, b)

def fieldPtr (typeName : String) (obj : Value) (field : String) : Build (Option (Value × Ty)) := do
  match ((← get).custom? typeName).bind (·.field? field) with
  | some (i, ty) =>
      let ptr ← gep (.struct typeName) obj [int32 0, int32 (Int64.ofNat i)]
      return some (ptr, ty)
  | none => return none

/-- Calls a method with the object's address as its first argument. -/
def methodCall (typeName method : String) (obj : Value) (args : List Value) : Build (Option Value) := do
  match ((← get).custom? typeName).bind (·.method? method) with
  | some symbol => return some (← call symbol (obj :: args))
  | none => return none

end Build

end Aero.IR

/-! ### Heap buffers -/

namespace Aero.IR.Build

def isTracked : Build Bool := return (← get).alloc = .tracked

def malloc (size : Value) : Build Value := do
  let size ← intCast size .i64 false
  callPrimitive .malloc [size]

def trackedMalloc (size : Value) (dims : Nat) : Build Value := do
  let size ← intCast size .i64 false
  let ptr ← malloc size
  if ← isTracked then
    discard (callPrimitive .gcRegister [ptr, size, int32 (Int64.ofNat (max dims 1))])
  return ptr

def heapArray (elem : Ty) (count : Value) : Build Value := do
  let size := (← get).module.sizeOf elem
  let count ← intCast count .i64 true
  let bytes ← mul count (int64 (max size 1).toInt64)
  trackedMalloc bytes 1

def free (ptr : Value) : Build Unit := discard (callPrimitive .free [ptr])

/-- Takes a buffer out of the tracker's table without freeing it. -/
def untrack (ptr : Value) : Build Unit := do
  if ← isTracked then discard (callPrimitive .gcUnregister [ptr])

def gcCollect : Build Unit := do
  if ← isTracked then discard (callPrimitive .gcCollect [])

/-- Arranges that everything still tracked is released when the program exits. -/
def cleanupAtExit : Build Unit := do
  if ← isTracked then
    declarePrimitive .gcCleanup
    discard (callPrimitive .atexit [.global Primitive.gcCleanup.name])

/-- The recorded size of a buffer in bytes, as an `i32`. -/
def trackedSize (ptr : Value) : Build Value := do
  let size ← callPrimitive .gcGetSize [ptr]
  intCast size .i32 false

def freeRows (table rows : Value) : Build Unit := do
  let rows ← intCast rows .i32 true
  discard (callPrimitive .freePtrArray [table, rows])
  untrack table
  free table

end Aero.IR.Build
