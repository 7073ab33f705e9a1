import Aero.IR.Instr

/-!
Basic blocks, functions and modules, and how to look things up in them. A function without blocks is a declaration.
Fields of a struct lie at the next multiple of their alignment, and a struct is padded to a multiple of its largest one.
-/

namespace Aero.IR

/-- A labelled run of instructions; a block under construction has no terminator yet. -/
structure Block where
  id : BlockId
  label : String
  instrs : List Instr := []
  term : Option Terminator := none
deriving DecidableEq

def Block.isTerminated (b : Block) : Bool := b.term.isSome

def Block.successors (b : Block) : List BlockId := b.term.elim [] Terminator.successors

structure Param where
  name : String
  ty : Ty
deriving DecidableEq

/-- A declaration or a definition, with the numbers of the next fresh register and block. -/
structure Function where
  name : String
  params : List Param
  ret : Ty
  variadic : Bool := false
  blocks : List Block := []
  nextReg : Nat := 0
  nextBlock : Nat := 0
deriving DecidableEq

namespace Function

def isDeclaration (f : Function) : Bool := f.blocks.isEmpty

def entry? (f : Function) : Option BlockId := f.blocks.head?.map Block.id

def block? (f : Function) (id : BlockId) : Option Block := f.blocks.find? (·.id = id)

def blockNamed? (f : Function) (start : String) : Option Block :=
  f.blocks.find? fun b => start.toList.isPrefixOf b.label.toList

def instrs (f : Function) : List Instr := f.blocks.flatMap Block.instrs

/-- The functions that are called, in layout order and with repetitions. -/
def callees (f : Function) : List String := f.instrs.filterMap Instr.callee?

/-- The label of a block, or a spelling of its identifier if there is no such block. -/
def labelOf (f : Function) (id : BlockId) : String :=
  match f.block? id with
  | some b => b.label
  | none => BlockId.text id

/-- The function with a change made to the first block that has the identifier. -/
def modifyBlock (f : Function) (id : BlockId) (change : Block → Block) : Function :=
  match f.blocks.findIdx? (·.id = id) with
  | some i => { f with blocks := f.blocks.modify i change }
  | none => f

end Function

inductive GlobalInit where
  /-- The bytes of a text and a terminating NUL. -/
  | str (s : String)
  | zero
deriving DecidableEq

structure Global where
  name : String
  ty : Ty
  init : GlobalInit
  constant : Bool
deriving DecidableEq

structure StructType where
  name : String
  fields : List Ty
deriving DecidableEq

/-- Code that another compiler produced for an inline block. -/
structure ForeignUnit where
  lang : String
  symbol : String
  code : String
deriving DecidableEq

inductive OptLevel where
  | o0 | o1 | o2 | o3 | os | oz
deriving DecidableEq, Repr, Inhabited

namespace OptLevel

def ofNat? : Nat → Option OptLevel
  | 0 => some o0
  | 1 => some o1
  | 2 => some o2
  | 3 => some o3
  | 4 => some os
  | 5 => some oz
  | _ => none

def text : OptLevel → String
  | o0 => "O0"
  | o1 => "O1"
  | o2 => "O2"
  | o3 => "O3"
  | os => "Os"
  | oz => "Oz"

end OptLevel

structure Module where
  name : String
  optLevel : OptLevel := .o0
  structs : List StructType := []
  globals : List Global := []
  functions : List Function := []
  foreign : List ForeignUnit := []
deriving DecidableEq

namespace Module

def function? (m : Module) (name : String) : Option Function := m.functions.find? (·.name = name)

def global? (m : Module) (name : String) : Option Global := m.globals.find? (·.name = name)

def struct? (m : Module) (name : String) : Option StructType := m.structs.find? (·.name = name)

def stringConstant? (m : Module) (name : String) : Option String :=
  match (m.global? name).map Global.init with
  | some (.str s) => some s
  | _ => none

end Module

/-! ### Sizes and alignments -/

/-- The bytes a value takes and the multiple its address is. -/
structure Extent where
  size : UInt64
  align : UInt64
deriving DecidableEq, Repr

def roundUp (n align : UInt64) : UInt64 :=
  (n / align + (if n % align = 0 then 0 else 1)) * align

namespace Extent

def natural (size : UInt64) : Extent := ⟨size, max size 1⟩

def ofTy (ofStruct : String → Extent) : Ty → Extent
  | .void => natural 0
  | .int bits => natural (max (UInt64.ofNat ((bits + 7) / 8)) 1)
  | .float => natural 4
  | .double | .ptr => natural 8
  | .array elem len =>
      let e := ofTy ofStruct elem
      ⟨e.size * UInt64.ofNat len, e.align⟩
  | .struct name => ofStruct name

/-- One more field behind the fields placed so far, without padding at the end. -/
def addField (placed field : Extent) : Extent :=
  ⟨roundUp placed.size field.align + field.size, max placed.align field.align⟩

def ofFields (fields : List Extent) : Extent :=
  let placed := fields.foldl addField ⟨0, 1⟩
  ⟨roundUp placed.size placed.align, placed.align⟩

end Extent

/-- The extent of a struct by name, an unknown one being a word. Structs nest at most `depth`
deep. -/
def Module.structExtent (m : Module) : (depth : Nat) → String → Extent
  | 0, _ => ⟨8, 8⟩
  | depth + 1, name =>
      match m.struct? name with
      | none => ⟨8, 8⟩
      | some st => Extent.ofFields (st.fields.map (Extent.ofTy (m.structExtent depth)))

def Module.extent (m : Module) (ty : Ty) : Extent :=
  Extent.ofTy (m.structExtent m.structs.length) ty

def Module.sizeOf (m : Module) (ty : Ty) : UInt64 := (m.extent ty).size

end Aero.IR
