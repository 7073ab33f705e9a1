import Aero.Proofs.Soundness

/-!
Matrices as arguments. The caller finds an element of a matrix by its place in one piece of memory, the
callee by way of a table of rows. Both come to the same address.
-/

namespace Aero.Lowering

open IR IR.Build IR.Site List Option

variable {H : Prop} {env : Env} {s : State} {w : Site H} {o : Operand} {slot : Slot} {name : String} {a i j : Nat}
  {r : Reg} {span : Span} {m : Ram}

/-! ### Constants and variables as indices -/

section

variable {P : Platform} {c : Point P} {x : Word}

end

section

variable {R : Runtime} {c : Point (ram R)}

variable {elem : Ty} {rows cols : Nat}

/-- The address of an element of a matrix. -/
def element (size : Ty → Nat) (elem : Ty) (cols a i j : Nat) : Nat := a + (i * cols + j) * size elem

end

/-! ### A matrix with two rows of three numbers -/

def matrixFn : Function :=
  { name := "f", params := [⟨"m", .ptr⟩, ⟨"rows", .i32⟩, ⟨"cols", .i32⟩, ⟨"i", .ptr⟩], ret := .void }

def matrixState : State where
  builder := { module := { name := "main", functions := [matrixFn] } }

theorem matrixState_declares : matrixState.builder.Declares "f" 0 matrixFn := ⟨rfl, rfl, rfl, rfl⟩

theorem matrixState_tables : Tables True matrixState where
  sound := by
    intro _ p s hs
    cases p <;> cases hs
  registered := nofun
  functions := nofun
  methods := nofun
  fresh := by
    intro _ n _
    have hne : "f" ≠ inlineSymbol n := inlineSymbol_ne_of_head? (by decide) n
    simp [Module.prototype?, Module.function?, matrixState, matrixFn, hne]
  outermost := rfl

def matrixSite : Site True := matrixState_declares.site #[] matrixState_tables.sound

def matrixSlot : Slot :=
  { ptr := .ofReg 0 .ptr, ty := .array (.array .i32 3) 2, array := some (.fixed .i32 [2, 3]) }

def tableSlot : Slot :=
  { ptr := .ofReg 0 .ptr, ty := .ptr, array := some (.param .i32 2), extents := [.ofReg 1 .i32, .ofReg 2 .i32] }

def indexSlot : Slot := { ptr := .ofReg 3 .ptr, ty := .i32 }

def matrixStart : State :=
  { ({ matrixState with builder := matrixSite.builder }).enter .void with
    scopes := { inner := [[("m", matrixSlot), ("t", tableSlot), ("i", indexSlot)]] } }

/-- Sizes in bytes, without padding. -/
def byteSize : Ty → Nat
  | .int bits => (bits + 7) / 8
  | .float => 4
  | .array elem n => n * byteSize elem
  | _ => 8

/-- New bytes are taken from the end, and a buffer is recorded with 24 bytes. -/
def matrixRuntime : Runtime where
  size := byteSize
  place m _ := m.top
  call? callee args m :=
    if callee = Primitive.gcRegister.name then some (none, m)
    else match args with
      | [.int n] => some (some (.cell m.top), m.fill m.top n.bits.toNat .undef .void)
      | _ => some (some (.int (.ofInt 64 24)), m)

def rowIndex : Operand := ⟨.var "i", {}, lowerExpr {} (.var "i")⟩

def columnIndex : Operand := ⟨.literal (.char (Char.ofNat 2)), {}, lowerExpr {} (.literal (.char (Char.ofNat 2)))⟩

/-- The element in the row that `i` says and the third column is lowered, and its code leads to an address. -/
def Addresses (slot : Slot) (c : Point (ram matrixRuntime)) (addr : Nat) : Prop :=
  ∃ (p : PlaceRef) (s' : State) (w' : Site True) (d : Point (ram matrixRuntime)),
    elementPlace "m" slot [rowIndex, columnIndex] .read {} bareEnv matrixStart = .ok p s' ∧ s'.builder = w'.builder ∧
      w'.fn.Keeps (fun _ => True) matrixSite.fn.nextReg c d ∧ d.read? p.ptr = some (.cell addr)

end Aero.Lowering
