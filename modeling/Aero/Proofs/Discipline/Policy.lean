import Aero.Proofs.Emission

/-!
What is asked of code while it is written: which primitives it calls and how buffers are allocated, and that it
handles no void value. A builder that conforms goes on to conform when an operation emits code of this kind.
-/

namespace Aero.IR

open List Option

variable {change : Function → Function} {g : Function} {ty : Ty}

/-! ### Code -/

def Ty.hasVoid : Ty → Bool
  | .void => true
  | .array elem _ => elem.hasVoid
  | _ => false

theorem Ty.hasVoid_of_not_isArray (h : ty.isArray = false) : ty.hasVoid = ty.isVoid := by
  cases ty with
  | array elem len => cases h
  | _ => rfl

theorem Ty.isVoid_of_not_hasVoid (h : ty.hasVoid = false) : ty.isVoid = false := by
  cases ty with
  | void => cases h
  | _ => rfl

/-- Whether an instruction has type void or an operand of this type. What a call is given is not looked at. -/
def Instr.handlesVoid : Instr → Bool
  | .alloca _ ty => ty.isVoid
  | .load _ ty ptr => ty.isVoid || ptr.ty.isVoid
  | .store value ptr => value.ty.isVoid || ptr.ty.isVoid
  | .binary _ _ lhs rhs | .icmp _ _ lhs rhs | .fcmp _ _ lhs rhs => lhs.ty.isVoid || rhs.ty.isVoid
  | .fneg _ value => value.ty.isVoid
  | .cast _ _ value target => value.ty.isVoid || target.isVoid
  | .gep _ base _ _ => base.isVoid
  | .phi _ ty incoming => ty.isVoid || incoming.any (·.1.ty.isVoid)
  | .select _ cond onTrue onFalse => cond.ty.isVoid || onTrue.ty.isVoid || onFalse.ty.isVoid
  | .call _ _ _ _ | .inlineAsm _ _ _ _ => false

def Instr.malloc (r : Reg) (size : Value) : Instr := .call (some r) Primitive.malloc.name [size] .ptr

def Instr.register (r : Reg) (size dims : Value) : Instr :=
  .call none Primitive.gcRegister.name [.ofReg r .ptr, size, dims] .void

def Function.head (f : Function) : Function := { f with blocks := [], nextReg := 0, nextBlock := 0 }

def Primitive.isTracker : Primitive → Bool
  | gcRegister | gcUnregister | gcCollect | gcCleanup | gcGetSize => true
  | _ => false

/-- Whether a primitive neither allocates a buffer nor works on the tracker's table. -/
def Primitive.isOrdinary (p : Primitive) : Bool := p ≠ .malloc && !p.isTracker

/-- What is asked of the functions of a module. -/
structure Policy where
  alloc : AllocStrategy
  /-- No function of the program has the name of a primitive. -/
  apart : Prop
  /-- The functions that may not handle void values. -/
  solid : String → Prop
  apart_of_solid : ∀ {name : String}, solid name → apart

namespace Policy

def Allows (P : Policy) (p : Primitive) : Prop :=
  p ≠ .malloc ∧ (P.alloc = .untracked → p.isTracker = false)

/-- An instruction can stand anywhere in a function. -/
structure Plain (P : Policy) (name : String) (i : Instr) : Prop where
  calls : P.apart → ∀ p : Primitive, i.callee? = some p.name → P.Allows p
  solid : P.solid name → i.handlesVoid = false

/-- Instructions that belong together. A buffer is registered at once, unless nothing is tracked or the program
has asked for it by itself. -/
inductive Piece (P : Policy) (name : String) (requested : Reg → Prop) : List Instr → Prop where
  | plain {i : Instr} (h : P.Plain name i) : Piece P name requested [i]
  | registered {r : Reg} {size dims : Value} (h : P.alloc = .tracked) :
      Piece P name requested [.malloc r size, .register r size dims]
  | unregistered {r : Reg} {size : Value} (h : P.alloc = .untracked ∨ requested r) :
      Piece P name requested [.malloc r size]

/-- Code that consists of such pieces. -/
inductive Code (P : Policy) (name : String) (requested : Reg → Prop) : List Instr → Prop where
  | nil : Code P name requested []
  | snoc {code piece : List Instr} (hcode : Code P name requested code)
      (hpiece : P.Piece name requested piece) : Code P name requested (code ++ piece)

variable {P : Policy} {name : String} {requested requested' : Reg → Prop} {code : List Instr}

theorem Code.mono (h : P.Code name requested code) (hle : ∀ r, requested r → requested' r) :
    P.Code name requested' code := by
  induction h with
  | nil => exact .nil
  | snoc _ hpiece ih =>
    refine .snoc ih ?_
    cases hpiece with
    | plain h => exact .plain h
    | registered h => exact .registered h
    | unregistered h => exact .unregistered (h.imp_right (hle _))

end Policy

/-- The work on a function under a policy. -/
structure Mandate extends Policy where
  /-- The names of the program's own functions. -/
  own : String → Prop
  /-- The declarations that stay, whatever becomes of their bodies. -/
  signed : List Function
  /-- The name of the function being defined. -/
  name : String
  /-- The position of this function, if there is one. -/
  index : Option Nat

/-- A builder conforms to a policy while a function is defined. -/
structure Builder.Conforms (c : Mandate) (requested : Nat → Reg → Prop) (b : Builder) : Prop where
  alloc_eq : b.alloc = c.alloc
  current_eq : b.current = c.index
  seated : ∀ i, b.current = some i → ∃ f, b.module.functions[i]? = some f ∧ f.name = c.name ∧ c.own c.name
  nodup : (b.module.functions.map Function.name).Nodup
  honest : c.apart → ∀ f ∈ b.module.functions, ∀ p : Primitive, f.name = p.name → f.ret = p.signature.ret
  known : ∀ f ∈ b.module.functions, c.own f.name ∨ (∃ p : Primitive, f = p.declaration) ∨
    ∃ unit ∈ b.module.foreign, unit.symbol = f.name
  present : ∀ g ∈ c.signed, g ∈ b.module.functions.map Function.head
  code : ∀ i f, b.module.functions[i]? = some f → ∀ d ∈ f.blocks, c.Code f.name (requested i) d.instrs
  fields : ∀ t ∈ b.custom, ∀ field ∈ t.fields, field.2.isVoid = false

/-! ### Blocks -/

/-- The list with a change made to the first element that passes a test. -/
def modifyFirst {α : Type} (p : α → Bool) (change : α → α) : List α → List α
  | [] => []
  | a :: l => if p a then change a :: l else a :: modifyFirst p change l

section

variable {α : Type} {p : α → Bool} {change change' : α → α} {l : List α}

theorem modifyFirst_eq : (match l.findIdx? p with
    | some i => l.modify i change
    | none => l) = modifyFirst p change l := by
  induction l with
  | nil => rfl
  | cons a l ih =>
    rw [findIdx?_cons, modifyFirst]
    by_cases ha : p a = true
    · rw [if_pos ha, if_pos ha]
      rfl
    · rw [if_neg ha, if_neg ha, ← ih]
      cases l.findIdx? p <;> rfl

theorem mem_modifyFirst {a : α} (h : a ∈ modifyFirst p change l) : a ∈ l ∨ ∃ b, l.find? p = some b ∧ a = change b := by
  induction l with
  | nil => exact .inl h
  | cons b l ih =>
    rw [modifyFirst] at h
    by_cases hb : p b = true
    · rw [if_pos hb] at h
      rcases mem_cons.mp h with rfl | h
      · exact .inr ⟨b, find?_cons_of_pos hb, rfl⟩
      · exact .inl (mem_cons_of_mem _ h)
    · rw [if_neg hb] at h
      rcases mem_cons.mp h with rfl | h
      · exact .inl mem_cons_self
      · rw [find?_cons_of_neg hb]
        exact (ih h).imp_left (mem_cons_of_mem _)

theorem modifyFirst_modifyFirst (hp : ∀ a, p (change a) = p a) :
    modifyFirst p change' (modifyFirst p change l) = modifyFirst p (change' ∘ change) l := by
  induction l with
  | nil => rfl
  | cons a l ih =>
    simp only [modifyFirst]
    by_cases ha : p a = true
    · rw [if_pos ha, if_pos ha, modifyFirst, if_pos ((hp a).trans ha)]
      rfl
    · rw [if_neg ha, if_neg ha, modifyFirst, if_neg ha, ih]

theorem find?_modifyFirst (hp : ∀ a, p (change a) = p a) :
    (modifyFirst p change l).find? p = (l.find? p).map change := by
  induction l with
  | nil => rfl
  | cons a l ih =>
    rw [modifyFirst]
    by_cases ha : p a = true
    · rw [if_pos ha, find?_cons_of_pos ((hp a).trans ha), find?_cons_of_pos ha]
      rfl
    · rw [if_neg ha, find?_cons_of_neg ha, find?_cons_of_neg ha, ih]

end

theorem Function.modifyBlock_eq (f : Function) (id : BlockId) (change : Block → Block) :
    f.modifyBlock id change = { f with blocks := modifyFirst (·.id = id) change f.blocks } := by
  rw [Function.modifyBlock, ← modifyFirst_eq]
  cases f.blocks.findIdx? (·.id = id) <;> rfl

def Block.grow (d : Block) (code : List Instr) : Block := { d with instrs := d.instrs ++ code }

def Function.grow (f : Function) (id : BlockId) (code : List Instr) : Function :=
  f.modifyBlock id (·.grow code)

theorem Function.block?_grow (f : Function) (id : BlockId) (code : List Instr) :
    (f.grow id code).block? id = (f.block? id).map (·.grow code) := by
  rw [Function.grow, Function.modifyBlock_eq]
  exact find?_modifyFirst fun _ => rfl

theorem Function.grow_grow (f : Function) (id : BlockId) (code code' : List Instr) :
    (f.grow id code).grow id code' = f.grow id (code ++ code') := by
  have hgrow : (.grow · code') ∘ (.grow · code) = (Block.grow · (code ++ code')) := by
    funext d
    simp only [Function.comp_apply, Block.grow, append_assoc]
  have hblocks : modifyFirst (·.id = id) (.grow · code') (modifyFirst (·.id = id) (.grow · code) f.blocks) =
      modifyFirst (·.id = id) ((.grow · code') ∘ (.grow · code)) f.blocks :=
    modifyFirst_modifyFirst fun _ => rfl
  simp only [Function.grow, Function.modifyBlock_eq]
  rw [hblocks, hgrow]

/-! ### Operations of the builder -/

namespace Builder

/-- The builder with code at the end of the current block, if that is still open. -/
def extend (b : Builder) (code : List Instr) : Builder :=
  if b.isTerminated then b else b.modifyBlock (·.grow code)

/-- The current block is open. -/
structure Opens (b : Builder) (i : Nat) (f : Function) (id : BlockId) (d : Block) : Prop where
  current_eq : b.current = some i
  fn_eq : b.module.functions[i]? = some f
  insert_eq : b.insert = some id
  block_eq : f.block? id = some d
  isOpen : d.isTerminated = false

variable {c : Mandate} {requested : Nat → Reg → Prop} {b : Builder} {code : List Instr} {i : Nat}
  {f : Function} {id : BlockId} {d : Block}

theorem Opens.block? (h : b.Opens i f id d) : b.block? = some d := by
  simp only [Builder.block?, function?, h.current_eq, h.insert_eq, bind_eq_bind, bind_some, h.fn_eq, h.block_eq]

theorem Opens.isTerminated (h : b.Opens i f id d) : b.isTerminated = false := by
  rw [Builder.isTerminated, h.block?]
  exact h.isOpen

theorem exists_opens (h : b.isTerminated = false) : ∃ i f id d, b.Opens i f id d := by
  unfold isTerminated at h
  cases hblock : b.block? with
  | none =>
    rw [hblock] at h
    cases h
  | some d =>
    rw [hblock] at h
    unfold block? function? at hblock
    simp only [bind_eq_bind, bind_eq_some_iff] at hblock
    obtain ⟨f, ⟨i, hcurrent, hf⟩, id, hinsert, hd⟩ := hblock
    exact ⟨i, f, id, d, hcurrent, hf, hinsert, hd, h⟩

theorem Opens.extend (h : b.Opens i f id d) (code : List Instr) : b.extend code = b.setFn i (f.grow id code) := by
  rw [Builder.extend, h.isTerminated, modifyBlock]
  simp only [h.insert_eq]
  exact modifyFunction_eq h.current_eq h.fn_eq _

theorem Opens.grow (h : b.Opens i f id d) (code : List Instr) :
    (b.setFn i (f.grow id code)).Opens i (f.grow id code) id (d.grow code) where
  current_eq := h.current_eq
  fn_eq := List.getElem?_set_self (List.getElem?_eq_some_iff.mp h.fn_eq).1
  insert_eq := h.insert_eq
  block_eq := by
    rw [Function.block?_grow, h.block_eq]
    rfl
  isOpen := h.isOpen

theorem setFn_map {α : Type} (hf : b.module.functions[i]? = some f) (key : Function → α)
    (hkey : key g = key f) : (b.setFn i g).module.functions.map key = b.module.functions.map key := by
  rw [setFn, map_set, hkey, set_of_getElem? (by rw [getElem?_map, hf]; rfl)]

theorem extend_names (b : Builder) (code : List Instr) :
    (b.extend code).module.functions.map Function.name = b.module.functions.map Function.name := by
  cases hterm : b.isTerminated with
  | true => rw [extend, hterm, if_pos rfl]
  | false =>
    obtain ⟨i, f, id, d, h⟩ := exists_opens hterm
    rw [h.extend]
    refine setFn_map h.fn_eq Function.name ?_
    rw [Function.grow, Function.modifyBlock_eq]

theorem extend_current (b : Builder) (code : List Instr) : (b.extend code).current = b.current := by
  cases hterm : b.isTerminated with
  | true => rw [extend, hterm, if_pos rfl]
  | false =>
    obtain ⟨i, f, id, d, h⟩ := exists_opens hterm
    rw [h.extend]
    rfl

theorem extend_extend (b : Builder) (code code' : List Instr) :
    (b.extend code).extend code' = b.extend (code ++ code') := by
  cases hterm : b.isTerminated with
  | true => simp only [extend, hterm, if_true]
  | false =>
    obtain ⟨i, f, id, d, h⟩ := exists_opens hterm
    rw [h.extend, (h.grow code).extend, setFn_setFn, Function.grow_grow, h.extend]

/-- It does not matter whether a function is declared before code is added or after it. -/
theorem Conforms.addFn_extend (h : b.Conforms c requested) (g : Function) (code : List Instr) :
    (b.extend code).addFn g = (b.addFn g).extend code := by
  have hfunction : ∀ i, b.current = some i → (b.addFn g).module.functions[i]? = b.module.functions[i]? := by
    intro i hi
    obtain ⟨f, hf, _⟩ := h.seated i hi
    exact List.getElem?_append_left (List.getElem?_eq_some_iff.mp hf).1
  cases hterm : b.isTerminated with
  | true =>
    have hsame : (b.addFn g).function? = b.function? := by
      unfold function?
      cases hcurrent : b.current with
      | none => rw [show (b.addFn g).current = none from hcurrent]; rfl
      | some i =>
        rw [show (b.addFn g).current = some i from hcurrent]
        exact hfunction i hcurrent
    have hterm' : (b.addFn g).isTerminated = true := by
      rw [← hterm]
      unfold isTerminated block?
      rw [hsame]
      rfl
    simp only [extend, hterm, hterm', if_true]
  | false =>
    obtain ⟨i, f, id, d, hopens⟩ := exists_opens hterm
    have hopens' : (b.addFn g).Opens i f id d :=
      { hopens with fn_eq := (hfunction i hopens.current_eq).trans hopens.fn_eq }
    rw [hopens.extend, hopens'.extend]
    simp only [addFn, setFn]
    rw [List.set_append_left _ _ (List.getElem?_eq_some_iff.mp hopens.fn_eq).1]

theorem extend_log (b : Builder) (code : List Instr) (log : Array LogLine) :
    ({ b with log := log } : Builder).extend code = { b.extend code with log := log } := by
  cases hterm : b.isTerminated with
  | true =>
    have hterm' : ({ b with log := log } : Builder).isTerminated = true := hterm
    simp only [extend, hterm, hterm', if_true]
  | false =>
    obtain ⟨i, f, id, d, h⟩ := exists_opens hterm
    have h' : ({ b with log := log } : Builder).Opens i f id d := { h with }
    rw [h.extend, h'.extend]
    rfl

namespace Conforms

/-- Between two functions the mandate is the same for all of them. -/
theorem rename {name : String} (h : b.Conforms { c with name := name, index := none } requested) (other : String) :
    b.Conforms { c with name := other, index := none } requested :=
  { h with
    seated := fun i hi => by
      rw [h.current_eq] at hi
      cases hi }

variable (h : b.Conforms c requested)
include h

theorem mono {requested' : Nat → Reg → Prop} (hle : ∀ i r, requested i r → requested' i r) : b.Conforms c requested' :=
  { h with code := fun i f hf d hd => (h.code i f hf d hd).mono (hle i) }

theorem function?_eq (hf : f ∈ b.module.functions) : b.module.function? f.name = some f := by
  cases hfound : b.module.function? f.name with
  | none => exact absurd (decide_eq_true rfl) (find?_eq_none.mp hfound f hf)
  | some g =>
    have hname : g.name = f.name := by simpa using find?_some hfound
    rw [inj_on_of_nodup_map h.nodup (mem_of_find?_eq_some hfound) hf hname]

theorem modifyFunction (hhead : ∀ f, (change f).head = f.head)
    (hcode : ∀ i f, b.current = some i → f.name = c.name → (∀ d ∈ f.blocks, c.Code c.name (requested i) d.instrs) →
      ∀ d ∈ (change f).blocks, c.Code c.name (requested i) d.instrs) :
    (b.modifyFunction change).Conforms c requested := by
  cases hcurrent : b.current with
  | none =>
    rw [Builder.modifyFunction, hcurrent]
    exact h
  | some i =>
    obtain ⟨f, hf, hfname, hown⟩ := h.seated i hcurrent
    have hname : (change f).name = f.name := (congrArg Function.name (hhead f) :)
    rw [modifyFunction_eq hcurrent hf]
    have hmem := mem_of_getElem? hf
    have hfn : (b.setFn i (change f)).module.functions[i]? = some (change f) :=
      List.getElem?_set_self (List.getElem?_eq_some_iff.mp hf).1
    constructor
    case alloc_eq => exact h.alloc_eq
    case current_eq => exact h.current_eq
    case seated =>
      intro j hj
      obtain rfl : i = j := some.inj (hcurrent.symm.trans hj)
      exact ⟨change f, hfn, hname.trans hfname, hown⟩
    case nodup => exact setFn_map hf Function.name hname ▸ h.nodup
    case honest =>
      intro hapart g hg p hp
      rcases mem_or_eq_of_mem_set hg with hg | rfl
      · exact h.honest hapart g hg p hp
      · rw [show (change f).ret = f.ret from (congrArg Function.ret (hhead f) :)]
        exact h.honest hapart f hmem p (hname.symm.trans hp)
    case known =>
      intro g hg
      rcases mem_or_eq_of_mem_set hg with hg | rfl
      · exact h.known g hg
      · rw [hname, hfname]
        exact .inl hown
    case present => exact setFn_map hf Function.head (hhead f) ▸ h.present
    case code =>
      intro j g hg
      by_cases hij : i = j
      · subst hij
        obtain rfl : change f = g := some.inj (hfn.symm.trans hg)
        rw [hname, hfname]
        exact hcode i f hcurrent hfname (hfname ▸ h.code i f hf)
      · rw [setFn, getElem?_set_ne hij] at hg
        exact h.code j g hg
    case fields => exact h.fields

/-- A change that only takes blocks away or changes their order. -/
theorem modifyFunction_of_subset (hhead : ∀ f, (change f).head = f.head)
    (hblocks : ∀ f, ∀ d ∈ (change f).blocks, ∃ e ∈ f.blocks, e.instrs = d.instrs) :
    (b.modifyFunction change).Conforms c requested := by
  refine h.modifyFunction hhead fun i f _ _ hcode d hd => ?_
  obtain ⟨e, he, heq⟩ := hblocks f d hd
  exact heq ▸ hcode e he

theorem modifyBlock {change : Block → Block} (hcode : ∀ i d, b.current = some i → c.Code c.name (requested i) d.instrs →
      c.Code c.name (requested i) (change d).instrs) : (b.modifyBlock change).Conforms c requested := by
  unfold Builder.modifyBlock
  cases b.insert with
  | none => exact h
  | some id =>
    refine h.modifyFunction (fun f => ?_) fun i f hi _ hf d hd => ?_
    · rw [Function.modifyBlock_eq]
      rfl
    · rw [Function.modifyBlock_eq] at hd
      rcases mem_modifyFirst hd with hd | ⟨e, he, rfl⟩
      · exact hf d hd
      · exact hcode i e hi (hf e (mem_of_find?_eq_some he))

/-- Pieces of code can be added one after another. -/
theorem extend (hpiece : ∀ i, b.current = some i → c.Piece c.name (requested i) code) :
    (b.extend code).Conforms c requested := by
  unfold Builder.extend
  split
  · exact h
  · exact h.modifyBlock fun i d hi hd => .snoc hd (hpiece i hi)

theorem addFn (hnew : b.module.function? g.name = none) (hblocks : g.blocks = [])
    (hhonest : c.apart → ∀ p : Primitive, g.name = p.name → g.ret = p.signature.ret)
    (hknown : c.own g.name ∨ (∃ p : Primitive, g = p.declaration) ∨ ∃ unit ∈ b.module.foreign, unit.symbol = g.name) :
    (b.addFn g).Conforms c requested where
  alloc_eq := h.alloc_eq
  current_eq := h.current_eq
  seated := fun i hi => by
    obtain ⟨f, hf, hown⟩ := h.seated i hi
    exact ⟨f, (List.getElem?_append_left (List.getElem?_eq_some_iff.mp hf).1).trans hf, hown⟩
  nodup := by
    rw [Builder.addFn, map_append]
    refine nodup_append.mpr ⟨h.nodup, nodup_singleton _, ?_⟩
    rintro _ hmem _ hg rfl
    obtain ⟨f, hf, hname⟩ := mem_map.mp hmem
    have hne := find?_eq_none.mp hnew f hf
    exact hne (decide_eq_true (hname.trans (mem_singleton.mp hg)))
  honest := fun hapart f hf => by
    rcases mem_append.mp hf with hf | hf
    · exact h.honest hapart f hf
    · rw [mem_singleton.mp hf]
      exact hhonest hapart
  known := fun f hf => by
    rcases mem_append.mp hf with hf | hf
    · exact h.known f hf
    · rw [mem_singleton.mp hf]
      exact hknown
  present := fun f hf => by
    rw [Builder.addFn, map_append]
    exact mem_append_left _ (h.present f hf)
  code := fun i f hf d hd => by
    by_cases hlt : i < b.module.functions.length
    · exact h.code i f ((getElem?_append_left hlt).symm.trans hf) d hd
    · have hf := (getElem?_append_right (Nat.le_of_not_lt hlt)).symm.trans hf
      rw [mem_singleton.mp (mem_of_getElem? hf), hblocks] at hd
      cases hd
  fields := h.fields

end Conforms

end Builder

end Aero.IR
