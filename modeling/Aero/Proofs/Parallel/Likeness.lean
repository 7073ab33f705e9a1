import Aero.Proofs.Insertion

/-!
Code that differs only in how string constants are named. Two modules under construction have some
strings and declarations in common; operands, instructions and functions of one are like those of
the other if each address of a string is matched by an address of the same string.
-/

namespace Aero.IR

open List

variable {i i' : Instr} {t t' : Terminator}

/-! ### Lists that match entry by entry -/

section Matching

variable {α : Type} {R : α → α → Prop} {l l' : List α} {p : α → Bool}

section

variable (h : List.Forall₂ R l l')
include h

theorem forall₂_find? (hp : ∀ a b, R a b → p a = p b) : Option.Rel R (l.find? p) (l'.find? p) := by
  induction h with
  | nil => exact .none
  | cons hab _ ih =>
    rw [find?_cons, find?_cons, ← hp _ _ hab]
    split
    · exact .some hab
    · exact ih

theorem forall₂_findIdx? (hp : ∀ a b, R a b → p a = p b) : l'.findIdx? p = l.findIdx? p := by
  induction h with
  | nil => rfl
  | cons hab _ ih => rw [findIdx?_cons, findIdx?_cons, ← hp _ _ hab, ih]

theorem forall₂_any (hp : ∀ a b, R a b → p a = p b) : l'.any p = l.any p := by
  induction h with
  | nil => rfl
  | cons hab _ ih => rw [any_cons, any_cons, ← hp _ _ hab, ih]

theorem forall₂_filter (hp : ∀ a b, R a b → p a = p b) : List.Forall₂ R (l.filter p) (l'.filter p) := by
  induction h with
  | nil => exact .nil
  | cons hab _ ih =>
    rw [filter_cons, filter_cons, ← hp _ _ hab]
    split
    · exact .cons hab ih
    · exact ih

theorem forall₂_modify {change change' : α → α} (hchange : ∀ a b, R a b → R (change a) (change' b)) (i : Nat) :
    List.Forall₂ R (l.modify i change) (l'.modify i change') := by
  induction h generalizing i with
  | nil => simp
  | cons hab hrest ih =>
    cases i with
    | zero => exact .cons (hchange _ _ hab) hrest
    | succ i => exact .cons hab (ih i)

theorem forall₂_eraseIdx (i : Nat) : List.Forall₂ R (l.eraseIdx i) (l'.eraseIdx i) := by
  induction h generalizing i with
  | nil => exact .nil
  | cons hab hrest ih =>
    cases i with
    | zero => exact hrest
    | succ i => exact .cons hab (ih i)

end

theorem rel_imp {S : α → α → Prop} {x y : Option α} (h : Option.Rel R x y)
    (hRS : ∀ a b, R a b → S a b) : Option.Rel S x y := by
  cases h with
  | none => exact .none
  | some hab => exact .some (hRS _ _ hab)

theorem rel_isSome {x y : Option α} (h : Option.Rel R x y) : y.isSome = x.isSome := by
  cases h <;> rfl

end Matching

theorem find?_key_of_mem {α κ : Type} [DecidableEq κ] (key : α → κ) {l : List α} (h : (l.map key).Nodup)
    {a : α} (ha : a ∈ l) : l.find? (key · = key a) = some a := by
  obtain ⟨b, hb⟩ : ∃ b, l.find? (key · = key a) = some b :=
    Option.isSome_iff_exists.mp (find?_isSome.mpr ⟨a, ha, decide_eq_true rfl⟩)
  have hkey : key b = key a := by simpa using find?_some hb
  rw [hb, inj_on_of_nodup_map h (mem_of_find?_eq_some hb) ha hkey]

theorem mem_of_lookup {α : Type} {table : List (String × α)} {name : String} {a : α} (h : table.lookup name = some a) :
    (name, a) ∈ table := by
  obtain ⟨before, after, rfl, _⟩ := lookup_eq_some_iff.mp h
  exact mem_append_right _ mem_cons_self

/-! ### What two modules have in common -/

/-- What two modules under construction, one to the left of the other, have in common. They may be known to show the
same code exactly. -/
structure Common (exact : Prop) where
  /-- A name of the left module and one of the right stand for one string. -/
  strings : String → String → Prop
  /-- A function is declared in both modules, and in the same way. -/
  declared : String → Prop
  custom : List CustomType

/-- Two modules have come to have more in common. -/
structure Common.Within {exact : Prop} (P P' : Common exact) : Prop where
  strings : ∀ n n', P.strings n n' → P'.strings n n'
  declared : ∀ n, P.declared n → P'.declared n
  custom_eq : P'.custom = P.custom

instance {exact : Prop} : Preorder (Common exact) where
  le := Common.Within
  le_refl := fun _ => ⟨fun _ _ h => h, fun _ h => h, rfl⟩
  le_trans := fun _ _ _ h h' => ⟨fun n n' hn => h'.strings n n' (h.strings n n' hn),
    fun n hn => h'.declared n (h.declared n hn), h'.custom_eq.trans h.custom_eq⟩

/-! ### Operands -/

/-- An operand that is not the address of a global, if addresses can differ. -/
def Value.Plain (exact : Prop) (v : Value) : Prop := exact ∨ ∀ name, v.kind ≠ .global name

variable {exact : Prop} {P P' : Common exact}

namespace Value

/-- An operand of the left module and one of the right are the same, or they are addresses of one
string. -/
inductive Like (P : Common exact) : Value → Value → Prop
  | plain {v : Value} (h : v.Plain exact) : Like P v v
  | symbol (p : Primitive) : Like P (.global p.name) (.global p.name)
  | string {n n' : String} (h : P.strings n n') : Like P (.global n) (.global n')

namespace Like

variable {v v' : Value}

variable (h : v.Like P v')
include h

theorem mono (hle : P ≤ P') : v.Like P' v' := by
  cases h with
  | plain hv => exact .plain hv
  | symbol p => exact .symbol p
  | string hn => exact .string (hle.strings _ _ hn)

theorem ty_eq : v'.ty = v.ty := by
  cases h <;> rfl

theorem int?_eq : v'.int? = v.int? := by
  cases h <;> rfl

theorem of_ty_ne (hty : v.ty ≠ .ptr) : v' = v ∧ v.Plain exact := by
  cases h with
  | plain hv => exact ⟨rfl, hv⟩
  | symbol p | string hn => exact absurd rfl hty

/-- A test of the type that no address passes. -/
theorem of_ty {test : Ty → Bool} (hptr : test .ptr = false) (hty : test v.ty = true) : v' = v ∧ v.Plain exact :=
  h.of_ty_ne fun heq => by
    rw [heq, hptr] at hty
    cases hty

end Like

abbrev Likes (P : Common exact) : List Value → List Value → Prop := List.Forall₂ (Like P)

theorem Likes.mono {vs vs' : List Value} (h : Likes P vs vs') (hle : P ≤ P') : Likes P' vs vs' :=
  h.imp fun _ _ hv => hv.mono hle

end Value

/-! ### Code -/

/-- Instructions that are the same up to matching operands. -/
inductive Instr.Like (P : Common exact) : Instr → Instr → Prop
  | alloca (dst : Reg) (ty : Ty) : Like P (.alloca dst ty) (.alloca dst ty)
  | load (dst : Reg) (ty : Ty) {ptr ptr' : Value} (hptr : ptr.Like P ptr') :
      Like P (.load dst ty ptr) (.load dst ty ptr')
  | store {value value' ptr ptr' : Value} (hvalue : value.Like P value') (hptr : ptr.Like P ptr') :
      Like P (.store value ptr) (.store value' ptr')
  | binary (dst : Reg) (op : BinaryOp) {l l' r r' : Value} (hl : l.Like P l') (hr : r.Like P r') :
      Like P (.binary dst op l r) (.binary dst op l' r')
  | fneg (dst : Reg) {v v' : Value} (hv : v.Like P v') : Like P (.fneg dst v) (.fneg dst v')
  | icmp (dst : Reg) (pred : IntPredicate) {l l' r r' : Value} (hl : l.Like P l')
      (hr : r.Like P r') : Like P (.icmp dst pred l r) (.icmp dst pred l' r')
  | fcmp (dst : Reg) (pred : FloatPredicate) {l l' r r' : Value} (hl : l.Like P l')
      (hr : r.Like P r') : Like P (.fcmp dst pred l r) (.fcmp dst pred l' r')
  | cast (dst : Reg) (op : CastOp) (target : Ty) {v v' : Value} (hv : v.Like P v') :
      Like P (.cast dst op v target) (.cast dst op v' target)
  | gep (dst : Reg) (base : Ty) {ptr ptr' : Value} {indices indices' : List Value}
      (hptr : ptr.Like P ptr') (hindices : Value.Likes P indices indices') :
      Like P (.gep dst base ptr indices) (.gep dst base ptr' indices')
  | call (dst : Option Reg) (callee : String) (ret : Ty) {args args' : List Value}
      (hargs : Value.Likes P args args') : Like P (.call dst callee args ret) (.call dst callee args' ret)
  | phi (dst : Reg) (ty : Ty) {incoming incoming' : List (Value × BlockId)}
      (h : List.Forall₂ (fun p p' => p.1.Like P p'.1 ∧ p'.2 = p.2) incoming incoming') :
      Like P (.phi dst ty incoming) (.phi dst ty incoming')
  | select (dst : Reg) {c c' t t' e e' : Value} (hc : c.Like P c') (ht : t.Like P t')
      (he : e.Like P e') : Like P (.select dst c t e) (.select dst c' t' e')
  | inlineAsm (code constraints : String) (sideEffects : Bool) {args args' : List Value}
      (hargs : Value.Likes P args args') :
      Like P (.inlineAsm code constraints args sideEffects) (.inlineAsm code constraints args' sideEffects)

theorem Instr.Like.mono (h : i.Like P i') (hle : P ≤ P') : i.Like P' i' := by
  cases h with
  | alloca dst ty => exact .alloca dst ty
  | load dst ty hptr => exact .load dst ty (hptr.mono hle)
  | store hvalue hptr => exact .store (hvalue.mono hle) (hptr.mono hle)
  | binary dst op hl hr => exact .binary dst op (hl.mono hle) (hr.mono hle)
  | fneg dst hv => exact .fneg dst (hv.mono hle)
  | icmp dst pred hl hr => exact .icmp dst pred (hl.mono hle) (hr.mono hle)
  | fcmp dst pred hl hr => exact .fcmp dst pred (hl.mono hle) (hr.mono hle)
  | cast dst op target hv => exact .cast dst op target (hv.mono hle)
  | gep dst base hptr hindices => exact .gep dst base (hptr.mono hle) (hindices.mono hle)
  | call dst callee ret hargs => exact .call dst callee ret (hargs.mono hle)
  | phi dst ty h => exact .phi dst ty (h.imp fun _ _ hp => ⟨hp.1.mono hle, hp.2⟩)
  | select dst hc ht he => exact .select dst (hc.mono hle) (ht.mono hle) (he.mono hle)
  | inlineAsm code constraints effects hargs =>
    exact .inlineAsm code constraints effects (hargs.mono hle)

/-- Terminators that are the same up to matching operands. -/
inductive Terminator.Like (P : Common exact) : Terminator → Terminator → Prop
  | br (target : BlockId) : Like P (.br target) (.br target)
  | condBr (thenBlock elseBlock : BlockId) {c c' : Value} (hc : c.Like P c') :
      Like P (.condBr c thenBlock elseBlock) (.condBr c' thenBlock elseBlock)
  | ret {v v' : Value} (hv : v.Like P v') : Like P (.ret (some v)) (.ret (some v'))
  | retVoid : Like P (.ret none) (.ret none)
  | unreachable : Like P .unreachable .unreachable

theorem Terminator.Like.mono (h : t.Like P t') (hle : P ≤ P') : t.Like P' t' := by
  cases h with
  | br target => exact .br target
  | condBr thenBlock elseBlock hc => exact .condBr thenBlock elseBlock (hc.mono hle)
  | ret hv => exact .ret (hv.mono hle)
  | retVoid => exact .retVoid
  | unreachable => exact .unreachable

/-- Blocks that are the same up to matching operands. -/
structure Block.Like (P : Common exact) (b b' : Block) : Prop where
  id_eq : b'.id = b.id
  label_eq : b'.label = b.label
  instrs : List.Forall₂ (Instr.Like P) b.instrs b'.instrs
  term : Option.Rel (Terminator.Like P) b.term b'.term

namespace Block.Like

variable {b b' : Block}

theorem mono (h : b.Like P b') (hle : P ≤ P') : b.Like P' b' where
  id_eq := h.id_eq
  label_eq := h.label_eq
  instrs := h.instrs.imp fun _ _ hi => hi.mono hle
  term := rel_imp h.term fun _ _ ht => ht.mono hle

theorem isTerminated_eq (h : b.Like P b') : b'.isTerminated = b.isTerminated := rel_isSome h.term

theorem fresh (id : BlockId) (label : String) : Block.Like P ⟨id, label, [], none⟩ ⟨id, label, [], none⟩ :=
  ⟨rfl, rfl, .nil, .none⟩

theorem push (h : b.Like P b') (hi : i.Like P i') :
    Block.Like P { b with instrs := b.instrs ++ [i] } { b' with instrs := b'.instrs ++ [i'] } :=
  { h with instrs := rel_append h.instrs (.cons hi .nil) }

theorem finish (h : b.Like P b') (ht : t.Like P t') :
    Block.Like P (if b.isTerminated then b else { b with term := some t })
      (if b'.isTerminated then b' else { b' with term := some t' }) := by
  rw [h.isTerminated_eq]
  split
  · exact h
  · exact { h with term := .some ht }

end Block.Like

/-- Functions that are the same up to matching operands. -/
structure Function.Like (P : Common exact) (f f' : Function) : Prop where
  name_eq : f'.name = f.name
  params_eq : f'.params = f.params
  ret_eq : f'.ret = f.ret
  variadic_eq : f'.variadic = f.variadic
  nextReg_eq : f'.nextReg = f.nextReg
  nextBlock_eq : f'.nextBlock = f.nextBlock
  blocks : List.Forall₂ (Block.Like P) f.blocks f'.blocks

namespace Function.Like

variable {f f' : Function}

theorem mono (h : f.Like P f') (hle : P ≤ P') : f.Like P' f' :=
  { h with blocks := h.blocks.imp fun _ _ hb => hb.mono hle }

theorem of_bare (h : f.blocks = []) : f.Like P f :=
  ⟨rfl, rfl, rfl, rfl, rfl, rfl, h ▸ .nil⟩

variable (h : f.Like P f')
include h

theorem block? (id : BlockId) : Option.Rel (Block.Like P) (f.block? id) (f'.block? id) :=
  forall₂_find? h.blocks fun _ _ hb => by rw [hb.id_eq]

theorem findIdx?_eq (id : BlockId) : f'.blocks.findIdx? (·.id = id) = f.blocks.findIdx? (·.id = id) :=
  forall₂_findIdx? h.blocks fun _ _ hb => by rw [hb.id_eq]

theorem freshLabel_eq (label : String) : Builder.freshLabel f' label = Builder.freshLabel f label := by
  have hany : f'.blocks.any (·.label = label) = f.blocks.any (·.label = label) :=
    forall₂_any h.blocks fun _ _ hb => by rw [hb.label_eq]
  rw [Builder.freshLabel, Builder.freshLabel, hany, h.nextBlock_eq]

theorem modifyBlock {change change' : Block → Block} (id : BlockId)
    (hchange : ∀ b b', b.Like P b' → (change b).Like P (change' b')) :
    (f.modifyBlock id change).Like P (f'.modifyBlock id change') := by
  rw [Function.modifyBlock, Function.modifyBlock, h.findIdx?_eq]
  split
  · exact { h with blocks := forall₂_modify h.blocks hchange _ }
  · exact h

theorem append (label : String) :
    (f.append (Builder.freshLabel f label)).Like P (f'.append (Builder.freshLabel f' label)) := by
  rw [h.freshLabel_eq, Function.append, Function.append, h.nextBlock_eq]
  exact { h with
    nextBlock_eq := rfl
    blocks := rel_append h.blocks (.cons (.fresh _ _) .nil) }

theorem eraseBlock (id : BlockId) : Function.Like P { f with blocks := f.blocks.filter (·.id ≠ id) }
      { f' with blocks := f'.blocks.filter (·.id ≠ id) } :=
  { h with blocks := forall₂_filter h.blocks fun _ _ hb => by rw [hb.id_eq] }

end Function.Like

/-! ### Code with the same names -/

section SameNames

variable (hP : ∀ n n', P.strings n n' → n' = n)
include hP

theorem Value.Like.eq_of_names {v v' : Value} (h : v.Like P v') : v' = v := by
  cases h with
  | plain _ => rfl
  | symbol _ => rfl
  | string h => rw [hP _ _ h]

theorem Value.Likes.eq_of_names {vs vs' : List Value} (h : Value.Likes P vs vs') : vs' = vs := by
  induction h with
  | nil => rfl
  | cons hv _ ih => rw [hv.eq_of_names hP, ih]

theorem eq_of_incoming {l l' : List (Value × BlockId)}
    (h : List.Forall₂ (fun p p' => p.1.Like P p'.1 ∧ p'.2 = p.2) l l') : l' = l := by
  induction h with
  | nil => rfl
  | cons hp _ ih => rw [ih, Prod.ext (hp.1.eq_of_names hP) hp.2]

theorem Instr.Like.eq_of_names (h : i.Like P i') : i' = i := by
  cases h with
  | alloca _ _ => rfl
  | load _ _ hptr => rw [hptr.eq_of_names hP]
  | store hvalue hptr => rw [hvalue.eq_of_names hP, hptr.eq_of_names hP]
  | binary _ _ hl hr => rw [hl.eq_of_names hP, hr.eq_of_names hP]
  | fneg _ hv => rw [hv.eq_of_names hP]
  | icmp _ _ hl hr | fcmp _ _ hl hr => rw [hl.eq_of_names hP, hr.eq_of_names hP]
  | cast _ _ _ hv => rw [hv.eq_of_names hP]
  | gep _ _ hptr hindices => rw [hptr.eq_of_names hP, hindices.eq_of_names hP]
  | call _ _ _ hargs => rw [hargs.eq_of_names hP]
  | phi _ _ h => rw [eq_of_incoming hP h]
  | select _ hc ht he => rw [hc.eq_of_names hP, ht.eq_of_names hP, he.eq_of_names hP]
  | inlineAsm _ _ _ hargs => rw [hargs.eq_of_names hP]

theorem Terminator.Like.eq_of_names (h : t.Like P t') : t' = t := by
  cases h with
  | condBr _ _ hc => rw [hc.eq_of_names hP]
  | ret hv => rw [hv.eq_of_names hP]
  | _ => rfl

end SameNames

end Aero.IR
