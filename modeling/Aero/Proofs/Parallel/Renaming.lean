import Aero.Proofs.Parallel.Mirror

/-!
Functions up to the names of string constants. If two modules have their strings once each, functions that are
alike are the same but for a renaming of the strings that they refer to, and each of these holds the same text
under its new name.
-/

namespace Aero.IR

open List Option

variable {f f' : Function} {P : Common False} {s name : String}

/-! ### Operands of a function -/

def Instr.mapOperands (φ : Value → Value) : Instr → Instr
  | .alloca dst ty => .alloca dst ty
  | .load dst ty ptr => .load dst ty (φ ptr)
  | .store value ptr => .store (φ value) (φ ptr)
  | .binary dst op lhs rhs => .binary dst op (φ lhs) (φ rhs)
  | .fneg dst value => .fneg dst (φ value)
  | .icmp dst pred lhs rhs => .icmp dst pred (φ lhs) (φ rhs)
  | .fcmp dst pred lhs rhs => .fcmp dst pred (φ lhs) (φ rhs)
  | .cast dst op value target => .cast dst op (φ value) target
  | .gep dst base ptr indices => .gep dst base (φ ptr) (indices.map φ)
  | .call dst callee args ret => .call dst callee (args.map φ) ret
  | .phi dst ty incoming => .phi dst ty (incoming.map fun p => (φ p.1, p.2))
  | .select dst cond onTrue onFalse => .select dst (φ cond) (φ onTrue) (φ onFalse)
  | .inlineAsm code constraints args sideEffects => .inlineAsm code constraints (args.map φ) sideEffects

def Terminator.mapOperands (φ : Value → Value) : Terminator → Terminator
  | .br target => .br target
  | .condBr cond thenBlock elseBlock => .condBr (φ cond) thenBlock elseBlock
  | .ret value => .ret (value.map φ)
  | .unreachable => .unreachable

def Block.mapOperands (φ : Value → Value) (b : Block) : Block :=
  { b with instrs := b.instrs.map (·.mapOperands φ), term := b.term.map (·.mapOperands φ) }

def Function.mapOperands (φ : Value → Value) (f : Function) : Function :=
  { f with blocks := f.blocks.map (·.mapOperands φ) }

def Instr.values (i : Instr) : List Value := i.operands ++ i.incoming.map Prod.fst

def Block.values (b : Block) : List Value :=
  b.instrs.flatMap Instr.values ++ b.term.toList.flatMap Terminator.operands

def Function.values (f : Function) : List Value := f.blocks.flatMap Block.values

def Function.RefersTo (f : Function) (name : String) : Prop := ∃ v ∈ f.values, v.kind = .global name

def Value.rename (ρ : String → String) (v : Value) : Value :=
  match v.kind with
  | .global name => { v with kind := .global (ρ name) }
  | _ => v

def Function.rename (ρ : String → String) (f : Function) : Function := f.mapOperands (Value.rename ρ)

/-! ### Functions that are alike -/

section Map

variable {φ : Value → Value} (hφ : ∀ v v', Value.Like P v v' → v' = φ v)

theorem forall₂_eq_map {α β : Type} {R : α → β → Prop} {f : α → β} {l : List α} {l' : List β}
    (h : List.Forall₂ R l l') (hf : ∀ a b, R a b → b = f a) : l' = l.map f := by
  have hmap : List.Forall₂ Eq (l.map f) l' :=
    forall₂_map_left_iff.mpr (h.imp fun a b hab => (hf a b hab).symm)
  rw [forall₂_eq_eq_eq] at hmap
  exact hmap.symm

include hφ

theorem Instr.Like.eq_mapOperands {i i' : Instr} (h : i.Like P i') : i' = i.mapOperands φ := by
  cases h with
  | alloca dst ty => rfl
  | load dst ty hptr => rw [mapOperands, hφ _ _ hptr]
  | store hvalue hptr => rw [mapOperands, hφ _ _ hvalue, hφ _ _ hptr]
  | binary dst op hl hr => rw [mapOperands, hφ _ _ hl, hφ _ _ hr]
  | fneg dst hv => rw [mapOperands, hφ _ _ hv]
  | icmp dst pred hl hr | fcmp dst pred hl hr => rw [mapOperands, hφ _ _ hl, hφ _ _ hr]
  | cast dst op target hv => rw [mapOperands, hφ _ _ hv]
  | gep dst base hptr hindices => rw [mapOperands, hφ _ _ hptr, forall₂_eq_map hindices hφ]
  | call dst callee ret hargs => rw [mapOperands, forall₂_eq_map hargs hφ]
  | phi dst ty hincoming =>
    have hmap := forall₂_eq_map (f := fun p => (φ p.1, p.2)) hincoming fun p p' hp =>
      Prod.ext (hφ _ _ hp.1) hp.2
    rw [mapOperands, hmap]
  | select dst hc ht he => rw [mapOperands, hφ _ _ hc, hφ _ _ ht, hφ _ _ he]
  | inlineAsm code constraints effects hargs => rw [mapOperands, forall₂_eq_map hargs hφ]

theorem Terminator.Like.eq_mapOperands {t t' : Terminator} (h : t.Like P t') : t' = t.mapOperands φ := by
  cases h with
  | br target => rfl
  | condBr thenBlock elseBlock hc => rw [mapOperands, hφ _ _ hc]
  | ret hv => rw [mapOperands, map_some, hφ _ _ hv]
  | retVoid => rfl
  | unreachable => rfl

theorem Block.Like.eq_mapOperands {b b' : Block} (h : b.Like P b') : b' = b.mapOperands φ := by
  have hinstrs := forall₂_eq_map h.instrs fun _ _ hi => hi.eq_mapOperands hφ
  have hterm : b'.term = b.term.map (·.mapOperands φ) := by
    have hrel := h.term
    generalize b.term = t at hrel ⊢
    generalize b'.term = t' at hrel ⊢
    cases hrel with
    | none => rfl
    | some ht => rw [map_some, ht.eq_mapOperands hφ]
  cases b'
  simp only [mapOperands, Block.mk.injEq]
  exact ⟨h.id_eq, h.label_eq, hinstrs, hterm⟩

theorem Function.Like.eq_mapOperands (h : f.Like P f') : f' = f.mapOperands φ := by
  have hblocks := forall₂_eq_map h.blocks fun _ _ hb => hb.eq_mapOperands hφ
  cases f'
  simp only [mapOperands, Function.mk.injEq]
  exact ⟨h.name_eq, h.params_eq, h.ret_eq, h.variadic_eq, hblocks, h.nextReg_eq, h.nextBlock_eq⟩

end Map

theorem exists_of_forall₂ {α β : Type} {R : α → β → Prop} {l : List α} {l' : List β}
    (h : List.Forall₂ R l l') {a : α} (ha : a ∈ l) : ∃ b, R a b := by
  induction h with
  | nil => cases ha
  | cons hab _ ih =>
    rcases mem_cons.mp ha with rfl | ha
    · exact ⟨_, hab⟩
    · exact ih ha

section Match

variable {v : Value}

theorem Instr.Like.exists_match {i i' : Instr} (h : i.Like P i') (hv : v ∈ i.values) : ∃ v', v.Like P v' := by
  cases h with
  | alloca dst ty => cases hv
  | load dst ty hptr | fneg dst hptr | cast dst _ _ hptr =>
    obtain rfl := mem_singleton.mp hv
    exact ⟨_, hptr⟩
  | store hl hr | binary dst op hl hr | icmp dst pred hl hr | fcmp dst pred hl hr =>
    exact exists_of_forall₂ (.cons hl (.cons hr .nil)) hv
  | gep dst base hptr hindices =>
    exact exists_of_forall₂ (.cons hptr hindices) (by simpa [values, operands, incoming] using hv)
  | call dst callee ret hargs | inlineAsm code constraints effects hargs =>
    exact exists_of_forall₂ hargs (by simpa [values, operands, incoming] using hv)
  | phi dst ty hincoming =>
    obtain ⟨p, hp, rfl⟩ := mem_map.mp hv
    obtain ⟨p', hp'⟩ := exists_of_forall₂ hincoming hp
    exact ⟨p'.1, hp'.1⟩
  | select dst hc ht he => exact exists_of_forall₂ (.cons hc (.cons ht (.cons he .nil))) hv

theorem Terminator.Like.exists_match {t t' : Terminator} (h : t.Like P t') (hv : v ∈ t.operands) :
    ∃ v', v.Like P v' := by
  cases h with
  | condBr thenBlock elseBlock hc =>
    obtain rfl := mem_singleton.mp hv
    exact ⟨_, hc⟩
  | ret h =>
    obtain rfl := mem_singleton.mp hv
    exact ⟨_, h⟩
  | br target | retVoid | unreachable => cases hv

theorem Function.Like.exists_match (h : f.Like P f') (hv : v ∈ f.values) : ∃ v', v.Like P v' := by
  obtain ⟨b, hb, hv⟩ := mem_flatMap.mp hv
  obtain ⟨b', hlike⟩ := exists_of_forall₂ h.blocks hb
  rcases List.mem_append.mp hv with hv | hv
  · obtain ⟨i, hi, hv⟩ := mem_flatMap.mp hv
    obtain ⟨i', hi'⟩ := exists_of_forall₂ hlike.instrs hi
    exact hi'.exists_match hv
  · obtain ⟨t, ht, hv⟩ := mem_flatMap.mp hv
    have hrel := hlike.term
    rw [mem_toList.mp ht] at hrel
    generalize b'.term = t' at hrel
    cases hrel with
    | some hterm => exact hterm.exists_match hv

end Match

/-! ### Renaming of strings -/

theorem stringName_injective {i j : Nat} (h : stringName i = stringName j) : i = j :=
  marked_injective (show marked ".str" i = marked ".str" j from h)

theorem stringName_ne (i : Nat) (p : Primitive) : stringName i ≠ p.name := by
  intro h
  have hhead : (stringName i).toList.head? = some '.' := by
    rw [stringName, String.toList_append]
    rfl
  rw [h] at hhead
  cases p <;> exact absurd hhead (by decide)

theorem Module.exists_global {m : Module} (h : m.stringConstant? name = some s) :
    ∃ g ∈ m.globals, g.name = name ∧ g.init = .str s := by
  unfold stringConstant? at h
  split at h
  · next found hfound =>
    obtain ⟨g, hg, hinit⟩ := map_eq_some_iff.mp hfound
    exact ⟨g, mem_of_find?_eq_some hg, by simpa using find?_some hg,
      hinit.trans (congrArg GlobalInit.str (some.inj h))⟩
  · cases h

namespace Module.Interned

variable {m : Module} {g : Global}

variable (h : m.Interned)
include h

theorem exists_stringName (hg : g ∈ m.globals) : ∃ i, g.name = stringName i := by
  have hmem : g.name ∈ m.globals.map Global.name := mem_map_of_mem hg
  rw [h.names] at hmem
  obtain ⟨i, _, hi⟩ := mem_map.mp hmem
  exact ⟨i, hi.symm⟩

theorem names_nodup : (m.globals.map Global.name).Nodup := by
  rw [h.names]
  exact nodup_range.map fun _ _ => stringName_injective

theorem stringConstant?_eq (hg : g ∈ m.globals) (hs : g.init = .str s) : m.stringConstant? g.name = some s := by
  have hfind : m.global? g.name = some g := find?_key_of_mem Global.name h.names_nodup hg
  rw [stringConstant?, hfind, map_some, hs]

theorem stringConstant?_primitive (p : Primitive) : m.stringConstant? p.name = none := by
  have hfind : m.global? p.name = none := by
    refine find?_eq_none.mpr fun g hg hname => ?_
    obtain ⟨i, hi⟩ := h.exists_stringName hg
    exact stringName_ne i p (hi.symm.trans (by simpa using hname))
  rw [stringConstant?, hfind]
  rfl

end Module.Interned

/-- The name that a string constant of a module has in another. Other names stay. -/
def Module.nameIn (m m' : Module) (name : String) : String :=
  match m.stringConstant? name with
  | some s => ((m'.globals.find? (·.init = .str s)).map Global.name).getD name
  | none => name

/-- A renaming of the string constants that a function of a module refers to, into those of another module.
Each holds the same text under its new name. -/
structure Renames (m m' : Module) (ρ : String → String) (f : Function) : Prop where
  contents : ∀ name, f.RefersTo name → m'.stringConstant? (ρ name) = m.stringConstant? name
  other : ∀ name, m.stringConstant? name = none → ρ name = name
  injective : ∀ name name', f.RefersTo name → f.RefersTo name' → ρ name = ρ name' → name = name'

/-- The functions of two modules under a name are the same up to a renaming of strings, or neither module has
one. -/
def Module.MatchesAt (m m' : Module) (ρ : String → String) (name : String) : Prop :=
  Option.Rel (fun g g' => g' = g.rename ρ ∧ Renames m m' ρ g) (m.function? name) (m'.function? name)

namespace Module.Interned

variable {m m' : Module}

theorem stringConstant?_injective (h : m.Interned) {name' : String}
    (hname : m.stringConstant? name = some s) (hname' : m.stringConstant? name' = some s) : name = name' := by
  obtain ⟨g, hg, rfl, hinit⟩ := exists_global hname
  obtain ⟨g', hg', rfl, hinit'⟩ := exists_global hname'
  rw [inj_on_of_nodup_map h.nodup hg hg' (hinit.trans hinit'.symm)]

/-- The table gives a name for a text if and only if the module has that constant. -/
theorem lookup_eq_some_iff {b : Builder} (h : b.InStep) :
    b.strings.lookup s = some name ↔ b.module.stringConstant? name = some s := by
  have hfound {name : String} (hname : b.strings.lookup s = some name) : b.module.stringConstant? name = some s := by
    obtain ⟨g, hg, hinit, rfl⟩ := h.exists_global (mem_of_lookup hname)
    exact h.stringConstant?_eq hg hinit
  refine ⟨hfound, fun hname => ?_⟩
  obtain ⟨g, hg, _, hinit⟩ := exists_global hname
  cases hlookup : b.strings.lookup s with
  | none => exact absurd hinit (h.ne_of_lookup hlookup g hg)
  | some name' => rw [h.stringConstant?_injective hname (hfound hlookup)]

variable (hm : m.Interned)
include hm

theorem nameIn_shared (hm' : m'.Interned) {n n' : String} (h : SharedString m.globals m'.globals n n') :
    m.nameIn m' n = n' ∧ m'.stringConstant? n' = m.stringConstant? n := by
  obtain ⟨g, hg, g', hg', s, rfl, rfl, hs, hs'⟩ := h
  have hfind : m'.globals.find? (·.init = .str s) = some g' := hs' ▸ find?_key_of_mem Global.init hm'.nodup hg'
  refine ⟨?_, by rw [hm.stringConstant?_eq hg hs, hm'.stringConstant?_eq hg' hs']⟩
  rw [nameIn, hm.stringConstant?_eq hg hs]
  simp only [hfind, map_some, getD_some]

theorem nameIn_primitive (p : Primitive) : m.nameIn m' p.name = p.name := by
  rw [nameIn, hm.stringConstant?_primitive p]

/-- Operands that are alike are the same up to the name of a string, which holds the same. -/
theorem rename_operand (hm' : m'.Interned)
    (hP : P.strings = SharedString m.globals m'.globals) {v v' : Value} (h : v.Like P v') :
    v' = v.rename (m.nameIn m') ∧ ∀ name, v.kind = .global name →
      m'.stringConstant? (m.nameIn m' name) = m.stringConstant? name := by
  have hglobal : ∀ {n n' : String}, m.nameIn m' n = n' ∧ m'.stringConstant? n' = m.stringConstant? n →
      .global n' = (Value.global n).rename (m.nameIn m') ∧ ∀ name, (Value.global n).kind = .global name →
          m'.stringConstant? (m.nameIn m' name) = m.stringConstant? name := by
    rintro n _ ⟨rfl, hcontents⟩
    refine ⟨rfl, fun name hname => ?_⟩
    obtain rfl := ValueKind.global.inj hname
    exact hcontents
  cases h with
  | plain hv =>
    have hv := Or.resolve_left hv id
    refine ⟨?_, fun name hname => absurd hname (hv name)⟩
    unfold Value.rename
    split
    · next name hname => exact absurd hname (hv name)
    · rfl
  | symbol p =>
    exact hglobal ⟨hm.nameIn_primitive p, by
      rw [hm.stringConstant?_primitive p, hm'.stringConstant?_primitive p]⟩
  | string hn => exact hglobal (hm.nameIn_shared hm' (hP ▸ hn))

/-- Functions that are alike are the same up to a renaming of strings. -/
theorem rename_function (hm' : m'.Interned) (hP : P.strings = SharedString m.globals m'.globals) (h : f.Like P f') :
    f' = f.rename (m.nameIn m') ∧ Renames m m' (m.nameIn m') f := by
  have hcontents : ∀ name, f.RefersTo name → m'.stringConstant? (m.nameIn m' name) = m.stringConstant? name := by
    rintro name ⟨v, hv, hname⟩
    obtain ⟨v', hv'⟩ := h.exists_match hv
    exact (hm.rename_operand hm' hP hv').2 name hname
  have hother : ∀ name, m.stringConstant? name = none → m.nameIn m' name = name := by
    intro name hname
    rw [nameIn, hname]
  refine ⟨h.eq_mapOperands fun v v' hv => (hm.rename_operand hm' hP hv).1, hcontents, hother,
    fun name name' hname hname' heq => ?_⟩
  have hsame : m.stringConstant? name = m.stringConstant? name' := by
    rw [← hcontents name hname, heq, hcontents name' hname']
  cases hs : m.stringConstant? name with
  | none => rw [← hother name hs, heq, hother name' (hsame ▸ hs)]
  | some s => exact hm.stringConstant?_injective hs (hsame ▸ hs)

end Module.Interned

end Aero.IR
