import Aero.Proofs.Edit
import Mathlib.Order.Defs.PartialOrder

/-!
Insertion points. A phi is the first instruction of its block and names each predecessor of the block once. A site is a
builder at a block of a function under construction, with the proofs that this function is coherent, labelled, merging
and typed so far. One site extends another if code was only added.
-/

namespace Aero.IR

open List

variable {id target : BlockId} {t : Terminator} {g f : Function}

def Instr.isPhi : Instr → Bool
  | .phi .. => true
  | _ => false

theorem Instr.incoming_eq_nil {i : Instr} (h : i.isPhi = false) : i.incoming = [] := by
  cases i with
  | phi => cases h
  | _ => rfl

def Instr.sources (i : Instr) : List BlockId := i.incoming.map Prod.snd

def Block.PhiFree (b : Block) : Prop := ∀ i ∈ b.instrs, i.isPhi = false

/-- The phis of a block of a function come first and name each predecessor once. -/
structure Block.Merges (b : Block) (f : Function) : Prop where
  first : ∀ k i, b.instrs[k]? = some i → i.isPhi = true → k = 0
  nodup : ∀ i ∈ b.instrs, i.isPhi = true → i.sources.Nodup
  sources : ∀ i ∈ b.instrs, i.isPhi = true → ∀ id, id ∈ i.sources ↔ b.id ∈ f.successors id

namespace Block

variable {b : Block} {i : Instr}

theorem PhiFree.merges (h : b.PhiFree) (f : Function) : b.Merges f := by
  have hnone : ∀ i ∈ b.instrs, i.isPhi ≠ true := fun i hi => by simp [h i hi]
  exact ⟨fun _ i hi hphi => absurd hphi (hnone i (mem_of_getElem? hi)),
    fun i hi hphi => absurd hphi (hnone i hi), fun i hi hphi => absurd hphi (hnone i hi)⟩

/-- Only the predecessors of a block with a phi matter. -/
theorem Merges.congr (h : b.Merges f) (hedges : ¬ b.PhiFree → ∀ id, b.id ∈ g.successors id ↔ b.id ∈ f.successors id) :
    b.Merges g := by
  refine ⟨h.first, h.nodup, fun i hi hphi id => ?_⟩
  refine (h.sources i hi hphi id).trans (hedges (fun hfree => ?_) id).symm
  rw [hfree i hi] at hphi
  cases hphi

theorem Merges.snoc (h : b.Merges f) (hi : i.isPhi = false) : (b.snoc i).Merges f := by
  have hmem : ∀ j ∈ (b.snoc i).instrs, j.isPhi = true → j ∈ b.instrs := by
    intro j hj hphi
    rcases mem_append.mp hj with hj | hj
    · exact hj
    · rw [mem_singleton.mp hj, hi] at hphi
      cases hphi
  refine ⟨?_, fun j hj hphi => h.nodup j (hmem j hj hphi) hphi, fun j hj hphi => h.sources j (hmem j hj hphi) hphi⟩
  intro k j hj hphi
  by_cases hk : k < b.instrs.length
  · rw [Block.snoc, getElem?_append_left hk] at hj
    exact h.first k j hj hphi
  · rw [Block.snoc, getElem?_append_right (Nat.le_of_not_lt hk)] at hj
    rw [mem_singleton.mp (mem_of_getElem? hj), hi] at hphi
    cases hphi

theorem merges_phi (hempty : b.instrs = []) (hnodup : i.sources.Nodup)
    (hsources : ∀ id, id ∈ i.sources ↔ b.id ∈ f.successors id) : (b.snoc i).Merges f := by
  have hinstrs : (b.snoc i).instrs = [i] := by rw [snoc, hempty, List.nil_append]
  refine ⟨?_, ?_, ?_⟩
  · intro k j hj _
    rw [hinstrs] at hj
    obtain ⟨hlt, _⟩ := List.getElem?_eq_some_iff.mp hj
    exact Nat.lt_one_iff.mp hlt
  · intro j hj _
    rw [hinstrs] at hj
    exact List.mem_singleton.mp hj ▸ hnodup
  · intro j hj _
    rw [hinstrs] at hj
    exact List.mem_singleton.mp hj ▸ hsources

end Block

/-- The ways through a function meet at phis that know where control came from. -/
def Function.Merging (f : Function) : Prop := ∀ b ∈ f.blocks, b.Merges f

namespace Function.Merging

variable {b : Block} {i : Instr}

theorem push_successors (hb : b ∈ f.blocks) (hnodup : f.Distinct) :
    target ∈ (f.push b i).successors id ↔ target ∈ f.successors id := by
  simp only [mem_successors, Coherent.mem_push]
  constructor
  · rintro ⟨d, ⟨hd, _⟩ | ⟨rfl, _⟩, hid, hsucc⟩
    · exact ⟨d, hd, hid, hsucc⟩
    · exact ⟨b, hb, hid, hsucc⟩
  · rintro ⟨d, hd, hid, hsucc⟩
    by_cases hdb : d.id = b.id
    · rw [inj_on_of_nodup_map hnodup hd hb hdb] at hid hsucc
      exact ⟨b.snoc i, .inr ⟨rfl, b, hb, rfl⟩, hid, hsucc⟩
    · exact ⟨d, .inl ⟨hd, hdb⟩, hid, hsucc⟩

/-- A phi comes at the start of a block, after all branches to it. -/
theorem push (h : f.Merging) (hnodup : f.Distinct) (hb : b ∈ f.blocks)
    (hphi : i.isPhi = true → b.instrs = [] ∧ i.sources.Nodup ∧
      ∀ id, id ∈ i.sources ↔ b.id ∈ f.successors id) : (f.push b i).Merging := by
  intro e he
  refine .congr ?_ fun _ id => push_successors hb hnodup
  rcases Coherent.mem_push.mp he with ⟨he, _⟩ | ⟨rfl, _⟩
  · exact h e he
  · cases hi : i.isPhi with
    | false => exact (h b hb).snoc hi
    | true =>
      obtain ⟨hempty, hnodup, hsources⟩ := hphi hi
      exact Block.merges_phi hempty hnodup hsources

theorem mem_finish_successors (hb : b ∈ f.blocks) (hopen : b.term = none) (hnodup : f.Distinct) :
    target ∈ (f.finish b t).successors id ↔ target ∈ f.successors id ∨ b.id = id ∧ target ∈ t.successors := by
  simp only [mem_successors, finish, mem_setBlock]
  constructor
  · rintro ⟨d, ⟨hd, _⟩ | ⟨rfl, _⟩, hid, hsucc⟩
    · exact .inl ⟨d, hd, hid, hsucc⟩
    · exact .inr ⟨hid, hsucc⟩
  · rintro (⟨d, hd, hid, hsucc⟩ | ⟨hid, hsucc⟩)
    · by_cases hdb : d.id = b.id
      · rw [inj_on_of_nodup_map hnodup hd hb hdb, Block.successors_of_open hopen] at hsucc
        cases hsucc
      · exact ⟨d, .inl ⟨hd, hdb⟩, hid, hsucc⟩
    · exact ⟨b.close t, .inr ⟨rfl, b, hb, rfl⟩, hid, hsucc⟩

variable (h : f.Merging)
include h

/-- A branch leads to blocks that have no phi yet. -/
theorem finish (hnodup : f.Distinct) (hb : b ∈ f.blocks) (hopen : b.term = none)
    (hfree : ∀ id ∈ t.successors, ∀ d ∈ f.blocks, d.id = id → d.PhiFree) : (f.finish b t).Merging := by
  have hold : ∀ e ∈ (f.finish b t).blocks, ∃ d ∈ f.blocks, d.id = e.id ∧ d.instrs = e.instrs := by
    intro e he
    rcases mem_setBlock.mp he with ⟨he, _⟩ | ⟨rfl, _⟩
    · exact ⟨e, he, rfl, rfl⟩
    · exact ⟨b, hb, rfl, rfl⟩
  intro e he
  obtain ⟨d, hd, hid, hinstrs⟩ := hold e he
  have hmerges : e.Merges f :=
    ⟨hinstrs ▸ (h d hd).first, hinstrs ▸ (h d hd).nodup, hinstrs ▸ hid ▸ (h d hd).sources⟩
  refine hmerges.congr fun hphi id => ?_
  rw [mem_finish_successors hb hopen hnodup]
  refine or_iff_left fun hnew => hphi ?_
  have hdfree := hfree e.id hnew.2 d hd hid
  exact fun i hi => hdfree i (hinstrs ▸ hi)

theorem append (label : String) : (f.append label).Merging := by
  have hsucc : ∀ id target, target ∈ (f.append label).successors id ↔ target ∈ f.successors id := by
    intro id target
    simp only [mem_successors, mem_append]
    constructor
    · rintro ⟨d, hd | rfl, hid, hsucc⟩
      · exact ⟨d, hd, hid, hsucc⟩
      · cases hsucc
    · rintro ⟨d, hd, hid, hsucc⟩
      exact ⟨d, .inl hd, hid, hsucc⟩
  intro e he
  refine .congr ?_ fun _ id => hsucc id e.id
  rcases mem_append.mp he with he | rfl
  · exact h e he
  · exact Block.PhiFree.merges (fun _ hi => by cases hi) f

theorem reorder {blocks : List Block} (hperm : blocks.Perm f.blocks) :
    ({ f with blocks := blocks } : Function).Merging := by
  intro e he
  refine (h e (hperm.mem_iff.mp he)).congr fun _ id => ?_
  simp only [mem_successors, hperm.mem_iff]

theorem drop (hopen : ∀ d ∈ f.blocks, d.id = id → d.term = none) : (f.drop id).Merging := by
  intro e he
  refine (h e (mem_drop.mp he).1).congr fun _ source => ?_
  simp only [mem_successors, mem_drop]
  constructor
  · rintro ⟨d, ⟨hd, _⟩, hid, hsucc⟩
    exact ⟨d, hd, hid, hsucc⟩
  · rintro ⟨d, hd, hid, hsucc⟩
    refine ⟨d, ⟨hd, fun heq => ?_⟩, hid, hsucc⟩
    rw [Block.successors_of_open (hopen d hd heq)] at hsucc
    cases hsucc

end Function.Merging

/-! ### Sites -/

variable {i : Nat} {s : Reg → Prop}

/-- Whatever a module declares under the name of a primitive has its signature. -/
def Module.Sound (m : Module) : Prop :=
  ∀ (p : Primitive) (s : Signature), m.prototype? p.name = some s → s = p.signature

/-- One builder comes from another by work on the current function alone. Functions may have been
declared besides. -/
structure Builder.Frame (b b' : Builder) : Prop where
  current_eq : b'.current = b.current
  structs_eq : b'.module.structs = b.module.structs
  custom_eq : b'.custom = b.custom
  alloc_eq : b'.alloc = b.alloc
  names : b.module.functions.map Function.name <+: b'.module.functions.map Function.name
  prototypes : ∀ name s, b.module.prototype? name = some s → b'.module.prototype? name = some s
  others : ∀ j g, b.current ≠ some j → b.module.functions[j]? = some g → b'.module.functions[j]? = some g
  added : ∀ j g, b.current ≠ some j → b.module.functions.length ≤ j → b'.module.functions[j]? = some g → g.blocks = []

namespace Builder

variable {a b c : Builder}

theorem Frame.refl (b : Builder) : b.Frame b where
  current_eq := rfl
  structs_eq := rfl
  custom_eq := rfl
  alloc_eq := rfl
  names := prefix_rfl
  prototypes := fun _ _ h => h
  others := fun _ _ _ h => h
  added := fun j g _ hle hg => by
    rw [getElem?_eq_none hle] at hg
    cases hg

theorem Frame.trans (hab : a.Frame b) (hbc : b.Frame c) : a.Frame c where
  current_eq := hbc.current_eq.trans hab.current_eq
  structs_eq := hbc.structs_eq.trans hab.structs_eq
  custom_eq := hbc.custom_eq.trans hab.custom_eq
  alloc_eq := hbc.alloc_eq.trans hab.alloc_eq
  names := hab.names.trans hbc.names
  prototypes := fun name s h => hbc.prototypes name s (hab.prototypes name s h)
  others := fun j g hj hg =>
    hbc.others j g (hab.current_eq ▸ hj) (hab.others j g hj hg)
  added := by
    intro j g hj hle hg
    by_cases hb : b.module.functions.length ≤ j
    · exact hbc.added j g (hab.current_eq ▸ hj) hb hg
    · obtain ⟨g', hg'⟩ : ∃ g', b.module.functions[j]? = some g' :=
        ⟨_, getElem?_eq_getElem (Nat.lt_of_not_le hb)⟩
      have hkept := hbc.others j g' (hab.current_eq ▸ hj) hg'
      rw [hg] at hkept
      cases hkept
      exact hab.added j g hj hle hg'

def setFn (b : Builder) (i : Nat) (f : Function) : Builder :=
  { b with module := { b.module with functions := b.module.functions.set i f } }

theorem prototype?_eq (m : Module) (name : String) : m.prototype? name =
      ((m.functions.map fun g => (g.name, g.prototype)).find? (·.1 = name)).map (·.2) := by
  simp only [find?_map, Option.map_map]
  rfl

theorem set_of_getElem? {α : Type} {l : List α} {a : α} (h : l[i]? = some a) : l.set i a = l := by
  obtain ⟨hlt, rfl⟩ := List.getElem?_eq_some_iff.mp h
  exact List.set_getElem_self hlt

theorem setFn_prototype? (hg : b.module.functions[i]? = some g)
    (hname : f.name = g.name) (hproto : f.prototype = g.prototype) (name : String) :
    (b.setFn i f).module.prototype? name = b.module.prototype? name := by
  rw [prototype?_eq, prototype?_eq]
  simp only [setFn, map_set, hname, hproto]
  rw [set_of_getElem? (by rw [getElem?_map, hg]; rfl)]

theorem setFn_frame (hcurrent : b.current = some i)
    (hg : b.module.functions[i]? = some g) (hname : f.name = g.name)
    (hproto : f.prototype = g.prototype) : b.Frame (b.setFn i f) where
  current_eq := rfl
  structs_eq := rfl
  custom_eq := rfl
  alloc_eq := rfl
  names := by
    have hnames : (b.setFn i f).module.functions.map Function.name = b.module.functions.map Function.name := by
      rw [setFn, map_set, hname, set_of_getElem? (by rw [getElem?_map, hg]; rfl)]
    exact hnames ▸ prefix_rfl
  prototypes := fun name s h => (setFn_prototype? hg hname hproto name).trans h
  others := by
    intro j g' hj hg'
    have hne : i ≠ j := fun heq => hj (heq ▸ hcurrent)
    rw [setFn, getElem?_set_ne hne, hg']
  added := by
    intro j g' hj hle hg'
    rw [setFn, getElem?_eq_none (by rwa [length_set])] at hg'
    cases hg'

end Builder

/-- An insertion point. The function is typed if a condition holds. -/
structure Site (H : Prop) where
  builder : Builder
  index : Nat
  fn : Function
  block : Block
  cert : Certificate
  current_eq : builder.current = some index
  fn_eq : builder.module.functions[index]? = some fn
  insert_eq : builder.insert = some block.id
  block_mem : block ∈ fn.blocks
  coherent : Coherent cert fn
  labelled : Labelled fn
  merging : fn.Merging
  sound : H → builder.module.Sound
  typed : H → fn.Typed builder.module

namespace Site

variable {H : Prop} {w w' : Site H}

def Open (w : Site H) : Prop := w.block.term = none

/-- A register is written at the insertion point. -/
def Out (w : Site H) (r : Reg) : Prop := r < w.fn.nextReg ∧ w.cert.Out w.block r

/-- An operand can be used at the insertion point. -/
def Has (w : Site H) (v : Value) : Prop := v.Within w.Out

/-- An operand can be used as the address of a value of a type. -/
def Addr (w : Site H) (ptr : Value) (ty : Ty) : Prop :=
  w.Has ptr ∧ (H → ptr.ty = .ptr) ∧ w.fn.Addresses w.builder.module ptr ty

def CanEnter (w : Site H) (id : BlockId) : Prop :=
  id ≠ 0 ∧ (∃ d ∈ w.fn.blocks, d.id = id ∧ d.PhiFree) ∧ ∀ r, w.cert id r → w.Out r

/-- A block is new and asks for some registers. -/
def Pending (w : Site H) (id : BlockId) (s : Reg → Prop) : Prop :=
  (∃ label, ⟨id, label, [], none⟩ ∈ w.fn.blocks) ∧ w.cert id = s ∧ id ≠ w.block.id ∧ id ≠ 0

/-- What the addition of code may leave behind. -/
structure Effect where
  /-- Every block gets a terminator, except the current one and those that are pending. -/
  settles : Prop
  /-- Nothing is declared but primitives. -/
  quiet : Prop
  /-- Old blocks that may get new predecessors. -/
  exits : BlockId → Prop
  /-- New blocks that are still to be filled. -/
  pending : BlockId → Prop

def Effect.plain : Effect := ⟨True, True, fun _ => False, fun _ => False⟩

/-- Code was added to a site. Old blocks other than the current one are as they were, and what was
written there still is. -/
structure Grows (e : Effect) (w w' : Site H) : Prop where
  frame : w.builder.Frame w'.builder
  index_eq : w'.index = w.index
  name_eq : w'.fn.name = w.fn.name
  params_eq : w'.fn.params = w.fn.params
  ret_eq : w'.fn.ret = w.fn.ret
  nextReg_le : w.fn.nextReg ≤ w'.fn.nextReg
  nextBlock_le : w.fn.nextBlock ≤ w'.fn.nextBlock
  moved : w'.block.id = w.block.id ∨ w.fn.nextBlock ≤ w'.block.id
  kept : ∀ b ∈ w.fn.blocks, b.id ≠ w.block.id → b ∈ w'.fn.blocks
  current : ∃ b ∈ w'.fn.blocks, b.id = w.block.id ∧ w.block.instrs <+: b.instrs ∧
    (w.block.isTerminated = true → b = w.block)
  old : ∀ b ∈ w'.fn.blocks, b.id < w.fn.nextBlock → ∃ d ∈ w.fn.blocks, d.id = b.id
  fresh : ∀ i ∈ w'.fn.instrs, ∀ r, i.dst? = some r → r < w.fn.nextReg → i ∈ w.fn.instrs
  cert_eq : ∀ id, id < w.fn.nextBlock → w'.cert id = w.cert id
  out : ∀ r, w.Out r → w'.Out r
  edges : ∀ id, id < w.fn.nextBlock → ¬ e.exits id → ∀ b ∈ w'.fn.blocks, id ∈ b.successors →
    ∃ d ∈ w.fn.blocks, d.id = b.id ∧ id ∈ d.successors
  phis : ∀ b ∈ w'.fn.blocks, b.id < w.fn.nextBlock → ∀ i ∈ b.instrs, i.isPhi = true →
    ∃ d ∈ w.fn.blocks, d.id = b.id ∧ i ∈ d.instrs
  settled : e.settles → ∀ b ∈ w'.fn.blocks, b.isTerminated = false → b.id ≠ w'.block.id →
    b ∈ w.fn.blocks ∧ b.id ≠ w.block.id ∨ e.pending b.id
  quiet : e.quiet → ∀ name, (∀ p : Primitive, p.name ≠ name) →
    w.builder.module.prototype? name = none → w'.builder.module.prototype? name = none

theorem block_lt (w : Site H) : w.block.id < w.fn.nextBlock := w.coherent.id_lt _ w.block_mem

namespace Grows

variable {e : Effect} {w'' : Site H}

theorem refl (w : Site H) : Grows e w w where
  frame := .refl _
  index_eq := rfl
  name_eq := rfl
  params_eq := rfl
  ret_eq := rfl
  nextReg_le := Nat.le_refl _
  nextBlock_le := Nat.le_refl _
  moved := .inl rfl
  kept := fun _ hb _ => hb
  current := ⟨w.block, w.block_mem, rfl, prefix_rfl, fun _ => rfl⟩
  old := fun b hb _ => ⟨b, hb, rfl⟩
  fresh := fun _ hi _ _ _ => hi
  cert_eq := fun _ _ => rfl
  out := fun _ hr => hr
  edges := fun _ _ _ b hb hid => ⟨b, hb, rfl, hid⟩
  phis := fun b hb _ _ hi _ => ⟨b, hb, rfl, hi⟩
  settled := fun _ _ hb _ hid => .inl ⟨hb, hid⟩
  quiet := fun _ _ _ h => h

variable (h : Grows e w w')
include h

theorem weaken {e' : Site.Effect} (hsettles : e'.settles → e.settles)
    (hquiet : e'.quiet → e.quiet) (hexits : ∀ id, id < w.fn.nextBlock → e.exits id → e'.exits id)
    (hpending : ∀ id, e.pending id → e'.pending id) : Grows e' w w' :=
  { h with
    edges := fun id hlt hid => h.edges id hlt fun hex => hid (hexits id hlt hex)
    settled := fun hN b hb hterm hid =>
      (h.settled (hsettles hN) b hb hterm hid).imp_right (hpending b.id)
    quiet := fun hq => h.quiet (hquiet hq) }

/-- An old block other than the current one is not the current one later. -/
theorem ne_block (hlt : id < w.fn.nextBlock) (hne : id ≠ w.block.id) : id ≠ w'.block.id := by
  rcases h.moved with heq | hle
  · rwa [heq]
  · exact Nat.ne_of_lt (Nat.lt_of_lt_of_le hlt hle)

/-- The current block of an earlier site, as it is later. -/
theorem current_later (h' : Grows e w' w'') : ∃ b ∈ w''.fn.blocks, b.id = w.block.id ∧ w.block.instrs <+: b.instrs ∧
      (w.block.isTerminated = true → b = w.block) := by
  obtain ⟨b, hb, hid, hinstrs, hterm⟩ := h.current
  by_cases hcur : b.id = w'.block.id
  · have hbeq : b = w'.block := w'.coherent.eq_of_id_eq hb w'.block_mem hcur
    obtain ⟨d, hd, hdid, hdinstrs, hdterm⟩ := h'.current
    subst hbeq
    refine ⟨d, hd, hdid.trans hid, hinstrs.trans hdinstrs, fun ht => ?_⟩
    have heq := hterm ht
    exact (hdterm (heq ▸ ht)).trans heq
  · exact ⟨b, h'.kept b hb hcur, hid, hinstrs, hterm⟩

theorem trans (h' : Grows e w' w'') : Grows e w w'' where
  frame := h.frame.trans h'.frame
  index_eq := h'.index_eq.trans h.index_eq
  name_eq := h'.name_eq.trans h.name_eq
  params_eq := h'.params_eq.trans h.params_eq
  ret_eq := h'.ret_eq.trans h.ret_eq
  nextReg_le := Nat.le_trans h.nextReg_le h'.nextReg_le
  nextBlock_le := Nat.le_trans h.nextBlock_le h'.nextBlock_le
  moved := by
    rcases h'.moved with heq | hle
    · rw [heq]
      exact h.moved
    · exact .inr (Nat.le_trans h.nextBlock_le hle)
  kept := fun b hb hid =>
    h'.kept b (h.kept b hb hid) (h.ne_block (w.coherent.id_lt b hb) hid)
  current := h.current_later h'
  old := by
    intro b hb hlt
    obtain ⟨d, hd, hid⟩ := h'.old b hb (Nat.lt_of_lt_of_le hlt h.nextBlock_le)
    obtain ⟨e, he, heid⟩ := h.old d hd (hid ▸ hlt)
    exact ⟨e, he, heid.trans hid⟩
  fresh := fun i hi r hr hlt =>
    h.fresh i (h'.fresh i hi r hr (Nat.lt_of_lt_of_le hlt h.nextReg_le)) r hr hlt
  cert_eq := fun id hlt =>
    (h'.cert_eq id (Nat.lt_of_lt_of_le hlt h.nextBlock_le)).trans (h.cert_eq id hlt)
  out := fun r hr => h'.out r (h.out r hr)
  edges := by
    intro id hlt hex b hb hid
    obtain ⟨d, hd, hdb, hdid⟩ := h'.edges id (Nat.lt_of_lt_of_le hlt h.nextBlock_le) hex b hb hid
    obtain ⟨e, he, hed, heid⟩ := h.edges id hlt hex d hd hdid
    exact ⟨e, he, hed.trans hdb, heid⟩
  phis := by
    intro b hb hlt i hi hphi
    obtain ⟨d, hd, hdb, hid⟩ := h'.phis b hb (Nat.lt_of_lt_of_le hlt h.nextBlock_le) i hi hphi
    obtain ⟨e, he, hed, hie⟩ := h.phis d hd (hdb ▸ hlt) i hid hphi
    exact ⟨e, he, hed.trans hdb, hie⟩
  settled := by
    intro hN b hb hterm hid
    rcases h'.settled hN b hb hterm hid with ⟨hb', hid'⟩ | hpending
    · exact h.settled hN b hb' hterm hid'
    · exact .inr hpending
  quiet := fun hq name hname hnone => h'.quiet hq name hname (h.quiet hq name hname hnone)

/-- A block that is there stays, though code may be added to it. -/
theorem block_stays (hid : ∃ d ∈ w.fn.blocks, d.id = id) : ∃ d ∈ w'.fn.blocks, d.id = id := by
  obtain ⟨d, hd, rfl⟩ := hid
  by_cases hcur : d.id = w.block.id
  · obtain ⟨b, hb, hbid, _⟩ := h.current
    exact ⟨b, hb, hbid.trans hcur.symm⟩
  · exact ⟨d, h.kept d hd hcur, rfl⟩

theorem pending_stays (hid : w.Pending id s) : w'.Pending id s := by
  obtain ⟨⟨label, hmem⟩, hcert, hne, hzero⟩ := hid
  have hlt : id < w.fn.nextBlock := w.coherent.id_lt _ hmem
  exact ⟨⟨label, h.kept _ hmem hne⟩, (h.cert_eq id hlt).trans hcert, h.ne_block hlt hne, hzero⟩

theorem has {v : Value} (hv : w.Has v) : w'.Has v := hv.mono h.out

theorem addr {ptr : Value} {ty : Ty} (hptr : w.Addr ptr ty) : w'.Addr ptr ty := by
  refine ⟨h.has hptr.1, hptr.2.1, hptr.2.2.mono h.frame.structs_eq ?_⟩
  intro r hr i hi hdst
  exact h.fresh i hi r hdst (hptr.1 r hr).1

theorem phiFree_stays (hid : ∃ d ∈ w.fn.blocks, d.id = id ∧ d.PhiFree) : ∃ d ∈ w'.fn.blocks, d.id = id ∧ d.PhiFree := by
  obtain ⟨d, hd, rfl, hfree⟩ := hid
  obtain ⟨b, hb, hbid⟩ := h.block_stays ⟨d, hd, rfl⟩
  refine ⟨b, hb, hbid, fun i hi => Bool.eq_false_iff.mpr fun hphi => ?_⟩
  obtain ⟨c, hc, hcid, hic⟩ := h.phis b hb (hbid ▸ w.coherent.id_lt d hd) i hi hphi
  rw [w.coherent.eq_of_id_eq hc hd (hcid.trans hbid)] at hic
  rw [hfree i hic] at hphi
  cases hphi

theorem canEnter (hid : w.CanEnter id) : w'.CanEnter id := by
  obtain ⟨hne, ⟨d, hd, hdid, hfree⟩, hcert⟩ := hid
  refine ⟨hne, h.phiFree_stays ⟨d, hd, hdid, hfree⟩, fun r hr => h.out r (hcert r ?_)⟩
  rwa [h.cert_eq id (hdid ▸ w.coherent.id_lt d hd)] at hr

end Grows

/-- Code was added that leaves nothing behind. -/
instance : Preorder (Site H) where
  le := Grows .plain
  le_refl := .refl
  le_trans _ _ _ := .trans

theorem Grows.of_le {e : Site.Effect} (h : w ≤ w') : Grows e w w' :=
  .weaken h (fun _ => trivial) (fun _ => trivial) (fun _ _ h => h.elim) fun _ h => h.elim

/-- Control can go to a pending block that asks for no more than there is. -/
theorem Pending.canEnter (h : w.Pending id s) (hs : ∀ r, s r → w.Out r) : w.CanEnter id := by
  obtain ⟨⟨label, hmem⟩, hcert, _, hzero⟩ := h
  exact ⟨hzero, ⟨_, hmem, rfl, fun _ hi => by cases hi⟩, fun r hr => hs r (hcert ▸ hr)⟩

end Site

end Aero.IR
