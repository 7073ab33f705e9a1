import Aero.IR.Verifier
import Mathlib.Tactic.Common
import Mathlib.Data.List.Nodup
import Mathlib.Data.List.Pairwise

/-!
Single assignment. A certificate lists for each block the registers that are written whenever
control reaches it; if every branch respects the lists and every use is covered by them, then each
register that a reachable block uses is a parameter or is written by an instruction that dominates
the use.
-/

namespace Aero.IR

open List

variable {f : Function} {r : Reg} {b d : Block} {before : List BlockId} {id target : BlockId}

def Instr.operands : Instr → List Value
  | .alloca _ _ | .phi _ _ _ => []
  | .load _ _ ptr => [ptr]
  | .store value ptr => [value, ptr]
  | .binary _ _ lhs rhs | .icmp _ _ lhs rhs | .fcmp _ _ lhs rhs => [lhs, rhs]
  | .fneg _ value | .cast _ _ value _ => [value]
  | .gep _ _ ptr indices => ptr :: indices
  | .call _ _ args _ | .inlineAsm _ _ args _ => args
  | .select _ cond onTrue onFalse => [cond, onTrue, onFalse]

def Instr.incoming : Instr → List (Value × BlockId)
  | .phi _ _ incoming => incoming
  | _ => []

def Terminator.operands : Terminator → List Value
  | .condBr cond _ _ => [cond]
  | .ret (some value) => [value]
  | .br _ | .ret none | .unreachable => []

/-- A block writes a register before a position. -/
def Block.WritesBefore (b : Block) (r : Reg) (k : Nat) : Prop :=
  ∃ j i, j < k ∧ b.instrs[j]? = some i ∧ i.dst? = some r

def Block.Writes (b : Block) (r : Reg) : Prop := b.WritesBefore r b.instrs.length

theorem Block.writes_iff : b.Writes r ↔ ∃ i ∈ b.instrs, i.dst? = some r := by
  constructor
  · rintro ⟨j, i, _, hi, hr⟩
    exact ⟨i, mem_of_getElem? hi, hr⟩
  · rintro ⟨i, hi, hr⟩
    obtain ⟨j, hj⟩ := List.getElem?_of_mem hi
    obtain ⟨hlt, _⟩ := List.getElem?_eq_some_iff.mp hj
    exact ⟨j, i, hlt, hj, hr⟩

namespace Function

/-- A walk from the entry to a block, with the blocks it goes through before, the latest first. -/
inductive Walk (f : Function) : List BlockId → BlockId → Prop where
  | start {entry : BlockId} (h : f.entry? = some entry) : Walk f [] entry
  | step {before : List BlockId} {a b : BlockId} (walk : Walk f before a)
      (edge : f.hasEdge a b = true) : Walk f (a :: before) b

/-- Some walk leads to a block. -/
def Reaches (f : Function) (id : BlockId) : Prop := ∃ before, f.Walk before id

/-- Every walk to the second block goes through the first. -/
def Dominates (f : Function) (d id : BlockId) : Prop :=
  ∀ before, f.Walk before id → d = id ∨ d ∈ before

/-- A register is a parameter, or an instruction that writes it comes before a position of a block
on every walk. -/
def WrittenAt (f : Function) (r : Reg) (b : Block) (k : Nat) : Prop :=
  r < f.params.length ∨ ∃ d ∈ f.blocks, ∃ j i, d.instrs[j]? = some i ∧ i.dst? = some r ∧
    (d = b ∧ j < k ∨ d ≠ b ∧ f.Dominates d.id b.id)

/-- The blocks of a function have names of their own, control never returns to the first, and each
register has one definition, which dominates its uses in the blocks that can be reached. -/
structure SingleAssignment (f : Function) : Prop where
  ids_nodup : (f.blocks.map Block.id).Nodup
  labels_nodup : (f.blocks.map Block.label).Nodup
  entry_unreached : ∀ entry, f.entry? = some entry → ∀ id, f.hasEdge id entry = false
  registers_nodup : (List.range f.params.length ++ f.instrs.filterMap Instr.dst?).Nodup
  operands_written : ∀ b ∈ f.blocks, f.Reaches b.id → ∀ k i, b.instrs[k]? = some i →
    ∀ v ∈ i.operands, ∀ r, v.reg? = some r → f.WrittenAt r b k
  ends_written : ∀ b ∈ f.blocks, f.Reaches b.id → ∀ t, b.term = some t →
    ∀ v ∈ t.operands, ∀ r, v.reg? = some r → f.WrittenAt r b b.instrs.length
  phis_written : ∀ b ∈ f.blocks, f.Reaches b.id → ∀ i ∈ b.instrs, ∀ p ∈ i.incoming, ∀ r, p.1.reg? = some r →
      ∃ c ∈ f.blocks, c.id = p.2 ∧ f.WrittenAt r c c.instrs.length

end Function

/-- For each block, the registers that are written when control reaches it. -/
abbrev Certificate := BlockId → Reg → Prop

/-- A register is written when control reaches a position of a block. -/
def Certificate.At (c : Certificate) (b : Block) (k : Nat) (r : Reg) : Prop :=
  c b.id r ∨ b.WritesBefore r k

/-- A register is written when control reaches the end of a block. -/
def Certificate.Out (c : Certificate) (b : Block) (r : Reg) : Prop := c b.id r ∨ b.Writes r

/-- The register of an operand, if it has one, is among some registers. -/
def Value.Within (v : Value) (s : Reg → Prop) : Prop := ∀ r, v.reg? = some r → s r

theorem Value.Within.mono {v : Value} {s t : Reg → Prop} (h : v.Within s) (hst : ∀ r, s r → t r) : v.Within t :=
  fun r hr => hst r (h r hr)

/-- A function whose blocks, registers and uses agree with a certificate. Blocks may still lack a
terminator. -/
structure Coherent (c : Certificate) (f : Function) : Prop where
  ids_nodup : (f.blocks.map Block.id).Nodup
  id_lt : ∀ b ∈ f.blocks, b.id < f.nextBlock
  entry : f.entry? = some 0
  entry_params : ∀ r, c 0 r → r < f.params.length
  params_le : f.params.length ≤ f.nextReg
  dsts_nodup : (f.instrs.filterMap Instr.dst?).Nodup
  dst_range : ∀ i ∈ f.instrs, ∀ r, i.dst? = some r → f.params.length ≤ r ∧ r < f.nextReg
  /-- No register is handed out without being written. -/
  dst_total : ∀ r, f.params.length ≤ r → r < f.nextReg → ∃ i ∈ f.instrs, i.dst? = some r
  uses : ∀ b ∈ f.blocks, ∀ (k : Nat) (i : Instr), b.instrs[k]? = some i → ∀ v ∈ i.operands,
    v.Within fun r => r < f.nextReg ∧ c.At b k r
  phis : ∀ b ∈ f.blocks, ∀ i ∈ b.instrs, ∀ p ∈ i.incoming, ∃ d ∈ f.blocks, d.id = p.2 ∧ b.id ∈ d.successors ∧
      p.1.Within fun r => r < f.nextReg ∧ c.Out d r
  ends : ∀ b ∈ f.blocks, ∀ t, b.term = some t → ∀ v ∈ t.operands, v.Within fun r => r < f.nextReg ∧ c.Out b r
  edges : ∀ b ∈ f.blocks, ∀ id ∈ b.successors, id ≠ 0 ∧ (∃ d ∈ f.blocks, d.id = id) ∧ ∀ r, c id r → c.Out b r

namespace Function

theorem mem_successors : target ∈ f.successors id ↔ ∃ b ∈ f.blocks, b.id = id ∧ target ∈ b.successors := by
  simp only [successors, mem_flatMap, mem_filter, decide_eq_true_eq, and_assoc]

theorem hasEdge_iff : f.hasEdge id target = true ↔ ∃ b ∈ f.blocks, b.id = id ∧ target ∈ b.successors := by
  rw [hasEdge, contains_iff_mem, mem_successors]

/-- A walk through a block has a shorter walk to that block as a part. -/
theorem Walk.prior {b d : BlockId} (h : f.Walk before b)
    (hd : d ∈ before) : ∃ less, f.Walk less d ∧ less.length < before.length := by
  induction h with
  | start => cases hd
  | @step before a b walk _ ih =>
    rcases mem_cons.mp hd with rfl | hd
    · exact ⟨before, walk, Nat.lt_succ_self _⟩
    · obtain ⟨less, hless, hlt⟩ := ih hd
      exact ⟨less, hless, Nat.lt_succ_of_lt hlt⟩

/-- A block that can be reached has a walk that comes to it for the first time. -/
theorem Reaches.first {b : BlockId} (h : f.Reaches b) : ∃ before, f.Walk before b ∧ b ∉ before := by
  obtain ⟨before, walk⟩ := h
  generalize hn : before.length = n
  induction n using Nat.strongRecOn generalizing before with
  | ind n ih =>
    by_cases hb : b ∈ before
    · obtain ⟨less, hless, hlt⟩ := walk.prior hb
      exact ih less.length (hn ▸ hlt) less hless rfl
    · exact ⟨before, walk, hb⟩

end Function

namespace Coherent

variable {c : Certificate}

variable (h : Coherent c f)
include h

theorem eq_of_id_eq (hb : b ∈ f.blocks) (hd : d ∈ f.blocks) (hid : b.id = d.id) : b = d :=
  inj_on_of_nodup_map h.ids_nodup hb hd hid

theorem writer_unique (hb : b ∈ f.blocks) (hd : d ∈ f.blocks) (hbr : b.Writes r) (hdr : d.Writes r) : b = d := by
  have hnodup := h.dsts_nodup
  rw [Function.instrs, filterMap_flatMap, nodup_flatMap] at hnodup
  let same : Block → Block → Prop := fun x y => x.Writes r → y.Writes r → x = y
  have : Std.Symm same := ⟨fun _ _ hxy hy hx => (hxy hx hy).symm⟩
  have hpairs : f.blocks.Pairwise same := by
    refine hnodup.2.imp ?_
    intro x y hdisjoint hx hy
    obtain ⟨i, hi, hir⟩ := Block.writes_iff.mp hx
    obtain ⟨j, hj, hjr⟩ := Block.writes_iff.mp hy
    exact absurd (mem_filterMap.mpr ⟨j, hj, hjr⟩) (hdisjoint (mem_filterMap.mpr ⟨i, hi, hir⟩))
  exact hpairs.forall_of_forall (fun _ _ _ _ => rfl) hb hd hbr hdr

/-- What the certificate promises of a block holds on every walk to it. -/
theorem walk_writes (walk : f.Walk before id)
    (hr : c id r) : r < f.params.length ∨ ∃ d ∈ f.blocks, d.id ∈ before ∧ d.Writes r := by
  induction walk with
  | start hentry =>
    rw [h.entry] at hentry
    cases hentry
    exact .inl (h.entry_params r hr)
  | @step before a b walk edge ih =>
    obtain ⟨p, hp, rfl, hb⟩ := Function.hasEdge_iff.mp edge
    rcases (h.edges p hp b hb).2.2 r hr with hin | hwrites
    · rcases ih hin with hparam | ⟨d, hd, hmem, hdr⟩
      · exact .inl hparam
      · exact .inr ⟨d, hd, mem_cons_of_mem _ hmem, hdr⟩
    · exact .inr ⟨p, hp, mem_cons_self, hwrites⟩

theorem exists_writer (hparam : f.params.length ≤ r) (hlt : r < f.nextReg) : ∃ d ∈ f.blocks, d.Writes r := by
  obtain ⟨i, hi, hir⟩ := h.dst_total r hparam hlt
  obtain ⟨d, hd, hid⟩ := mem_flatMap.mp hi
  exact ⟨d, hd, Block.writes_iff.mpr ⟨i, hid, hir⟩⟩

/-- The writer of a register that the certificate promises dominates the block. -/
theorem writer_dominates (hd : d ∈ f.blocks)
    (hparam : ¬ r < f.params.length) (hr : c id r) (hdr : d.Writes r) : f.Dominates d.id id := by
  intro before walk
  rcases h.walk_writes walk hr with hlt | ⟨d', hd', hmem, hdr'⟩
  · exact absurd hlt hparam
  · rw [h.writer_unique hd hd' hdr hdr']
    exact .inr hmem

theorem writtenAt (hb : b ∈ f.blocks) (hreach : f.Reaches b.id) {k : Nat}
    (hlt : r < f.nextReg) (hr : c.At b k r) : f.WrittenAt r b k := by
  by_cases hparam : r < f.params.length
  · exact .inl hparam
  rcases hr with hr | ⟨j, i, hj, hi, hir⟩
  · obtain ⟨d, hd, hdr⟩ := h.exists_writer (Nat.le_of_not_lt hparam) hlt
    -- A first walk to the block writes the register before it arrives, so not in the block itself.
    have hne : d ≠ b := by
      rintro rfl
      obtain ⟨before, walk, hfirst⟩ := hreach.first
      rcases h.walk_writes walk hr with hlt | ⟨d', hd', hmem, hdr'⟩
      · exact hparam hlt
      · rw [h.writer_unique hd' hd hdr' hdr] at hmem
        exact hfirst hmem
    obtain ⟨j, i, _, hi, hir⟩ := hdr
    exact .inr ⟨d, hd, j, i, hi, hir, .inr ⟨hne, h.writer_dominates hd hparam hr
      (Block.writes_iff.mpr ⟨i, mem_of_getElem? hi, hir⟩)⟩⟩
  · exact .inr ⟨b, hb, j, i, hi, hir, .inl ⟨rfl, hj⟩⟩

theorem writtenAt_end (hb : b ∈ f.blocks) (hlt : r < f.nextReg) (hr : c.Out b r) : f.WrittenAt r b b.instrs.length := by
  by_cases hparam : r < f.params.length
  · exact .inl hparam
  obtain ⟨d, hd, hdr⟩ := h.exists_writer (Nat.le_of_not_lt hparam) hlt
  obtain ⟨j, i, hj, hi, hir⟩ := hdr
  by_cases heq : d = b
  · subst heq
    exact .inr ⟨d, hd, j, i, hi, hir, .inl ⟨rfl, hj⟩⟩
  · have hwrites : d.Writes r := ⟨j, i, hj, hi, hir⟩
    rcases hr with hr | hr
    · exact .inr ⟨d, hd, j, i, hi, hir, .inr ⟨heq, h.writer_dominates hd hparam hr hwrites⟩⟩
    · exact absurd (h.writer_unique hd hb hwrites hr) heq

theorem entry_no_edge {entry : BlockId} (hentry : f.entry? = some entry)
    (id : BlockId) : f.hasEdge id entry = false := by
  rw [h.entry] at hentry
  cases hentry
  rw [Bool.eq_false_iff]
  intro hedge
  obtain ⟨b, hb, _, htarget⟩ := Function.hasEdge_iff.mp hedge
  exact (h.edges b hb 0 htarget).1 rfl

theorem registers_nodup : (List.range f.params.length ++ f.instrs.filterMap Instr.dst?).Nodup := by
  refine List.Nodup.append nodup_range h.dsts_nodup ?_
  intro r hparam hdst
  obtain ⟨i, hi, hir⟩ := mem_filterMap.mp hdst
  have hlt := mem_range.mp hparam
  have hle := (h.dst_range i hi r hir).1
  omega

/-- A coherent function with distinct labels is in single-assignment form. -/
theorem singleAssignment (hlabels : (f.blocks.map Block.label).Nodup) : f.SingleAssignment where
  ids_nodup := h.ids_nodup
  labels_nodup := hlabels
  entry_unreached := fun _ hentry => h.entry_no_edge hentry
  registers_nodup := h.registers_nodup
  operands_written := fun b hb hreach k i hi v hv r hr =>
    have hwithin := h.uses b hb k i hi v hv r hr
    h.writtenAt hb hreach hwithin.1 hwithin.2
  ends_written := fun b hb _ t ht v hv r hr =>
    have hwithin := h.ends b hb t ht v hv r hr
    h.writtenAt_end hb hwithin.1 hwithin.2
  phis_written := fun b hb _ i hi p hp r hr => by
    obtain ⟨d, hd, hid, _, hwithin⟩ := h.phis b hb i hi p hp
    exact ⟨d, hd, hid, h.writtenAt_end hd (hwithin r hr).1 (hwithin r hr).2⟩

end Coherent

end Aero.IR
