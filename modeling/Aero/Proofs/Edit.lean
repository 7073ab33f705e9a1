import Aero.Proofs.Label
import Aero.Proofs.Typing

/-!
Edits of a function under construction. One more instruction or a terminator at the end of a block,
a new block, a block moved or dropped: each keeps the function coherent, labelled and typed.
-/

namespace Aero.IR

open List

variable {c : Certificate} {i j : Instr} {e b d : Block} {r : Reg} {id : BlockId} {blocks : List Block}
  {label : String} {t : Terminator} {k next : Nat} {ty : Ty} {m : Module}

def Block.snoc (b : Block) (i : Instr) : Block := { b with instrs := b.instrs ++ [i] }

def Block.close (b : Block) (t : Terminator) : Block := { b with term := some t }

def Instr.writes (i : Instr) : Nat := i.dst?.elim 0 fun _ => 1

namespace Function

/-- The function with a block in place of the one that has its identifier. -/
def setBlock (f : Function) (b : Block) : Function :=
  { f with blocks := f.blocks.map fun d => if d.id = b.id then b else d }

/-- No two blocks have the same identifier. -/
abbrev Distinct (f : Function) : Prop := (f.blocks.map Block.id).Nodup

def push (f : Function) (b : Block) (i : Instr) : Function :=
  { f.setBlock (b.snoc i) with nextReg := f.nextReg + i.writes }

def finish (f : Function) (b : Block) (t : Terminator) : Function := f.setBlock (b.close t)

def append (f : Function) (label : String) : Function :=
  { f with nextBlock := f.nextBlock + 1, blocks := f.blocks ++ [⟨f.nextBlock, label, [], none⟩] }

def drop (f : Function) (id : BlockId) : Function :=
  { f with blocks := f.blocks.filter (·.id ≠ id) }

variable {f : Function}

theorem mem_instrs : i ∈ f.instrs ↔ ∃ b ∈ f.blocks, i ∈ b.instrs := mem_flatMap

theorem setBlock_blocks_eq (hnodup : f.Distinct) (hd : d ∈ f.blocks) (hid : b.id = d.id) :
    ∃ before after, f.blocks = before ++ d :: after ∧
      (f.setBlock b).blocks = before ++ b :: after ∧ ∀ e ∈ before ++ after, e.id ≠ b.id := by
  obtain ⟨before, after, heq⟩ := append_of_mem hd
  have hother : ∀ e ∈ before ++ after, e.id ≠ b.id := by
    rw [Distinct, heq, map_append, map_cons, nodup_middle, nodup_cons, ← map_append] at hnodup
    intro e he hbe
    exact hnodup.1 (mem_map.mpr ⟨e, he, hbe.trans hid⟩)
  refine ⟨before, after, heq, ?_, hother⟩
  have hkeep : ∀ l : List Block, (∀ e ∈ l, e.id ≠ b.id) → l.map (fun e => if e.id = b.id then b else e) = l := by
    intro l hl
    refine (map_congr_left fun e he => if_neg (hl e he)).trans (map_id l)
  simp only [setBlock, heq, map_append, map_cons, if_pos hid.symm,
    hkeep before fun e he => hother e (mem_append_left _ he), hkeep after fun e he => hother e (mem_append_right _ he)]

theorem mem_setBlock : e ∈ (f.setBlock b).blocks ↔
      e ∈ f.blocks ∧ e.id ≠ b.id ∨ e = b ∧ ∃ d ∈ f.blocks, d.id = b.id := by
  simp only [setBlock, mem_map]
  constructor
  · rintro ⟨d, hd, rfl⟩
    by_cases hid : d.id = b.id
    · rw [if_pos hid]
      exact .inr ⟨rfl, d, hd, hid⟩
    · rw [if_neg hid]
      exact .inl ⟨hd, hid⟩
  · rintro (⟨he, hid⟩ | ⟨rfl, d, hd, hid⟩)
    · exact ⟨e, he, if_neg hid⟩
    · exact ⟨d, hd, if_pos hid⟩

@[simp] theorem setBlock_ids : (f.setBlock b).blocks.map Block.id = f.blocks.map Block.id := by
  simp only [setBlock, map_map]
  refine map_congr_left fun d _ => ?_
  by_cases hid : d.id = b.id
  · rw [Function.comp_apply, if_pos hid, hid]
  · rw [Function.comp_apply, if_neg hid]

theorem exists_same_id {g : Function} (hids : g.blocks.map Block.id = f.blocks.map Block.id)
    (hd : d ∈ f.blocks) : ∃ e ∈ g.blocks, e.id = d.id :=
  mem_map.mp (hids ▸ mem_map_of_mem hd)

theorem entry?_eq_head? : f.entry? = (f.blocks.map Block.id).head? := head?_map.symm

@[simp] theorem entry?_setBlock : Function.entry? (f.setBlock b) = f.entry? := by
  rw [entry?_eq_head?, entry?_eq_head?, setBlock_ids]

theorem setBlock_labels (hnodup : f.Distinct) (hd : d ∈ f.blocks) (hid : b.id = d.id) (hlabel : b.label = d.label) :
    (f.setBlock b).blocks.map Block.label = f.blocks.map Block.label := by
  obtain ⟨before, after, heq, hset, _⟩ := setBlock_blocks_eq hnodup hd hid
  rw [hset, heq, map_append, map_append, map_cons, map_cons, hlabel]

theorem modifyBlock_eq_setBlock (hnodup : f.Distinct) (hb : b ∈ f.blocks)
    (change : Block → Block) (hid : (change b).id = b.id) : f.modifyBlock b.id change = f.setBlock (change b) := by
  obtain ⟨before, after, heq, hset, hother⟩ := setBlock_blocks_eq hnodup hb hid
  have hidx : f.blocks.findIdx? (fun e => e.id = b.id) = some before.length := by
    have hbefore : before.findIdx? (fun e => e.id = b.id) = none := by
      rw [findIdx?_eq_none_iff]
      intro e he
      exact decide_eq_false (hid ▸ hother e (mem_append_left _ he))
    rw [heq, findIdx?_append, hbefore, findIdx?_cons]
    simp
  have hblocks : f.blocks.modify before.length change = (f.setBlock (change b)).blocks := by
    rw [hset, heq, modify_eq_set_getElem?]
    simp
  simp only [modifyBlock, hidx]
  rw [hblocks]
  rfl

theorem block?_eq_some (hnodup : f.Distinct) (hb : b ∈ f.blocks) : f.block? b.id = some b := by
  cases hfind : f.block? b.id with
  | none =>
    rw [block?, find?_eq_none] at hfind
    exact absurd (decide_eq_true rfl) (hfind b hb)
  | some d =>
    have hid : d.id = b.id := by simpa using find?_some hfind
    have hmem := mem_of_find?_eq_some hfind
    rw [inj_on_of_nodup_map hnodup hmem hb hid]

/-! ### Instructions -/

theorem push_instrs_perm (hnodup : f.Distinct) (hb : b ∈ f.blocks) (i : Instr) :
    (f.push b i).instrs.Perm (i :: f.instrs) := by
  obtain ⟨before, after, heq, hset, _⟩ :=
    setBlock_blocks_eq (b := b.snoc i) hnodup hb rfl
  have hpush : (f.push b i).instrs = (f.setBlock (b.snoc i)).instrs := rfl
  rw [hpush, instrs, instrs, hset, heq]
  simp only [flatMap_append, flatMap_cons, Block.snoc, append_assoc]
  rw [← append_assoc, ← append_assoc (before.flatMap Block.instrs)]
  exact perm_middle

theorem finish_instrs (hnodup : f.Distinct) (hb : b ∈ f.blocks)
    (t : Terminator) : (f.finish b t).instrs = f.instrs := by
  obtain ⟨before, after, heq, hset, _⟩ :=
    setBlock_blocks_eq (b := b.close t) hnodup hb rfl
  rw [finish, instrs, instrs, hset, heq]
  simp only [flatMap_append, flatMap_cons, Block.close]

@[simp] theorem append_instrs (label : String) : (f.append label).instrs = f.instrs := by
  simp only [instrs, append, flatMap_append, flatMap_cons, flatMap_nil, append_nil]

theorem drop_instrs (hempty : ∀ d ∈ f.blocks, d.id = id → d.instrs = []) : (f.drop id).instrs = f.instrs := by
  simp only [instrs, drop]
  generalize f.blocks = l at hempty ⊢
  induction l with
  | nil => rfl
  | cons d l ih =>
    have hrest := ih fun e he => hempty e (mem_cons_of_mem _ he)
    by_cases hid : d.id = id
    · rw [filter_cons_of_neg (by simp [hid]), hrest, flatMap_cons, hempty d mem_cons_self hid, nil_append]
    · rw [filter_cons_of_pos (by simp [hid]), flatMap_cons, flatMap_cons, hrest]

theorem mem_push_instrs (hnodup : f.Distinct) (hb : b ∈ f.blocks) : j ∈ (f.push b i).instrs ↔ j = i ∨ j ∈ f.instrs := by
  rw [(push_instrs_perm hnodup hb i).mem_iff, mem_cons]

theorem mem_drop : e ∈ (f.drop id).blocks ↔ e ∈ f.blocks ∧ e.id ≠ id := by
  simp [drop]

theorem mem_append : e ∈ (f.append label).blocks ↔ e ∈ f.blocks ∨ e = ⟨f.nextBlock, label, [], none⟩ := by
  simp [append]

/-- Identifiers are distinct, and below the one of the next block. -/
structure Numbered (f : Function) : Prop where
  distinct : f.Distinct
  id_lt : ∀ b ∈ f.blocks, b.id < f.nextBlock

namespace Numbered

variable (h : f.Numbered)
include h

theorem setBlock (b : Block) : (f.setBlock b).Numbered where
  distinct := by
    rw [Distinct, setBlock_ids]
    exact h.distinct
  id_lt := by
    intro e he
    obtain ⟨d, hd, hid⟩ := exists_same_id setBlock_ids.symm he
    exact hid ▸ h.id_lt d hd

theorem append (label : String) : (f.append label).Numbered where
  distinct := by
    simp only [Distinct, Function.append, map_append]
    refine h.distinct.append (nodup_singleton _) ?_
    intro id hid hnew
    obtain ⟨e, he, rfl⟩ := mem_map.mp hid
    exact Nat.ne_of_lt (h.id_lt e he) (mem_singleton.mp hnew)
  id_lt := by
    intro e he
    rcases Function.mem_append.mp he with he | rfl
    · exact Nat.lt_succ_of_lt (h.id_lt e he)
    · exact Nat.lt_succ_self _

theorem drop (id : BlockId) : (f.drop id).Numbered where
  distinct := h.distinct.sublist (filter_sublist.map _)
  id_lt := fun e he => h.id_lt e (mem_drop.mp he).1

theorem reorder (hperm : blocks.Perm f.blocks) : Numbered { f with blocks := blocks } where
  distinct := (hperm.map Block.id).nodup_iff.mpr h.distinct
  id_lt := fun e he => h.id_lt e (hperm.mem_iff.mp he)

end Numbered

end Function

/-! ### Certificates -/

theorem Instr.writes_eq (h : i.dst? = some r) : i.writes = 1 := by
  rw [writes, h]
  rfl

theorem Block.successors_of_open (h : b.term = none) : b.successors = [] := by
  rw [successors, h]
  rfl

theorem Certificate.at_snoc (hk : k ≤ b.instrs.length) : c.At (b.snoc i) k r ↔ c.At b k r := by
  refine or_congr Iff.rfl ⟨?_, ?_⟩
  · rintro ⟨j, x, hj, hx, hr⟩
    rw [Block.snoc, getElem?_append_left (Nat.lt_of_lt_of_le hj hk)] at hx
    exact ⟨j, x, hj, hx, hr⟩
  · rintro ⟨j, x, hj, hx, hr⟩
    refine ⟨j, x, hj, ?_, hr⟩
    rw [Block.snoc, getElem?_append_left (Nat.lt_of_lt_of_le hj hk), hx]

theorem Certificate.out_snoc : c.Out (b.snoc i) r ↔ c.Out b r ∨ i.dst? = some r := by
  simp only [Out, Block.writes_iff, Block.snoc, mem_append, mem_singleton, or_assoc]
  refine or_congr Iff.rfl ⟨?_, ?_⟩
  · rintro ⟨x, hx | rfl, hr⟩
    · exact .inl ⟨x, hx, hr⟩
    · exact .inr hr
  · rintro (⟨x, hx, hr⟩ | hr)
    · exact ⟨x, .inl hx, hr⟩
    · exact ⟨i, .inr rfl, hr⟩

def Certificate.extend (c : Certificate) (id : BlockId) (s : Reg → Prop) : Certificate :=
  fun x => if x = id then s else c x

namespace Coherent

variable {f : Function}

theorem mem_push : e ∈ (f.push b i).blocks ↔ e ∈ f.blocks ∧ e.id ≠ b.id ∨ e = b.snoc i ∧ ∃ d ∈ f.blocks, d.id = b.id :=
  Function.mem_setBlock

theorem numbered (h : Coherent c f) : f.Numbered := ⟨h.ids_nodup, h.id_lt⟩

variable (h : Coherent c f) (hb : b ∈ f.blocks)
include h hb

/-- An open block can be replaced by one that goes on from it. -/
theorem replace (hopen : b.term = none) (hid : d.id = b.id) (hnext : f.nextReg ≤ next)
    (hnodup : ((f.setBlock d).instrs.filterMap Instr.dst?).Nodup)
    (hrange : ∀ i ∈ (f.setBlock d).instrs, ∀ r, i.dst? = some r → f.params.length ≤ r ∧ r < next)
    (htotal : ∀ r, f.params.length ≤ r → r < next → ∃ i ∈ (f.setBlock d).instrs, i.dst? = some r)
    (huses : ∀ (k : Nat) i, d.instrs[k]? = some i → ∀ v ∈ i.operands, v.Within fun r => r < next ∧ c.At d k r)
    (hphis : ∀ i ∈ d.instrs, ∀ p ∈ i.incoming, ∃ x ∈ f.blocks, x.id = p.2 ∧ d.id ∈ x.successors ∧
      p.1.Within fun r => r < next ∧ c.Out x r)
    (hends : ∀ t, d.term = some t → ∀ v ∈ t.operands, v.Within fun r => r < next ∧ c.Out d r)
    (hedges : ∀ id ∈ d.successors, id ≠ 0 ∧ (∃ x ∈ f.blocks, x.id = id) ∧ ∀ r, c id r → c.Out d r) :
    Coherent c { f.setBlock d with nextReg := next } := by
  have hwiden {v : Value} {s : Reg → Prop} (hv : v.Within fun r => r < f.nextReg ∧ s r) :
      v.Within fun r => r < next ∧ s r := hv.mono fun r hr => ⟨Nat.lt_of_lt_of_le hr.1 hnext, hr.2⟩
  constructor
  case ids_nodup => exact (h.numbered.setBlock d).distinct
  case id_lt => exact (h.numbered.setBlock d).id_lt
  case entry => exact (Function.entry?_setBlock).trans h.entry
  case entry_params => exact h.entry_params
  case params_le => exact Nat.le_trans h.params_le hnext
  case dsts_nodup => exact hnodup
  case dst_range => exact hrange
  case dst_total => exact htotal
  case uses =>
    intro e he k i hi v hv
    rcases Function.mem_setBlock.mp he with ⟨he, _⟩ | ⟨rfl, _⟩
    · exact hwiden (h.uses e he k i hi v hv)
    · exact huses k i hi v hv
  case phis =>
    intro e he i hi p hp
    have hfound : ∃ x ∈ f.blocks, x.id = p.2 ∧ e.id ∈ x.successors ∧ p.1.Within fun r => r < next ∧ c.Out x r := by
      rcases Function.mem_setBlock.mp he with ⟨he, _⟩ | ⟨rfl, _⟩
      · obtain ⟨x, hx, hxid, hsucc, hwithin⟩ := h.phis e he i hi p hp
        exact ⟨x, hx, hxid, hsucc, hwiden hwithin⟩
      · exact hphis i hi p hp
    obtain ⟨x, hx, hxid, hsucc, hwithin⟩ := hfound
    -- The block that a phi names has successors, so it is not the open one.
    refine ⟨x, Function.mem_setBlock.mpr (.inl ⟨hx, fun heq => ?_⟩), hxid, hsucc, hwithin⟩
    rw [h.eq_of_id_eq hx hb (heq.trans hid), Block.successors_of_open hopen] at hsucc
    cases hsucc
  case ends =>
    intro e he t ht v hv
    rcases Function.mem_setBlock.mp he with ⟨he, _⟩ | ⟨rfl, _⟩
    · exact hwiden (h.ends e he t ht v hv)
    · exact hends t ht v hv
  case edges =>
    intro e he target htarget
    have hold : target ≠ 0 ∧ (∃ x ∈ f.blocks, x.id = target) ∧ ∀ r, c target r → c.Out e r := by
      rcases Function.mem_setBlock.mp he with ⟨he, _⟩ | ⟨rfl, _⟩
      · exact h.edges e he target htarget
      · exact hedges target htarget
    obtain ⟨hne, ⟨x, hx, hxid⟩, hcert⟩ := hold
    obtain ⟨x', hx', hx'id⟩ := Function.exists_same_id Function.setBlock_ids hx
    exact ⟨hne, ⟨x', hx', hx'id.trans hxid⟩, hcert⟩

/-! #### One more instruction -/

section Push

section

variable (hdst : ∀ r, i.dst? = some r → r = f.nextReg)
include hdst

theorem push_dsts_nodup : ((f.push b i).instrs.filterMap Instr.dst?).Nodup := by
  refine ((Function.push_instrs_perm h.ids_nodup hb i).filterMap _).nodup_iff.mpr ?_
  cases hi : i.dst? with
  | none =>
    rw [filterMap_cons_none hi]
    exact h.dsts_nodup
  | some r =>
    rw [filterMap_cons_some hi, nodup_cons]
    refine ⟨fun hr => ?_, h.dsts_nodup⟩
    obtain ⟨j, hj, hjr⟩ := mem_filterMap.mp hr
    exact absurd (hdst r hi) (Nat.ne_of_lt (h.dst_range j hj r hjr).2)

theorem push_dst_range (hj : j ∈ (f.push b i).instrs)
    (hr : j.dst? = some r) : f.params.length ≤ r ∧ r < (f.push b i).nextReg := by
  rcases (Function.mem_push_instrs h.ids_nodup hb).mp hj with rfl | hj
  · rw [hdst r hr]
    refine ⟨h.params_le, ?_⟩
    simp only [Function.push, Instr.writes_eq hr]
    exact Nat.lt_succ_self _
  · have hrange := h.dst_range j hj r hr
    exact ⟨hrange.1, Nat.lt_of_lt_of_le hrange.2 (Nat.le_add_right _ _)⟩

theorem push_dst_total (hparam : f.params.length ≤ r)
    (hlt : r < (f.push b i).nextReg) : ∃ j ∈ (f.push b i).instrs, j.dst? = some r := by
  by_cases hold : r < f.nextReg
  · obtain ⟨j, hj, hjr⟩ := h.dst_total r hparam hold
    exact ⟨j, (Function.mem_push_instrs h.ids_nodup hb).mpr (.inr hj), hjr⟩
  cases hi : i.dst? with
  | none =>
    simp only [Function.push, Instr.writes, hi] at hlt
    exact absurd hlt hold
  | some s =>
    simp only [Function.push, Instr.writes_eq hi] at hlt
    refine ⟨i, (Function.mem_push_instrs h.ids_nodup hb).mpr (.inl rfl), ?_⟩
    rw [hi, hdst s hi, Nat.le_antisymm (Nat.le_of_lt_succ hlt) (Nat.le_of_not_lt hold)]

end

theorem push_uses {v : Value} (huses : ∀ v ∈ i.operands, v.Within fun r => r < f.nextReg ∧ c.Out b r)
    (hj : (b.snoc i).instrs[k]? = some j) (hv : v ∈ j.operands) :
    v.Within fun r => r < f.nextReg ∧ c.At (b.snoc i) k r := by
  by_cases hk : k < b.instrs.length
  · rw [Block.snoc, getElem?_append_left hk] at hj
    refine (h.uses b hb k j hj v hv).mono fun r hr => ⟨hr.1, ?_⟩
    exact (Certificate.at_snoc (Nat.le_of_lt hk)).mpr hr.2
  · have hlen : k = b.instrs.length := by
      obtain ⟨hlt, _⟩ := List.getElem?_eq_some_iff.mp hj
      simp only [Block.snoc, List.length_append, List.length_singleton] at hlt
      omega
    subst hlen
    rw [Block.snoc, getElem?_append_right (Nat.le_refl _), Nat.sub_self] at hj
    cases hj
    refine (huses v hv).mono fun r hr => ⟨hr.1, ?_⟩
    exact (Certificate.at_snoc (Nat.le_refl _)).mpr hr.2

/-- An instruction at the end of an open block writes the next register or none, and reads only what
is written by then. -/
theorem push (hopen : b.term = none) (hdst : ∀ r, i.dst? = some r → r = f.nextReg)
    (huses : ∀ v ∈ i.operands, v.Within fun r => r < f.nextReg ∧ c.Out b r)
    (hphis : ∀ p ∈ i.incoming, ∃ d ∈ f.blocks, d.id = p.2 ∧ b.id ∈ d.successors ∧
      p.1.Within fun r => r < f.nextReg ∧ c.Out d r) : Coherent c (f.push b i) := by
  have hnext : f.nextReg ≤ (f.push b i).nextReg := Nat.le_add_right _ _
  refine h.replace hb hopen (d := b.snoc i) rfl hnext (h.push_dsts_nodup hb hdst)
    (fun j hj r => h.push_dst_range hb hdst hj) (fun r => h.push_dst_total hb hdst) ?_ ?_ ?_ ?_
  · intro k j hj v hv
    exact (h.push_uses hb huses hj hv).mono fun r hr => ⟨Nat.lt_of_lt_of_le hr.1 hnext, hr.2⟩
  · intro j hj p hp
    obtain ⟨d, hd, hid, hsucc, hwithin⟩ : ∃ d ∈ f.blocks, d.id = p.2 ∧ b.id ∈ d.successors ∧
        p.1.Within fun r => r < f.nextReg ∧ c.Out d r := by
      rcases mem_append.mp hj with hj | hj
      · exact h.phis b hb j hj p hp
      · exact hphis p (mem_singleton.mp hj ▸ hp)
    exact ⟨d, hd, hid, hsucc, hwithin.mono fun r hr => ⟨Nat.lt_of_lt_of_le hr.1 hnext, hr.2⟩⟩
  · intro t ht
    rw [Block.snoc, hopen] at ht
    cases ht
  · intro id hid
    rw [Block.successors_of_open (b := b.snoc i) hopen] at hid
    cases hid

end Push

/-- A terminator at the end of an open block reads what is written by then, and leads to blocks that
ask for no more. -/
theorem finish (hopen : b.term = none) (huses : ∀ v ∈ t.operands, v.Within fun r => r < f.nextReg ∧ c.Out b r)
    (hedges : ∀ id ∈ t.successors, id ≠ 0 ∧ (∃ d ∈ f.blocks, d.id = id) ∧ ∀ r, c id r → c.Out b r) :
    Coherent c (f.finish b t) := by
  have hinstrs : (f.setBlock (b.close t)).instrs = f.instrs := Function.finish_instrs h.ids_nodup hb t
  refine h.replace hb hopen (d := b.close t) rfl (Nat.le_refl _) (hinstrs ▸ h.dsts_nodup) (hinstrs ▸ h.dst_range)
    (hinstrs ▸ h.dst_total) (h.uses b hb) (h.phis b hb) ?_ hedges
  intro u hu
  cases hu
  exact huses

omit hb

theorem entry_lt : 0 < f.nextBlock := by
  have hentry := h.entry
  obtain ⟨b, hb, hid⟩ := Option.map_eq_some_iff.mp hentry
  exact hid ▸ h.id_lt b (mem_of_mem_head? hb)

theorem append (label : String) (s : Reg → Prop) : Coherent (c.extend f.nextBlock s) (f.append label) := by
  have hold : ∀ {id : BlockId}, id < f.nextBlock → c.extend f.nextBlock s id = c id :=
    fun hlt => if_neg (Nat.ne_of_lt hlt)
  have hout : ∀ e ∈ f.blocks, ∀ r, (c.extend f.nextBlock s).Out e r ↔ c.Out e r := by
    intro e he r
    rw [Certificate.Out, Certificate.Out, hold (h.id_lt e he)]
  constructor
  case ids_nodup => exact (h.numbered.append label).distinct
  case id_lt => exact (h.numbered.append label).id_lt
  case entry =>
    have hentry := h.entry
    rw [Function.entry?_eq_head?] at hentry ⊢
    simp only [Function.append, map_append, head?_append, hentry, Option.some_or]
  case entry_params =>
    rw [hold h.entry_lt]
    exact h.entry_params
  case params_le => exact h.params_le
  case dsts_nodup => exact (f.append_instrs label).symm ▸ h.dsts_nodup
  case dst_range => exact (f.append_instrs label).symm ▸ h.dst_range
  case dst_total => exact (f.append_instrs label).symm ▸ h.dst_total
  case uses =>
    intro e he k i hi v hv
    rcases Function.mem_append.mp he with he | rfl
    · refine (h.uses e he k i hi v hv).mono fun r hr => ⟨hr.1, ?_⟩
      rw [Certificate.At, hold (h.id_lt e he)]
      exact hr.2
    · cases hi
  case phis =>
    intro e he i hi p hp
    rcases Function.mem_append.mp he with he | rfl
    · obtain ⟨d, hd, hid, hsucc, hwithin⟩ := h.phis e he i hi p hp
      exact ⟨d, Function.mem_append.mpr (.inl hd), hid, hsucc, hwithin.mono fun r hr => ⟨hr.1, (hout d hd r).mpr hr.2⟩⟩
    · cases hi
  case ends =>
    intro e he t ht v hv
    rcases Function.mem_append.mp he with he | rfl
    · exact (h.ends e he t ht v hv).mono fun r hr => ⟨hr.1, (hout e he r).mpr hr.2⟩
    · cases ht
  case edges =>
    intro e he id hid
    rcases Function.mem_append.mp he with he | rfl
    · obtain ⟨hne, ⟨d, hd, hdid⟩, hcert⟩ := h.edges e he id hid
      refine ⟨hne, ⟨d, Function.mem_append.mpr (.inl hd), hdid⟩, fun r hr => ?_⟩
      rw [hold (hdid ▸ h.id_lt d hd)] at hr
      exact (hout e he r).mpr (hcert r hr)
    · cases hid

/-- The order of the blocks does not matter, except that the entry stays first. -/
theorem reorder (hperm : blocks.Perm f.blocks)
    (hentry : blocks.head?.map Block.id = some 0) : Coherent c { f with blocks := blocks } := by
  have hinstrs : ({ f with blocks := blocks } : Function).instrs.Perm f.instrs :=
    hperm.flatMap_right _
  constructor
  case ids_nodup => exact (h.numbered.reorder hperm).distinct
  case id_lt => exact (h.numbered.reorder hperm).id_lt
  case entry => exact hentry
  case entry_params => exact h.entry_params
  case params_le => exact h.params_le
  case dsts_nodup => exact (hinstrs.filterMap _).nodup_iff.mpr h.dsts_nodup
  case dst_range => exact fun i hi => h.dst_range i (hinstrs.mem_iff.mp hi)
  case dst_total =>
    intro r hparam hlt
    obtain ⟨i, hi, hr⟩ := h.dst_total r hparam hlt
    exact ⟨i, hinstrs.mem_iff.mpr hi, hr⟩
  case uses => exact fun e he => h.uses e (hperm.mem_iff.mp he)
  case phis =>
    intro e he i hi p hp
    obtain ⟨d, hd, hrest⟩ := h.phis e (hperm.mem_iff.mp he) i hi p hp
    exact ⟨d, hperm.mem_iff.mpr hd, hrest⟩
  case ends => exact fun e he => h.ends e (hperm.mem_iff.mp he)
  case edges =>
    intro e he id hid
    obtain ⟨hne, ⟨d, hd, hdid⟩, hcert⟩ := h.edges e (hperm.mem_iff.mp he) id hid
    exact ⟨hne, ⟨d, hperm.mem_iff.mpr hd, hdid⟩, hcert⟩

/-- An empty block that nothing leads to can be dropped. -/
theorem drop (hid : id ≠ 0) (hempty : ∀ d ∈ f.blocks, d.id = id → d.instrs = [] ∧ d.term = none)
    (hedges : ∀ d ∈ f.blocks, id ∉ d.successors) : Coherent c (f.drop id) := by
  have hinstrs := Function.drop_instrs fun d hd hdid => (hempty d hd hdid).1
  have hold : ∀ {e : Block}, e ∈ (f.drop id).blocks → e ∈ f.blocks :=
    fun he => (Function.mem_drop.mp he).1
  constructor
  case ids_nodup => exact (h.numbered.drop id).distinct
  case id_lt => exact (h.numbered.drop id).id_lt
  case entry =>
    have hentry := h.entry
    rw [ Function.entry?] at hentry ⊢
    simp only [Function.drop]
    cases hblocks : f.blocks with
    | nil => rw [hblocks] at hentry; cases hentry
    | cons b rest =>
      rw [hblocks] at hentry
      have hb : b.id = 0 := Option.some.inj hentry
      rw [filter_cons_of_pos (by simpa [hb] using hid.symm)]
      exact congrArg some hb
  case entry_params => exact h.entry_params
  case params_le => exact h.params_le
  case dsts_nodup => exact hinstrs.symm ▸ h.dsts_nodup
  case dst_range => exact hinstrs.symm ▸ h.dst_range
  case dst_total => exact hinstrs.symm ▸ h.dst_total
  case uses => exact fun e he => h.uses e (hold he)
  case phis =>
    intro e he i hi p hp
    obtain ⟨d, hd, hdid, hsucc, hwithin⟩ := h.phis e (hold he) i hi p hp
    refine ⟨d, Function.mem_drop.mpr ⟨hd, fun heq => ?_⟩, hdid, hsucc, hwithin⟩
    rw [Block.successors_of_open (hempty d hd heq).2] at hsucc
    cases hsucc
  case ends => exact fun e he => h.ends e (hold he)
  case edges =>
    intro e he target htarget
    obtain ⟨hne, ⟨d, hd, hdid⟩, hcert⟩ := h.edges e (hold he) target htarget
    refine ⟨hne, ⟨d, Function.mem_drop.mpr ⟨hd, fun heq => ?_⟩, hdid⟩, hcert⟩
    rw [heq] at hdid
    exact hedges e (hold he) (hdid ▸ htarget)

end Coherent

namespace Labelled

variable {f : Function}

variable (h : Labelled f)
include h

theorem setBlock (hnodup : f.Distinct) (hd : d ∈ f.blocks)
    (hid : b.id = d.id) (hlabel : b.label = d.label) : Labelled (f.setBlock b) where
  nodup := (Function.setBlock_labels hnodup hd hid hlabel).symm ▸ h.nodup
  stem_or_marked := by
    intro e he
    rcases Function.mem_setBlock.mp he with ⟨he, _⟩ | ⟨rfl, _⟩
    · exact h.stem_or_marked e he
    · rw [hid, hlabel]
      exact h.stem_or_marked d hd

theorem push (hnodup : f.Distinct) (hb : b ∈ f.blocks) (i : Instr) : Labelled (f.push b i) :=
  { h.setBlock (b := b.snoc i) hnodup hb rfl rfl with }

theorem append (hlt : ∀ b ∈ f.blocks, b.id < f.nextBlock)
    (hlabel : IsStem label) : Labelled (f.append (Builder.freshLabel f label)) where
  nodup := by
    simp only [Function.append, map_append]
    refine List.Nodup.append h.nodup (nodup_singleton _) ?_
    intro text htext hnew
    obtain ⟨e, he, rfl⟩ := mem_map.mp htext
    exact (h.freshLabel hlt hlabel).1 e he (mem_singleton.mp hnew)
  stem_or_marked := by
    intro e he
    rcases Function.mem_append.mp he with he | rfl
    · exact h.stem_or_marked e he
    · exact (h.freshLabel hlt hlabel).2

theorem reorder (hperm : blocks.Perm f.blocks) : Labelled { f with blocks := blocks } where
  nodup := (hperm.map Block.label).nodup_iff.mpr h.nodup
  stem_or_marked := fun e he => h.stem_or_marked e (hperm.mem_iff.mp he)

theorem drop (id : BlockId) : Labelled (f.drop id) where
  nodup := h.nodup.sublist (filter_sublist.map _)
  stem_or_marked := fun e he => h.stem_or_marked e (Function.mem_drop.mp he).1

end Labelled

/-! ### Types -/

theorem Module.dst?_of_slotOf? (h : m.slotOf? i = some (r, ty)) : i.dst? = some r := by
  cases i with
  | alloca dst ty =>
    cases h
    rfl
  | gep dst base ptr indices =>
    obtain ⟨found, _, heq⟩ := Option.map_eq_some_iff.mp h
    cases heq
    rfl
  | _ => cases h

theorem Module.elementTy?_congr {m' : Module} (h : m'.structs = m.structs) (ty : Ty)
    (path : List Value) : m'.elementTy? ty path = m.elementTy? ty path := by
  induction path generalizing ty with
  | nil => simp only [elementTy?]
  | cons index path ih =>
    cases ty with
    | array elem len => simp only [elementTy?, ih]
    | struct name => simp only [elementTy?, struct?, h, ih]
    | _ => simp only [elementTy?]

theorem Module.slotOf?_congr {m' : Module} (h : m'.structs = m.structs) (i : Instr) : m'.slotOf? i = m.slotOf? i := by
  cases i with
  | gep dst base ptr indices => simp only [slotOf?, elementTy?_congr h]
  | _ => rfl

namespace Function

variable {m' : Module} {f g : Function}

/-- What an address is known to hold stays, if no instruction writes its register anew. -/
theorem Addresses.mono {ptr : Value} (h : f.Addresses m ptr ty) (hstructs : m'.structs = m.structs)
    (hold : ptr.Within fun r => ∀ i ∈ g.instrs, i.dst? = some r → i ∈ f.instrs) : g.Addresses m' ptr ty := by
  intro r hr i hi found hslot
  rw [Module.slotOf?_congr hstructs] at hslot
  exact h r hr i (hold r hr i hi (Module.dst?_of_slotOf? hslot)) found hslot

namespace Typed

variable (h : f.Typed m)
include h

theorem mono (hstructs : m'.structs = m.structs)
    (hproto : ∀ name s, m.prototype? name = some s → m'.prototype? name = some s) : f.Typed m' where
  instrs := fun i hi => (h.instrs i hi).mono hproto
  ends := h.ends
  stores := fun value ptr hi => (h.stores value ptr hi).mono hstructs fun _ _ _ hi _ => hi

/-- The same instructions and terminators are typed in any arrangement. -/
theorem rearrange (hret : g.ret = f.ret) (hinstrs : ∀ i, i ∈ g.instrs ↔ i ∈ f.instrs)
    (hends : ∀ b ∈ g.blocks, ∀ t, b.term = some t → t.WellTyped f.ret) : g.Typed m where
  instrs := fun i hi => h.instrs i ((hinstrs i).mp hi)
  ends := hret ▸ hends
  stores := fun value ptr hi =>
    (h.stores value ptr ((hinstrs _).mp hi)).mono rfl fun _ _ i hi _ => (hinstrs i).mp hi

theorem push (hcoherent : Coherent c f) (hb : b ∈ f.blocks) (hdst : ∀ r, i.dst? = some r → r = f.nextReg)
    (huses : ∀ v ∈ i.operands, v.Within fun r => r < f.nextReg ∧ c.Out b r) (hi : i.WellTyped m.prototype?)
    (hstore : ∀ value ptr, i = .store value ptr → f.Addresses m ptr value.ty) : (f.push b i).Typed m := by
  have hmem : ∀ {j : Instr}, j ∈ (f.push b i).instrs ↔ j = i ∨ j ∈ f.instrs :=
    mem_push_instrs hcoherent.ids_nodup hb
  -- The new instruction writes no register that an address of a store stands in.
  have hold : ∀ {ptr : Value}, (ptr.Within fun r => r < f.nextReg) →
      ptr.Within fun r => ∀ j ∈ (f.push b i).instrs, j.dst? = some r → j ∈ f.instrs := by
    intro ptr hptr r hr j hj hjr
    rcases hmem.mp hj with rfl | hj
    · exact absurd (hdst r hjr) (Nat.ne_of_lt (hptr r hr))
    · exact hj
  constructor
  case instrs =>
    intro j hj
    rcases hmem.mp hj with rfl | hj
    · exact hi
    · exact h.instrs j hj
  case ends =>
    intro e he t ht
    rcases Coherent.mem_push.mp he with ⟨he, _⟩ | ⟨rfl, _⟩
    · exact h.ends e he t ht
    · exact h.ends b hb t ht
  case stores =>
    intro value ptr hj
    rcases hmem.mp hj with hj | hj
    · subst hj
      refine (hstore value ptr rfl).mono rfl (hold ?_)
      refine (huses ptr ?_).mono fun r hr => hr.1
      exact mem_cons_of_mem _ mem_cons_self
    · refine (h.stores value ptr hj).mono rfl (hold ?_)
      obtain ⟨e, he, hje⟩ := mem_instrs.mp hj
      obtain ⟨k, hk⟩ := getElem?_of_mem hje
      refine (hcoherent.uses e he k _ hk ptr ?_).mono fun r hr => hr.1
      exact mem_cons_of_mem _ mem_cons_self

theorem finish (hnodup : f.Distinct) (hb : b ∈ f.blocks) (ht : t.WellTyped f.ret) : (f.finish b t).Typed m := by
  refine h.rearrange rfl (fun i => by rw [finish_instrs hnodup hb]) ?_
  intro e he u hu
  rcases mem_setBlock.mp he with ⟨he, _⟩ | ⟨rfl, _⟩
  · exact h.ends e he u hu
  · cases hu
    exact ht

theorem append (label : String) : (f.append label).Typed m := by
  refine h.rearrange rfl (fun i => by rw [append_instrs]) ?_
  intro e he t ht
  rcases mem_append.mp he with he | rfl
  · exact h.ends e he t ht
  · cases ht

theorem reorder (hperm : blocks.Perm f.blocks) : ({ f with blocks := blocks } : Function).Typed m :=
  h.rearrange rfl (fun _ => (hperm.flatMap_right _).mem_iff) fun e he => h.ends e (hperm.mem_iff.mp he)

theorem drop (hempty : ∀ d ∈ f.blocks, d.id = id → d.instrs = []) : (f.drop id).Typed m :=
  h.rearrange rfl (fun i => by rw [drop_instrs hempty]) fun e he => h.ends e (mem_drop.mp he).1

end Typed

end Function

end Aero.IR
