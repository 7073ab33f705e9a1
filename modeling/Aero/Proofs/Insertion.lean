import Aero.Proofs.Site

/-!
The builder's operations at an insertion point. Each leads from one site to another, of which the
function, the block and the certificate are known.
-/

open List hiding get modify

namespace Aero.IR

variable {f : Function} {H : Prop} {w w0 : Site H} {b d : Block} {id : BlockId} {i : Instr} {t : Terminator}
  {pending : BlockId → Prop} {r : Reg}

/-- The function with a name is the first one that has it. -/
theorem Module.function?_eq_some_iff {m : Module} {name : String} : m.function? name = some f ↔
    ∃ i, m.functions.findIdx? (·.name = name) = some i ∧ m.functions[i]? = some f := by
  rw [function?, find?_eq_some_iff_getElem]
  simp only [findIdx?_eq_some_iff_getElem, List.getElem?_eq_some_iff]
  constructor
  · rintro ⟨hname, i, hlt, hf, hbefore⟩
    exact ⟨i, ⟨hlt, hf ▸ hname, fun j hj => by simpa using hbefore j hj⟩, hlt, hf⟩
  · rintro ⟨i, ⟨hlt, hname, hbefore⟩, _, hf⟩
    exact ⟨hf ▸ hname, i, hlt, hf, fun j hj => by simpa using hbefore j hj⟩

namespace Build

variable {b : Builder} {name : String} {i : Nat}

theorem modify_run (change : Builder → Builder) (b : Builder) : (modify change : Build Unit) b = ((), change b) := rfl

theorem get_bind_run {α : Type} (next : Builder → Build α) (b : Builder) : (get >>= next) b = next b b := rfl

def openBody (i : Nat) : Build Unit := do
  modify fun b => { b with current := some i }
  modify (·.modifyFunction fun f => { f with nextReg := f.params.length })
  let entry ← appendBlock "entry"
  position entry

theorem defineFunction_found
    (hindex : b.module.functions.findIdx? (·.name = name) = some i) (hfound : b.module.function? name = some f) :
    defineFunction name b = (some (f.params.zipIdx.map fun (p, r) => .ofReg r p.ty), (openBody i b).2) := by
  simp only [defineFunction, get_bind_run, pure, hindex, hfound]
  rfl

theorem defineFunction_unknown (h : b.module.functions.findIdx? (·.name = name) = none) :
    defineFunction name b = (none, b) := by
  simp only [defineFunction, get_bind_run, pure, h]
  rfl

end Build

namespace Function

def toEnd (f : Function) (d : Block) : Function :=
  { f with blocks := f.blocks.filter (·.id ≠ d.id) ++ [d] }

theorem split_blocks (hnodup : f.Distinct) (hd : d ∈ f.blocks) :
    ∃ before after, f.blocks = before ++ d :: after ∧ f.blocks.filter (·.id ≠ d.id) = before ++ after ∧
      f.blocks.findIdx? (·.id = d.id) = some before.length := by
  obtain ⟨before, after, heq, _, hother⟩ := setBlock_blocks_eq hnodup hd rfl
  refine ⟨before, after, heq, ?_, ?_⟩
  · rw [heq, filter_append, filter_cons_of_neg (by simp), ← filter_append, filter_eq_self]
    intro e he
    exact decide_eq_true (hother e he)
  · have hbefore : before.findIdx? (·.id = d.id) = none := by
      rw [findIdx?_eq_none_iff]
      intro e he
      exact decide_eq_false (hother e (mem_append_left _ he))
    rw [heq, findIdx?_append, hbefore, findIdx?_cons]
    simp

theorem toEnd_perm (hnodup : f.Distinct) (hd : d ∈ f.blocks) : (f.toEnd d).blocks.Perm f.blocks := by
  obtain ⟨before, after, heq, hfilter, _⟩ := split_blocks hnodup hd
  rw [toEnd, hfilter, heq]
  exact perm_append_singleton d _ |>.trans perm_middle.symm

theorem entry?_toEnd {entry : BlockId} (hentry : f.entry? = some entry) (hne : d.id ≠ entry) :
    Function.entry? (f.toEnd d) = some entry := by
  rw [ entry?] at hentry ⊢
  cases hblocks : f.blocks with
  | nil =>
    rw [hblocks] at hentry
    cases hentry
  | cons b rest =>
    rw [hblocks] at hentry
    have hb : b.id = entry := Option.some.inj hentry
    have hkeep : b.id ≠ d.id := fun heq => hne (heq.symm.trans hb)
    rw [toEnd, hblocks, filter_cons_of_pos (by simpa using hkeep)]
    exact hentry

theorem setBlock_self (hnodup : f.Distinct) (hb : b ∈ f.blocks) : f.setBlock b = f := by
  obtain ⟨before, after, heq, hset, _⟩ := setBlock_blocks_eq hnodup hb rfl
  have hblocks : (f.setBlock b).blocks = f.blocks := hset.trans heq.symm
  calc f.setBlock b = { f with blocks := (f.setBlock b).blocks } := rfl
    _ = f := by rw [hblocks]

end Function

namespace Builder

/-- A builder works on a block of a function. -/
structure At (b : Builder) (index : Nat) (f : Function) (block : Block) : Prop where
  current_eq : b.current = some index
  fn_eq : b.module.functions[index]? = some f
  insert_eq : b.insert = some block.id
  ids_nodup : (f.blocks.map Block.id).Nodup
  block_mem : block ∈ f.blocks

theorem setFn_setFn (b : Builder) (i : Nat) (f g : Function) : (b.setFn i f).setFn i g = b.setFn i g := by
  simp only [setFn, set_set]

theorem setFn_self {b : Builder} {i : Nat} (h : b.module.functions[i]? = some f) : b.setFn i f = b := by
  rw [setFn, set_of_getElem? h]

theorem modifyFunction_eq {b : Builder} {i : Nat} (hcurrent : b.current = some i)
    (hfn : b.module.functions[i]? = some f) (change : Function → Function) :
    b.modifyFunction change = b.setFn i (change f) := by
  simp only [modifyFunction, hcurrent, setFn]
  rw [modify_eq_set_getElem?, hfn]
  rfl

theorem appendBlock_eq {b : Builder} {i : Nat} (hcurrent : b.current = some i)
    (hfn : b.module.functions[i]? = some f) (label : String) : ∃ log, Build.appendBlock label b =
      (f.nextBlock, { b.setFn i (f.append (freshLabel f label)) with log := log }) := by
  let noted := b.note .trace ("block " ++ freshLabel f label ++ " (" ++ BlockId.text f.nextBlock ++ ") in @" ++ f.name)
  have hfunction : b.function? = some f := by
    rw [function?, hcurrent]
    exact hfn
  refine ⟨noted.log, ?_⟩
  simp only [Build.appendBlock, hfunction]
  rw [modifyFunction_eq (b := noted) hcurrent hfn]
  rfl

theorem openBody_eq {b : Builder} {i : Nat} (hfn : b.module.functions[i]? = some f) :
    let reset := { f with nextReg := f.params.length }
    ∃ log, (Build.openBody i b).2 = { b.setFn i (reset.append (freshLabel reset "entry")) with
      current := some i, insert := some f.nextBlock, log := log } := by
  intro reset
  let began : Builder := { b with current := some i }
  have hreset := modifyFunction_eq (b := began) rfl hfn fun f => { f with nextReg := f.params.length }
  obtain ⟨log, happend⟩ := appendBlock_eq (b := began.setFn i reset) rfl
    (List.getElem?_set_self (List.getElem?_eq_some_iff.mp hfn).1) "entry"
  refine ⟨log, ?_⟩
  change (fun p : BlockId × Builder => ({ p.2 with insert := some p.1 } : Builder))
    (Build.appendBlock "entry" (began.modifyFunction _)) = _
  rw [hreset, happend, setFn_setFn]
  rfl

namespace At

variable {b : Builder} {index : Nat} {block : Block}

variable (h : b.At index f block)
include h

theorem function? : b.function? = some f := by
  rw [Builder.function?, h.current_eq]
  exact h.fn_eq

theorem block? : b.block? = some block := by
  simp only [Builder.block?, h.function?, h.insert_eq]
  exact Function.block?_eq_some h.ids_nodup h.block_mem

theorem isTerminated : b.isTerminated = block.isTerminated := by
  rw [Builder.isTerminated, h.block?]

theorem modifyFunction (change : Function → Function) : b.modifyFunction change = b.setFn index (change f) :=
  modifyFunction_eq h.current_eq h.fn_eq change

theorem modifyBlock (change : Block → Block) (hid : (change block).id = block.id) :
    b.modifyBlock change = b.setFn index (f.setBlock (change block)) := by
  simp only [Builder.modifyBlock, h.insert_eq]
  rw [h.modifyFunction, Function.modifyBlock_eq_setBlock h.ids_nodup h.block_mem change hid]

theorem push (hopen : block.term = none) (i : Instr) :
    Build.push i b = ((), b.setFn index (f.setBlock (block.snoc i))) := by
  have hterm : block.isTerminated = false := by rw [Block.isTerminated, hopen]; rfl
  have hrun : Build.push i b = ((), b.modifyBlock fun block => { block with instrs := block.instrs ++ [i] }) := by
    simp only [Build.push, Build.modify_run, h.insert_eq, h.block?, hterm]
    rfl
  rw [hrun, h.modifyBlock _ (by rfl)]
  rfl

theorem freshReg : Build.freshReg b = (f.nextReg, b.setFn index { f with nextReg := f.nextReg + 1 }) := by
  simp only [Build.freshReg, h.function?]
  rw [h.modifyFunction]

theorem setFn {g : Function} (hnodup : (g.blocks.map Block.id).Nodup) (hmem : block ∈ g.blocks) :
    (b.setFn index g).At index g block where
  current_eq := h.current_eq
  fn_eq := by
    obtain ⟨hlt, _⟩ := List.getElem?_eq_some_iff.mp h.fn_eq
    exact List.getElem?_set_self hlt
  insert_eq := h.insert_eq
  ids_nodup := hnodup
  block_mem := hmem

theorem emit (hopen : block.term = none) (ty : Ty) {make : Reg → Instr} (hdst : ∀ r, (make r).dst? = some r) :
    Build.emit ty make b = (.ofReg f.nextReg ty, b.setFn index (f.push block (make f.nextReg))) := by
  have hfresh := h.freshReg
  have hpush := push (h.setFn (g := { f with nextReg := f.nextReg + 1 }) h.ids_nodup h.block_mem) hopen (make f.nextReg)
  have hfn : ({ f with nextReg := f.nextReg + 1 } : Function).setBlock
      (block.snoc (make f.nextReg)) = f.push block (make f.nextReg) := by
    rw [Function.push, Instr.writes_eq (hdst f.nextReg)]
    rfl
  rw [hfn, setFn_setFn] at hpush
  simp only [Build.emit, bind, StateT.bind, hfresh, hpush]
  rfl

theorem terminate (hopen : block.term = none) (t : Terminator) :
    Build.terminate t b = ((), b.setFn index (f.finish block t)) := by
  have hterm : block.isTerminated = false := by rw [Block.isTerminated, hopen]; rfl
  have hrun := h.modifyBlock (fun block =>
    if block.isTerminated then block else { block with term := some t }) (by rw [hterm]; rfl)
  simp only [hterm] at hrun
  simp only [Build.terminate, Build.modify_run]
  rw [hrun]
  rfl

theorem terminate_closed (hclosed : block.isTerminated = true) (t : Terminator) : Build.terminate t b = ((), b) := by
  have hrun := h.modifyBlock (fun block =>
    if block.isTerminated then block else { block with term := some t }) (by rw [hclosed]; rfl)
  simp only [hclosed, if_true] at hrun
  rw [Function.setBlock_self h.ids_nodup h.block_mem, setFn_self h.fn_eq] at hrun
  simp only [Build.terminate, Build.modify_run]
  rw [hrun]

theorem moveBlockToEnd (hd : d ∈ f.blocks) : Build.moveBlockToEnd d.id b = ((), b.setFn index (f.toEnd d)) := by
  obtain ⟨before, after, heq, hfilter, hidx⟩ := Function.split_blocks h.ids_nodup hd
  have herase : f.blocks.eraseIdx before.length = f.blocks.filter (·.id ≠ d.id) := by
    rw [hfilter, heq, eraseIdx_append_of_length_le (Nat.le_refl _), Nat.sub_self]
    rfl
  simp only [Build.moveBlockToEnd, Build.modify_run]
  rw [h.modifyFunction]
  simp only [hidx, Function.block?_eq_some h.ids_nodup hd, herase]
  rfl

theorem eraseBlock (hne : id ≠ block.id) : Build.eraseBlock id b = ((), b.setFn index (f.drop id)) := by
  have hinsert : (b.setFn index (f.drop id)).insert ≠ some id := by
    change b.insert ≠ some id
    rw [h.insert_eq]
    exact fun heq => hne (Option.some.inj heq).symm
  simp only [Build.eraseBlock, Build.modify_run]
  rw [h.modifyFunction]
  exact congrArg (Prod.mk ()) (if_neg hinsert)

end At

end Builder

namespace Site

variable {e : Effect}

theorem at_block (w : Site H) : w.builder.At w.index w.fn w.block :=
  ⟨w.current_eq, w.fn_eq, w.insert_eq, w.coherent.ids_nodup, w.block_mem⟩

def replace (w : Site H) (f : Function) (b : Block) (c : Certificate) (log : Array LogLine)
    (hname : f.name = w.fn.name) (hproto : f.prototype = w.fn.prototype) (hmem : b ∈ f.blocks)
    (hcoherent : Coherent c f) (hlabelled : Labelled f) (hmerging : f.Merging)
    (htyped : H → f.Typed w.builder.module) : Site H where
  builder := { w.builder.setFn w.index f with insert := some b.id, log := log }
  index := w.index
  fn := f
  block := b
  cert := c
  current_eq := w.current_eq
  fn_eq := by
    obtain ⟨hlt, _⟩ := List.getElem?_eq_some_iff.mp w.fn_eq
    exact List.getElem?_set_self hlt
  insert_eq := rfl
  block_mem := hmem
  coherent := hcoherent
  labelled := hlabelled
  merging := hmerging
  sound := fun h p s hs =>
    w.sound h p s ((Builder.setFn_prototype? w.fn_eq hname hproto p.name).symm.trans hs)
  typed := fun h => (htyped h).mono rfl fun name s hs =>
    (Builder.setFn_prototype? w.fn_eq hname hproto name).trans hs

section Replace

variable (w : Site H) {c : Certificate} {log : Array LogLine} (hname : f.name = w.fn.name)
  (hproto : f.prototype = w.fn.prototype) (hmem : b ∈ f.blocks) (hcoherent : Coherent c f) (hlabelled : Labelled f)
  (hmerging : f.Merging) (htyped : H → f.Typed w.builder.module)

theorem replace_frame :
    w.builder.Frame (w.replace f b c log hname hproto hmem hcoherent hlabelled hmerging htyped).builder :=
  { Builder.setFn_frame w.current_eq w.fn_eq hname hproto with }

theorem replace_prototype? (name : String) :
    (w.replace f b c log hname hproto hmem hcoherent hlabelled hmerging htyped).builder.module.prototype?
      name = w.builder.module.prototype? name :=
  Builder.setFn_prototype? w.fn_eq hname hproto name

end Replace

/-! ### Instructions -/

/-- An instruction can be added. -/
structure Accepts (w : Site H) (i : Instr) : Prop where
  isOpen : w.Open
  dst : ∀ r, i.dst? = some r → r = w.fn.nextReg
  uses : ∀ v ∈ i.operands, w.Has v
  phis : ∀ p ∈ i.incoming, ∃ d ∈ w.fn.blocks, d.id = p.2 ∧ w.block.id ∈ d.successors ∧
    p.1.Within fun r => r < w.fn.nextReg ∧ w.cert.Out d r
  merges : i.isPhi = true → w.block.instrs = [] ∧ i.sources.Nodup ∧
    ∀ id, id ∈ i.sources ↔ w.block.id ∈ w.fn.successors id
  typed : H → i.WellTyped w.builder.module.prototype?
  stores : H → ∀ value ptr, i = .store value ptr → w.fn.Addresses w.builder.module ptr value.ty

def push (w : Site H) (i : Instr) (h : w.Accepts i) : Site H :=
  w.replace (w.fn.push w.block i) (w.block.snoc i) w.cert w.builder.log rfl rfl
    (Coherent.mem_push.mpr (Or.inr ⟨rfl, w.block, w.block_mem, rfl⟩))
    (w.coherent.push w.block_mem h.isOpen h.dst h.uses h.phis)
    (w.labelled.push w.coherent.ids_nodup w.block_mem i)
    (w.merging.push w.coherent.ids_nodup w.block_mem h.merges)
    fun hH => (w.typed hH).push w.coherent w.block_mem h.dst h.uses (h.typed hH) (h.stores hH)

theorem push_isOpen (w : Site H) (h : w.Accepts i) : (w.push i h).Open := h.isOpen

theorem push_out (w : Site H) (h : w.Accepts i) (hr : w.Out r) : (w.push i h).Out r :=
  ⟨Nat.lt_of_lt_of_le hr.1 (Nat.le_add_right _ _), Certificate.out_snoc.mpr (.inl hr.2)⟩

theorem push_writes (w : Site H) (h : w.Accepts i) (hr : i.dst? = some r) : (w.push i h).Out r := by
  refine ⟨?_, Certificate.out_snoc.mpr (.inr hr)⟩
  change r < w.fn.nextReg + i.writes
  rw [h.dst r hr, Instr.writes_eq hr]
  exact Nat.lt_succ_self _

/-- An instruction is added. A phi goes to a new block only. -/
theorem Grows.push (h : Grows e w0 w) (hi : w.Accepts i)
    (hphi : i.isPhi = true → w0.fn.nextBlock ≤ w.block.id) : Grows e w0 (w.push i hi) := by
  have hmem : ∀ {b : Block}, b ∈ (w.push i hi).fn.blocks →
      b ∈ w.fn.blocks ∧ b.id ≠ w.block.id ∨ b = w.block.snoc i := fun hb =>
    (Coherent.mem_push.mp hb).imp_right fun hb => hb.1
  refine { h with
    out := fun r hr => w.push_out hi (h.out r hr)
    quiet := fun hq name hname hnone => (w.replace_prototype? ..).trans (h.quiet hq name hname hnone)
    frame := h.frame.trans (w.replace_frame ..)
    nextReg_le := Nat.le_trans h.nextReg_le (Nat.le_add_right _ _)
    kept := ?kept, current := ?current, old := ?old, fresh := ?fresh, edges := ?edges, phis := ?phis
    settled := ?settled }
  case kept =>
    intro b hb hid
    have hne := h.ne_block (w0.coherent.id_lt b hb) hid
    exact Coherent.mem_push.mpr (.inl ⟨h.kept b hb hid, hne⟩)
  case current =>
    obtain ⟨b, hb, hid, hinstrs, hterm⟩ := h.current
    by_cases hcur : b.id = w.block.id
    · have hbeq : b = w.block := w.coherent.eq_of_id_eq hb w.block_mem hcur
      subst hbeq
      refine ⟨w.block.snoc i, (w.push i hi).block_mem, hid, hinstrs.trans (prefix_append _ _), fun ht => ?_⟩
      rw [← hterm ht, Block.isTerminated, hi.isOpen] at ht
      cases ht
    · exact ⟨b, Coherent.mem_push.mpr (.inl ⟨hb, hcur⟩), hid, hinstrs, hterm⟩
  case old =>
    intro b hb hlt
    rcases hmem hb with ⟨hb, _⟩ | rfl
    · exact h.old b hb hlt
    · exact h.old w.block w.block_mem hlt
  case fresh =>
    intro j hj r hr hlt
    rcases (Function.mem_push_instrs w.coherent.ids_nodup w.block_mem).mp hj with rfl | hj
    · exact absurd (hi.dst r hr) (Nat.ne_of_lt (Nat.lt_of_lt_of_le hlt h.nextReg_le))
    · exact h.fresh j hj r hr hlt
  case edges =>
    intro id hlt hex b hb hid
    rcases hmem hb with ⟨hb, _⟩ | rfl
    · exact h.edges id hlt hex b hb hid
    · exact h.edges id hlt hex w.block w.block_mem hid
  case phis =>
    intro b hb hlt j hj hjphi
    rcases hmem hb with ⟨hb, _⟩ | rfl
    · exact h.phis b hb hlt j hj hjphi
    · refine h.phis w.block w.block_mem hlt j ((mem_append.mp hj).resolve_right ?_) hjphi
      intro hji
      rw [mem_singleton.mp hji] at hjphi
      exact Nat.not_le_of_lt hlt (hphi hjphi)
  case settled =>
    intro hN b hb hterm hid
    rcases hmem hb with ⟨hb, _⟩ | rfl
    · exact h.settled hN b hb hterm hid
    · exact absurd rfl hid

theorem push_le (w : Site H) (h : w.Accepts i) (hphi : i.isPhi = false) : w ≤ w.push i h :=
  .push (.refl w) h fun hi => by
    rw [hphi] at hi
    cases hi

theorem run_push (w : Site H) (h : w.Accepts i) (hdst : i.dst? = none) :
    Build.push i w.builder = ((), (w.push i h).builder) := by
  have hfn : w.fn.push w.block i = w.fn.setBlock (w.block.snoc i) := by
    rw [Function.push, Instr.writes, hdst]
    rfl
  rw [w.at_block.push h.isOpen i, ← hfn]
  congr 1
  change _ = ({ w.builder.setFn w.index (w.fn.push w.block i) with
    insert := some w.block.id } : Builder)
  rw [← w.insert_eq]
  rfl

theorem run_emit (w : Site H) (ty : Ty) (make : Reg → Instr) (hdst : ∀ r, (make r).dst? = some r)
    (h : w.Accepts (make w.fn.nextReg)) :
    Build.emit ty make w.builder = (.ofReg w.fn.nextReg ty, (w.push (make w.fn.nextReg) h).builder) := by
  rw [w.at_block.emit h.isOpen ty hdst]
  congr 1
  change _ = ({ w.builder.setFn w.index (w.fn.push w.block (make w.fn.nextReg)) with
    insert := some w.block.id } : Builder)
  rw [← w.insert_eq]
  rfl

/-! ### Terminators -/

theorem CanEnter.block (h : w.CanEnter id) : ∃ d ∈ w.fn.blocks, d.id = id := by
  obtain ⟨_, ⟨d, hd, hid, _⟩, _⟩ := h
  exact ⟨d, hd, hid⟩

theorem CanEnter.phiFree (h : w.CanEnter id) (hd : d ∈ w.fn.blocks) (hid : d.id = id) : d.PhiFree := by
  obtain ⟨_, ⟨b, hb, hbid, hfree⟩, _⟩ := h
  exact w.coherent.eq_of_id_eq hb hd (hbid.trans hid.symm) ▸ hfree

/-- A block can be ended by a terminator. -/
structure Ends (w : Site H) (t : Terminator) : Prop where
  isOpen : w.Open
  uses : ∀ v ∈ t.operands, w.Has v
  targets : ∀ id ∈ t.successors, w.CanEnter id
  typed : H → t.WellTyped w.fn.ret

def finish (w : Site H) (t : Terminator) (h : w.Ends t) : Site H :=
  w.replace (w.fn.finish w.block t) (w.block.close t) w.cert w.builder.log rfl rfl
    (Function.mem_setBlock.mpr (Or.inr ⟨rfl, w.block, w.block_mem, rfl⟩))
    (w.coherent.finish w.block_mem h.isOpen h.uses fun id hid =>
      ⟨(h.targets id hid).1, (h.targets id hid).block, fun r hr => ((h.targets id hid).2.2 r hr).2⟩)
    (w.labelled.setBlock w.coherent.ids_nodup w.block_mem rfl rfl)
    (w.merging.finish w.coherent.ids_nodup w.block_mem h.isOpen fun id hid _ hd hdid =>
      (h.targets id hid).phiFree hd hdid)
    fun hH => (w.typed hH).finish w.coherent.ids_nodup w.block_mem (h.typed hH)

theorem mem_finish (w : Site H) (h : w.Ends t) : b ∈ (w.finish t h).fn.blocks ↔
      b ∈ w.fn.blocks ∧ b.id ≠ w.block.id ∨ b = w.block.close t ∧ ∃ d ∈ w.fn.blocks, d.id = w.block.id :=
  Function.mem_setBlock

theorem finish_grows (w : Site H) (h : w.Ends t)
    (hexits : ∀ id ∈ t.successors, id < w.fn.nextBlock → e.exits id) : Grows e w (w.finish t h) := by
  constructor
  case out => exact fun _ hr => hr
  case quiet => exact fun _ name _ hnone => (w.replace_prototype? ..).trans hnone
  case frame => exact w.replace_frame ..
  case index_eq | name_eq | params_eq | ret_eq => rfl
  case nextReg_le | nextBlock_le => exact Nat.le_refl _
  case moved => exact .inl rfl
  case kept => exact fun b hb hid => (w.mem_finish h).mpr (.inl ⟨hb, hid⟩)
  case current =>
    refine ⟨w.block.close t, (w.finish t h).block_mem, rfl, prefix_rfl, fun ht => ?_⟩
    rw [Block.isTerminated, h.isOpen] at ht
    cases ht
  case old =>
    intro b hb _
    rcases (w.mem_finish h).mp hb with ⟨hb, _⟩ | ⟨rfl, _⟩
    · exact ⟨b, hb, rfl⟩
    · exact ⟨w.block, w.block_mem, rfl⟩
  case fresh =>
    intro i hi _ _ _
    exact (Function.finish_instrs w.coherent.ids_nodup w.block_mem t) ▸ hi
  case cert_eq => exact fun _ _ => rfl
  case edges =>
    intro id hlt hex b hb hid
    rcases (w.mem_finish h).mp hb with ⟨hb, _⟩ | ⟨rfl, _⟩
    · exact ⟨b, hb, rfl, hid⟩
    · exact absurd (hexits id hid hlt) hex
  case phis =>
    intro b hb _ i hi _
    rcases (w.mem_finish h).mp hb with ⟨hb, _⟩ | ⟨rfl, _⟩
    · exact ⟨b, hb, rfl, hi⟩
    · exact ⟨w.block, w.block_mem, rfl, hi⟩
  case settled =>
    intro _ b hb _ hid
    rcases (w.mem_finish h).mp hb with hb | ⟨rfl, _⟩
    · exact .inl hb
    · exact absurd rfl hid

theorem run_finish (w : Site H) (h : w.Ends t) : Build.terminate t w.builder = ((), (w.finish t h).builder) := by
  rw [w.at_block.terminate h.isOpen t]
  congr 1
  change _ = ({ w.builder.setFn w.index (w.fn.finish w.block t) with
    insert := some w.block.id } : Builder)
  rw [← w.insert_eq]
  rfl

/-! ### Blocks -/

def append (w : Site H) (label : String) (s : Reg → Prop) (hlabel : IsStem label) (log : Array LogLine) : Site H :=
  w.replace (w.fn.append (Builder.freshLabel w.fn label)) w.block (w.cert.extend w.fn.nextBlock s) log rfl rfl
    (Function.mem_append.mpr (Or.inl w.block_mem))
    (w.coherent.append _ s)
    (w.labelled.append w.coherent.id_lt hlabel)
    (w.merging.append _)
    fun hH => (w.typed hH).append _

section Append

variable (w : Site H) {label : String} {s : Reg → Prop} (hlabel : IsStem label) (log : Array LogLine)

theorem append_cert (hlt : id < w.fn.nextBlock) : (w.append label s hlabel log).cert id = w.cert id :=
  if_neg (Nat.ne_of_lt hlt)

theorem append_out (r : Reg) : (w.append label s hlabel log).Out r ↔ w.Out r := by
  have hcert := w.append_cert (s := s) hlabel log w.block_lt
  change r < w.fn.nextReg ∧ ((w.append label s hlabel log).cert w.block.id r ∨ w.block.Writes r) ↔ _
  rw [hcert]
  rfl

theorem append_pending : (w.append label s hlabel log).Pending w.fn.nextBlock s :=
  ⟨⟨_, Function.mem_append.mpr (.inr rfl)⟩, if_pos rfl, (Nat.ne_of_lt w.block_lt).symm,
    (Nat.ne_of_lt w.coherent.entry_lt).symm⟩

theorem append_grows (hpending : e.pending w.fn.nextBlock) : Grows e w (w.append label s hlabel log) where
  out := fun r hr => (w.append_out hlabel log r).mpr hr
  quiet := fun _ _ _ hnone => (w.replace_prototype? ..).trans hnone
  frame := w.replace_frame ..
  index_eq := rfl
  name_eq := rfl
  params_eq := rfl
  ret_eq := rfl
  nextReg_le := Nat.le_refl _
  nextBlock_le := Nat.le_succ _
  moved := .inl rfl
  kept := fun b hb _ => Function.mem_append.mpr (.inl hb)
  current := ⟨w.block, (w.append label s hlabel log).block_mem, rfl, prefix_rfl, fun _ => rfl⟩
  old := by
    intro b hb hlt
    rcases Function.mem_append.mp hb with hb | rfl
    · exact ⟨b, hb, rfl⟩
    · exact absurd hlt (Nat.lt_irrefl _)
  fresh := by
    intro i hi _ _ _
    change i ∈ (w.fn.append _).instrs at hi
    rwa [Function.append_instrs] at hi
  cert_eq := fun _ hlt => w.append_cert hlabel log hlt
  edges := by
    intro id _ _ b hb hid
    rcases Function.mem_append.mp hb with hb | rfl
    · exact ⟨b, hb, rfl, hid⟩
    · cases hid
  phis := by
    intro b hb _ i hi _
    rcases Function.mem_append.mp hb with hb | rfl
    · exact ⟨b, hb, rfl, hi⟩
    · cases hi
  settled := by
    intro _ b hb _ hid
    rcases Function.mem_append.mp hb with hb | rfl
    · exact .inl ⟨hb, hid⟩
    · exact .inr hpending

end Append

theorem run_append (w : Site H) {label : String} (s : Reg → Prop) (hlabel : IsStem label) :
    ∃ log, Build.appendBlock label w.builder = (w.fn.nextBlock, (w.append label s hlabel log).builder) := by
  obtain ⟨log, hrun⟩ := Builder.appendBlock_eq w.at_block.current_eq w.at_block.fn_eq label
  refine ⟨log, hrun.trans ?_⟩
  congr 1
  change _ = ({ w.builder.setFn w.index (w.fn.append (Builder.freshLabel w.fn label)) with
    insert := some w.block.id, log := log } : Builder)
  rw [← w.insert_eq]
  rfl

def moveTo (w : Site H) (d : Block) (hd : d ∈ w.fn.blocks) : Site H :=
  w.replace w.fn d w.cert w.builder.log rfl rfl hd w.coherent w.labelled w.merging w.typed

theorem run_moveTo (w : Site H) (hd : d ∈ w.fn.blocks) :
    Build.position d.id w.builder = ((), (w.moveTo d hd).builder) := by
  change ((), ({ w.builder with insert := some d.id } : Builder)) =
    ((), ({ w.builder.setFn w.index w.fn with insert := some d.id } : Builder))
  rw [Builder.setFn_self w.fn_eq]

theorem Grows.moveTo (h : Grows e w0 w) (hd : d ∈ w.fn.blocks)
    (hnew : w0.fn.nextBlock ≤ d.id) (hout : ∀ r, w0.Out r → w.cert d.id r)
    (hclosed : e.settles → w.block.isTerminated = true) (hpending : ∀ id, e.pending id → id = d.id ∨ pending id) :
    Grows { e with pending := pending } w0 (w.moveTo d hd) :=
  { h with
    frame := h.frame.trans (w.replace_frame ..)
    moved := .inr hnew
    out := fun r hr => ⟨(h.out r hr).1, .inl (hout r hr)⟩
    quiet := fun hq name hname hnone =>
      (w.replace_prototype? ..).trans (h.quiet hq name hname hnone)
    settled := by
      intro hN b hb hterm hid
      have hcur : b.id ≠ w.block.id := by
        intro heq
        rw [w.coherent.eq_of_id_eq hb w.block_mem heq, hclosed hN] at hterm
        cases hterm
      refine (h.settled hN b hb hterm hcur).imp_right fun hp => ?_
      exact (hpending b.id hp).resolve_left hid }

def toEnd (w : Site H) (d : Block) (hd : d ∈ w.fn.blocks) (hne : d.id ≠ 0) : Site H :=
  have hperm := Function.toEnd_perm w.coherent.ids_nodup hd
  w.replace (w.fn.toEnd d) w.block w.cert w.builder.log rfl rfl (hperm.mem_iff.mpr w.block_mem)
    (w.coherent.reorder hperm (Function.entry?_toEnd w.coherent.entry hne))
    (w.labelled.reorder hperm)
    (w.merging.reorder hperm)
    fun hH => (w.typed hH).reorder hperm

theorem mem_toEnd (w : Site H) (hd : d ∈ w.fn.blocks) (hne : d.id ≠ 0) :
    b ∈ (w.toEnd d hd hne).fn.blocks ↔ b ∈ w.fn.blocks :=
  (Function.toEnd_perm w.coherent.ids_nodup hd).mem_iff

theorem toEnd_grows (w : Site H) (hd : d ∈ w.fn.blocks) (hne : d.id ≠ 0) : Grows e w (w.toEnd d hd hne) := by
  have hmem : ∀ {b : Block}, b ∈ (w.toEnd d hd hne).fn.blocks ↔ b ∈ w.fn.blocks := w.mem_toEnd hd hne
  constructor
  case out => exact fun _ hr => hr
  case quiet =>
    exact fun _ name _ hnone =>
      (Builder.setFn_prototype? (f := w.fn.toEnd d) w.fn_eq rfl rfl name).trans hnone
  case frame => exact { Builder.setFn_frame (f := w.fn.toEnd d) w.current_eq w.fn_eq rfl rfl with }
  case index_eq | name_eq | params_eq | ret_eq => rfl
  case nextReg_le | nextBlock_le => exact Nat.le_refl _
  case moved => exact .inl rfl
  case kept => exact fun b hb _ => hmem.mpr hb
  case current => exact ⟨w.block, hmem.mpr w.block_mem, rfl, prefix_rfl, fun _ => rfl⟩
  case old => exact fun b hb _ => ⟨b, hmem.mp hb, rfl⟩
  case fresh =>
    intro i hi _ _ _
    obtain ⟨b, hb, hib⟩ := Function.mem_instrs.mp hi
    exact Function.mem_instrs.mpr ⟨b, hmem.mp hb, hib⟩
  case cert_eq => exact fun _ _ => rfl
  case edges => exact fun _ _ _ b hb hid => ⟨b, hmem.mp hb, rfl, hid⟩
  case phis => exact fun b hb _ _ hi _ => ⟨b, hmem.mp hb, rfl, hi⟩
  case settled => exact fun _ b hb _ hid => .inl ⟨hmem.mp hb, hid⟩

theorem run_toEnd (w : Site H) (hd : d ∈ w.fn.blocks) (hne : d.id ≠ 0) :
    Build.moveBlockToEnd d.id w.builder = ((), (w.toEnd d hd hne).builder) := by
  rw [w.at_block.moveBlockToEnd hd]
  congr 1
  change _ = ({ w.builder.setFn w.index (w.fn.toEnd d) with
    insert := some w.block.id } : Builder)
  rw [← w.insert_eq]
  rfl

/-- A block is empty, and nothing leads to it. -/
structure Droppable (w : Site H) (id : BlockId) : Prop where
  ne_entry : id ≠ 0
  ne_block : id ≠ w.block.id
  isEmpty : ∀ d ∈ w.fn.blocks, d.id = id → d.instrs = [] ∧ d.term = none
  unreached : ∀ d ∈ w.fn.blocks, id ∉ d.successors

def drop (w : Site H) (id : BlockId) (h : w.Droppable id) : Site H :=
  w.replace (w.fn.drop id) w.block w.cert w.builder.log rfl rfl (Function.mem_drop.mpr ⟨w.block_mem, h.ne_block.symm⟩)
    (w.coherent.drop h.ne_entry h.isEmpty h.unreached)
    (w.labelled.drop id)
    (w.merging.drop fun d hd hid => (h.isEmpty d hd hid).2)
    fun hH => (w.typed hH).drop fun d hd hid => (h.isEmpty d hd hid).1

theorem run_drop (w : Site H) (h : w.Droppable id) : Build.eraseBlock id w.builder = ((), (w.drop id h).builder) := by
  rw [w.at_block.eraseBlock h.ne_block]
  congr 1
  change _ = ({ w.builder.setFn w.index (w.fn.drop id) with
    insert := some w.block.id } : Builder)
  rw [← w.insert_eq]
  rfl

theorem Grows.drop (h : Grows e w0 w) (hid : w.Droppable id) (hnew : w0.fn.nextBlock ≤ id)
    (hpending : ∀ x, e.pending x → x = id ∨ pending x) : Grows { e with pending := pending } w0 (w.drop id hid) := by
  have hmem : ∀ {b : Block}, b ∈ (w.drop id hid).fn.blocks ↔ b ∈ w.fn.blocks ∧ b.id ≠ id :=
    Function.mem_drop
  have hne : ∀ {b : Block}, b ∈ w0.fn.blocks → b.id ≠ id := fun hb =>
    Nat.ne_of_lt (Nat.lt_of_lt_of_le (w0.coherent.id_lt _ hb) hnew)
  exact { h with
    frame := h.frame.trans (w.replace_frame ..)
    quiet := fun hq name hname hnone => (w.replace_prototype? ..).trans (h.quiet hq name hname hnone)
    kept := fun b hb hcur => hmem.mpr ⟨h.kept b hb hcur, hne hb⟩
    current := by
      obtain ⟨b, hb, hbid, hrest⟩ := h.current
      exact ⟨b, hmem.mpr ⟨hb, hbid ▸ hne w0.block_mem⟩, hbid, hrest⟩
    old := fun b hb => h.old b (hmem.mp hb).1
    fresh := by
      intro i hi
      obtain ⟨b, hb, hib⟩ := Function.mem_instrs.mp hi
      exact h.fresh i (Function.mem_instrs.mpr ⟨b, (hmem.mp hb).1, hib⟩)
    edges := fun x hlt hex b hb => h.edges x hlt hex b (hmem.mp hb).1
    phis := fun b hb => h.phis b (hmem.mp hb).1
    settled := by
      intro hN b hb hterm hcur
      refine (h.settled hN b (hmem.mp hb).1 hterm hcur).imp_right fun hp => ?_
      exact (hpending b.id hp).resolve_left (hmem.mp hb).2 }

/-! ### The rest of the module -/

def rebuild (w : Site H) (b : Builder) (hframe : w.builder.Frame b)
    (hfn : b.module.functions[w.index]? = some w.fn) (hinsert : b.insert = w.builder.insert)
    (hsound : H → b.module.Sound) : Site H :=
  { w with
    builder := b
    current_eq := hframe.current_eq.trans w.current_eq
    fn_eq := hfn
    insert_eq := hinsert.trans w.insert_eq
    sound := hsound
    typed := fun hH => (w.typed hH).mono hframe.structs_eq hframe.prototypes }

theorem rebuild_grows (w : Site H) {b : Builder} (hframe : w.builder.Frame b)
    (hfn : b.module.functions[w.index]? = some w.fn) (hinsert : b.insert = w.builder.insert)
    (hsound : H → b.module.Sound) (hquiet : e.quiet → ∀ name, (∀ p : Primitive, p.name ≠ name) →
      w.builder.module.prototype? name = none → b.module.prototype? name = none) :
    Grows e w (w.rebuild b hframe hfn hinsert hsound) :=
  { Grows.refl w with frame := hframe, quiet := hquiet }

end Site

end Aero.IR
