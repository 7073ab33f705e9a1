import Aero.Proofs.Machine
import Aero.Proofs.Region

/-!
Runs of emitted code. The code of a site is part of the finished function, so a run goes through the code of every site
on the way. An instruction that was added to a site runs when control is there, and leaves what was written before as it
was.
-/

namespace Aero.IR

variable {H : Prop} {t : Terminator} {id : BlockId} {b : Block}

namespace Site

variable {e : Effect} {w w' : Site H} {f : Function}

/-- A function has the finished blocks of a site and goes on from its current one. -/
def Embeds (w : Site H) (f : Function) : Prop :=
  ∀ b ∈ w.fn.blocks, b.isTerminated = true ∨ b.id = w.block.id →
    ∃ d, f.block? b.id = some d ∧ b.instrs <+: d.instrs ∧ (b.isTerminated = true → d = b)

theorem embeds_self (w : Site H) : w.Embeds w.fn := fun b hb _ =>
  ⟨b, Function.block?_eq_some w.coherent.ids_nodup hb, List.prefix_rfl, fun _ => rfl⟩

section

variable (h : w'.Embeds f)
include h

theorem Embeds.of_grows (hgrows : Grows e w w') (hsettles : e.settles)
    (hpending : ¬ e.pending w.block.id) : w.Embeds f := by
  intro b hb hdone
  by_cases hcur : b.id = w.block.id
  · have hbeq : b = w.block := w.coherent.eq_of_id_eq hb w.block_mem hcur
    subst hbeq
    obtain ⟨d, hd, hdid, hinstrs, hterm⟩ := hgrows.current
    -- The current block of the earlier site is finished by now, or it still is the current one.
    have hdone' : d.isTerminated = true ∨ d.id = w'.block.id := by
      by_contra hnot
      obtain ⟨hopen, hne⟩ := not_or.mp hnot
      rcases hgrows.settled hsettles d hd (Bool.eq_false_iff.mpr hopen) hne with ⟨_, hne'⟩ | hp
      · exact hne' hdid
      · exact hpending (hdid ▸ hp)
    obtain ⟨c, hc, hcinstrs, hcterm⟩ := h d hd hdone'
    refine ⟨c, hdid ▸ hc, hinstrs.trans hcinstrs, fun ht => ?_⟩
    have heq := hterm ht
    exact (hcterm (heq ▸ ht)).trans heq
  · exact h b (hgrows.kept b hb hcur) (.inl (hdone.resolve_right hcur))

theorem Embeds.of_le (hle : w ≤ w') : w.Embeds f :=
  .of_grows h hle trivial fun h => h

theorem Embeds.of_movedTo {s : Reg → Prop}
    (hmoved : w.MovedTo id s w') (hclosed : w.block.isTerminated = true) : w.Embeds f := by
  intro b hb hdone
  have hterm : b.isTerminated = true := hdone.elim (fun h => h) fun hid => by
    rw [w.coherent.eq_of_id_eq hb w.block_mem hid]
    exact hclosed
  exact h b (hmoved.fn_eq ▸ hb) (.inl hterm)

theorem Embeds.of_finished (hfin : w.Finished t w') : w.Embeds f :=
  h.of_grows (hfin.grows ⟨True, True, fun _ => True, fun _ => False⟩ fun _ _ _ => trivial) trivial fun h => h

theorem Embeds.of_dropped (hdropped : w.Dropped id w') : w.Embeds f :=
  fun b hb hdone => h b (hdropped.kept b hb hdone) (hdropped.block_eq ▸ hdone)

theorem Embeds.of_eq (hfn : w'.fn = w.fn) (hblock : w'.block = w.block) : w.Embeds f :=
  fun b hb hdone => h b (hfn ▸ hb) (hblock ▸ hdone)

end

theorem Embeds.closed (h : w.Embeds f) (hb : b.close t ∈ w.fn.blocks) : f.block? b.id = some (b.close t) := by
  obtain ⟨d, hd, _, heq⟩ := h _ hb (.inl rfl)
  exact heq rfl ▸ hd

theorem Embeds.current (h : w.Embeds f) : ∃ d, f.block? w.block.id = some d ∧ w.block.instrs <+: d.instrs := by
  obtain ⟨d, hd, hinstrs, _⟩ := h w.block w.block_mem (.inr rfl)
  exact ⟨d, hd, hinstrs⟩

end Site

variable {P : Platform}

/-- A run is where code is added next. -/
structure Point.At (c : Point P) (w : Site H) : Prop where
  block_eq : c.block = w.block.id
  done_eq : c.done = w.block.instrs.length

namespace Function

variable {f : Function} {c d e : Point P}

theorem Goes.refl (c : Point P) : f.Goes c c := Relation.ReflTransGen.refl

theorem Goes.trans (h : f.Goes c d) (h' : f.Goes d e) : f.Goes c e :=
  Relation.ReflTransGen.trans h h'

theorem Goes.one (h : f.Step c d) : f.Goes c d := .single h

theorem Goes.ends {value : Option Datum} (h : f.Goes c d) (hd : f.Ends d value) : f.Ends c value := by
  obtain ⟨e, hgoes, hret⟩ := hd
  exact ⟨e, h.trans hgoes, hret⟩

theorem step?_closed (hblock : f.block? b.id = some (b.close t))
    (hc : c.block = b.id) (hdone : c.done = b.instrs.length) : f.step? c = t.exec? c := by
  have hnone : (b.close t).instrs[c.done]? = none := by
    rw [hdone]
    exact List.getElem?_eq_none (Nat.le_refl _)
  rw [step?, hc, hblock, Option.bind_some, Block.step?, hnone]
  rfl

end Function

end Aero.IR

/-! ### Instructions -/

open BitVec hiding cast_eq

namespace Aero.IR

open Option

variable {d x : Datum} {v : Value} {H : Prop} {P : Platform} {folded : Option Value} {ok' : Instr → Prop}
  {pred : IntPredicate} {memory : P.Memory} {op : BinaryOp} {b b' : Builder} {ty : Ty} {make : Reg → Instr}
  {g : Bool → Bool → Bool} {c : Point P} {bits n : Nat} {i : Instr} {f : Function} {w : Site H} {z : Word}

/-! ### Parts of runs -/

theorem Point.read?_eq {d : Point P} (hv : v.Within (· < n))
    (hregs : ∀ r, r < n → d.regs r = c.regs r) : d.read? v = c.read? v := by
  rcases v with ⟨kind, ty⟩
  cases kind with
  | reg r => exact hregs r (hv r rfl)
  | _ => rfl

namespace Function

/-- One step of a run, which may only be an instruction of some kind or a terminator. -/
def StepBy (f : Function) (ok : Instr → Prop) (c d : Point P) : Prop :=
  f.Step c d ∧ ∀ b, f.block? c.block = some b → ∀ i, b.instrs[c.done]? = some i → ok i

/-- A part of a run that goes through instructions of some kind and leaves the first registers as they
are. -/
structure Runs (f : Function) (ok : Instr → Prop) (n : Nat) (c d : Point P) : Prop where
  path : Relation.ReflTransGen (f.StepBy ok) c d
  regs_eq : ∀ r, r < n → d.regs r = c.regs r

namespace Runs

variable {ok : Instr → Prop} {m : Nat} {d e : Point P}

theorem refl (c : Point P) : f.Runs ok n c c := ⟨.refl, fun _ _ => rfl⟩

section

variable (h : f.Runs ok n c d)
include h

theorem trans (h' : f.Runs ok n d e) : f.Runs ok n c e :=
  ⟨h.path.trans h'.path, fun r hr => (h'.regs_eq r hr).trans (h.regs_eq r hr)⟩

theorem mono (hle : m ≤ n) : f.Runs ok m c d :=
  ⟨h.path, fun r hr => h.regs_eq r (Nat.lt_of_lt_of_le hr hle)⟩

theorem goes : f.Goes c d :=
  .mono (fun _ _ hstep => hstep.1) _ _ h.path

theorem weaken (hok : ∀ i, ok i → ok' i) : f.Runs ok' n c d :=
  ⟨.mono (fun _ _ hstep => ⟨hstep.1, fun b hb i hi => hok i (hstep.2 b hb i hi)⟩) _ _ h.path, h.regs_eq⟩

theorem read?_eq (hv : v.Within (· < n)) : d.read? v = c.read? v :=
  Point.read?_eq hv h.regs_eq

theorem int?_eq (hv : v.Within (· < n)) : d.int? v = c.int? v := by
  rw [Point.int?, Point.int?, h.read?_eq hv]

end

theorem jump (ok : Instr → Prop) (n : Nat) {b : Block} {t : Terminator} {target : BlockId}
    (hblock : f.block? b.id = some (b.close t)) (hc : c.block = b.id)
    (hdone : c.done = b.instrs.length) (hexec : t.exec? c = some (.running (c.jump target))) :
    f.Runs ok n c (c.jump target) := by
  refine ⟨.single ⟨(step?_closed hblock hc hdone).trans hexec, ?_⟩, fun _ _ => rfl⟩
  intro d hd i hi
  rw [hc, hblock] at hd
  cases hd
  obtain ⟨hlt, _⟩ := List.getElem?_eq_some_iff.mp hi
  exact absurd hlt (Nat.not_lt_of_le (Nat.le_of_eq hdone.symm))

end Runs

/-- A part of a run that leaves memory as it is, too. -/
structure Keeps (f : Function) (ok : Instr → Prop) (n : Nat) (c d : Point P) : Prop where
  runs : f.Runs ok n c d
  memory_eq : d.memory = c.memory

namespace Keeps

variable {ok : Instr → Prop} {m : Nat} {d e : Point P}

theorem refl (c : Point P) : f.Keeps ok n c c := ⟨.refl c, rfl⟩

variable (h : f.Keeps ok n c d)
include h

theorem trans (h' : f.Keeps ok n d e) : f.Keeps ok n c e :=
  ⟨h.runs.trans h'.runs, h'.memory_eq.trans h.memory_eq⟩

theorem mono (hle : m ≤ n) : f.Keeps ok m c d := ⟨h.runs.mono hle, h.memory_eq⟩

theorem weaken (hok : ∀ i, ok i → ok' i) : f.Keeps ok' n c d :=
  ⟨h.runs.weaken hok, h.memory_eq⟩

end Keeps

end Function

theorem Function.stepBy_instr {ok : Instr → Prop} {d : Point P} (hf : w.Embeds f) (hid : w.block.id = c.block)
    (hinstr : w.block.instrs[c.done]? = some i) (hok : ok i) (hexec : i.exec? c = some d) : f.StepBy ok c d := by
  obtain ⟨b, hb, rest, hinstrs⟩ := hf.current
  have hi : b.instrs[c.done]? = some i := by
    obtain ⟨hlt, _⟩ := List.getElem?_eq_some_iff.mp hinstr
    rw [← hinstrs, List.getElem?_append_left hlt, hinstr]
  rw [hid] at hb
  refine ⟨?_, fun b' hb' j hj => ?_⟩
  · rw [Step, step?, hb, bind_some, Block.step?, hi]
    exact congrArg (Option.map Status.running) hexec
  · rw [hb] at hb'
    cases hb'
    rw [hi] at hj
    exact some.inj hj ▸ hok

theorem Site.Has.within (h : w.Has v) : v.Within (· < w.fn.nextReg) :=
  .mono h fun _ hr => hr.1

/-! ### Emitted instructions -/

theorem Builder.At.unique {i i' : Nat} {f' : Function} {d d' : Block} (h : b.At i f d)
    (h' : b.At i' f' d') : f' = f ∧ d' = d := by
  have hi : i' = i := some.inj (h'.current_eq.symm.trans h.current_eq)
  subst hi
  have hf : f' = f := some.inj (h'.fn_eq.symm.trans h.fn_eq)
  subst hf
  have hid : d'.id = d.id := some.inj (h'.insert_eq.symm.trans h.insert_eq)
  exact ⟨rfl, List.inj_on_of_nodup_map h.ids_nodup h'.block_mem h.block_mem hid⟩

namespace Site

variable {w' : Site H}

theorem eq_of_builder_eq (h : w'.builder = w.builder) : w'.fn = w.fn ∧ w'.block = w.block :=
  w.at_block.unique (h ▸ w'.at_block)

/-- One instruction was added. -/
structure Emitted (w : Site H) (i : Instr) (w' : Site H) : Prop where
  block_eq : w'.block = w.block.snoc i
  nextReg_eq : w'.fn.nextReg = w.fn.nextReg + i.writes

theorem emitted_of_setFn (h : w'.builder = w.builder.setFn w.index (w.fn.push w.block i)) : w.Emitted i w' := by
  have hnodup : ((w.fn.push w.block i).blocks.map Block.id).Nodup :=
    (Function.setBlock_ids).symm ▸ w.coherent.ids_nodup
  have hmem : w.block.snoc i ∈ (w.fn.push w.block i).blocks :=
    Coherent.mem_push.mpr (.inr ⟨rfl, w.block, w.block_mem, rfl⟩)
  have hat : w'.builder.At w.index (w.fn.push w.block i) (w.block.snoc i) := by
    rw [h]
    exact ⟨w.current_eq, List.getElem?_set_self (List.getElem?_eq_some_iff.mp w.fn_eq).1, w.insert_eq, hnodup, hmem⟩
  obtain ⟨hfn, hblock⟩ := hat.unique w'.at_block
  exact ⟨hblock, hfn ▸ rfl⟩

theorem emitted_of_emit (hopen : w.Open) (hdst : ∀ r, (make r).dst? = some r)
    (hrun : Build.emit ty make w.builder = (v, w'.builder)) :
    v = .ofReg w.fn.nextReg ty ∧ w.Emitted (make w.fn.nextReg) w' := by
  rw [w.at_block.emit hopen ty hdst] at hrun
  obtain ⟨hv, hbuilder⟩ := Prod.mk.inj hrun
  exact ⟨hv.symm, emitted_of_setFn hbuilder.symm⟩

theorem emitted_of_push (hopen : w.Open) (hdst : i.dst? = none)
    (hrun : Build.push i w.builder = ((), w'.builder)) : w.Emitted i w' := by
  have hfn : w.fn.push w.block i = w.fn.setBlock (w.block.snoc i) := by
    rw [Function.push, Instr.writes, hdst]
    rfl
  rw [w.at_block.push hopen i, ← hfn] at hrun
  exact emitted_of_setFn (Prod.mk.inj hrun).2.symm

end Site

/-- An instruction other than a phi reads its operands where it stands. -/
theorem Instr.exec?_eq (hphi : i.isPhi = false) (c : Point P) : i.exec? c = (i.perform? c).bind fun p =>
      ({ c with memory := p.2 }.write? i.dst? p.1).map Point.next := by
  cases i with
  | phi => cases hphi
  | _ => rfl

namespace Site.Emitted

variable {w' : Site H} {ok : Instr → Prop} {d : Point P}

variable (h : w.Emitted i w')
include h

theorem stepBy (hf : w'.Embeds f) (hc : c.At w) (hok : ok i) (hexec : i.exec? c = some d) : f.StepBy ok c d := by
  have hinstr : w'.block.instrs[c.done]? = some i := by
    rw [h.block_eq, hc.done_eq]
    exact List.getElem?_concat_length
  have hid : w'.block.id = c.block := by
    rw [h.block_eq, hc.block_eq]
    rfl
  exact Function.stepBy_instr hf hid hinstr hok hexec

theorem at_next (hc : c.At w) (hblock : d.block = c.block) (hdone : d.done = c.done + 1) : d.At w' := by
  refine ⟨?_, ?_⟩
  · rw [hblock, hc.block_eq, h.block_eq]
    rfl
  · rw [hdone, hc.done_eq, h.block_eq]
    simp [Block.snoc]

theorem runs_result (hf : w'.Embeds f) (hc : c.At w) (hok : ok i)
    (hphi : i.isPhi = false) (hdst : i.dst? = some w.fn.nextReg) (hperform : i.perform? c = some (some x, memory)) :
    ∃ d, f.Runs ok w.fn.nextReg c d ∧ d.At w' ∧ d.memory = memory ∧ d.regs w.fn.nextReg = some x := by
  have hexec : i.exec? c = some ({ c with memory := memory }.set w.fn.nextReg x).next := by
    rw [i.exec?_eq hphi, hperform, hdst]
    rfl
  refine ⟨_, ⟨.single (h.stepBy hf hc hok hexec), fun r hr => ?_⟩, h.at_next hc rfl rfl, rfl, ?_⟩
  · exact if_neg (Nat.ne_of_lt hr)
  · exact if_pos rfl

theorem runs_effect (hf : w'.Embeds f) (hc : c.At w) (hok : ok i)
    (hphi : i.isPhi = false) (hdst : i.dst? = none) {x : Option Datum} (hperform : i.perform? c = some (x, memory)) :
    ∃ d, f.Runs ok w.fn.nextReg c d ∧ d.At w' ∧ d.memory = memory := by
  have hexec : i.exec? c = some { c with memory := memory }.next := by
    rw [i.exec?_eq hphi, hperform, hdst]
    rfl
  exact ⟨_, ⟨.single (h.stepBy hf hc hok hexec), fun _ _ => rfl⟩, h.at_next hc rfl rfl, rfl⟩

end Site.Emitted

theorem Build.foldOr_runs (ok : Instr → Prop) {w' : Site H} (hrun : foldOr folded ty make w.builder = (v, w'.builder))
    (hopen : w.Open) (hf : w'.Embeds f) (hc : c.At w) (hdst : ∀ r, (make r).dst? = some r)
    (hphi : ∀ r, (make r).isPhi = false) (hok : ∀ r, ok (make r)) (hfold : ∀ u, folded = some u → c.read? u = some x)
    (hperform : ∀ r, (make r).perform? c = some (some x, c.memory)) :
    ∃ d, f.Keeps ok w.fn.nextReg c d ∧ d.At w' ∧ d.read? v = some x := by
  cases folded with
  | some u =>
    obtain ⟨rfl, hbuilder⟩ := Prod.mk.inj hrun
    obtain ⟨_, hblock⟩ := Site.eq_of_builder_eq hbuilder.symm
    refine ⟨c, .refl c, ⟨?_, ?_⟩, hfold u rfl⟩
    · rw [hblock, hc.block_eq]
    · rw [hblock, hc.done_eq]
  | none =>
    obtain ⟨rfl, hemitted⟩ := Site.emitted_of_emit hopen hdst hrun
    obtain ⟨d, hruns, hd, hmemory, hread⟩ :=
      hemitted.runs_result hf hc (hok _) (hphi _) (hdst _) (hperform _)
    exact ⟨d, ⟨hruns, hmemory⟩, hd, hread⟩

/-! ### Operations on numbers -/

theorem Point.int?_eq_some {x : Word} : c.int? v = some x ↔ c.read? v = some (.int x) := by
  rw [int?]
  cases c.read? v with
  | none => simp
  | some d => cases d <;> simp

theorem Instr.perform?_of_compute? (args : List Datum)
    (hargs : i.operands.mapM c.read? = some args) (hd : i.compute? args = some d) :
    i.perform? c = some (some d, c.memory) := by
  rw [perform?, hargs]
  simp [hd]

section Operands

variable {lhs rhs : Value} {x y : Word}

theorem mapM_pair (hl : c.int? lhs = some x) (hr : c.int? rhs = some y) :
    [lhs, rhs].mapM c.read? = some [.int x, .int y] := by
  simp [Point.int?_eq_some.mp hl, Point.int?_eq_some.mp hr]

theorem Instr.perform?_binary (r : Reg) (hl : c.int? lhs = some x)
    (hr : c.int? rhs = some y) (hop : op.onWords? x y = some z) :
    (Instr.binary r op lhs rhs).perform? c = some (some (.int z), c.memory) :=
  perform?_of_compute? _ (mapM_pair hl hr) (by simp [compute?, hop])

theorem Instr.perform?_icmp (r : Reg) {b : Bool} (hl : c.int? lhs = some x)
    (hr : c.int? rhs = some y) (hpred : pred.onWords? x y = some b) :
    (Instr.icmp r pred lhs rhs).perform? c = some (some (.int (.ofBool b)), c.memory) :=
  perform?_of_compute? _ (mapM_pair hl hr) (by simp [compute?, hpred])

theorem Instr.perform?_cast (r : Reg) {op : CastOp} {value : Value} {target : Ty}
    (hvalue : c.int? value = some x) (hop : op.onWord? x target = some d) :
    (Instr.cast r op value target).perform? c = some (some d, c.memory) :=
  perform?_of_compute? [.int x] (by simp [operands, Point.int?_eq_some.mp hvalue]) (by simp [compute?, hop])

end Operands

/-! ### Constants -/

/-- The number that a constant stands for at a width. -/
theorem Word.ofInt_toInt (n : Int64) (hbits : bits ≤ 64) :
    Word.ofInt bits n.toInt = ⟨bits, n.toBitVec.setWidth bits⟩ := by
  have hsign : BitVec.ofInt bits n.toInt = n.toBitVec.signExtend bits := rfl
  rw [Word.ofInt, hsign, signExtend_eq_setWidth_of_le _ hbits]

theorem setWidth_signExtend {x : BitVec bits} (hbits : bits ≤ 64) : (x.signExtend 64).setWidth bits = x := by
  apply eq_of_getLsbD_eq
  intro i hi
  have hi' : i < 64 := by omega
  rw [getLsbD_setWidth, getLsbD_signExtend]
  simp [hi, hi']

/-- A word that was cut to a width has the same bits there. -/
theorem normalize_setWidth (v : Int64) (hpos : 0 < bits) (hbits : bits ≤ 64) :
    (normalize v bits).toBitVec.setWidth bits = v.toBitVec.setWidth bits := by
  by_cases hone : bits = 1
  · subst hone
    rw [normalize_one_toBitVec, setWidth_setWidth_of_le _ hbits, setWidth_eq]
  · rw [normalize_toBitVec v (by omega)]
    exact setWidth_signExtend hbits

section Constants

variable (hpos : 0 < bits) (hbits : bits ≤ 64)

include hpos hbits

theorem Point.int?_ofInt (v : Int64) : c.int? (.ofInt (.int bits) v) = some ⟨bits, v.toBitVec.setWidth bits⟩ := by
  rw [int?_eq_some]
  change some (Datum.int (.ofInt bits (normalize v bits).toInt)) = _
  rw [Word.ofInt_toInt _ hbits, normalize_setWidth v hpos hbits]

omit hpos in
theorem Point.int?_const {n : Int64} (hv : v.int? = some n) (hty : v.ty = .int bits) :
    c.int? v = some ⟨bits, n.toBitVec.setWidth bits⟩ := by
  rcases v with ⟨kind, ty⟩
  subst hty
  cases kind with
  | int m =>
    cases hv
    rw [int?_eq_some]
    change some (Datum.int (.ofInt bits n.toInt)) = _
    rw [Word.ofInt_toInt _ hbits]
  | _ => cases hv

/-- An operation on constants is folded to what it yields on their numbers, if it does the same with
the words that hold them. -/
theorem foldBinary?_runs {lhs rhs u : Value} (hop : op.isFloating = false)
    (hfold : foldBinary? op lhs rhs = some u) (hlhs : lhs.ty = .int bits)
    (hagrees : ∀ a b r, lhs.int? = some a → rhs.int? = some b → op.onInts? bits a b = some r →
      z = ⟨bits, r.toBitVec.setWidth bits⟩) : c.read? u = some (.int z) := by
  simp only [foldBinary?, hop, hlhs, Ty.width?, Bool.false_eq_true, if_false, bind_eq_bind,
    bind_some, bind_eq_some_iff] at hfold
  obtain ⟨a, ha, b, hb, r, hr, hu⟩ := hfold
  cases hu
  rw [hagrees a b r ha hb hr]
  exact Point.int?_eq_some.mp (c.int?_ofInt hpos hbits r)

end Constants

/-! ### Truth values -/

namespace Build

variable {w' : Site H} {l r : Value}

def onBools? : BinaryOp → Option (Bool → Bool → Bool)
  | .and => some (· && ·)
  | .or => some (· || ·)
  | .xor => some (· ^^ ·)
  | _ => none

theorem onWords?_ofBool (hop : onBools? op = some g) (a b : Bool) :
    op.onWords? (.ofBool a) (.ofBool b) = some (.ofBool (g a b)) := by
  cases op <;> cases hop <;> cases a <;> cases b <;> rfl

theorem setWidth_onInts? (hop : onBools? op = some g) {m n k : Int64} (hk : op.onInts? 1 m n = some k) :
    op.onBits? (m.toBitVec.setWidth 1) (n.toBitVec.setWidth 1) = some (k.toBitVec.setWidth 1) := by
  cases op <;> cases hop <;> cases hk
  · exact congrArg some setWidth_and.symm
  · exact congrArg some setWidth_or.symm
  · exact congrArg some setWidth_xor.symm

theorem binary_runs (ok : Instr → Prop) {a b : Bool} (hrun : binary op l r w.builder = (v, w'.builder))
    (hopen : w.Open) (hf : w'.Embeds f) (hc : c.At w) (hok : ∀ dst, ok (.binary dst op l r))
    (hop : onBools? op = some g) (hlty : l.ty = .i1) (hrty : r.ty = .i1)
    (hl : c.int? l = some (.ofBool a)) (hr : c.int? r = some (.ofBool b)) :
    ∃ d, f.Keeps ok w.fn.nextReg c d ∧ d.At w' ∧ d.int? v = some (.ofBool (g a b)) := by
  have hwords := onWords?_ofBool hop a b
  simp only [Point.int?_eq_some]
  refine foldOr_runs ok hrun hopen hf hc (fun _ => rfl) (fun _ => rfl) hok ?_ fun dst =>
    Instr.perform?_binary dst hl hr hwords
  intro u hu
  refine foldBinary?_runs Nat.one_pos (by decide) ?_ hu hlty ?_
  · cases op <;> first | rfl | cases hop
  · intro m n k hm hn hk
    rw [c.int?_const (by decide) hm hlty] at hl
    rw [c.int?_const (by decide) hn hrty] at hr
    have hbits := setWidth_onInts? hop hk
    rw [← some.inj hl, ← some.inj hr] at hwords
    simp only [BinaryOp.onWords?, BitVec.cast_eq, hbits] at hwords
    exact (some.inj hwords).symm

theorem not_runs (ok : Instr → Prop) {a : Bool} (hrun : not l w.builder = (v, w'.builder)) (hopen : w.Open)
    (hf : w'.Embeds f) (hc : c.At w) (hok : ∀ dst r, ok (.binary dst .xor l r)) (hty : l.ty = .i1)
    (hl : c.int? l = some (.ofBool a)) :
    ∃ d, f.Keeps ok w.fn.nextReg c d ∧ d.At w' ∧ d.int? v = some (.ofBool (!a)) := by
  have hones : c.int? (.ofInt l.ty (-1)) = some (.ofBool true) := by
    rw [hty]
    rfl
  rw [← Bool.xor_true a]
  exact binary_runs ok hrun hopen hf hc (fun dst => hok dst _) rfl hty hty hl hones

theorem foldOr_ty (hrun : foldOr folded ty make b = (v, b'))
    (hfold : ∀ u, folded = some u → u.ty = ty) : v.ty = ty := by
  cases folded with
  | some u =>
    cases hrun
    exact hfold _ rfl
  | none =>
    obtain ⟨hv, _⟩ := Prod.mk.inj hrun
    rw [← hv]
    rfl

theorem binary_ty (hop : op.isFloating = false) (hrun : binary op l r b = (v, b')) : v.ty = l.ty := by
  refine foldOr_ty hrun fun u hu => ?_
  simp only [foldBinary?, hop, Bool.false_eq_true, if_false, bind_eq_bind, bind_eq_some_iff] at hu
  obtain ⟨_, _, _, _, _, _, _, _, hu⟩ := hu
  cases hu
  rfl

theorem icmp_ty (hrun : icmp pred l r b = (v, b')) : v.ty = .i1 := by
  refine foldOr_ty hrun fun u hu => ?_
  simp only [foldIcmp?, bind_eq_bind, bind_eq_some_iff] at hu
  obtain ⟨_, _, _, _, hu⟩ := hu
  cases hu
  rfl

theorem fcmp_ty {pred : FloatPredicate} (hrun : fcmp pred l r b = (v, b')) : v.ty = .i1 := by
  refine foldOr_ty hrun fun u hu => ?_
  simp only [foldFcmp?, bind_eq_bind, bind_eq_some_iff] at hu
  obtain ⟨_, _, _, _, hu⟩ := hu
  cases hu
  rfl

end Build

end Aero.IR
