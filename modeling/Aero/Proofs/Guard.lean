import Aero.Proofs.Expression

/-!
Guards. The right side of a connective has a block of its own, and both ways meet in a block that
knows which one was taken.
-/

namespace Aero

open List

variable {d : IR.Block} {set : IR.Reg → Prop} {id : IR.BlockId} {e : IR.Site.Effect} {l : IR.Value}

namespace IR

open Site

variable {H : Prop} {w : Site H}

def Site.Comes (w : Site H) (v : Value) (d : Block) : Prop :=
  d ∈ w.fn.blocks ∧ w.block.id ∈ d.successors ∧ v.Within fun r => r < w.fn.nextReg ∧ w.cert.Out d r

theorem Site.Comes.moved {w' : Site H} {v : Value}
    (hmoved : w.MovedTo id set w') (hd : d ∈ w.fn.blocks) (hedge : id ∈ d.successors)
    (hv : v.Within fun r => r < w.fn.nextReg ∧ w.cert.Out d r) : w'.Comes v d := by
  rw [Comes, hmoved.fn_eq, hmoved.cert_eq, hmoved.block_id]
  exact ⟨hd, hedge, hv⟩

/-- A truth value from one of two blocks is at hand in the block where they meet. -/
structure Site.Merged (w : Site H) (incoming : List (Value × BlockId)) (v : Value) (w' : Site H) :
    Prop where
  value_eq : v = .ofReg w.fn.nextReg .i1
  isOpen : w'.Open
  block_eq : w'.block = w.block.snoc (.phi w.fn.nextReg .i1 incoming)
  val : w'.Val v .i1
  frame : w.builder.Frame w'.builder
  prototype?_eq : ∀ name, w'.builder.module.prototype? name = w.builder.module.prototype? name
  kept : ∀ b ∈ w.fn.blocks, b.id ≠ w.block.id → b ∈ w'.fn.blocks
  grows : ∀ (e : Effect) (w0 : Site H), Grows e w0 w → w0.fn.nextBlock ≤ w.block.id → Grows e w0 w'
  embeds : ∀ f : Function, w'.Embeds f → w.Embeds f

theorem Build.reaches_phi (incoming : List (Value × BlockId)) (hopen : w.Open) (hempty : w.block.instrs = [])
    (hincoming : ∀ p ∈ incoming, ∃ d, d.id = p.2 ∧ w.Comes p.1 d)
    (hnodup : (incoming.map Prod.snd).Nodup) (hentered : w.Entered w.block.id (incoming.map Prod.snd))
    (hty : H → ∀ p ∈ incoming, p.1.ty = .i1) : Reaches (phi .i1 incoming) w fun v w' => w.Merged incoming v w' := by
  have hsources : ∀ id, id ∈ incoming.map Prod.snd ↔ w.block.id ∈ w.fn.successors id := by
    intro id
    rw [Function.mem_successors]
    constructor
    · intro hid
      obtain ⟨p, hp, rfl⟩ := mem_map.mp hid
      obtain ⟨d, hdid, hd, hedge, _⟩ := hincoming p hp
      exact ⟨d, hd, hdid, hedge⟩
    · rintro ⟨d, hd, rfl, hedge⟩
      exact hentered d hd hedge
  have haccepts : w.Accepts (.phi w.fn.nextReg .i1 incoming) :=
    { isOpen := hopen
      dst := fun _ hr => (Option.some.inj hr).symm
      uses := nofun
      phis := by
        intro p hp
        obtain ⟨d, hid, hd, hedge, hwithin⟩ := hincoming p hp
        exact ⟨d, hd, hid, hedge, hwithin⟩
      merges := fun _ => ⟨hempty, hnodup, hsources⟩
      typed := fun hH => ⟨rfl, hty hH⟩
      stores := nofun }
  refine ⟨_, w.push _ haccepts, w.run_emit .i1 (fun r => .phi r .i1 incoming) (fun _ => rfl) haccepts,
    rfl, w.push_isOpen haccepts, rfl, ⟨?_, fun _ => rfl⟩, w.replace_frame ..,
    fun _ => w.replace_prototype? .., fun b hb hne => Coherent.mem_push.mpr (.inl ⟨hb, hne⟩), ?_, ?_⟩
  · intro r hr
    exact Option.some.inj hr ▸ w.push_writes haccepts rfl
  · exact fun e w0 hgrows hnew => hgrows.push haccepts fun _ => hnew
  · intro f h b hb hdone
    by_cases hcur : b.id = w.block.id
    · rw [w.coherent.eq_of_id_eq hb w.block_mem hcur]
      obtain ⟨d, hd, hinstrs⟩ := h.current
      refine ⟨d, hd, (prefix_append _ _).trans hinstrs, fun ht => ?_⟩
      rw [Block.isTerminated, hopen] at ht
      cases ht
    · exact h b (Coherent.mem_push.mpr (.inl ⟨hb, hcur⟩)) (.inl (hdone.resolve_right hcur))

end IR

namespace Lowering

open IR IR.Build IR.Site

variable {H : Prop} {env : Env} {s : State} {w w' w0 : Site H} {past rhs : BlockId}

theorem lowers_currentBlock : Lowers env currentBlock s w fun id w' => w = w' ∧ id = w.block.id := by
  refine .state_bind fun hbody => ?_
  rw [hbody.builder_eq, w.insert_eq]
  exact .pure ⟨rfl, rfl⟩

/-- A block is finished and control has left it. -/
def Past (w : Site H) (d : Block) : Prop := d ∈ w.fn.blocks ∧ d.id ≠ w.block.id

theorem Past.mono (h : Past w d) (hgrows : Grows e w w') : Past w' d :=
  ⟨hgrows.kept d h.1 h.2, hgrows.ne_block (w.coherent.id_lt d h.1) h.2⟩

theorem Past.moved (hd : d ∈ w.fn.blocks) (hne : d.id ≠ id) (hmoved : w.MovedTo id set w') : Past w' d :=
  ⟨hmoved.fn_eq ▸ hd, hmoved.block_id ▸ hne⟩

namespace Connective

theorem isStem_rhsLabel (op : Connective) : IsStem op.rhsLabel := by
  cases op <;> exact isStem_of_getLast rfl rfl

theorem isStem_endLabel (op : Connective) : IsStem op.endLabel := by
  cases op <;> exact isStem_of_getLast rfl rfl

def terminator (op : Connective) (l : Value) (rhs past : BlockId) : Terminator :=
  match op with
  | and => .condBr l rhs past
  | or => .condBr l past rhs

theorem past_mem_successors (op : Connective) : past ∈ (op.terminator l rhs past).successors := by
  cases op with
  | and => exact mem_cons_of_mem _ mem_cons_self
  | or => exact mem_cons_self

theorem steps_branch {s0 : State} (op : Connective) {blocks todo : List BlockId} {E : State → Prop}
    (hregion : Region e s0 w0 blocks todo s w) (hl : w.Val l .i1) (hrhs : rhs ∈ blocks) (hpast : past ∈ blocks) :
    Steps env (liftM (op.branch l rhs past)) s w E fun _ s' w' =>
      Region e s0 w0 blocks todo s' w' ∧ Closes w (op.terminator l rhs past) w' := by
  cases op with
  | and => exact hregion.condBr hl hrhs hpast
  | or => exact hregion.condBr hl hpast hrhs

end Connective

/-- The code of a connective. The left side ends at `left` and the right side goes from `start` to
`right`; both ways meet at `last`. -/
structure Circuit (op : Connective) (l : Value) (left start : Site H) (r : Value) (right : Site H)
    (v : Value) (last : Site H) : Prop where
  left_closed : left.block.close (op.terminator l start.block.id last.block.id) ∈ last.fn.blocks
  right_closed : right.block.close (.br last.block.id) ∈ last.fn.blocks
  isEmpty : start.block.instrs = []
  ends_ne : left.block.id ≠ right.block.id
  nextReg_eq : start.fn.nextReg = left.fn.nextReg
  merge : ∃ dst, right.fn.nextReg ≤ dst ∧ v = .ofReg dst .i1 ∧ last.block.instrs =
    [.phi dst .i1 [(.ofBool op.skipped, left.block.id), (r, right.block.id)]]
  left_le : left ≤ last
  right_le : start ≤ right
  right_embeds : ∀ f : Function, last.Embeds f → right.Embeds f

/-- What is known of the sides of a connective is known of the whole, with the code between them. -/
theorem lowers_shortCircuit (op : Connective) {lhs rhs : Lower Value}
    {L : Value → Site H → Prop} {R : State → Site H → Value → Site H → Prop}
    (hlhs : Lowers env lhs s w fun v w' => w'.Val v .i1 ∧ L v w')
    (hrhs : ∀ (s' : State) (w' : Site H), s.Same s' → Grows .any w w' → Body s' w' → w'.Open →
      Lowers env rhs s' w' fun v w'' => w''.Val v .i1 ∧ R s' w' v w'') :
    Lowers env (shortCircuit op lhs rhs) s w fun v w' => w'.Val v .i1 ∧
      ∃ l left s' start r right, L l left ∧ R s' start r right ∧ Circuit op l left start r right v w' := by
  refine hlhs.bind ?_
  intro l s1 w1 hle1 hsame1 hl
  refine lowers_currentBlock.bind ?_
  rintro _ s2 _ _ hsame2 ⟨rfl, rfl⟩
  refine Steps.lowers fun hopen1 hbody => ?_
  refine ((Region.start .plain hbody).append op.isStem_rhsLabel).bind ?_
  rintro rhsBlock s2 w2 _ ⟨hregion, happ2⟩
  refine (hregion.append op.isStem_endLabel).bind ?_
  rintro endBlock s3 w3 _ ⟨hregion, happ3⟩
  have hblock3 : w3.block = w1.block := happ3.block_eq.trans happ2.block_eq
  have hopen3 : w3.Open := by rwa [Open, hblock3]
  refine (op.steps_branch hregion (hl.1.mono hregion.inside.grows) (by simp) (by simp)).bind ?_
  rintro _ s4 w4 _ ⟨hregion, hcloses4⟩
  have hfin4 := hcloses4.finished hopen3
  have hblock4 : w4.block = w1.block.close (op.terminator l rhsBlock endBlock) :=
    hblock3 ▸ hfin4.block_eq
  have hid4 : w4.block.id = w1.block.id := by
    rw [hblock4]
    rfl
  have hne4 : w4.block.id ≠ rhsBlock := (hregion.pending rhsBlock (by simp)).2.2.2.1.symm
  have hend4 : w4.block.id ≠ endBlock := (hregion.pending endBlock (by simp)).2.2.2.1.symm
  have hentered3 : w3.Entered endBlock [] := fun d hd hid => absurd hid (happ3.unreached d hd)
  have hentered4 := hentered3.finished hfin4
  refine (hregion.position fun _ => hcloses4.closed).bind ?_
  rintro _ s5 w5 _ ⟨hregion, hopen5, hmoved5⟩
  have hpast := Past.moved w4.block_mem hne4 hmoved5
  have hend5 : endBlock < w5.fn.nextBlock := hregion.todo_lt (by simp)
  have hsame5 : s.Same s5 := (hsame1.trans hsame2).trans ⟨hregion.inside.agrees, hregion.inside.symbols_eq trivial⟩
  have hlater5 : Grows .any w w5 := .trans (.any hle1) hregion.inside.grows.any
  refine (hregion.lowers hbody hopen5 (hrhs s5 w5 hsame5 hlater5 (hregion.inside.body hbody) hopen5)).bind ?_
  rintro r s6 w6 _ ⟨hregion, hle6, hopen6, hr⟩
  refine (hregion.lowers hbody hopen6 lowers_currentBlock).bind ?_
  rintro _ s6 _ _ ⟨hregion, _, _, rfl, rfl⟩
  have hend6 : endBlock < w6.fn.nextBlock := hregion.todo_lt (by simp)
  have hentered6 := (hentered4.movedTo hmoved5).mono hle6 hend5 fun h => h
  refine (hregion.br (by simp)).bind ?_
  rintro _ s7 w7 _ ⟨hregion, hcloses7⟩
  have hfin7 := hcloses7.finished hopen6
  have hgrows7 := hfin7.grows ⟨True, True, fun _ => True, fun _ => True⟩ fun _ _ _ => trivial
  refine (hregion.moveBlockToEnd (by simp)).bind ?_
  rintro _ s8 w8 _ ⟨hregion, hblock8, hgrows8⟩
  have hblock8 : w8.block = w6.block.close (.br endBlock) := hblock8.trans hfin7.block_eq
  have hend7 : endBlock < w7.fn.nextBlock := lt_of_lt_of_le hend6 hgrows7.nextBlock_le
  have hentered8 := (hentered6.finished hfin7).mono (hgrows8 .plain) hend7 fun h => h
  have hpast6 := hpast.mono hle6
  have hpast := (hpast6.mono hgrows7).mono (hgrows8 .plain)
  have hv := ((hr.1.mono hgrows7).mono (hgrows8 .plain))
  have hclosed8 : w8.block.isTerminated = true := by
    rw [hblock8]
    rfl
  have hid8 : w8.block.id = w6.block.id := by
    rw [hblock8]
    rfl
  have hend8 : w8.block.id ≠ endBlock := (hregion.pending endBlock (by simp)).2.2.2.1.symm
  refine (hregion.position fun _ => hclosed8).bind ?_
  rintro _ s9 w9 _ ⟨hregion, hopen9, hmoved9⟩
  have hleft : w9.Comes (.ofBool op.skipped) w4.block := by
    refine .moved hmoved9 hpast.1 ?_ fun _ h => by cases h
    rw [hblock4]
    exact op.past_mem_successors
  have hright : w9.Comes r w8.block := by
    refine .moved hmoved9 w8.block_mem ?_ hv.1
    rw [hblock8]
    exact mem_singleton_self _
  have hends : w1.block.id ≠ w6.block.id := hid4 ▸ hpast6.2
  have hentered9 : w9.Entered w9.block.id [w1.block.id, w6.block.id] := by
    rw [hmoved9.block_id]
    intro d hd hid
    have hmem := (hentered8.movedTo hmoved9) d hd hid
    rw [hblock3] at hmem
    exact mem_cons.mpr ((mem_cons.mp hmem).symm.imp_left mem_singleton.mp |>.imp_right
      mem_singleton.mpr)
  have hregs9 : w6.fn.nextReg ≤ w9.fn.nextReg :=
    hmoved9.fn_eq ▸ hfin7.nextReg_eq ▸ (hgrows8 .plain).nextReg_le
  refine (Steps.lift (reaches_phi [(.ofBool op.skipped, w1.block.id), (r, w6.block.id)] hopen9 hmoved9.isEmpty ?_
    (by simpa using hends) hentered9 ?_)).imp ?_
  · intro p hp
    rw [mem_pair] at hp
    rcases hp with rfl | rfl
    · exact ⟨_, hid4, hleft⟩
    · exact ⟨_, hid8, hright⟩
  · intro hH p hp
    rw [mem_pair] at hp
    rcases hp with rfl | rfl
    · rfl
    · exact hv.2 hH
  · rintro v s10 w10 hbuilder ⟨hsame, hmerged⟩
    have hle : Grows .plain w1 w10 := hmerged.grows _ _ hregion.leave.grows
      (hmoved9.block_id.symm ▸ (hregion.asks endBlock (by simp)).1)
    refine ⟨hregion.leave.step hsame hbuilder hmerged.frame
      (fun name _ hnone => (hmerged.prototype?_eq name).trans hnone) (fun h => h) hle,
      hmerged.isOpen, hmerged.val, l, w1, s5, w5, r, w6, hl.2, hr.2, ?_⟩
    have hid10 : w10.block.id = endBlock := by
      rw [hmerged.block_eq]
      exact hmoved9.block_id
    refine ⟨?_, ?_, hmoved5.isEmpty, hends, ?_, ?_, hle, hle6, ?_⟩
    · rw [hmoved5.block_id, hid10, ← hblock4]
      exact hmerged.kept _ (hmoved9.fn_eq ▸ hpast.1) (hmoved9.block_id ▸ hend4)
    · rw [hid10, ← hblock8]
      exact hmerged.kept _ (hmoved9.fn_eq ▸ w8.block_mem) (hmoved9.block_id ▸ hend8)
    · rw [hmoved5.fn_eq, hfin4.nextReg_eq, happ3.nextReg_eq, happ2.nextReg_eq]
    · refine ⟨w9.fn.nextReg, hregs9, hmerged.value_eq, ?_⟩
      rw [hmerged.block_eq, Block.snoc, hmoved9.isEmpty, nil_append]
    · intro f hf
      have hf8 := (hmerged.embeds f hf).of_movedTo hmoved9 hclosed8
      exact (hf8.of_grows (hgrows8 .plain) trivial fun h => h).of_finished hfin7

end Lowering

end Aero
