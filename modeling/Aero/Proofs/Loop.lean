import Aero.Proofs.Control

/-!
Loops. If the parts of a loop are sound, so is the whole, and what is known of the code of the parts is
known of the whole: control goes from the guard to the body or past the loop, and from the body, over
the step if there is one, back to the guard.
-/

namespace Aero.Lowering

open IR IR.Site

variable {body step : Lower Unit} {H N : Prop} {env : Env} {s : State} {w : Site H}
  {B : BlockId → Site H → Site H → Prop} {L : Site H → Option Value → Site H → Prop} {guard : Option (Lower Value)}

/-- In a function, the code of a loop. -/
structure LoopCode (f : Function) (w header guardEnd : Site H) (cond : Option Value)
    (start bodyEnd : Site H) (after : BlockId) (last : Site H) : Prop extends
    Branching f header guardEnd cond start bodyEnd last.block.id after where
  enters : w.Open → f.block? w.block.id = some (w.block.close (.br header.block.id))
  nextReg_eq : header.fn.nextReg = w.fn.nextReg
  last_isEmpty : last.block.instrs = []
  last_isOpen : last.Open
  last_nextReg_le : bodyEnd.fn.nextReg ≤ last.fn.nextReg

/-- A loop without a step, of which some is known of the guard and the body. -/
def WhileCode (N : Prop) (L : Site H → Option Value → Site H → Prop)
    (B : BlockId → Site H → Site H → Prop) (w last : Site H) : Prop :=
  N → ∀ f : Function, last.Embeds f → ∃ header guardEnd cond start bodyEnd,
    L header cond guardEnd ∧ B last.block.id start bodyEnd ∧
      LoopCode f w header guardEnd cond start bodyEnd header.block.id last

theorem does_whileLoop {guard : Lower Value} (hguard : ∀ s' w', s.Agrees s' →
      Lowers env guard s' w' fun v w'' => w''.Val v .i1 ∧ L w' (some v) w'')
    (hbody : ∀ exit s' w', (s.inLoop exit).Agrees s' →
      Does N env body s' w' fun s'' w'' => s'.Agrees s'' ∧ B exit w' w'') :
    Does N env (whileLoop guard body) s w fun s' w' => s.Agrees s' ∧ w'.Open ∧ WhileCode N L B w w' := by
  refine .of_inside fun hopen hbody0 => ?_
  refine ((Region.start (.stmt N s.loopExits) hbody0).append (isStem_of_getLast rfl rfl)).bind ?_
  rintro header s1 w1 _ ⟨hregion, happ1⟩
  refine (hregion.append (isStem_of_getLast rfl rfl)).bind ?_
  rintro bodyBlock s2 w2 _ ⟨hregion, happ2⟩
  refine (hregion.append (isStem_of_getLast rfl rfl)).bind ?_
  rintro exit s3 w3 _ ⟨hregion, happ3⟩
  have hblock3 : w3.block = w.block := (happ3.block_eq.trans happ2.block_eq).trans happ1.block_eq
  refine (hregion.br (by simp)).bind ?_
  rintro _ s4 w4 _ ⟨hregion, hcloses4⟩
  refine (hregion.position fun _ => hcloses4.closed).bind ?_
  rintro _ s5 w5 _ ⟨hregion, hopen5, hmoved5⟩
  refine (hregion.lowers hbody0 hopen5 (hguard s5 w5 hregion.inside.agrees)).bind ?_
  rintro c s6 w6 _ ⟨hregion, hle6, hopen6, hc, hL⟩
  refine (hregion.condBr hc (by simp) (by simp)).bind ?_
  rintro _ s7 w7 _ ⟨hregion, hcloses7⟩
  refine (hregion.position fun _ => hcloses7.closed).bind ?_
  rintro _ s8 w8 _ ⟨hregion, hopen8, hmoved8⟩
  refine (hregion.doesInLoop hbody0 hopen8 (by simp) (hbody exit _ w8 (hregion.inside.agrees.inLoop exit))).bind ?_
  rintro _ s9 w9 _ ⟨hregion, hgrows9, hB⟩
  refine (hregion.br (by simp)).bind ?_
  rintro _ s10 w10 _ ⟨hregion, hcloses10⟩
  refine (hregion.moveBlockToEnd (by simp)).bind ?_
  rintro _ s11 w11 _ ⟨hregion, hblock11, hgrows11⟩
  have hclosed11 : w11.block.isTerminated = true := hblock11 ▸ hcloses10.closed
  refine (hregion.position fun _ => hclosed11).imp ?_
  rintro _ s12 w12 _ ⟨hregion, hopen12, hmoved12⟩
  refine ⟨hregion.leave, hopen12, fun hN f hf => ⟨w5, w6, some c, w8, w9, hL, hmoved12.block_id ▸ hB, ?_⟩⟩
  have hf10 := (hf.of_movedTo hmoved12 hclosed11).of_grows (hgrows11 .plain) trivial fun h => h
  have hforks : Closes w6 (fork (some c) bodyBlock exit) w7 := hcloses7
  obtain ⟨hcode, hf4⟩ := branching hmoved5 hle6 hopen6 hforks hmoved8 hgrows9 hcloses10 hN hcloses4.closed hf10
  rw [← hmoved12.block_id, ← hmoved5.block_id] at hcode
  refine ⟨hcode, fun _ => ?_, ?_, hmoved12.isEmpty, hopen12, ?_⟩
  · rw [hmoved5.block_id, ← hblock3]
    exact hcloses4.block? hf4 (by rwa [Open, hblock3])
  · rw [hmoved5.fn_eq, hcloses4.nextReg_eq, happ3.nextReg_eq, happ2.nextReg_eq, happ1.nextReg_eq]
  · rw [hmoved12.fn_eq, ← hcloses10.nextReg_eq]
    exact (hgrows11 .plain).nextReg_le

theorem steps_enterBody {e : Effect} {s0 : State} {w0 : Site H} {blocks todo : List BlockId} {body exit : BlockId}
    (hguard : ∀ g ∈ guard, Lowers env g s w fun v w' => w'.Val v .i1 ∧ L w (some v) w')
    (hnone : guard = none → L w none w) (hregion : Region e s0 w0 blocks todo s w)
    (hbody0 : Body s0 w0) (hopen : w.Open) (hbody : body ∈ blocks) (hexit : exit ∈ blocks) :
    Steps env (enterBody guard body exit) s w (Fails H e.quiet s0) fun _ s' w' =>
      Region e s0 w0 blocks todo s' w' ∧ ∃ cond guardEnd, w ≤ guardEnd ∧ guardEnd.Open ∧
        L w cond guardEnd ∧ Closes guardEnd (fork cond body exit) w' := by
  cases guard with
  | none =>
    refine (hregion.br hbody).imp ?_
    exact fun _ s' w' _ h => ⟨h.1, none, w, le_refl w, hopen, hnone rfl, h.2⟩
  | some guard =>
    refine (hregion.lowers hbody0 hopen (hguard guard rfl)).bind ?_
    rintro c s1 w1 _ ⟨hregion, hle, hopen1, hc, hL⟩
    refine (hregion.condBr hc hbody hexit).imp ?_
    exact fun _ s' w' _ h => ⟨h.1, some c, w1, hle, hopen1, hL, h.2⟩

/-- A loop with a step, of which some is known of the guard, the step and the body. -/
def StepCode (N : Prop) (L : Site H → Option Value → Site H → Prop)
    (B : BlockId → Site H → Site H → Prop) (S : Site H → Site H → Prop) (w last : Site H) : Prop :=
  N → ∀ f : Function, last.Embeds f → ∃ header guardEnd cond start bodyEnd stepStart stepEnd,
    L header cond guardEnd ∧ B last.block.id start bodyEnd ∧ S stepStart stepEnd ∧
      LoopCode f w header guardEnd cond start bodyEnd stepStart.block.id last ∧
      stepStart.block.instrs = [] ∧ bodyEnd.fn.nextReg ≤ stepStart.fn.nextReg ∧ stepEnd.Embeds f ∧
      f.block? stepEnd.block.id = some (stepEnd.block.close (.br header.block.id))

/-- A loop may follow a block that is closed already, and then can not be reached. -/
theorem steps_stepLoop {S : Site H → Site H → Prop} (hguard : ∀ g ∈ guard, ∀ s' w', s.Agrees s' →
      Lowers env g s' w' fun v w'' => w''.Val v .i1 ∧ L w' (some v) w'') (hnone : guard = none → ∀ w', L w' none w')
    (hstep : ∀ s' w', s.Agrees s' → Lowers env step s' w' fun _ w'' => S w' w'')
    (hbody : ∀ exit s' w', (s.inLoop exit).Agrees s' →
      Does N env body s' w' fun s'' w'' => s'.Agrees s'' ∧ B exit w' w'') (hbody0 : Body s w) :
    Steps env (stepLoop guard step body) s w (Fails H False s) fun _ s' w' =>
      Inside (.stmt N s.loopExits) s w s' w' ∧ w'.Open ∧ StepCode N L B S w w' := by
  refine ((Region.start (.stmt N s.loopExits) hbody0).append (isStem_of_getLast rfl rfl)).bind ?_
  rintro header s1 w1 _ ⟨hregion, happ1⟩
  refine (hregion.append (isStem_of_getLast rfl rfl)).bind ?_
  rintro bodyBlock s2 w2 _ ⟨hregion, happ2⟩
  refine (hregion.append (isStem_of_getLast rfl rfl)).bind ?_
  rintro increment s3 w3 _ ⟨hregion, happ3⟩
  refine (hregion.append (isStem_of_getLast rfl rfl)).bind ?_
  rintro exit s4 w4 _ ⟨hregion, happ4⟩
  have hblock4 : w4.block = w.block :=
    ((happ4.block_eq.trans happ3.block_eq).trans happ2.block_eq).trans happ1.block_eq
  refine (hregion.br (by simp)).bind ?_
  rintro _ s5 w5 _ ⟨hregion, hcloses5⟩
  refine (hregion.position fun _ => hcloses5.closed).bind ?_
  rintro _ s6 w6 _ ⟨hregion, hopen6, hmoved6⟩
  refine (steps_enterBody (fun g hg => hguard g hg s6 w6 hregion.inside.agrees) (hnone · w6) hregion
    hbody0 hopen6 (by simp) (by simp)).bind ?_
  rintro _ s7 w7 _ ⟨hregion, cond, guardEnd, hle, hopen, hL, hcloses7⟩
  refine (hregion.position fun _ => hcloses7.closed).bind ?_
  rintro _ s8 w8 _ ⟨hregion, hopen8, hmoved8⟩
  refine (hregion.doesInLoop hbody0 hopen8 (by simp) (hbody exit _ w8 (hregion.inside.agrees.inLoop exit))).bind ?_
  rintro _ s9 w9 _ ⟨hregion, hgrows9, hB⟩
  refine (hregion.br (by simp)).bind ?_
  rintro _ s10 w10 _ ⟨hregion, hcloses10⟩
  refine (hregion.moveBlockToEnd (by simp)).bind ?_
  rintro _ s11 w11 _ ⟨hregion, hblock11, hgrows11⟩
  have hclosed11 : w11.block.isTerminated = true := hblock11 ▸ hcloses10.closed
  refine (hregion.position fun _ => hclosed11).bind ?_
  rintro _ s12 w12 _ ⟨hregion, hopen12, hmoved12⟩
  refine (hregion.lowers hbody0 hopen12 (hstep s12 w12 hregion.inside.agrees)).bind ?_
  rintro _ s13 w13 _ ⟨hregion, hle13, hopen13, hS⟩
  refine (hregion.br (by simp)).bind ?_
  rintro _ s14 w14 _ ⟨hregion, hcloses14⟩
  refine (hregion.moveBlockToEnd (by simp)).bind ?_
  rintro _ s15 w15 _ ⟨hregion, hblock15, hgrows15⟩
  have hclosed15 : w15.block.isTerminated = true := hblock15 ▸ hcloses14.closed
  refine (hregion.position fun _ => hclosed15).imp ?_
  rintro _ s16 w16 _ ⟨hregion, hopen16, hmoved16⟩
  refine ⟨hregion.leave, hopen16, fun hN f hf => ⟨w6, guardEnd, cond, w8, w9, w12, w13, hL,
    hmoved16.block_id ▸ hB, hS, ?_⟩⟩
  have hf14 := (hf.of_movedTo hmoved16 hclosed15).of_grows (hgrows15 .plain) trivial fun h => h
  have hf13 := hcloses14.embeds hf14
  have hf10 := ((hf13.of_le hle13).of_movedTo hmoved12 hclosed11).of_grows (hgrows11 .plain) trivial fun h => h
  obtain ⟨hcode, hf5⟩ := branching hmoved6 hle hopen hcloses7 hmoved8 hgrows9 hcloses10 hN hcloses5.closed hf10
  have hstep_le : w9.fn.nextReg ≤ w12.fn.nextReg := by
    rw [hmoved12.fn_eq, ← hcloses10.nextReg_eq]
    exact (hgrows11 .plain).nextReg_le
  have hlast_le : w12.fn.nextReg ≤ w16.fn.nextReg := by
    refine Nat.le_trans hle13.nextReg_le ?_
    rw [hmoved16.fn_eq, ← hcloses14.nextReg_eq]
    exact (hgrows15 .plain).nextReg_le
  rw [← hmoved16.block_id, ← hmoved12.block_id] at hcode
  refine ⟨⟨hcode, fun hopen0 => ?_, ?_, hmoved16.isEmpty, hopen16, Nat.le_trans hstep_le hlast_le⟩,
    hmoved12.isEmpty, hstep_le, hf13, ?_⟩
  · rw [hmoved6.block_id, ← hblock4]
    exact hcloses5.block? hf5 (by rwa [Open, hblock4])
  · rw [hmoved6.fn_eq, hcloses5.nextReg_eq, happ4.nextReg_eq, happ3.nextReg_eq, happ2.nextReg_eq, happ1.nextReg_eq]
  · rw [hmoved6.block_id]
    exact hcloses14.block? hf14 hopen13

theorem Does.bind {act rest : Lower Unit} {R T : State → Site H → Prop}
    (h : Does N env act s w fun s' w' => s.Extends s' ∧ R s' w')
    (hrest : ∀ s' w', s.Extends s' → Body s' w' → Grows (.stmt N s.loopExits) w w' → R s' w' →
      Steps env rest s' w' (Fails H False s') fun _ s'' w'' =>
        Body s'' w'' ∧ Grows (.stmt N s'.loopExits) w' w'' ∧ s'.Extends s'' ∧ T s'' w'') :
    Does N env (act >>= fun _ => rest) s w fun s' w' => s.Extends s' ∧ T s' w' := by
  refine ⟨fun hopen hbody => .bind (h.run hopen hbody) ?_⟩
  rintro _ s' ⟨w', hbody', hgrows, hext, hR⟩
  refine ((hrest s' w' hext hbody' hgrows hR).run hbody'.builder_eq).mono ?_ ?_
  · intro s'' hfails
    refine hfails.after ?_ hext
    rw [hbody.builder_eq, hbody'.builder_eq]
    exact hgrows.frame
  · rintro _ s'' ⟨w'', _, hbody'', hgrows', hext', hT⟩
    rw [hext.loopExits_eq] at hgrows'
    exact ⟨w'', hbody'', hgrows.trans hgrows', hext.trans hext', hT⟩

theorem does_forLoop {init : Lower Unit} {R : State → Site H → Prop}
    {L : State → Site H → Option Value → Site H → Prop} {B : State → BlockId → Site H → Site H → Prop}
    {S : State → Site H → Site H → Prop} (hinit : Does N env init s.pushed w fun s' w' => s.pushed.Extends s' ∧ R s' w')
    (hguard : ∀ s1, ∀ g ∈ guard, ∀ s' w', s1.Agrees s' →
      Lowers env g s' w' fun v w'' => w''.Val v .i1 ∧ L s1 w' (some v) w'')
    (hnone : guard = none → ∀ s1 w', L s1 w' none w')
    (hstep : ∀ s1 s' w', s1.Agrees s' → Lowers env step s' w' fun _ w'' => S s1 w' w'') (hbody : ∀ s1 exit s' w',
      s.pushed.Extends s1 → (s1.inLoop exit).Agrees s' →
      Does N env body s' w' fun s'' w'' => s'.Agrees s'' ∧ B s1 exit w' w'') :
    Does N env (forLoop init guard step body) s w fun s' w' => s.Agrees s' ∧ w'.Open ∧
      ∃ s1 w1, s.pushed.Extends s1 ∧ R s1 w1 ∧ Grows (.stmt N s.loopExits) w w1 ∧
        Grows (.stmt N s.loopExits) w1 w' ∧ StepCode N (L s1) (B s1) (S s1) w1 w' := by
  have hloop : Does N env (do init; stepLoop guard step body) s.pushed w fun s' w' =>
      s.pushed.Extends s' ∧ w'.Open ∧ ∃ s1 w1, s.pushed.Extends s1 ∧ R s1 w1 ∧
        Grows (.stmt N s.loopExits) w w1 ∧ Grows (.stmt N s.loopExits) w1 w' ∧
          StepCode N (L s1) (B s1) (S s1) w1 w' := by
    refine hinit.bind ?_
    intro s' w' hext hbody' hgrows hR
    refine (steps_stepLoop (hguard s') (fun h => hnone h s') (hstep s')
      (fun exit s'' w'' => hbody s' exit s'' w'' hext) hbody').imp ?_
    rintro _ s'' w'' _ ⟨hinside, hopen, hcode⟩
    have hexits : s'.loopExits = s.loopExits := hext.loopExits_eq
    exact ⟨hinside.body hbody', hinside.grows, hinside.agrees.extends, hopen, s', w', hext, hR, hgrows,
      hexits ▸ hinside.grows, hcode⟩
  refine (Does.withScope hloop).mono ?_
  rintro s' w' ⟨hagrees, _, _, hcode⟩
  exact ⟨hagrees, hcode⟩

theorem does_breakLoop {span : Span} : Does N env (breakLoop span) s w fun s' w' =>
    s.Agrees s' ∧ ∃ exit exits, s.loopExits = exit :: exits ∧ w.Finished (.br exit) w' := by
  refine .state_bind ?_
  split
  · next exit exits hexits =>
    have hmem : exit ∈ s.loopExits := hexits ▸ List.mem_cons_self
    refine (Does.finish (fun hopen hbody => ends_br hopen (hbody.exits exit hmem))
      fun _ hid => List.mem_singleton.mp hid ▸ hmem).mono ?_
    exact fun _ _ h => ⟨h.1, exit, exits, hexits, h.2⟩
  · exact .fail

end Aero.Lowering
