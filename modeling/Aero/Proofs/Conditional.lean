import Aero.Proofs.Control

/-!
Conditionals. If the parts of a conditional are sound, so is the whole: every block that it adds is
filled or dropped. Control goes from guard to guard until one holds, and from the body of that branch,
or from the last part, to where the ways meet.
-/

namespace Aero.Lowering

open IR IR.Site List

variable {H N : Prop} {env : Env} {s : State} {w : Site H} {body : Site H → Site H → Prop}
  {arms : List (Arm × ArmBlocks)} {otherwise : Option (Lower Unit)} {merge next other : BlockId}
  {present joins : Bool}

/-- For a part of which some is known, whether the block where it ends is closed. -/
def EndsClosed (R : Site H → Site H → Prop) (closed : Bool) : Prop :=
  ∃ w w', R w w' ∧ w'.block.isTerminated = closed

/-- What is known of the code of a branch. -/
structure ArmSpec (H : Prop) where
  guard : Site H → Value → Site H → Prop
  body : Site H → Site H → Prop

/-- The parts of a branch are sound, and what is known of them holds. -/
structure ArmOk (H N : Prop) (env : Env) (s0 : State) (spec : ArmSpec H) (arm : Arm) : Prop where
  guard : ∀ (s : State) (w : Site H), s0.Agrees s →
    Lowers env arm.guard s w fun v w' => w'.Val v .i1 ∧ spec.guard w v w'
  body : ∀ (s : State) (w : Site H), s0.Agrees s → Does N env arm.body s w fun s' w' => s.Agrees s' ∧ spec.body w w'

/-! ### The code of branches -/

section

variable {f : Function} {n n' limit limit' : Nat} {id : BlockId} {joins joins' : Prop} {spec : ArmSpec H}
  {specs : List (ArmSpec H)}

/-- In a function, the code of a branch, with bounds of the registers that it uses. Control goes on
from the body only if some branch joins the others. -/
def ArmCode (f : Function) (n limit : Nat) (merge : BlockId) (joins : Prop) (spec : ArmSpec H)
    (id next : BlockId) : Prop :=
  ∃ header guardEnd c start bodyEnd, header.block.id = id ∧ n ≤ header.fn.nextReg ∧
    bodyEnd.fn.nextReg ≤ limit ∧ spec.guard header c guardEnd ∧ spec.body start bodyEnd ∧
    (bodyEnd.Open → joins) ∧ Branching f header guardEnd (some c) start bodyEnd next merge

theorem ArmCode.mono (h : ArmCode f n limit merge joins spec id next) (hn : n' ≤ n)
    (hlimit : limit ≤ limit') (hjoins : joins → joins') : ArmCode f n' limit' merge joins' spec id next := by
  obtain ⟨header, guardEnd, c, start, bodyEnd, hid, hfirst, hlast, hguard, hbody, hopen, hcode⟩ := h
  exact ⟨header, guardEnd, c, start, bodyEnd, hid, Nat.le_trans hn hfirst, Nat.le_trans hlast hlimit,
    hguard, hbody, fun h => hjoins (hopen h), hcode⟩

theorem ArmCode.le (h : ArmCode f n limit merge joins spec id next) : n ≤ limit := by
  obtain ⟨_, _, _, _, _, _, hfirst, hlast, _, _, _, hcode⟩ := h
  have hguard := hcode.guard_le.nextReg_le
  rw [← hcode.body_nextReg_eq] at hguard
  exact Nat.le_trans hfirst (Nat.le_trans hguard (Nat.le_trans hcode.body_nextReg_le hlast))

/-- In a function, the code of branches from a block on. If no guard holds, control goes to the last
part. -/
inductive ArmsCode (f : Function) (n limit : Nat) (merge other : BlockId) (joins : Prop) :
    BlockId → List (ArmSpec H) → Prop where
  | nil : ArmsCode f n limit merge other joins other []
  | cons {id next : BlockId} {spec : ArmSpec H} {specs : List (ArmSpec H)}
      (harm : ArmCode f n limit merge joins spec id next)
      (hrest : ArmsCode f n limit merge other joins next specs) :
      ArmsCode f n limit merge other joins id (spec :: specs)

theorem ArmsCode.mono (h : ArmsCode f n limit merge other joins id specs) (hn : n' ≤ n)
    (hlimit : limit ≤ limit') (hjoins : joins → joins') : ArmsCode f n' limit' merge other joins' id specs := by
  induction h with
  | nil => exact .nil
  | cons harm _ ih => exact .cons (harm.mono hn hlimit hjoins) ih

/-- In a function, the code of the last part of a conditional. Without one, the ways meet there. -/
def ElseCode (f : Function) (n limit : Nat) (merge other : BlockId) (joins : Prop) (present : Bool)
    (body : Site H → Site H → Prop) : Prop :=
  if present then
    ∃ start bodyEnd, start.block.id = other ∧ start.Open ∧ start.block.instrs = [] ∧
      n ≤ start.fn.nextReg ∧ bodyEnd.fn.nextReg ≤ limit ∧ body start bodyEnd ∧ bodyEnd.Embeds f ∧
      (bodyEnd.Open → joins ∧ f.block? bodyEnd.block.id = some (bodyEnd.block.close (.br merge)))
  else other = merge ∧ joins

theorem ElseCode.mono (h : ElseCode f n limit merge other joins present body)
    (hn : n' ≤ n) (hlimit : limit ≤ limit') (hjoins : joins → joins') :
    ElseCode f n' limit' merge other joins' present body := by
  cases present with
  | false => exact ⟨h.1, hjoins h.2⟩
  | true =>
    obtain ⟨start, bodyEnd, hid, hopen, hempty, hfirst, hlast, hbody, hembeds, hgoesOn⟩ := h
    exact ⟨start, bodyEnd, hid, hopen, hempty, Nat.le_trans hn hfirst, Nat.le_trans hlast hlimit, hbody,
      hembeds, fun h => ⟨hjoins (hgoesOn h).1, (hgoesOn h).2⟩⟩

/-- In a function, the code of a conditional. The ways meet only if there is more than one that goes
on. -/
def IfCode (f : Function) (specs : List (ArmSpec H)) (present : Bool) (body : Site H → Site H → Prop)
    (w last : Site H) : Prop :=
  ∃ first merge other joins, f.block? w.block.id = some (w.block.close (.br first)) ∧ w.fn.nextReg ≤ last.fn.nextReg ∧
    ArmsCode f w.fn.nextReg last.fn.nextReg merge other joins first specs ∧
    ElseCode f w.fn.nextReg last.fn.nextReg merge other joins present body ∧
    (joins → last.block.id = merge ∧ last.block.instrs = [] ∧ last.Open)

end

/-! ### Blocks -/

def armIds (arms : List (Arm × ArmBlocks)) : List BlockId :=
  arms.flatMap fun arm => [arm.2.guard, arm.2.body]

def entry (other : BlockId) (arms : List (Arm × ArmBlocks)) : BlockId :=
  (arms.head?.map (·.2.guard)).getD other

section

variable {e : Effect} {s0 : State} {w0 : Site H} {blocks todo : List BlockId} {E : State → Prop}

theorem steps_armsBlocks (hregion : Region e s0 w0 blocks todo s w) (i : Nat) (arms : List Arm) :
    Steps env (liftM (armsBlocks i arms)) s w E fun as s' w' =>
      Region e s0 w0 (blocks ++ armIds as) (todo ++ armIds as) s' w' ∧ as.map (·.1) = arms ∧
        w'.block = w.block ∧ w'.fn.nextReg = w.fn.nextReg ∧ armIds as = List.range' w.fn.nextBlock (2 * arms.length) ∧
        w'.fn.nextBlock = w.fn.nextBlock + 2 * arms.length := by
  induction arms generalizing i blocks todo s w with
  | nil =>
    refine .pure ⟨?_, rfl, rfl, rfl, rfl, rfl⟩
    simpa only [armIds, flatMap_nil, append_nil] using hregion
  | cons arm arms ih =>
    simp only [armsBlocks, armBlocks, liftM_bind, bind_assoc, pure_bind]
    refine (hregion.append (isStem_append_toString i (by decide))).bind ?_
    rintro guard s1 w1 _ ⟨hregion, happ1⟩
    refine (hregion.append (isStem_append_toString i (by decide))).bind ?_
    rintro body s2 w2 _ ⟨hregion, happ2⟩
    refine (ih hregion (i + 1)).bind ?_
    rintro as s3 w3 _ ⟨hregion, hmap, hblock, hregs, hids, hcount⟩
    have hbody : w.fn.nextBlock + 1 = body := happ1.nextBlock_eq.symm.trans happ2.id_eq
    have hnext : w2.fn.nextBlock = w.fn.nextBlock + 1 + 1 := by
      rw [happ2.nextBlock_eq, happ1.nextBlock_eq]
    refine .pure ⟨?_, by rw [map_cons, hmap], ?_, ?_, ?_, ?_⟩
    · simpa only [armIds, flatMap_cons, append_assoc, cons_append, nil_append] using hregion
    · rw [hblock, happ2.block_eq, happ1.block_eq]
    · rw [hregs, happ2.nextReg_eq, happ1.nextReg_eq]
    · change guard :: body :: armIds as = _
      rw [hids, hnext, ← happ1.id_eq, ← hbody, length_cons, Nat.mul_succ, range'_succ, range'_succ]
    · rw [length_cons]
      omega

theorem steps_elseBlock? (hregion : Region e s0 w0 blocks todo s w) :
    Steps env (liftM (elseBlock? present)) s w E fun block s' w' =>
      Region e s0 w0 (blocks ++ block.toList) (todo ++ block.toList) s' w' ∧
        block.isSome = present ∧ w'.block = w.block ∧ w'.fn.nextReg = w.fn.nextReg ∧
        block.toList = List.range' w.fn.nextBlock present.toNat ∧ w'.fn.nextBlock = w.fn.nextBlock + present.toNat := by
  cases present with
  | false =>
    refine .pure ⟨?_, rfl, rfl, rfl, rfl, rfl⟩
    simpa only [Option.toList_none, append_nil] using hregion
  | true =>
    change Steps env (liftM (Build.appendBlock "else") >>= fun id => pure (some id)) s w E _
    refine (hregion.append (isStem_of_getLast rfl rfl)).bind ?_
    rintro block s1 w1 _ ⟨hregion, happ⟩
    refine .pure ⟨hregion, rfl, happ.block_eq, happ.nextReg_eq, ?_, happ.nextBlock_eq⟩
    rw [happ.id_eq]
    rfl

theorem steps_isTerminated : Steps env isTerminated s w E fun b s' w' =>
    s = s' ∧ w = w' ∧ b = w.block.isTerminated := by
  refine ⟨fun hbuilder => ⟨w, hbuilder, rfl, rfl, ?_⟩⟩
  rw [hbuilder]
  exact w.at_block.isTerminated

theorem joins_of_open (h : w.block.isTerminated = !joins) (hopen : w.Open) : joins = true := by
  rw [open_iff.mp hopen] at h
  cases joins with
  | true => rfl
  | false => cases h

theorem steps_joinAt (hregion : Region e s0 w0 blocks todo s w) (hmerge : merge ∈ blocks) :
    Steps env (joinAt merge) s w E fun joins s' w' =>
      Region e s0 w0 blocks todo s' w' ∧ Closes w (.br merge) w' ∧ w.block.isTerminated = !joins ∧
        (joins = false → w' = w) ∧ (joins = true → w'.Reached merge) := by
  refine steps_isTerminated.bind ?_
  rintro b s _ _ ⟨rfl, rfl, hb⟩
  cases b with
  | true =>
    have hclosed : ¬ w.Open := fun hopen => by
      rw [open_iff.mp hopen] at hb
      cases hb
    exact .pure ⟨hregion, ⟨hb.symm, fun h => absurd h hclosed, fun _ => rfl, fun _ _ _ h => h⟩,
      hb.symm, fun _ => rfl, nofun⟩
  | false =>
    refine (hregion.br hmerge).bind ?_
    rintro _ s1 w1 _ ⟨hregion, hcloses⟩
    exact .pure ⟨hregion, hcloses, hb.symm, nofun, fun _ => hcloses.reached (open_iff.mpr hb.symm) mem_cons_self⟩

end

/-! ### Branches -/

section

variable {s0 : State} {w0 : Site H} {blocks todo : List BlockId}

theorem steps_lowerArm {arm : Arm} {spec : ArmSpec H} {armBlocks : ArmBlocks}
    (hregion : Region (.stmt N s0.loopExits) s0 w0 blocks (armBlocks.guard :: armBlocks.body :: todo) s w)
    (hbody0 : Body s0 w0) (harm : ArmOk H N env s0 spec arm)
    (hclosed : N → w.block.isTerminated = true) (hbody : armBlocks.body ∈ blocks)
    (hnext : next ∈ blocks) (hmerge : merge ∈ blocks) (htodo : merge ∈ todo) :
    Steps env (lowerArm arm armBlocks next merge) s w (Fails H False s0) fun joins s' w' =>
      Region (.stmt N s0.loopExits) s0 w0 blocks todo s' w' ∧ w'.block.isTerminated = true ∧
        (joins = false → next ≠ merge → w.Unreached merge → w'.Unreached merge) ∧
        (N → ∀ f, w'.Embeds f → w.Embeds f ∧ ArmCode f w.fn.nextReg w'.fn.nextReg merge
          (joins = true) spec armBlocks.guard next) ∧ w.Retains w' ∧ (∀ id ∈ [armBlocks.body, next], w'.Reached id) ∧
        (joins = true → w'.Reached merge) ∧ EndsClosed spec.body (!joins) := by
  have hne : armBlocks.body ≠ merge := by
    have := (nodup_cons.mp hregion.nodup.of_cons).1
    exact fun heq => this (heq ▸ htodo)
  refine (hregion.position hclosed).bind ?_
  rintro _ s1 w1 _ ⟨hregion1, hopen1, hmoved1⟩
  have hlt1 := hregion1.todo_lt (mem_cons_of_mem _ htodo)
  refine (hregion1.lowers hbody0 hopen1 (harm.guard s1 w1 hregion1.inside.agrees)).bind ?_
  rintro c s2 w2 _ ⟨hregion2, hle2, hopen2, hc, hguard⟩
  have hlt2 := hregion2.todo_lt (mem_cons_of_mem _ htodo)
  refine (hregion2.condBr hc hbody hnext).bind ?_
  rintro _ s3 w3 _ ⟨hregion3, hcloses3⟩
  refine (hregion3.position fun _ => hcloses3.closed).bind ?_
  rintro _ s4 w4 _ ⟨hregion4, hopen4, hmoved4⟩
  refine (hregion4.does hbody0 hopen4 (harm.body s4 w4 hregion4.inside.agrees)).bind ?_
  rintro _ s5 w5 _ ⟨hregion5, hgrows5, hspec⟩
  refine (steps_joinAt hregion5 hmerge).imp ?_
  rintro joins s6 w6 _ ⟨hregion6, hcloses6, hclosed5, hsame, hjoined⟩
  have hretains : w3.Retains w6 :=
    (Retains.of_fn_eq hmoved4.fn_eq).trans (hgrows5.retains.trans hcloses6.grows.retains)
  refine ⟨hregion6, hcloses6.closed, fun hjoins hnextNe hun => hsame hjoins ▸ ?_, fun hN f hf => ?_,
    ?_, fun id hid => (hcloses3.reached hopen2 hid).retained hretains, hjoined, w4, w5, hspec, hclosed5⟩
  · -- Neither the guard nor the body leads to the merge block, as it is new.
    have hun2 := (hun.of_fn_eq hmoved1.fn_eq).mono hle2 hlt1 (fun h => h)
    have hun3 : w3.Unreached merge := by
      refine hcloses3.unreached merge hlt2 (fun hmem => ?_) hun2
      rcases mem_cons.mp hmem with heq | hmem
      · exact hne heq.symm
      · exact hnextNe (mem_singleton.mp hmem).symm
    exact hregion4.unreached_of_does hbody0 htodo hgrows5 (hun3.of_fn_eq hmoved4.fn_eq)
  · have hforks : Closes w2 (fork (some c) armBlocks.body next) w3 := hcloses3
    obtain ⟨hcode, hfw⟩ := branching hmoved1 hle2 hopen2 hforks hmoved4 hgrows5 hcloses6 hN (hclosed hN) hf
    exact ⟨hfw, w1, w2, c, w4, w5, hmoved1.block_id, Nat.le_of_eq (by rw [hmoved1.fn_eq]),
      Nat.le_of_eq hcloses6.nextReg_eq.symm, hguard, hspec, joins_of_open hclosed5, hcode⟩
  · exact (Retains.of_fn_eq hmoved1.fn_eq).trans (hle2.retains.trans (hcloses3.grows.retains.trans hretains))

theorem steps_lowerArms {specs : List (ArmSpec H)}
    (hregion : Region (.stmt N s0.loopExits) s0 w0 blocks (armIds arms ++ todo) s w) (hbody0 : Body s0 w0)
    (harms : List.Forall₂ (fun spec arm => ArmOk H N env s0 spec arm.1) specs arms)
    (hclosed : N → w.block.isTerminated = true) (hblocks : ∀ id ∈ armIds arms, id ∈ blocks)
    (hother : other ∈ blocks) (hmerge : merge ∈ blocks) (htodo : merge ∈ todo) :
    Steps env (lowerArms other merge arms) s w (Fails H False s0) fun joins s' w' =>
      Region (.stmt N s0.loopExits) s0 w0 blocks todo s' w' ∧ (N → w'.block.isTerminated = true) ∧
        (joins = false → other ≠ merge → w.Unreached merge → w'.Unreached merge) ∧
        (N → ∀ f, w'.Embeds f → w.Embeds f ∧ w.fn.nextReg ≤ w'.fn.nextReg ∧
          ArmsCode f w.fn.nextReg w'.fn.nextReg merge other (joins = true) (entry other arms) specs) ∧
        w.Retains w' ∧ (joins = true → w'.Reached merge) ∧
        (w.Reached (entry other arms) → ∀ id ∈ armIds arms ++ [other], w'.Reached id) ∧
        ∃ closed, List.Forall₂ (EndsClosed ·.body) specs closed ∧ closed.all id = !joins := by
  induction harms generalizing s w with
  | nil =>
    exact .pure ⟨hregion, hclosed, fun _ _ h => h, fun _ _ hf => ⟨hf, Nat.le_refl _, .nil⟩,
      .refl w, nofun, fun h id hid => mem_singleton.mp hid ▸ h, [], .nil, rfl⟩
  | @cons spec arm specs arms harm _ ih =>
    obtain ⟨arm, armBlocks⟩ := arm
    have hrest : ∀ id ∈ armIds arms, id ∈ blocks :=
      fun id hid => hblocks id (mem_append_right [armBlocks.guard, armBlocks.body] hid)
    have htodo' : merge ∈ armIds arms ++ todo := mem_append_right _ htodo
    -- The next block is the guard of the next branch, or the last part.
    have hnext : entry other arms ∈ blocks ∧ (other ≠ merge → entry other arms ≠ merge) := by
      cases arms with
      | nil => exact ⟨hother, fun h => h⟩
      | cons second arms =>
        refine ⟨hrest _ mem_cons_self, fun _ heq => ?_⟩
        have hnodup := hregion.nodup.of_cons.of_cons
        have heq : second.2.guard = merge := heq
        exact (nodup_cons.mp hnodup).1 (mem_append_right _ (heq ▸ htodo))
    refine (steps_lowerArm hregion hbody0 harm hclosed
      (hblocks _ (mem_cons_of_mem _ mem_cons_self)) hnext.1 hmerge htodo').bind ?_
    rintro joins s1 w1 _ ⟨hregion1, hclosed1, hjoin1, hcode1, hretains1, hreached1, hjoined1, hends1⟩
    refine (ih hregion1 (fun _ => hclosed1) hrest).bind ?_
    rintro othersJoin s2 w2 _ ⟨hregion2, hclosed2, hjoin2, hcode2, hretains2, hjoined2, hreached2, closed, hends2, hall⟩
    refine .pure ⟨hregion2, hclosed2, fun hjoins hne hun => ?_, fun hN f hf => ?_,
      hretains1.trans hretains2, fun hjoins => ?_, fun hentry => ?_, (!joins) :: closed, .cons hends1 hends2, ?_⟩
    · obtain ⟨hjoins1, hjoins2⟩ := Bool.or_eq_false_iff.mp hjoins
      exact hjoin2 hjoins2 hne (hjoin1 hjoins1 (hnext.2 hne) hun)
    · obtain ⟨hf1, hle2, hrestCode⟩ := hcode2 hN f hf
      obtain ⟨hfw, harmCode⟩ := hcode1 hN f hf1
      refine ⟨hfw, Nat.le_trans harmCode.le hle2, .cons (harmCode.mono (Nat.le_refl _) hle2 ?_)
        (hrestCode.mono harmCode.le (Nat.le_refl _) ?_)⟩
      · exact fun h => Bool.or_eq_true_iff.mpr (.inl h)
      · exact fun h => Bool.or_eq_true_iff.mpr (.inr h)
    · rcases Bool.or_eq_true_iff.mp hjoins with hjoins | hjoins
      · exact (hjoined1 hjoins).retained hretains2
      · exact hjoined2 hjoins
    · have hrest2 := hreached2 (hreached1 _ (mem_cons_of_mem _ mem_cons_self))
      refine forall_mem_cons.mpr ⟨?_, forall_mem_cons.mpr ⟨?_, hrest2⟩⟩
      · exact hentry.retained (hretains1.trans hretains2)
      · exact (hreached1 _ mem_cons_self).retained hretains2
    · rw [all_cons, hall, Bool.not_or]
      rfl

theorem steps_lowerElse {block : Option BlockId}
    (hregion : Region (.stmt N s0.loopExits) s0 w0 blocks (block.toList ++ [merge]) s w) (hbody0 : Body s0 w0)
    (hother : ∀ act ∈ otherwise, ∀ s w, s0.Agrees s → Does N env act s w fun s' w' => s.Agrees s' ∧ body w w')
    (hclosed : N → w.block.isTerminated = true) (hblock : block.isSome = otherwise.isSome) (hmerge : merge ∈ blocks) :
    Steps env (lowerElse otherwise block merge) s w (Fails H False s0) fun joins s' w' =>
      Region (.stmt N s0.loopExits) s0 w0 blocks [merge] s' w' ∧ (N → w'.block.isTerminated = true) ∧
        (joins = false → block.isSome = true ∧ w'.block.isTerminated = true ∧
          (w.Unreached merge → w'.Unreached merge)) ∧
        (N → ∀ f, w'.Embeds f → w.Embeds f ∧ w.fn.nextReg ≤ w'.fn.nextReg ∧
          ElseCode f w.fn.nextReg w'.fn.nextReg merge (block.getD merge) (joins = true) otherwise.isSome body) ∧
        w.Retains w' ∧ (joins = true → w.Reached (block.getD merge) → w'.Reached merge) ∧
        (otherwise.isSome = true → EndsClosed body (!joins)) := by
  cases block with
  | none =>
    cases otherwise with
    | none =>
      exact .pure ⟨hregion, hclosed, nofun, fun _ _ hf => ⟨hf, Nat.le_refl _, rfl, rfl⟩, .refl w, fun _ h => h, nofun⟩
    | some act => cases hblock
  | some block =>
    cases otherwise with
    | none => cases hblock
    | some act =>
      refine (hregion.position hclosed).bind ?_
      rintro _ s1 w1 _ ⟨hregion1, hopen1, hmoved1⟩
      refine (hregion1.does hbody0 hopen1 (hother act rfl s1 w1 hregion1.inside.agrees)).bind ?_
      rintro _ s2 w2 _ ⟨hregion2, hgrows2, hspec⟩
      refine (steps_joinAt hregion2 hmerge).imp ?_
      rintro joins s3 w3 _ ⟨hregion3, hcloses3, hclosed2, hsame, hjoined⟩
      refine ⟨hregion3, fun _ => hcloses3.closed, fun hjoins => ⟨rfl, hcloses3.closed, fun hun => hsame hjoins ▸ ?_⟩,
        fun hN f hf => ?_,
        (Retains.of_fn_eq hmoved1.fn_eq).trans (hgrows2.retains.trans hcloses3.grows.retains),
        fun hjoins _ => hjoined hjoins, fun _ => ⟨w1, w2, hspec, hclosed2⟩⟩
      · exact hregion1.unreached_of_does hbody0 mem_cons_self hgrows2 (hun.of_fn_eq hmoved1.fn_eq)
      · have hf2 := hcloses3.embeds hf
        have hfirst : w.fn.nextReg ≤ w1.fn.nextReg := Nat.le_of_eq (by rw [hmoved1.fn_eq])
        have hlast : w2.fn.nextReg ≤ w3.fn.nextReg := Nat.le_of_eq hcloses3.nextReg_eq.symm
        exact ⟨(hf2.of_grows hgrows2 hN fun h => h).of_movedTo hmoved1 (hclosed hN),
          Nat.le_trans hfirst (Nat.le_trans hgrows2.nextReg_le hlast), w1, w2, hmoved1.block_id,
          hopen1, hmoved1.isEmpty, hfirst, hlast, hspec, hf2,
          fun hopen => ⟨joins_of_open hclosed2 hopen, hcloses3.block? hf hopen⟩⟩

theorem steps_enterArms {e : Site.Effect} {E : State → Prop} (hregion : Region e s0 w0 blocks (armIds arms ++ todo) s w)
    (hblocks : ∀ id ∈ armIds arms, id ∈ blocks) (htodo : merge ∈ todo) (other : BlockId) :
    Steps env (liftM (enterArms arms)) s w E fun _ s' w' => Region e s0 w0 blocks (armIds arms ++ todo) s' w' ∧
        (arms ≠ [] → Closes w (.br (entry other arms)) w') ∧ (w.Unreached merge → w'.Unreached merge) := by
  cases arms with
  | nil => exact .pure ⟨hregion, fun h => absurd rfl h, fun h => h⟩
  | cons first arms =>
    have hne : merge ≠ first.2.guard := by
      rintro rfl
      exact (nodup_cons.mp hregion.nodup).1 (mem_cons_of_mem _ (mem_append_right _ htodo))
    refine (hregion.br (hblocks _ mem_cons_self)).imp ?_
    rintro _ s1 w1 _ ⟨hregion1, hcloses⟩
    refine ⟨hregion1, fun _ => hcloses, hcloses.unreached merge ?_ ?_⟩
    · exact hregion.todo_lt (mem_append_right _ htodo)
    · exact fun hmem => hne (mem_singleton.mp hmem)

/-- The merge block is filled, or dropped if no way leads there. -/
theorem steps_mergeAt (hregion : Region (.stmt N s0.loopExits) s0 w0 blocks [merge] s w)
    (hclosed : N → w.block.isTerminated = true) (hun : joins = false → w.Unreached merge) :
    Steps env (mergeAt merge joins) s w (Fails H False s0) fun _ s' w' =>
      Inside (.stmt N s0.loopExits) s0 w0 s' w' ∧ w.fn.nextReg ≤ w'.fn.nextReg ∧
        (joins = true → w'.block.id = merge ∧ w'.block.instrs = [] ∧ w'.Open) ∧
        (joins = false → w'.block = w.block) ∧ (N → ∀ f, w'.Embeds f → w.Embeds f) ∧
        (joins = false → ∀ b ∈ w'.fn.blocks, b.id ≠ merge) ∧
        (∀ b ∈ w.fn.blocks, b.isTerminated = true ∨ b.id ≠ merge → b ∈ w'.fn.blocks) ∧
        ∀ id, id < w.fn.nextBlock → w.Unreached id → w'.Unreached id := by
  cases joins with
  | true =>
    refine (hregion.moveBlockToEnd mem_cons_self).bind ?_
    rintro _ s1 w1 _ ⟨hregion1, hblock1, hgrows1⟩
    refine (hregion1.position fun hN => hblock1 ▸ hclosed hN).imp ?_
    rintro _ s2 w2 _ ⟨hregion2, hopen2, hmoved2⟩
    refine ⟨hregion2.leave, ?_, fun _ => ⟨hmoved2.block_id, hmoved2.isEmpty, hopen2⟩, nofun,
      fun hN f hf => ?_, nofun, fun b hb _ => ?_, fun id hlt hun => ?_⟩
    · rw [hmoved2.fn_eq]
      exact (hgrows1 .plain).nextReg_le
    · exact (hf.of_movedTo hmoved2 (hblock1 ▸ hclosed hN)).of_grows (hgrows1 .plain) trivial fun h => h
    · rw [hmoved2.fn_eq]
      by_cases hcur : b.id = w.block.id
      · rw [w.coherent.eq_of_id_eq hb w.block_mem hcur, ← hblock1]
        exact w1.block_mem
      · exact (hgrows1 .plain).kept b hb hcur
    · exact (hun.mono (hgrows1 .plain) hlt fun h => h).of_fn_eq hmoved2.fn_eq
  | false =>
    refine (hregion.note).bind ?_
    rintro _ s1 w1 _ ⟨hregion1, hfn1, hblock1⟩
    refine (hregion1.drop ((hun rfl).of_fn_eq hfn1)).imp ?_
    rintro _ s2 w2 _ ⟨hinside, hdropped⟩
    refine ⟨(hinside.morePending fun _ => not_mem_nil).leave, ?_, nofun,
      fun _ => hdropped.block_eq.trans hblock1, fun _ f hf => .of_eq (hf.of_dropped hdropped) hfn1 hblock1,
      fun _ b hb => ((hdropped.mem_iff b).mp hb).2, fun b hb hother => ?_, fun id _ hun d hd => ?_⟩
    · exact Nat.le_of_eq (by rw [hdropped.nextReg_eq, hfn1])
    · rw [← hfn1] at hb
      rcases hother with hterm | hne
      · exact hdropped.kept b hb (.inl hterm)
      · exact (hdropped.mem_iff b).mpr ⟨hb, hne⟩
    · exact hun d (hfn1 ▸ ((hdropped.mem_iff d).mp hd).1)

end

/-- After a conditional, where it began is finished, and some block leads to each of its own blocks
that is left. -/
structure Linked (count : Nat) (w w' : Site H) : Prop where
  start : ∃ b ∈ w'.fn.blocks, b.id = w.block.id ∧ b.isTerminated = true
  reached : ∀ b ∈ w'.fn.blocks, b.id ∈ List.range' w.fn.nextBlock count → w'.Reached b.id

theorem Linked.of_closes {w1 w2 w' : Site H} {t : Terminator} {count : Nat} {ids : List BlockId}
    (hblock : w1.block = w.block) (hopen : w.Open) (hcloses : Closes w1 t w2)
    (hretains : w2.Retains w') (hids : List.range' w.fn.nextBlock count = ids ++ [merge])
    (hreached : ∀ id ∈ ids, w'.Reached id)
    (hmerge : ∀ b ∈ w'.fn.blocks, b.id = merge → w'.Reached merge) : Linked count w w' where
  start := by
    refine ⟨w2.block, hretains _ w2.block_mem hcloses.closed, ?_, hcloses.closed⟩
    rw [(hcloses.finished (by rwa [Open, hblock])).block_eq, hblock]
    rfl
  reached := by
    intro b hb hid
    rw [hids] at hid
    rcases mem_append.mp hid with hid | hid
    · exact hreached _ hid
    · have heq := mem_singleton.mp hid
      rw [heq]
      exact hmerge b hb heq

/-- A conditional ends closed if and only if it has a last part, and each of its parts ends closed. -/
def IfEnds (specs : List (ArmSpec H)) (present : Bool) (body : Site H → Site H → Prop) (last : Site H) : Prop :=
  ∃ arms other, List.Forall₂ (EndsClosed ·.body) specs arms ∧ (present = true → EndsClosed body other) ∧
    last.block.isTerminated = (present && arms.all id && other)

theorem does_ifElse {arms : List Arm} {specs : List (ArmSpec H)} {B : Site H → Site H → Prop}
    (harms : List.Forall₂ (ArmOk H N env s) specs arms) (hother : ∀ act ∈ otherwise, ∀ s' w', s.Agrees s' →
      Does N env act s' w' fun s'' w'' => s'.Agrees s'' ∧ B w' w'') (hne : N → arms ≠ []) :
    Does N env (ifElse arms otherwise) s w fun s' w' => s.Agrees s' ∧
      (N → ∀ f, w'.Embeds f → IfCode f specs otherwise.isSome B w w') ∧
      (arms ≠ [] → Linked (2 * arms.length + otherwise.isSome.toNat + 1) w w') ∧
      IfEnds specs otherwise.isSome B w' := by
  refine .of_inside fun hopen hbody => ?_
  refine (steps_armsBlocks (.start (.stmt N s.loopExits) hbody) 0 arms).bind ?_
  rintro as s1 w1 _ ⟨hregion, hmap, hblock1, hregs1, hids1, hcount1⟩
  refine (steps_elseBlock? hregion).bind ?_
  rintro block s2 w2 _ ⟨hregion, hblock, hblock2, hregs2, hids2, hcount2⟩
  refine (hregion.append (isStem_of_getLast rfl rfl)).bind ?_
  rintro merge s3 w3 _ ⟨hregion, happ⟩
  have hids : List.range' w.fn.nextBlock (2 * arms.length + otherwise.isSome.toNat + 1) =
      (armIds as ++ block.toList) ++ [merge] := by
    rw [← range'_append_1, ← range'_append_1, hids1, hids2, ← happ.id_eq, hcount2, hcount1, Nat.add_assoc]
    rfl
  have hblock3 : w3.block = w.block := happ.block_eq.trans (hblock2.trans hblock1)
  have hregs3 : w3.fn.nextReg = w.fn.nextReg := happ.nextReg_eq.trans (hregs2.trans hregs1)
  simp only [nil_append, append_assoc] at hregion
  have hblocks : ∀ id ∈ armIds as, id ∈ armIds as ++ (block.toList ++ [merge]) :=
    fun _ => mem_append_left _
  have hmergeLast : merge ∈ block.toList ++ [merge] := mem_append_right _ mem_cons_self
  have hmerge : merge ∈ armIds as ++ (block.toList ++ [merge]) :=
    mem_append_right _ hmergeLast
  refine (steps_enterArms hregion hblocks hmergeLast (block.getD merge)).bind ?_
  rintro _ s4 w4 _ ⟨hregion4, hcloses4, hun4⟩
  have hcloses4 : arms ≠ [] → Closes w3 (.br (entry (block.getD merge) as)) w4 := by
    refine fun harmsNe => hcloses4 fun hnil => harmsNe ?_
    rw [← hmap, hnil]
    rfl
  -- Control goes past the guards to the last part, if there is one.
  have hlast : block.getD merge ∈ armIds as ++ (block.toList ++ [merge]) ∧
      (block.isSome = true → block.getD merge ≠ merge) := by
    cases block with
    | none => exact ⟨hmerge, nofun⟩
    | some id =>
      refine ⟨mem_append_right _ mem_cons_self, fun _ heq => ?_⟩
      have hnodup := (nodup_append.mp hregion.nodup).2.1
      exact (nodup_cons.mp hnodup).1 (heq ▸ mem_cons_self)
  have harms' : List.Forall₂ (fun spec arm => ArmOk H N env s spec arm.1) specs as :=
    forall₂_map_right_iff.mp (hmap ▸ harms)
  refine (steps_lowerArms hregion4 hbody harms' (fun hN => (hcloses4 (hne hN)).closed) hblocks hlast.1 hmerge
    hmergeLast).bind ?_
  rintro armsJoin s5 w5 _ ⟨hregion5, hclosed5, hjoin5, hcode5, hretains5, hjoined5, hreached5, closed, hends5, hall⟩
  refine (steps_lowerElse hregion5 hbody hother hclosed5 hblock hmerge).bind ?_
  rintro elseJoins s6 w6 _ ⟨hregion6, hclosed6, hjoin6, hcode6, hretains6, hjoined6, hends6⟩
  refine (steps_mergeAt hregion6 hclosed6 fun hjoins => ?_).imp ?_
  · obtain ⟨harmsJoin, helseJoins⟩ := Bool.or_eq_false_iff.mp hjoins
    obtain ⟨hsome, _, hkeep⟩ := hjoin6 helseJoins
    exact hkeep (hjoin5 harmsJoin (hlast.2 hsome) (hun4 happ.unreached))
  · rintro _ s7 w7 _ ⟨hinside, hregs7, hmerged, hsame7, hf7, hgone7, hkept7, _⟩
    have hretains7 : w6.Retains w7 := fun d hd hterm => hkept7 d hd (.inl hterm)
    have hopen3 : w3.Open := by rwa [Open, hblock3]
    refine ⟨hinside, fun hN f hf => ?_, fun harmsNe => ?_, closed, !elseJoins, hends5, hends6, ?_⟩
    · obtain ⟨hf5, hregs6, helse⟩ := hcode6 hN f (hf7 hN f hf)
      obtain ⟨hf4, hregs5, harmsCode⟩ := hcode5 hN f hf5
      have hregs4 : w.fn.nextReg = w4.fn.nextReg := by rw [(hcloses4 (hne hN)).nextReg_eq, hregs3]
      refine ⟨entry (block.getD merge) as, merge, block.getD merge, (armsJoin || elseJoins) = true, ?_, ?_,
        ?_, ?_, hmerged⟩
      · rw [← hblock3]
        exact (hcloses4 (hne hN)).block? hf4 hopen3
      · exact hregs4 ▸ Nat.le_trans hregs5 (Nat.le_trans hregs6 hregs7)
      · exact harmsCode.mono (Nat.le_of_eq hregs4) (Nat.le_trans hregs6 hregs7)
          fun h => Bool.or_eq_true_iff.mpr (.inl h)
      · exact helse.mono (hregs4 ▸ hregs5) hregs7 fun h => Bool.or_eq_true_iff.mpr (.inr h)
    · have hreached := hreached5 ((hcloses4 harmsNe).reached hopen3 mem_cons_self)
      have hother := hreached _ (mem_append_right _ mem_cons_self)
      have hretains := hretains6.trans hretains7
      refine .of_closes hblock3 hopen (hcloses4 harmsNe) (hretains5.trans hretains) hids ?_ ?_
      · intro id hid
        refine .retained ?_ hretains
        rcases mem_append.mp hid with hid | hid
        · exact hreached id (mem_append_left _ hid)
        · rw [Option.mem_toList.mp hid] at hother
          exact hother
      · intro b hb hbid
        cases hjoins : armsJoin || elseJoins with
        | false => exact absurd hbid (hgone7 hjoins b hb)
        | true =>
          rcases Bool.or_eq_true_iff.mp hjoins with hjoins | hjoins
          · exact (hjoined5 hjoins).retained hretains
          · exact (hjoined6 hjoins hother).retained hretains7
    · rw [hall]
      cases hjoins : armsJoin || elseJoins with
      | true =>
        rw [open_iff.mp (hmerged hjoins).2.2, Bool.and_assoc, ← Bool.not_or, hjoins, Bool.not_true, Bool.and_false]
      | false =>
        obtain ⟨harmsJoin, helseJoins⟩ := Bool.or_eq_false_iff.mp hjoins
        obtain ⟨hsome, hclosed, _⟩ := hjoin6 helseJoins
        rw [hsame7 hjoins, hclosed, harmsJoin, helseJoins, ← hblock, hsome]
        rfl

end Aero.Lowering
