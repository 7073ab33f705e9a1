import Aero.Proofs.Compute
import Aero.Proofs.Conditional
import Aero.Proofs.Loop

/-!
Statements on numbers. The code of a statement follows evaluation: a run from its start goes on at its
end, leaves the loop around it or returns, as evaluation does. So do sequences, conditionals and loops
if their parts do.
-/

open Option

namespace Aero.IR

variable {P : Platform} {H : Prop}

/-- A run is at the start of a block. -/
structure Point.Enters (c : Point P) (id : BlockId) : Prop where
  block_eq : c.block = id
  done_eq : c.done = 0

theorem Point.Enters.at {w : Site H} {c : Point P} (h : c.Enters w.block.id) (hempty : w.block.instrs = []) : c.At w :=
  ⟨h.block_eq, by rw [h.done_eq, hempty, List.length_nil]⟩

namespace Function

variable {f : Function} {c : Point P} {w : Site H}

theorem goes_br {target : BlockId} (hblock : f.block? w.block.id = some (w.block.close (.br target)))
    (hc : c.At w) : f.Goes c (c.jump target) :=
  .one ((step?_closed hblock hc.block_eq hc.done_eq).trans rfl)

theorem goes_condBr {cond : Value} {a b : BlockId} {x : Word}
    (hblock : f.block? w.block.id = some (w.block.close (.condBr cond a b))) (hc : c.At w)
    (hcond : c.int? cond = some x) : f.Goes c (c.jump (if x.isTrue then a else b)) := by
  refine .one ((step?_closed hblock hc.block_eq hc.done_eq).trans ?_)
  rw [Terminator.exec?, hcond]
  rfl

end Function

end Aero.IR

namespace Aero.Lowering

open IR IR.Site Evaluation

variable [Library] {f : Function} {exits : List BlockId} {frames frames1 frames' : List Frame}
  {otherwise act first second body : Compute Flow} {arms : List (Compute Bool × Compute Flow)}
  {outside : Store → Point cells → Prop} {w w1 w' bodyEnd : Site False} {c d : Point cells} {m : Store}
  {r : Flow × Store} {k n bound : Nat} {guard : Compute Bool}

theorem Matches.jump (h : Matches n frames m c) (target : BlockId) (hle : n ≤ k) : Matches k frames m (c.jump target) :=
  h.keep (fun _ _ => rfl) rfl hle

/-- A run gets to where a statement ends: past its code, at the exit of the innermost loop, or out of
the function. -/
def Lands (f : Function) (exits : List BlockId) (frames : List Frame)
    (outside : Store → Point cells → Prop) (w : Site False) (c : Point cells) : Flow × Store → Prop
  | (.next, m) => w.Open ∧ ∃ d, f.Goes c d ∧ d.At w ∧ Matches w.fn.nextReg frames m d
  | (.leave, m) => ∃ exit ∈ exits.head?, ∃ d, f.Goes c d ∧ d.Enters exit ∧ outside m d
  | (.ret value, _) => f.Ends c value

theorem Lands.of_goes (hgoes : f.Goes c d) (h : Lands f exits frames outside w d r) :
    Lands f exits frames outside w c r := by
  obtain ⟨flow, m⟩ := r
  cases flow with
  | next =>
    obtain ⟨hopen, e, hgoes', hend⟩ := h
    exact ⟨hopen, e, hgoes.trans hgoes', hend⟩
  | leave =>
    obtain ⟨exit, hexit, e, hgoes', hend⟩ := h
    exact ⟨exit, hexit, e, hgoes.trans hgoes', hend⟩
  | ret value => exact hgoes.ends h

/-- From the end of one part a run goes on to that of another. -/
theorem Lands.onward (h : Lands f exits frames outside w1 c r)
    (hnext : ∀ m d, w1.Open → d.At w1 → Matches w1.fn.nextReg frames m d →
      Lands f exits frames' outside w' d (.next, m)) : Lands f exits frames' outside w' c r := by
  obtain ⟨flow, m⟩ := r
  cases flow with
  | next =>
    obtain ⟨hopen, d, hgoes, hd, hm⟩ := h
    exact (hnext m d hopen hd hm).of_goes hgoes
  | leave => exact h
  | ret value => exact h

/-- The code between two sites follows evaluation. -/
def Follows (act : Compute Flow) (exits : List BlockId) (before after : List Frame)
    (outside : Store → Point cells → Prop) (w w' : Site False) : Prop :=
  w.Open → ∀ m r, act m = some r → ∀ f : Function, w'.Embeds f → ∀ c : Point cells, c.At w →
    Matches w.fn.nextReg before m c → Lands f exits after outside w' c r

/-- The code of statements that have a scope of their own. -/
def BlockRuns (act : Compute Flow) (exits : List BlockId) (frames : List Frame) (w w' : Site False) : Prop :=
  Follows act exits frames frames (fun m d => ∃ k, Matches k frames m d) w w'

/-- The code of a statement, which may declare names. They are in the innermost scope, which is left
with the loop around the statement. -/
def StmtRuns (act : Compute Flow) (exits : List BlockId) (frames frames' : List Frame) (w w' : Site False) : Prop :=
  Follows act exits frames frames' (fun m d => ∃ k, Matches k frames.tail m.pop d) w w'

theorem BlockRuns.stmtRuns (h : BlockRuns act exits frames w w') : StmtRuns act exits frames frames w w' := by
  intro hopen m r hact f hf c hc hm
  have hlands := h hopen m r hact f hf c hc hm
  obtain ⟨flow, m'⟩ := r
  cases flow with
  | next => exact hlands
  | leave =>
    obtain ⟨exit, hexit, d, hgoes, hd, k, hm'⟩ := hlands
    exact ⟨exit, hexit, d, hgoes, hd, k, hm'.pop⟩
  | ret value => exact hlands

theorem StmtRuns.inScope (h : StmtRuns act exits ([] :: frames) frames' w w')
    (htail : frames'.tail = frames) : BlockRuns (inScope act) exits frames w w' := by
  intro hopen m r hact f hf c hc hm
  simp only [Evaluation.inScope, bind_eq_bind, bind_eq_some_iff] at hact
  obtain ⟨⟨flow, m'⟩, hact, heq⟩ := hact
  cases heq
  have hlands := h hopen m.push _ hact f hf c hc hm.push
  cases flow with
  | next =>
    obtain ⟨hopen', d, hgoes, hd, hm'⟩ := hlands
    exact ⟨hopen', d, hgoes, hd, htail ▸ hm'.pop⟩
  | leave | ret value => exact hlands

theorem StmtRuns.andThen (h : StmtRuns first exits frames frames1 w w1)
    (h' : StmtRuns second exits frames1 frames' w1 w') (htail : frames1.tail = frames.tail)
    (hembeds : ∀ f : Function, w'.Embeds f → w1.Embeds f) :
    StmtRuns (andThen first second) exits frames frames' w w' := by
  intro hopen m r hact f hf c hc hm
  simp only [Evaluation.andThen, bind_eq_bind, bind_eq_some_iff] at hact
  obtain ⟨⟨flow, m'⟩, hfirst, hsecond⟩ := hact
  have hlands := h hopen m _ hfirst f (hembeds f hf) c hc hm
  cases flow with
  | next =>
    obtain ⟨hopen1, d, hgoes, hd, hm'⟩ := hlands
    have hrest := h' hopen1 m' r hsecond f hf d hd hm'
    rw [htail] at hrest
    exact hrest.of_goes hgoes
  | leave | ret value =>
    cases hsecond
    exact hlands

/-- The code between two sites changes variables as evaluation does. -/
def Updates (step : Store → Option Store) (frames : List Frame) (w w' : Site False) : Prop :=
  ∀ m m', step m = some m' → Carries w w' (Matches w.fn.nextReg frames m) (Matches w'.fn.nextReg frames m')

theorem StmtRuns.of_carries (hopen : w'.Open) (h : ∀ m r, act m = some r → ∃ m', r = (.next, m') ∧
    Carries w w' (Matches w.fn.nextReg frames m) (Matches w'.fn.nextReg frames' m')) :
    StmtRuns act exits frames frames' w w' := by
  intro _ m r hact f hf c hc hm
  obtain ⟨m', rfl, hcarries⟩ := h m r hact
  obtain ⟨d, hruns, hd, hm'⟩ := hcarries f hf c hc hm
  exact ⟨hopen, d, hruns.goes, hd, hm'⟩

theorem StmtRuns.skip : StmtRuns (fun m => some (.next, m)) exits frames frames w w := by
  intro hopen m r hr f _ c hc hm
  cases hr
  exact ⟨hopen, c, .refl c, hc, hm⟩

theorem StmtRuns.of_none (h : ∀ m, act m = none) : StmtRuns act exits frames frames' w w' := by
  intro _ m r hact
  rw [h m] at hact
  cases hact

/-! ### Guards -/

/-- The code of a guard decides as evaluation does. Without a guard there is no code. -/
def Decides (guard : Compute Bool) (frames : List Frame) (w : Site False) (cond : Option Value)
    (w' : Site False) : Prop :=
  match cond with
  | some v => Computes .ofBool guard frames w v w'
  | none => (∀ m, guard m = some (true, m)) ∧ w' = w

theorem Branching.decides {header guardEnd start : Site False} {cond : Option Value}
    {next after : BlockId} {b : Bool} {m' : Store} (hcode : Branching f header guardEnd cond start bodyEnd next after)
    (hguard : Decides guard frames header cond guardEnd) (hact : guard m = some (b, m'))
    (hc : c.Enters header.block.id) (hm : Matches header.fn.nextReg frames m c) :
    ∃ d, f.Goes c d ∧ d.Enters (if b then start.block.id else next) ∧ Matches guardEnd.fn.nextReg frames m' d := by
  have hat := hc.at hcode.isEmpty
  have hforks := hcode.forks
  cases cond with
  | some v =>
    obtain ⟨d, hruns, hd, hm', hv⟩ := hguard m b m' hact f hcode.guard_embeds c hat hm
    refine ⟨_, hruns.goes.trans (f.goes_condBr hforks hd hv.read), ⟨?_, rfl⟩, hm'.jump _ (le_refl _)⟩
    cases b <;> rfl
  | none =>
    obtain ⟨htrue, heq⟩ := hguard
    rw [htrue m] at hact
    cases hact
    rw [heq] at hforks ⊢
    exact ⟨_, f.goes_br hforks hat, ⟨rfl, rfl⟩, hm.jump _ (le_refl _)⟩

/-! ### Conditionals -/

def branchSpec (exits : List BlockId) (frames : List Frame) (arm : Compute Bool × Compute Flow) : ArmSpec False where
  guard w v w' := Computes .ofBool arm.1 frames w v w'
  body w w' := BlockRuns arm.2 exits frames w w'

variable {merge other id : BlockId} {joins : Prop} {last : Site False}

theorem lands_join (hmerged : joins → last.block.id = merge ∧ last.block.instrs = [] ∧ last.Open) (hjoins : joins)
    (hgoesOn : f.block? bodyEnd.block.id = some (bodyEnd.block.close (.br merge)))
    (hle : bodyEnd.fn.nextReg ≤ last.fn.nextReg) (hd : d.At bodyEnd)
    (hm : Matches bodyEnd.fn.nextReg frames m d) : Lands f exits frames outside last d (.next, m) := by
  obtain ⟨hid, hempty, hopen⟩ := hmerged hjoins
  have henters : (d.jump merge).Enters last.block.id := ⟨hid.symm, rfl⟩
  exact ⟨hopen, _, f.goes_br hgoesOn hd, henters.at hempty, hm.jump merge hle⟩

theorem ArmsCode.lands (h : ArmsCode f n last.fn.nextReg merge other joins id (arms.map (branchSpec exits frames)))
    (hmerged : joins → last.block.id = merge ∧ last.block.instrs = [] ∧ last.Open)
    (hother : ∀ m r, otherwise m = some r → ∀ c : Point cells, c.Enters other →
      Matches n frames m c → Lands f exits frames (fun m d => ∃ k, Matches k frames m d) last c r) :
    ∀ m r, choose otherwise arms m = some r → ∀ c : Point cells, c.Enters id → Matches n frames m c →
      Lands f exits frames (fun m d => ∃ k, Matches k frames m d) last c r := by
  induction arms generalizing id with
  | nil =>
    cases h
    exact hother
  | cons arm arms ih =>
    rcases h with _ | ⟨⟨header, guardEnd, v, start, bodyEnd, rfl, hfirst, hlast, hguard, hbody, hjoins, hcode⟩, hrest⟩
    intro m r hact c hc hm
    simp only [choose, bind_eq_bind, bind_eq_some_iff] at hact
    obtain ⟨⟨b, m'⟩, hb, hact⟩ := hact
    obtain ⟨d, hgoes, hd, hm'⟩ := hcode.decides hguard hb hc (hm.keep (fun _ _ => rfl) rfl hfirst)
    refine .of_goes hgoes ?_
    cases b with
    | false => exact ih hrest m' r hact d hd (hm'.restrict hm.within)
    | true =>
      rw [← hcode.body_nextReg_eq] at hm'
      refine (hbody hcode.body_isOpen m' r hact f hcode.body_embeds d (hd.at hcode.body_isEmpty) hm').onward ?_
      exact fun m'' e hopen he hm'' =>
        lands_join hmerged (hjoins hopen) (hcode.goesOn hopen) hlast he hm''

/-- A conditional follows evaluation if its parts do. -/
theorem IfCode.blockRuns {present : Bool} {body : Site False → Site False → Prop}
    (h : ∀ f : Function, last.Embeds f → IfCode f (arms.map (branchSpec exits frames)) present body w last)
    (hother : if present then ∀ w w', body w w' → BlockRuns otherwise exits frames w w'
      else ∀ m, otherwise m = some (.next, m)) : BlockRuns (choose otherwise arms) exits frames w last := by
  intro _ m r hact f hf c hc hm
  obtain ⟨first, merge, other, joins, henters, hle, harms, helse, hmerged⟩ := h f hf
  refine .of_goes (f.goes_br henters hc) ?_
  refine harms.lands hmerged ?_ m r hact _ ⟨rfl, rfl⟩ (hm.jump first (le_refl _))
  intro m r hact c hc hm
  cases present with
  | false =>
    obtain ⟨rfl, hjoins⟩ := helse
    obtain ⟨hid, hempty, hopen⟩ := hmerged hjoins
    rw [hother m] at hact
    cases hact
    rw [← hid] at hc
    exact ⟨hopen, c, .refl c, hc.at hempty, hm.keep (fun _ _ => rfl) rfl hle⟩
  | true =>
    obtain ⟨start, bodyEnd, rfl, hopen, hempty, hfirst, hlast, hbody, hembeds, hgoesOn⟩ := helse
    refine (hother start bodyEnd hbody hopen m r hact f hembeds c (hc.at hempty)
      (hm.keep (fun _ _ => rfl) rfl hfirst)).onward ?_
    exact fun m' d hopen hd hm' =>
      lands_join hmerged (hgoesOn hopen).1 (hgoesOn hopen).2 hlast hd hm'

/-! ### Loops -/

section

variable {header guardEnd start : Site False} {cond : Option Value} {after : BlockId} {step : Store → Option Store}

/-- Each round of a loop goes through guard, body and step, until the guard fails or the loop is
left. -/
theorem LoopCode.lands (hcode : LoopCode f w header guardEnd cond start bodyEnd after last)
    (hguard : Decides guard frames header cond guardEnd)
    (hbody : BlockRuns body (last.block.id :: exits) frames start bodyEnd)
    (hstep : ∀ m m', step m = some m' → ∀ c : Point cells, c.Enters after → Matches bodyEnd.fn.nextReg frames m c →
      ∃ d, f.Goes c d ∧ d.Enters header.block.id ∧ ∃ k, Matches k frames m' d) :
    ∀ m r, loop guard body step bound m = some r → ∀ c : Point cells, c.Enters header.block.id →
      Matches header.fn.nextReg frames m c → Lands f exits frames outside last c r := by
  have hlast_le : header.fn.nextReg ≤ last.fn.nextReg := by
    have hbody_le := le_trans hcode.body_nextReg_le hcode.last_nextReg_le
    rw [hcode.body_nextReg_eq] at hbody_le
    exact le_trans hcode.guard_le.nextReg_le hbody_le
  induction bound with
  | zero =>
    intro m r hact
    cases hact
  | succ bound ih =>
    intro m r hact c hc hm
    -- Whatever a round declares, the variables of the loop are those from before.
    have hexit : ∀ {m' : Store} {d : Point cells} {k : Nat}, d.Enters last.block.id →
        Matches k frames m' d → Lands f exits frames outside last d (.next, m') :=
      fun hd hm' => ⟨hcode.last_isOpen, _, .refl _, hd.at hcode.last_isEmpty,
        (hm'.restrict hm.within).keep (fun _ _ => rfl) rfl hlast_le⟩
    simp only [loop, bind_eq_bind, bind_eq_some_iff] at hact
    obtain ⟨⟨b, m1⟩, hb, hact⟩ := hact
    obtain ⟨d, hgoes, hd, hm1⟩ := hcode.decides hguard hb hc hm
    refine .of_goes hgoes ?_
    cases b with
    | false =>
      cases hact
      exact hexit hd hm1
    | true =>
      simp only [Bool.not_true, Bool.false_eq_true, if_false, bind_eq_some_iff] at hact
      obtain ⟨⟨flow, m2⟩, hrun, hact⟩ := hact
      rw [← hcode.body_nextReg_eq] at hm1
      have hround := hbody hcode.body_isOpen m1 _ hrun f hcode.body_embeds d (hd.at hcode.body_isEmpty) hm1
      cases flow with
      | next =>
        obtain ⟨m3, hm3, hact⟩ := bind_eq_some_iff.mp hact
        obtain ⟨hopen, e, hgoes2, he, hm2⟩ := hround
        obtain ⟨g, hgoes3, hg, k, hmg⟩ :=
          hstep m2 m3 hm3 _ ⟨rfl, rfl⟩ (hm2.jump after (le_refl _))
        refine .of_goes ((hgoes2.trans (f.goes_br (hcode.goesOn hopen) he)).trans hgoes3) ?_
        exact ih m3 r hact g hg (hmg.restrict hm.within)
      | leave =>
        cases hact
        obtain ⟨_, hhead, e, hgoes2, he, k, hm2⟩ := hround
        cases hhead
        exact (hexit he hm2).of_goes hgoes2
      | ret value =>
        cases hact
        exact hround

theorem LoopCode.enter (hcode : LoopCode f w header guardEnd cond start bodyEnd after last)
    (hopen : w.Open) (hguard : Decides guard frames header cond guardEnd)
    (hbody : BlockRuns body (last.block.id :: exits) frames start bodyEnd)
    (hstep : ∀ m m', step m = some m' → ∀ c : Point cells, c.Enters after → Matches bodyEnd.fn.nextReg frames m c →
      ∃ d, f.Goes c d ∧ d.Enters header.block.id ∧ ∃ k, Matches k frames m' d)
    (hact : loop guard body step bound m = some r) (hc : c.At w)
    (hm : Matches w.fn.nextReg frames m c) : Lands f exits frames outside last c r := by
  refine .of_goes (f.goes_br (hcode.enters hopen) hc) ?_
  exact hcode.lands hguard hbody hstep m r hact _ ⟨rfl, rfl⟩ (hm.jump _ (le_of_eq hcode.nextReg_eq.symm))

end

theorem WhileCode.blockRuns (bound : Nat)
    (h : WhileCode True (Decides guard frames) (fun exit w w' => BlockRuns body (exit :: exits) frames w w') w last) :
    BlockRuns (loop guard body some bound) exits frames w last := by
  intro hopen m r hact f hf c hc hm
  obtain ⟨header, guardEnd, cond, start, bodyEnd, hguard, hbody, hcode⟩ := h trivial f hf
  refine hcode.enter hopen hguard hbody ?_ hact hc hm
  rintro m _ ⟨⟩ c hc hm
  exact ⟨c, .refl c, hc, _, hm⟩

theorem StepCode.blockRuns {step : Store → Option Store} (bound : Nat) (h : StepCode True (Decides guard frames)
      (fun exit w w' => BlockRuns body (exit :: exits) frames w w') (Updates step frames) w last) :
    BlockRuns (loop guard body step bound) exits frames w last := by
  intro hopen m r hact f hf c hc hm
  obtain ⟨header, guardEnd, cond, start, bodyEnd, stepStart, stepEnd, hguard, hbody, hstep, hcode, hempty,
    hle, hembeds, hback⟩ := h trivial f hf
  refine hcode.enter hopen hguard hbody ?_ hact hc hm
  intro m m' hm' c hc hm
  obtain ⟨d, hruns, hd, hmd⟩ := hstep m m' hm' f hembeds c (hc.at hempty) (hm.keep (fun _ _ => rfl) rfl hle)
  exact ⟨_, hruns.goes.trans (f.goes_br hback hd), ⟨rfl, rfl⟩, _, hmd.jump _ (le_refl _)⟩

end Aero.Lowering
