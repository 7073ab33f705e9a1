import Aero.Proofs.Eager

/-!
Where control comes from in the code of a conditional. With at least one branch, the block in which the
conditional begins is finished, and some block leads to each of the blocks that the conditional leaves in
the function. Without a branch neither is so: nothing leads away from where it begins.
-/

namespace Aero.Lowering

open IR IR.Site List

variable {act : Lower Unit}

/-- After a conditional without branches, the block in which it began is still open, and no block leads
to the first of its own blocks. -/
structure Loose {H : Prop} (w w' : Site H) : Prop where
  start : w.block ∈ w'.fn.blocks
  unreached : ∃ b ∈ w'.fn.blocks, b.id = w.fn.nextBlock ∧ w'.Unreached b.id

section

variable {H : Prop} {env : Env} {s : State} {w : Site H}

theorem does_ifElse_nil_none : Does False env (ifElse [] none) s w fun s' w' => s.Agrees s' ∧ Loose w w' := by
  refine .of_inside fun _ hbody => ?_
  change Steps env (liftM (Build.appendBlock "ifcont") >>= fun merge => mergeAt merge true) s w _ _
  refine ((Region.start (.stmt False s.loopExits) hbody).append (isStem_of_getLast rfl rfl)).bind ?_
  rintro merge s1 w1 _ ⟨hregion1, happ1⟩
  have hid := happ1.id_eq
  have hstart : w.block ∈ w1.fn.blocks := happ1.block_eq ▸ w1.block_mem
  refine (steps_mergeAt hregion1 False.elim fun h => by cases h).imp ?_
  rintro _ s2 w2 _ ⟨hinside, _, hmerged, _, _, _, hkept, hun⟩
  have hmerge := (hmerged rfl).1
  refine ⟨hinside, hkept _ hstart (.inr ?_), w2.block, w2.block_mem, hmerge.trans hid.symm, ?_⟩
  · exact hid ▸ ne_of_lt w.block_lt
  · rw [hmerge]
    exact hun merge (hregion1.todo_lt mem_cons_self) happ1.unreached

/-- The last part of a conditional leads neither to itself nor, unless it joins, to where ways meet. What
was left open before it stays so. -/
theorem steps_lowerElse_loose {s0 : State} {w0 : Site H} {blocks : List BlockId} {other merge : BlockId}
    (hregion : Region (.stmt False s0.loopExits) s0 w0 blocks [other, merge] s w)
    (hbody0 : Body s0 w0) (hact : ∀ (s' : State) (w' : Site H), s0.Agrees s' →
      Does False env act s' w' fun s'' _ => s'.Agrees s'' ∧ True)
    (hmerge : merge ∈ blocks) (hother : w.Unreached other) (hunmerged : w.Unreached merge) :
    Steps env (lowerElse (some act) (some other) merge) s w (Fails H False s0) fun joins s' w' =>
      Region (.stmt False s0.loopExits) s0 w0 blocks [merge] s' w' ∧ w.block ∈ w'.fn.blocks ∧
        (∃ b ∈ w'.fn.blocks, b.id = other) ∧ w'.Unreached other ∧ (joins = false → w'.Unreached merge) := by
  have hlt := hregion.todo_lt mem_cons_self
  have hne : other ≠ merge := fun heq =>
    (nodup_cons.mp hregion.nodup).1 (heq ▸ mem_cons_self)
  have hstart : w.block.id ≠ other := fun heq =>
    (hregion.pending other mem_cons_self).2.2.2.1 heq.symm
  refine (hregion.position False.elim).bind ?_
  rintro _ s1 w1 _ ⟨hregion1, hopen1, hmoved1⟩
  have hblock1 : w.block ∈ w1.fn.blocks := hmoved1.fn_eq ▸ w.block_mem
  have hid1 : w.block.id ≠ w1.block.id := hmoved1.block_id ▸ hstart
  refine (hregion1.does hbody0 hopen1 (hact s1 w1 hregion1.inside.agrees)).bind ?_
  rintro _ s2 w2 _ ⟨hregion2, hgrows2, _⟩
  have hunreached : ∀ id ∈ [other, merge], w.Unreached id → w2.Unreached id := by
    intro id hid hun
    refine (hun.of_fn_eq hmoved1.fn_eq).mono hgrows2 (hmoved1.fn_eq ▸ hregion.todo_lt hid) fun hexit => ?_
    exact Nat.not_le_of_lt (hbody0.exit_lt hexit) (hregion.pending id hid).1
  refine (steps_joinAt hregion2 hmerge).imp ?_
  rintro joins s3 w3 _ ⟨hregion3, hcloses3, _, hsame, _⟩
  have hgrows : Grows .any w1 w3 := hgrows2.any.trans hcloses3.grows
  refine ⟨hregion3, hgrows.kept _ hblock1 hid1, ?_, ?_, fun hjoins => ?_⟩
  · exact hgrows.id_stays ⟨w1.block, w1.block_mem, hmoved1.block_id⟩
  · refine hcloses3.unreached other ?_ (fun hmem => hne (mem_singleton.mp hmem)) ?_
    · exact lt_of_lt_of_le (hmoved1.fn_eq ▸ hlt) hgrows2.nextBlock_le
    · exact hunreached other mem_cons_self hother
  · rw [hsame hjoins]
    exact hunreached merge (mem_cons_of_mem _ mem_cons_self) hunmerged

theorem does_ifElse_nil_some (hact : ∀ (s' : State) (w' : Site H), s.Agrees s' →
      Does False env act s' w' fun s'' _ => s'.Agrees s'' ∧ True) :
    Does False env (ifElse [] (some act)) s w fun s' w' => s.Agrees s' ∧ Loose w w' := by
  refine .of_inside fun _ hbody => ?_
  change Steps env (liftM (Build.appendBlock "else") >>= fun other =>
    liftM (Build.appendBlock "ifcont") >>= fun merge =>
      lowerElse (some act) (some other) merge >>= fun joins => mergeAt merge joins) s w _ _
  refine ((Region.start (.stmt False s.loopExits) hbody).append (isStem_of_getLast rfl rfl)).bind ?_
  rintro other s1 w1 _ ⟨hregion1, happ1⟩
  refine (hregion1.append (isStem_of_getLast rfl rfl)).bind ?_
  rintro merge s2 w2 _ ⟨hregion2, happ2⟩
  have hblock2 : w2.block = w.block := happ2.block_eq.trans happ1.block_eq
  have hother : w2.Unreached other :=
    happ1.unreached.mono (happ2.grows ⟨True, True, fun _ => False, fun _ => True⟩ trivial)
      (hregion1.todo_lt mem_cons_self) fun h => h
  have hlt : other < merge := by
    rw [← happ2.id_eq, happ1.nextBlock_eq, happ1.id_eq]
    exact Nat.lt_succ_self other
  refine (steps_lowerElse_loose hregion2 hbody hact (mem_cons_of_mem _ mem_cons_self) hother
    happ2.unreached).bind ?_
  rintro joins s3 w3 _ ⟨hregion3, hstart3, ⟨b, hb, hbid⟩, hother3, hmerge3⟩
  refine (steps_mergeAt hregion3 False.elim hmerge3).imp ?_
  rintro _ s4 w4 _ ⟨hinside, _, _, _, _, _, hkept, hun⟩
  refine ⟨hinside, hkept _ (hblock2 ▸ hstart3) (.inr ?_), b, hkept b hb (.inr ?_), ?_, ?_⟩
  · have hstart := w.block_lt
    rw [happ1.id_eq] at hstart
    exact ne_of_lt (lt_trans hstart hlt)
  · exact hbid ▸ ne_of_lt hlt
  · exact hbid.trans happ1.id_eq.symm
  · rw [hbid]
    exact hun other (lt_trans hlt (hregion3.todo_lt mem_cons_self)) hother3

theorem length_lowerBranches (branches : List Branch) : (lowerBranches branches).length = branches.length := by
  induction branches with
  | nil => rfl
  | cons branch branches ih =>
    obtain ⟨cond, body, _⟩ := branch
    rw [lowerBranches, length_cons, ih]
    rfl

/-- A conditional with branches is linked, and one without is not. -/
theorem does_ifStmt {span : Span} {branches : List Branch} {otherwise : Option (Spanned StmtBlock)} :
    Does False env (lowerStmt span (.ifElse branches otherwise)) s w fun s' w' => s.Agrees s' ∧
      (branches ≠ [] → Linked (2 * branches.length + otherwise.isSome.toNat + 1) w w') ∧
      (branches = [] → Loose w w') := by
  obtain ⟨specs, harms, _⟩ : ∃ specs, List.Forall₂ (ArmOk H False env s) specs (lowerBranches branches) ∧ _ :=
    lowerBranches_ok branches False.elim
  have hlength : (lowerBranches branches).length = branches.length := length_lowerBranches branches
  cases branches with
  | nil =>
    cases otherwise with
    | none =>
      exact does_ifElse_nil_none.mono fun _ _ h => ⟨h.1, fun hne => absurd rfl hne, fun _ => h.2⟩
    | some other =>
      refine (does_ifElse_nil_some fun s' w' _ => (does_lowerBlock other.node False.elim s' w').mono
        fun _ _ h => ⟨h.1, trivial⟩).mono ?_
      exact fun _ _ h => ⟨h.1, fun hne => absurd rfl hne, fun _ => h.2⟩
  | cons branch branches =>
    have hne : lowerBranches (branch :: branches) ≠ [] := fun hnil => by
      rw [hnil] at hlength
      cases hlength
    cases otherwise with
    | none =>
      refine (does_ifElse (B := fun _ _ => True) harms (fun _ h => by cases h) False.elim).mono ?_
      exact fun _ _ h => ⟨h.1, fun _ => hlength ▸ h.2.2.1 hne, nofun⟩
    | some other =>
      refine (does_ifElse (B := fun _ w' => w'.block.isTerminated = other.node.isTerminating) harms
        (fun act hact s' w' _ => ?_) False.elim).mono ?_
      · exact Option.some.inj hact ▸ does_lowerBlock other.node False.elim s' w'
      · exact fun _ _ h => ⟨h.1, fun _ => hlength ▸ h.2.2.1 hne, nofun⟩

end

/-- The blocks that a conditional adds to a function: one for the guard and one for the body of each
branch, one for the last part, and one where the ways meet. -/
def ifBlocks (f : Function) (branches : List Branch) (otherwise : Option (Spanned StmtBlock)) : List BlockId :=
  List.range' f.nextBlock (2 * branches.length + otherwise.isSome.toNat + 1)

/-- In a body, after a conditional, the block in which it began is finished if and only if it has a
branch, and that is also when some block leads to each of its blocks that are left. -/
theorem ifElse_connected_iff {H : Prop} {env : Env} {span : Span} {branches : List Branch}
    {otherwise : Option (Spanned StmtBlock)} {s s' : State} {w : Site H} (hbody : Body s w) (hopen : w.Open)
    (hrun : lowerStmt span (.ifElse branches otherwise) env s = .ok () s') :
    ∃ f, s'.builder.function? = some f ∧ ((∃ b, f.block? w.block.id = some b ∧ b.isTerminated = true) ↔ branches ≠ []) ∧
      ((∀ b ∈ f.blocks, b.id ∈ ifBlocks w.fn branches otherwise → ∃ d ∈ f.blocks, b.id ∈ d.successors) ↔
        branches ≠ []) := by
  have hdoes : Outcome _ _ (lowerStmt span (.ifElse branches otherwise) env s) :=
    does_ifStmt.run hopen hbody
  rw [hrun] at hdoes
  obtain ⟨w', hbody', _, _, hlinked, hloose⟩ := hdoes
  have hnodup := w'.coherent.ids_nodup
  refine ⟨w'.fn, hbody'.builder_eq ▸ w'.at_block.function?, ⟨?_, fun hne => ?_⟩, ⟨?_, fun hne => ?_⟩⟩
  · rintro ⟨b, hb, hterm⟩ hnil
    have hstart := Function.block?_eq_some hnodup (hloose hnil).start
    rw [Option.some.inj (hb.symm.trans hstart), Block.isTerminated, hopen] at hterm
    cases hterm
  · obtain ⟨b, hb, hid, hterm⟩ := (hlinked hne).start
    exact ⟨b, hid ▸ Function.block?_eq_some hnodup hb, hterm⟩
  · intro hreached hnil
    obtain ⟨b, hb, hid, hun⟩ := (hloose hnil).unreached
    have hfirst : b.id ∈ ifBlocks w.fn branches otherwise := by
      rw [hid, ifBlocks, List.range'_succ]
      exact List.mem_cons_self
    obtain ⟨d, hd, hmem⟩ := hreached b hb hfirst
    exact hun d hd hmem
  · exact (hlinked hne).reached

/-- The branches of `if true { return } else if false { }`. -/
def returningBranches : List Branch :=
  [⟨⟨.literal (.bool true), {}⟩, ⟨⟨[⟨.ret none, {}⟩]⟩, {}⟩⟩, ⟨⟨.literal (.bool false), {}⟩, ⟨⟨[]⟩, {}⟩⟩]

theorem returningBranches_connected :
    ∃ s' f, lowerStmt {} (.ifElse returningBranches none) bareEnv bareStart = .ok () s' ∧
      s'.builder.function? = some f ∧
      (∃ b, f.block? bareSite.block.id = some b ∧ b.isTerminated = true) ∧
      ∀ b ∈ f.blocks, b.id ∈ ifBlocks bareSite.fn returningBranches none → ∃ d ∈ f.blocks, b.id ∈ d.successors := by
  have hok : EStateM.run' (lowerStmt {} (.ifElse returningBranches none) bareEnv) bareStart = some () := by
    decide +kernel
  cases hrun : lowerStmt {} (.ifElse returningBranches none) bareEnv bareStart with
  | error d s' =>
    delta EStateM.run' EStateM.run at hok
    rw [hrun] at hok
    cases hok
  | ok _ s' =>
    obtain ⟨f, hf, hstart, hreached⟩ := ifElse_connected_iff bareStart_body rfl hrun
    have hne : returningBranches ≠ [] := List.cons_ne_nil _ _
    exact ⟨s', f, rfl, hf, hstart.mpr hne, hreached.mpr hne⟩

def branchlessFile : File :=
  { name := "branchless"
    items := [⟨.fn ⟨⟨"f", {}⟩, [], none, ⟨⟨[⟨.ifElse [] none, {}⟩]⟩, {}⟩⟩, {}⟩] }

/-- A conditional without branches leaves the entry open, and nothing leads to where the ways meet. -/
theorem branchless_unconnected : (run bareEnv branchlessFile "branchless").diagnostics = [] ∧
      ((run bareEnv branchlessFile "branchless").module.function? "f").map
          (·.blocks.map fun b => (b.label, b.isTerminated, b.successors)) =
        some [("entry", false, []), ("ifcont", true, [])] := by
  constructor <;> decide +kernel

end Aero.Lowering
