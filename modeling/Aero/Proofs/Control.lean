import Aero.Lowering.Control
import Aero.Proofs.Execution
import Aero.Proofs.Flow

/-!
Statements that other statements are put together from. A statement keeps what a body promises, and
may close the current block. A guard and the statement that it guards are one after the other in the
code, with a fork between them.
-/

namespace Aero.Lowering

open IR IR.Site List Option

variable {s' s'' s : State}

/-- Of the scopes, only the innermost frame has changed. -/
structure State.Extends (s s' : State) : Prop where
  functions_eq : s'.functions = s.functions
  methods_eq : s'.methods = s.methods
  loopExits_eq : s'.loopExits = s.loopExits
  returnTy_eq : s'.returnTy = s.returnTy
  tail_eq : s'.scopes.inner.tail = s.scopes.inner.tail

theorem State.Agrees.extends (h : s.Agrees s') : s.Extends s' :=
  ⟨h.functions_eq, h.methods_eq, h.loopExits_eq, h.returnTy_eq, by rw [h.scopes_eq]⟩

theorem State.Extends.trans (h : s.Extends s') (h' : s'.Extends s'') : s.Extends s'' :=
  ⟨h'.functions_eq.trans h.functions_eq, h'.methods_eq.trans h.methods_eq,
    h'.loopExits_eq.trans h.loopExits_eq, h'.returnTy_eq.trans h.returnTy_eq,
    h'.tail_eq.trans h.tail_eq⟩

variable {H N : Prop} {env : Env} {w : Site H} {act : Lower Unit} {id exit : BlockId} {name : String} {slot : Slot}

/-- In a body, an action adds the code of a statement, and a condition holds of where it ends; or it
fails. The block may be closed afterwards. -/
structure Does (N : Prop) (env : Env) (act : Lower Unit) (s : State) (w : Site H)
    (K : State → Site H → Prop) : Prop where
  run : w.Open → Body s w → Outcome (Fails H False s)
    (fun _ s' => ∃ w', Body s' w' ∧ Grows (.stmt N s.loopExits) w w' ∧ K s' w') (act env s)

theorem Fails.loud {quiet : Prop} (h : Fails H quiet s s') : Fails H False s s' :=
  { h with same := fun h => h.elim, undeclared := fun h => h.elim }

theorem Fails.after (h : Fails H False s' s'')
    (hframe : s.builder.Frame s'.builder) (hext : s.Extends s') : Fails H False s s'' :=
  ⟨hframe.trans h.frame, h.tables, h.functions_eq.trans hext.functions_eq,
    h.methods_eq.trans hext.methods_eq, fun h => h.elim, fun h => h.elim⟩

theorem Tables.setScopes {scopes : Scopes} (h : Tables H s) (houter : scopes.outermost = []) :
    Tables H { s with scopes := scopes } :=
  ⟨h.sound, h.registered, h.functions, h.methods, h.fresh, houter⟩

theorem Tables.setExits (h : Tables H s) (exits : List BlockId) : Tables H { s with loopExits := exits } :=
  ⟨h.sound, h.registered, h.functions, h.methods, h.fresh, h.outermost⟩

namespace Does

variable {K : State → Site H → Prop} {R : Site H → Prop}

theorem of_inside (h : w.Open → Body s w → Steps env act s w (Fails H False s) fun _ s' w' =>
    Inside (.stmt N s.loopExits) s w s' w' ∧ R w') : Does N env act s w fun s' w' => s.Agrees s' ∧ R w' := by
  refine ⟨fun hopen hbody => ((h hopen hbody).run hbody.builder_eq).mono (fun _ h => h) ?_⟩
  rintro _ s' ⟨w', _, hinside, hR⟩
  exact ⟨w', hinside.body hbody, hinside.grows, hinside.agrees, hR⟩

theorem of_lowers (h : Lowers env act s w fun _ => R) :
    Does N env act s w fun s' w' => s.Agrees s' ∧ w'.Open ∧ R w' := by
  refine of_inside fun hopen hbody => ?_
  have hstart : Inside (.stmt N s.loopExits) s w s w := .start hbody
  refine (Steps.of_lowers h hbody hstart hopen).mono ?_ fun _ h => h.loud
  exact fun _ _ _ _ h => ⟨h.1, h.2.2.1, h.2.2.2⟩

theorem mono {K' : State → Site H → Prop} (h : Does N env act s w K)
    (hK : ∀ s' w', K s' w' → K' s' w') : Does N env act s w K' := by
  refine ⟨fun hopen hbody => (h.run hopen hbody).mono (fun _ h => h) ?_⟩
  rintro _ s' ⟨w', hbody', hgrows, hK'⟩
  exact ⟨w', hbody', hgrows, hK s' w' hK'⟩

theorem of_steps (h : w.Open → Body s w → Steps env act s w (Fails H False s) fun _ s' w' =>
    Body s' w' ∧ Grows (.stmt N s.loopExits) w w' ∧ K s' w') : Does N env act s w K := by
  refine ⟨fun hopen hbody => ((h hopen hbody).run hbody.builder_eq).mono (fun _ h => h) ?_⟩
  rintro _ s' ⟨w', _, hend⟩
  exact ⟨w', hend⟩

theorem steps (h : Does N env act s w K) (hopen : w.Open) (hbody : Body s w) :
    Steps env act s w (Fails H False s) fun _ s' w' => Body s' w' ∧ Grows (.stmt N s.loopExits) w w' ∧ K s' w' := by
  refine ⟨fun _ => (h.run hopen hbody).mono (fun _ h => h) ?_⟩
  rintro _ s' ⟨w', hend⟩
  exact ⟨w', hend.1.builder_eq, hend⟩

theorem lowers_bind {α : Type} {first : Lower α} {next : α → Lower Unit} {Q : α → Site H → Prop}
    (h : Lowers env first s w Q)
    (hnext : ∀ a s' w', w ≤ w' → s.Same s' → Q a w' → Does N env (next a) s' w' fun s'' w'' => s'.Agrees s'' ∧ R w'') :
    Does N env (first >>= next) s w fun s' w' => s.Agrees s' ∧ R w' := by
  refine ⟨fun hopen hbody => .bind ((h.run hopen hbody).mono (fun _ h => h.loud) fun _ _ h => h) ?_⟩
  rintro a s' ⟨w', hle, hopen', hsame, hbuilder, hQ⟩
  refine ((hnext a s' w' hle hsame hQ).run hopen' (hbody.same hle hsame hbuilder)).mono ?_ ?_
  · exact fun _ => (Inside.of_le (e := .plain) hbody hle hsame hbuilder).fails hbody fun h => h.elim
  · rintro _ s'' ⟨w'', hbody'', hgrows, hagrees, hR⟩
    rw [hsame.loopExits_eq] at hgrows
    exact ⟨w'', hbody'', (Grows.of_le hle).trans hgrows, hsame.toAgrees.trans hagrees, hR⟩

theorem state_bind {next : State → Lower Unit} (h : Does N env (next s) s w K) :
    Does N env (state >>= next) s w K := ⟨h.run⟩

theorem read_bind {next : Env → Lower Unit} (h : Does N env (next env) s w K) :
    Does N env (read >>= next) s w K := ⟨h.run⟩

theorem fail {problem : Problem} {span : Span} : Does N env (fail problem span) s w K :=
  ⟨fun _ hbody => .refl hbody.tables⟩

/-- The block is closed by a jump that may leave a loop. -/
theorem finish {t : Terminator} (hends : w.Open → Body s w → w.Ends t)
    (hexits : ∀ id ∈ t.successors, id ∈ s.loopExits) :
    Does N env (liftM (Build.terminate t)) s w fun s' w' => s.Agrees s' ∧ w.Finished t w' := by
  refine of_inside fun hopen hbody => ?_
  have hstart : Inside (.stmt N s.loopExits) s w s w := .start hbody
  exact hstart.finish (hends hopen hbody) hexits

/-- A statement that declares nothing, of which one thing is known from another. -/
theorem toExtends {T : Site H → Prop} (h : Does N env act s w fun s' w' => s.Agrees s' ∧ R w')
    (hT : ∀ w', R w' → T w') : Does N env act s w fun s' w' => s.Extends s' ∧ T w' :=
  h.mono fun _ w' h => ⟨h.1.extends, hT w' h.2⟩

end Does

/-! ### Scopes and loop exits -/

def Scopes.All (p : Slot → Prop) (s : Scopes) : Prop :=
  ∀ frame ∈ s.inner ++ [s.outermost], ∀ entry ∈ frame, p entry.2

namespace Scopes.All

variable {p : Slot → Prop} {s : Scopes}

variable (h : s.All p)
include h

theorem push : s.push.All p := by
  intro frame hframe entry hentry
  rcases mem_cons.mp hframe with rfl | hframe
  · cases hentry
  · exact h frame hframe entry hentry

theorem pop : s.pop.All p := by
  intro frame hframe
  refine h frame ?_
  rcases mem_append.mp hframe with hin | hout
  · exact mem_append_left _ (mem_of_mem_tail hin)
  · exact mem_append_right _ hout

theorem resolve? (hslot : s.resolve? name = some slot) : p slot := by
  obtain ⟨frame, hframe, hfound⟩ := exists_of_findSome?_eq_some hslot
  obtain ⟨entry, hentry, rfl⟩ := map_eq_some_iff.mp hfound
  exact h frame hframe entry (mem_of_find?_eq_some hentry)

theorem declare? (hslot : p slot) {s' : Scopes} (hs' : s.declare? name slot = some s') : s'.All p := by
  unfold Scopes.declare? at hs'
  split at hs'
  · cases hs'
  · split at hs'
    · next frame inner hinner =>
      obtain rfl := some.inj hs'
      intro other hother entry hentry
      rcases mem_cons.mp hother with rfl | hother
      · rcases mem_cons.mp hentry with rfl | hentry
        · exact hslot
        · exact h frame (by simp [hinner]) entry hentry
      · exact h other (by rw [hinner]; exact mem_cons_of_mem _ hother) entry hentry
    · next hinner =>
      obtain rfl := some.inj hs'
      intro other hother entry hentry
      rw [hinner, nil_append, mem_singleton] at hother
      subst hother
      rcases mem_cons.mp hentry with rfl | hentry
      · exact hslot
      · exact h s.outermost (mem_append_right _ mem_cons_self) entry hentry

end Scopes.All

theorem withScope_run (act : Lower Unit) (env : Env) (s : State) :
    withScope act env s = match act env { s with scopes := s.scopes.push } with
      | .ok a s' => .ok a { s' with scopes := s'.scopes.pop }
      | .error d s' => .error d { s' with scopes := s'.scopes.pop } := by
  simp only [withScope, bind_run, update, attempt]
  cases act env { s with scopes := s.scopes.push } <;> rfl

theorem withLoopExit_run (exit : BlockId) (act : Lower Unit) (env : Env) (s : State) :
    withLoopExit exit act env s = match act env { s with loopExits := exit :: s.loopExits } with
      | .ok a s' => .ok a { s' with loopExits := s'.loopExits.tail }
      | .error d s' => .error d { s' with loopExits := s'.loopExits.tail } := by
  simp only [withLoopExit, bind_run, update, attempt]
  cases act env { s with loopExits := exit :: s.loopExits } <;> rfl

theorem Body.push (h : Body s w) : Body { s with scopes := s.scopes.push } w where
  tables := h.tables.setScopes h.tables.outermost
  builder_eq := h.builder_eq
  returnTy_eq := h.returnTy_eq
  inner_ne := cons_ne_nil _ _
  slots := by
    intro frame hframe p hp
    rcases mem_cons.mp hframe with rfl | hframe
    · cases hp
    · exact h.slots frame hframe p hp
  exits := h.exits

def State.inLoop (s : State) (exit : BlockId) : State :=
  { s with loopExits := exit :: s.loopExits }

theorem State.Agrees.inLoop (h : s.Agrees s') (exit : BlockId) : (s.inLoop exit).Agrees (s'.inLoop exit) :=
  { h with loopExits_eq := congrArg (exit :: ·) h.loopExits_eq }

theorem Body.pushExit (h : Body s w) (hexit : w.CanEnter exit) : Body (s.inLoop exit) w where
  tables := h.tables.setExits _
  builder_eq := h.builder_eq
  returnTy_eq := h.returnTy_eq
  inner_ne := h.inner_ne
  slots := h.slots
  exits := by
    intro id hid
    rcases mem_cons.mp hid with rfl | hid
    · exact hexit
    · exact h.exits id hid

theorem Body.exit_lt (h : Body s w) (hid : id ∈ s.loopExits) : id < w.fn.nextBlock := by
  obtain ⟨_, ⟨d, hd, rfl, _⟩, _⟩ := h.exits id hid
  exact w.coherent.id_lt d hd

def State.pushed (s : State) : State := { s with scopes := s.scopes.push }

theorem Does.withScope {R : State → Site H → Prop}
    (h : Does N env act s.pushed w fun s' w' => s.pushed.Extends s' ∧ R s' w') :
    Does N env (withScope act) s w fun s' w' => s.Agrees s' ∧ ∃ s1, s.pushed.Extends s1 ∧ R s1 w' := by
  refine ⟨fun hopen hbody => ?_⟩
  have hrun := h.run hopen hbody.push
  rw [withScope_run]
  change Outcome _ _ (match act env s.pushed with | .ok _ _ => _ | .error _ _ => _)
  cases hres : act env s.pushed with
  | error d s' =>
    rw [hres] at hrun
    exact ⟨hrun.frame, hrun.tables.setScopes hrun.tables.outermost, hrun.functions_eq,
      hrun.methods_eq, fun h => h.elim, fun h => h.elim⟩
  | ok a s' =>
    rw [hres] at hrun
    obtain ⟨w', hbody', hgrows, hext, hR⟩ := hrun
    have hagrees : s.Agrees { s' with scopes := s'.scopes.pop } := by
      refine ⟨?_, hext.functions_eq, hext.methods_eq, hext.loopExits_eq, hext.returnTy_eq⟩
      have hinner : s'.scopes.inner.tail = s.scopes.inner := hext.tail_eq
      have houter : s'.scopes.outermost = s.scopes.outermost :=
        hbody'.tables.outermost.trans hbody.tables.outermost.symm
      simp only [Scopes.pop, hinner, houter]
    exact ⟨w', hbody.grow hgrows hagrees hbody'.builder_eq
      (hbody'.tables.setScopes hbody'.tables.outermost), hgrows, hagrees, s', hext, hR⟩

namespace Region

variable {s0 : State} {w0 : Site H} {blocks todo : List BlockId} {R : Site H → Prop}

variable (h : Region (.stmt N s0.loopExits) s0 w0 blocks todo s w) (hbody : Body s0 w0)
include h hbody

theorem does (hopen : w.Open) (hact : Does N env act s w fun s' w' => s.Agrees s' ∧ R w') :
    Steps env act s w (Fails H False s0) fun _ s' w' =>
      Region (.stmt N s0.loopExits) s0 w0 blocks todo s' w' ∧ Grows (.stmt N s0.loopExits) w w' ∧ R w' := by
  refine ⟨fun _ => (hact.run hopen (h.inside.body hbody)).mono ?_ ?_⟩
  · exact fun _ => h.inside.fails hbody fun h => h
  · rintro _ s' ⟨w', hbody', hgrows, hagrees, hR⟩
    rw [h.inside.agrees.loopExits_eq] at hgrows
    refine ⟨w', hbody'.builder_eq, h.step ?_ hgrows, hgrows, hR⟩
    exact ⟨hbody'.builder_eq, h.inside.agrees.trans hagrees, hbody'.tables, fun h => h.elim,
      h.inside.grows.trans (hgrows.inside (fun _ h => h.elim))⟩

/-- A statement does not lead to a new block. -/
theorem unreached_of_does {w' : Site H} (hid : id ∈ todo)
    (hgrows : Grows (.stmt N s0.loopExits) w w') (hun : w.Unreached id) : w'.Unreached id := by
  refine hun.mono hgrows (h.todo_lt hid) fun hexit => ?_
  exact Nat.not_le_of_lt (hbody.exit_lt hexit) (h.pending id hid).1

/-- The body of a loop, from which `break` leads to a block of the region. -/
theorem doesInLoop (hopen : w.Open) (hexit : exit ∈ blocks)
    (hact : Does N env act (s.inLoop exit) w fun s' w' => (s.inLoop exit).Agrees s' ∧ R w') :
    Steps env (withLoopExit exit act) s w (Fails H False s0) fun _ s' w' =>
      Region (.stmt N s0.loopExits) s0 w0 blocks todo s' w' ∧ Grows (.stmt N (exit :: s0.loopExits)) w w' ∧ R w' := by
  refine ⟨fun _ => ?_⟩
  have hrun := hact.run hopen ((h.inside.body hbody).pushExit (h.canEnter hexit))
  have hexits := h.inside.agrees.loopExits_eq
  rw [withLoopExit_run]
  change Outcome _ _ (match act env (s.inLoop exit) with | .ok _ _ => _ | .error _ _ => _)
  cases hres : act env (s.inLoop exit) with
  | error d s' =>
    rw [hres] at hrun
    refine h.inside.fails hbody (fun h => h) ?_
    exact ⟨hrun.frame, hrun.tables.setExits _, hrun.functions_eq, hrun.methods_eq, fun h => h.elim, fun h => h.elim⟩
  | ok a s' =>
    rw [hres] at hrun
    obtain ⟨w', hbody', hgrows, hagrees, hR⟩ := hrun
    have hgrows' : Grows ((Effect.stmt N s0.loopExits).inside w0.fn.nextBlock (· ∈ todo)) w w' := by
      refine hgrows.weaken (fun h => h) (fun h => h) (fun id _ hid => ?_) fun _ h => h.elim
      rcases mem_cons.mp hid with rfl | hid
      · exact .inr (h.asks id hexit).1
      · exact .inl (hexits ▸ hid)
    have hagrees' : s.Agrees { s' with loopExits := s'.loopExits.tail } :=
      ⟨hagrees.scopes_eq, hagrees.functions_eq, hagrees.methods_eq,
        congrArg List.tail hagrees.loopExits_eq, hagrees.returnTy_eq⟩
    refine ⟨w', hbody'.builder_eq, h.step ?_ hgrows, ?_, hR⟩
    · exact ⟨hbody'.builder_eq, h.inside.agrees.trans hagrees', hbody'.tables.setExits _,
        fun h => h.elim, h.inside.grows.trans hgrows'⟩
    · change Grows (.stmt N (exit :: s.loopExits)) w w' at hgrows
      rwa [hexits] at hgrows

end Region

/-! ### Guarded parts -/

section

variable {f : Function} {t : Terminator} {w' : Site H}

theorem Closes.embeds (h : Closes w t w') (hf : w'.Embeds f) : w.Embeds f := by
  cases hterm : w.block.isTerminated with
  | true => exact h.same hterm ▸ hf
  | false =>
    refine hf.of_finished (h.finished ?_)
    exact open_iff.mpr hterm

theorem Closes.nextReg_eq (h : Closes w t w') : w'.fn.nextReg = w.fn.nextReg := by
  cases hterm : w.block.isTerminated with
  | true => rw [h.same hterm]
  | false =>
    refine (h.finished ?_).nextReg_eq
    exact open_iff.mpr hterm

theorem Closes.block? (h : Closes w t w') (hf : w'.Embeds f) (hopen : w.Open) :
    f.block? w.block.id = some (w.block.close t) :=
  hf.closed ((h.finished hopen).block_eq ▸ w'.block_mem)

/-- The end of a guard. Without one, the body always follows. -/
def fork (cond : Option Value) (body next : BlockId) : Terminator :=
  match cond with
  | some cond => .condBr cond body next
  | none => .br body

/-- In a function, the code of a guard is followed by that of a body, from which control goes on
elsewhere. -/
structure Branching (f : Function) (header guardEnd : Site H) (cond : Option Value)
    (start bodyEnd : Site H) (next after : BlockId) : Prop where
  isEmpty : header.block.instrs = []
  guard_le : header ≤ guardEnd
  guard_embeds : guardEnd.Embeds f
  forks : f.block? guardEnd.block.id = some (guardEnd.block.close (fork cond start.block.id next))
  body_isOpen : start.Open
  body_isEmpty : start.block.instrs = []
  body_nextReg_eq : start.fn.nextReg = guardEnd.fn.nextReg
  body_nextReg_le : start.fn.nextReg ≤ bodyEnd.fn.nextReg
  body_embeds : bodyEnd.Embeds f
  goesOn : bodyEnd.Open → f.block? bodyEnd.block.id = some (bodyEnd.block.close (.br after))

theorem branching {before header guardEnd forked start bodyEnd closed : Site H}
    {cond : Option Value} {body next after : BlockId} {exits : List BlockId}
    {set set' : Reg → Prop} (hmoved : before.MovedTo id set header) (hle : header ≤ guardEnd)
    (hopen : guardEnd.Open) (hforks : Closes guardEnd (fork cond body next) forked)
    (hentered : forked.MovedTo body set' start) (hgrows : Grows (.stmt N exits) start bodyEnd)
    (hcloses : Closes bodyEnd (.br after) closed) (hN : N)
    (hbefore : before.block.isTerminated = true) (hf : closed.Embeds f) :
    Branching f header guardEnd cond start bodyEnd next after ∧ before.Embeds f := by
  have hbody := hcloses.embeds hf
  have hforked := (hbody.of_grows hgrows hN fun h => h).of_movedTo hentered hforks.closed
  have hguard := hforks.embeds hforked
  refine ⟨⟨hmoved.isEmpty, hle, hguard, ?_, hentered.isOpen, hentered.isEmpty, ?_, hgrows.nextReg_le, hbody,
    hcloses.block? hf⟩, (hguard.of_le hle).of_movedTo hmoved hbefore⟩
  · rw [hentered.block_id]
    exact hforks.block? hforked hopen
  · rw [hentered.fn_eq, hforks.nextReg_eq]

end

end Aero.Lowering
