import Aero.Proofs.Emission

/-!
Regions of several blocks. New blocks are appended, the current one is finished, and work goes on at
one of the new ones. What is known of a site relative to the start of the region is carried along
until no block is pending.
-/

namespace Aero.IR

open List Option

variable {H : Prop} {α β : Type} {R Q : α → Site H → Prop} {id' id start target : BlockId} {s : Reg → Prop}
  {act : Build α} {t : Terminator} {sources : List BlockId} {pending : BlockId → Prop}

theorem Block.isTerminated_of_mem_successors {b : Block} (h : id ∈ b.successors) : b.isTerminated = true := by
  cases hterm : b.term with
  | none =>
    rw [Block.successors, hterm] at h
    cases h
  | some t =>
    rw [Block.isTerminated, hterm]
    rfl

namespace Site

theorem open_iff {w : Site H} : w.Open ↔ w.block.isTerminated = false :=
  isNone_iff_eq_none.symm.trans isSome_eq_false_iff.symm

/-- The effect inside a region that began when there were `start` blocks: new blocks may be branched
to, and some are pending. -/
def Effect.inside (e : Effect) (start : BlockId) (pending : BlockId → Prop) : Effect :=
  { e with exits := fun id => e.exits id ∨ start ≤ id, pending := pending }

/-- What a statement may leave behind: it may jump to the exits of the loops around it. Every block
gets a terminator if a condition holds. -/
def Effect.stmt (N : Prop) (exits : List BlockId) : Effect :=
  ⟨N, False, (· ∈ exits), fun _ => False⟩

/-- Anything may be left behind. -/
def Effect.any : Effect := ⟨False, False, fun _ => True, fun _ => True⟩

variable {e : Effect} {w0 w w' : Site H}

theorem Grows.any (h : Grows e w w') : Grows .any w w' :=
  h.weaken False.elim False.elim (fun _ _ _ => trivial) fun _ _ => trivial

theorem Grows.inside (h : Grows e w0 w)
    (hpending : ∀ id, e.pending id → pending id) : Grows (e.inside start pending) w0 w :=
  h.weaken (fun h => h) (fun h => h) (fun _ _ h => .inl h) hpending

theorem Grows.leave (h : Grows (e.inside w0.fn.nextBlock fun _ => False) w0 w) : Grows e w0 w :=
  h.weaken (fun h => h) (fun h => h) (fun _ hlt hid => hid.resolve_right (Nat.not_le_of_lt hlt)) fun _ h => h.elim

/-- No block leads to a block. -/
def Unreached (w : Site H) (id : BlockId) : Prop := ∀ d ∈ w.fn.blocks, id ∉ d.successors

theorem Unreached.mono (h : w.Unreached id) (hgrows : Grows e w w') (hlt : id < w.fn.nextBlock)
    (hexits : ¬ e.exits id) : w'.Unreached id := by
  intro d hd hid
  obtain ⟨b, hb, _, hbid⟩ := hgrows.edges id hlt hexits d hd hid
  exact h b hb hbid

theorem Unreached.of_fn_eq (h : w.Unreached id) (hfn : w'.fn = w.fn) : w'.Unreached id := by
  rw [Unreached, hfn]
  exact h

def Reached (w : Site H) (id : BlockId) : Prop := ∃ d ∈ w.fn.blocks, id ∈ d.successors

/-- Blocks that have a terminator are there later, as they are. -/
def Retains (w w' : Site H) : Prop :=
  ∀ d ∈ w.fn.blocks, d.isTerminated = true → d ∈ w'.fn.blocks

theorem Retains.refl (w : Site H) : w.Retains w := fun _ hd _ => hd

theorem Retains.trans {w'' : Site H} (h : w.Retains w') (h' : w'.Retains w'') : w.Retains w'' :=
  fun d hd hterm => h' d (h d hd hterm) hterm

theorem Retains.of_fn_eq (h : w'.fn = w.fn) : w.Retains w' := fun _ hd _ => h ▸ hd

theorem Grows.id_stays (h : Grows e w w') (hid : ∃ b ∈ w.fn.blocks, b.id = id) : ∃ b ∈ w'.fn.blocks, b.id = id := by
  obtain ⟨b, hb, rfl⟩ := hid
  by_cases hcur : b.id = w.block.id
  · obtain ⟨d, hd, hdid, _⟩ := h.current
    exact ⟨d, hd, hdid.trans hcur.symm⟩
  · exact ⟨b, h.kept b hb hcur, rfl⟩

theorem Grows.retains (h : Grows e w w') : w.Retains w' := by
  intro d hd hterm
  by_cases hcur : d.id = w.block.id
  · obtain ⟨b, hb, _, _, hsame⟩ := h.current
    have heq : d = w.block := w.coherent.eq_of_id_eq hd w.block_mem hcur
    exact heq ▸ hsame (heq ▸ hterm) ▸ hb
  · exact h.kept d hd hcur

theorem Reached.retained (h : w.Reached id) (hretains : w.Retains w') : w'.Reached id := by
  obtain ⟨d, hd, hid⟩ := h
  exact ⟨d, hretains d hd (Block.isTerminated_of_mem_successors hid), hid⟩

def Entered (w : Site H) (id : BlockId) (sources : List BlockId) : Prop :=
  ∀ d ∈ w.fn.blocks, id ∈ d.successors → d.id ∈ sources

theorem Entered.mono (h : w.Entered id sources) (hgrows : Grows e w w') (hlt : id < w.fn.nextBlock)
    (hexits : ¬ e.exits id) : w'.Entered id sources := by
  intro d hd hid
  obtain ⟨b, hb, hbd, hbid⟩ := hgrows.edges id hlt hexits d hd hid
  exact hbd ▸ h b hb hbid

/-- A new block was appended. -/
structure Appended (w : Site H) (id : BlockId) (s : Reg → Prop) (w' : Site H) : Prop where
  id_eq : w.fn.nextBlock = id
  nextBlock_eq : w'.fn.nextBlock = w.fn.nextBlock + 1
  nextReg_eq : w'.fn.nextReg = w.fn.nextReg
  block_eq : w'.block = w.block
  pending : w'.Pending id s
  unreached : w'.Unreached id
  grows : ∀ e : Effect, e.pending id → Grows e w w'

/-- The current block was finished. -/
structure Finished (w : Site H) (t : Terminator) (w' : Site H) : Prop where
  block_eq : w'.block = w.block.close t
  nextReg_eq : w'.fn.nextReg = w.fn.nextReg
  others : ∀ b ∈ w'.fn.blocks, b.id ≠ w.block.id → b ∈ w.fn.blocks
  grows : ∀ e : Effect, (∀ id ∈ t.successors, id < w.fn.nextBlock → e.exits id) → Grows e w w'

/-- Work went on at a pending block. -/
structure MovedTo (w : Site H) (id : BlockId) (s : Reg → Prop) (w' : Site H) : Prop where
  block_id : w'.block.id = id
  isOpen : w'.Open
  isEmpty : w'.block.instrs = []
  fn_eq : w'.fn = w.fn
  cert_eq : w'.cert = w.cert
  frame : w.builder.Frame w'.builder
  prototype?_eq : ∀ name, w'.builder.module.prototype? name = w.builder.module.prototype? name
  out : ∀ r, r < w.fn.nextReg → s r → w'.Out r
  others : ∀ id' s', id' ≠ id → w.Pending id' s' → w'.Pending id' s'
  grows : ∀ (e : Effect) (w0 : Site H) (pending : BlockId → Prop), Grows e w0 w →
    w0.fn.nextBlock ≤ id → (∀ r, w0.Out r → s r) → (e.settles → w.block.isTerminated = true) →
    (∀ x, e.pending x → x = id ∨ pending x) → Grows { e with pending := pending } w0 w'

/-- A new block that no way leads to was dropped. -/
structure Dropped (w : Site H) (id : BlockId) (w' : Site H) : Prop where
  block_eq : w'.block = w.block
  nextReg_eq : w'.fn.nextReg = w.fn.nextReg
  mem_iff : ∀ b, b ∈ w'.fn.blocks ↔ b ∈ w.fn.blocks ∧ b.id ≠ id
  kept : ∀ b ∈ w.fn.blocks, b.isTerminated = true ∨ b.id = w.block.id → b ∈ w'.fn.blocks
  frame : w.builder.Frame w'.builder
  prototype?_eq : ∀ name, w'.builder.module.prototype? name = w.builder.module.prototype? name
  grows : ∀ (e : Effect) (w0 : Site H) (pending : BlockId → Prop), Grows e w0 w →
    w0.fn.nextBlock ≤ id → (∀ x, e.pending x → x = id ∨ pending x) → Grows { e with pending := pending } w0 w'

theorem Entered.finished (h : w.Entered id sources) (hfin : w.Finished t w') :
    w'.Entered id (w.block.id :: sources) := by
  intro d hd hid
  by_cases hcur : d.id = w.block.id
  · exact hcur ▸ mem_cons_self
  · exact mem_cons_of_mem _ (h d (hfin.others d hd hcur) hid)

theorem Entered.movedTo (h : w.Entered id sources) (hmoved : w.MovedTo id' s w') : w'.Entered id sources := by
  rw [Entered, hmoved.fn_eq]
  exact h

/-- A block asks for some registers. -/
def Asks (w : Site H) (id : BlockId) (s : Reg → Prop) : Prop :=
  id ≠ 0 ∧ (∃ d ∈ w.fn.blocks, d.id = id ∧ d.PhiFree) ∧ w.cert id = s

theorem Pending.asks (h : w.Pending id s) : w.Asks id s := by
  obtain ⟨⟨label, hmem⟩, hcert, _, hzero⟩ := h
  exact ⟨hzero, ⟨_, hmem, rfl, fun _ hi => by cases hi⟩, hcert⟩

theorem Asks.canEnter (h : w.Asks id s) (hs : ∀ r, s r → w.Out r) : w.CanEnter id :=
  ⟨h.1, h.2.1, fun r hr => hs r (h.2.2 ▸ hr)⟩

theorem Asks.mono (h : w.Asks id s) (hgrows : Grows e w w') : w'.Asks id s := by
  obtain ⟨hzero, ⟨d, hd, rfl, hfree⟩, hcert⟩ := h
  exact ⟨hzero, hgrows.phiFree_stays ⟨d, hd, rfl, hfree⟩, (hgrows.cert_eq _ (w.coherent.id_lt d hd)).trans hcert⟩

theorem MovedTo.asks {s' : Reg → Prop} (h : w.MovedTo id s w') (hasks : w.Asks id' s') : w'.Asks id' s' := by
  rw [Asks, h.fn_eq, h.cert_eq]
  exact hasks

section

variable (hopen : w.Open)
include hopen

theorem ends_br (htarget : w.CanEnter target) : w.Ends (.br target) where
  isOpen := hopen
  uses := nofun
  targets := fun _ hid => mem_singleton.mp hid ▸ htarget
  typed := fun _ => trivial

theorem ends_condBr {cond : Value} {a b : BlockId} (hcond : w.Val cond .i1)
    (ha : w.CanEnter a) (hb : w.CanEnter b) : w.Ends (.condBr cond a b) where
  isOpen := hopen
  uses := fun _ hv => mem_singleton.mp hv ▸ hcond.1
  targets := by
    intro id hid
    rcases mem_cons.mp hid with rfl | hid
    · exact ha
    · exact mem_singleton.mp hid ▸ hb
  typed := hcond.2

theorem ends_unreachable : w.Ends .unreachable where
  isOpen := hopen
  uses := nofun
  targets := nofun
  typed := fun _ => trivial

theorem ends_ret {value : Value} (hvalue : w.Val value w.fn.ret) : w.Ends (.ret (some value)) where
  isOpen := hopen
  uses := fun _ hv => mem_singleton.mp hv ▸ hvalue.1
  targets := nofun
  typed := hvalue.2

theorem ends_retVoid (hret : w.fn.ret = .void) : w.Ends (.ret none) where
  isOpen := hopen
  uses := nofun
  targets := nofun
  typed := fun _ => hret.symm

end

/-- A terminator that leads to new blocks only is one of the region. -/
theorem Finished.inside (h : Finished w t w')
    (hnew : ∀ id ∈ t.successors, start ≤ id) : Grows (e.inside start pending) w w' :=
  h.grows _ fun id hid _ => .inr (hnew id hid)

theorem Finished.terminated (h : Finished w t w') : w'.block.isTerminated = true := by
  rw [h.block_eq]
  rfl

end Site

open Site

/-- An action leads from one site to another. -/
def Reaches (act : Build α) (w : Site H) (R : α → Site H → Prop) : Prop :=
  ∃ a w', act w.builder = (a, w'.builder) ∧ R a w'

namespace Reaches

variable {w : Site H}

theorem bind {next : α → Build β} {R : β → Site H → Prop} (hact : Reaches act w Q)
    (hnext : ∀ a w', Q a w' → Reaches (next a) w' R) : Reaches (act >>= next) w R := by
  obtain ⟨a, w', hrun, hQ⟩ := hact
  obtain ⟨b, w'', hrun', hR⟩ := hnext a w' hQ
  refine ⟨b, w'', ?_, hR⟩
  change next (act w.builder).1 (act w.builder).2 = _
  rw [hrun]
  exact hrun'

theorem pure {a : α} (h : R a w) : Reaches (Pure.pure a : Build α) w R :=
  ⟨a, w, rfl, h⟩

theorem mono (h : Reaches act w Q) (hQR : ∀ a w', Q a w' → R a w') : Reaches act w R := by
  obtain ⟨a, w', hrun, hQ⟩ := h
  exact ⟨a, w', hrun, hQR a w' hQ⟩

theorem discard {Q : Site H → Prop} (h : Reaches act w fun _ w' => Q w') :
    Reaches (Functor.discard act) w fun _ w' => Q w' := by
  obtain ⟨a, w', hrun, hQ⟩ := h
  refine ⟨(), w', ?_, hQ⟩
  change ((), (act w.builder).2) = _
  rw [hrun]

theorem with_run (h : Reaches act w Q) : Reaches act w fun a w' => Q a w' ∧ act w.builder = (a, w'.builder) := by
  obtain ⟨a, w', hrun, hQ⟩ := h
  exact ⟨a, w', hrun, hQ, hrun⟩

theorem of_emits (h : Emits act w Q) (hopen : w.Open) : Reaches act w fun a w' => w ≤ w' ∧ w'.Open ∧ Q a w' :=
  h hopen

theorem emits (h : w.Open → Reaches act w fun a w' => w ≤ w' ∧ w'.Open ∧ Q a w') : Emits act w Q := h

end Reaches

namespace Build

variable {w : Site H}

theorem reaches_append {label : String} (hlabel : IsStem label) (s : Reg → Prop) :
    Reaches (appendBlock label) w fun id w' => w.Appended id s w' := by
  obtain ⟨log, hrun⟩ := w.run_append s hlabel
  refine ⟨_, _, hrun, rfl, rfl, rfl, rfl, w.append_pending hlabel log, ?_, fun e he => w.append_grows hlabel log he⟩
  intro d hd hid
  rcases Function.mem_append.mp hd with hd | rfl
  · obtain ⟨_, ⟨b, hb, hbid⟩, _⟩ := w.coherent.edges d hd _ hid
    exact Nat.lt_irrefl _ (hbid ▸ w.coherent.id_lt b hb)
  · cases hid

theorem reaches_finish (h : w.Ends t) : Reaches (terminate t) w fun _ w' => w.Finished t w' :=
  ⟨_, _, w.run_finish h, rfl, rfl, fun _ hb hne => ((w.mem_finish h).mp hb).elim (·.1)
    fun hb => absurd (congrArg Block.id hb.1) hne, fun _ hexits => w.finish_grows h hexits⟩

theorem reaches_closed (h : w.block.isTerminated = true) : Reaches (terminate t) w fun _ w' => w = w' :=
  ⟨_, _, w.at_block.terminate_closed h t, rfl⟩

theorem reaches_position (h : w.Pending id s) : Reaches (position id) w fun _ w' => w.MovedTo id s w' := by
  obtain ⟨⟨label, hmem⟩, hcert, _, _⟩ := h
  refine ⟨_, _, w.run_moveTo hmem, rfl, rfl, rfl, rfl, rfl, w.replace_frame ..,
    fun _ => w.replace_prototype? .., ?_, ?_, ?_⟩
  · intro r hlt hr
    exact ⟨hlt, .inl (show w.cert id r from hcert ▸ hr)⟩
  · rintro id' s' hne ⟨hmem', hcert', _, hzero'⟩
    exact ⟨hmem', hcert', hne, hzero'⟩
  · intro e w0 pending hgrows hnew hout hclosed hpending
    exact hgrows.moveTo hmem hnew (fun r hr => show w.cert id r from hcert ▸ hout r hr) hclosed hpending

theorem reaches_load {ty : Ty} {ptr : Value} (hopen : w.Open) (hptr : w.Val ptr .ptr) :
    Reaches (load ty ptr) w fun v w' => v = .ofReg w.fn.nextReg ty ∧ w ≤ w' ∧ w'.Open ∧ w'.Out w.fn.nextReg := by
  have haccepts : w.Accepts (.load w.fn.nextReg ty ptr) :=
    { isOpen := hopen
      dst := fun _ hr => (some.inj hr).symm
      uses := fun _ hv => mem_singleton.mp hv ▸ hptr.1
      phis := nofun
      merges := nofun
      typed := hptr.2
      stores := nofun }
  exact ⟨_, _, w.run_emit ty (fun r => .load r ty ptr) (fun _ => rfl) haccepts, rfl,
    w.push_le haccepts rfl, w.push_isOpen haccepts, w.push_writes haccepts rfl⟩

theorem reaches_moveBlockToEnd (h : w.Pending id s) :
    Reaches (moveBlockToEnd id) w fun _ w' => w'.block = w.block ∧ ∀ e, Grows e w w' := by
  obtain ⟨⟨label, hmem⟩, _, _, hzero⟩ := h
  exact ⟨_, _, w.run_toEnd hmem hzero, rfl, fun _ => w.toEnd_grows hmem hzero⟩

theorem reaches_declare {f : Function} (hblocks : f.blocks = []) (hname : ∀ p : Primitive, p.name ≠ f.name) :
    Reaches (declareFunction f) w fun _ w' => w'.block = w.block ∧ (∀ e : Effect, ¬ e.quiet → Grows e w w') ∧
      (w.builder.module.prototype? f.name = none → w'.builder.module.prototype? f.name = some f.prototype) ∧
      ∀ name, f.name ≠ name → w'.builder.module.prototype? name = w.builder.module.prototype? name := by
  cases hproto : w.builder.module.prototype? f.name with
  | some s =>
    exact ⟨_, w, declareFunction_old hproto, rfl, fun _ _ => .refl w, nofun, fun _ _ => rfl⟩
  | none =>
    have hframe := w.builder.addFn_frame hblocks
    have hsound : H → (w.builder.addFn f).module.Sound := fun hH =>
      Builder.addFn_sound (w.sound hH) fun p hp => absurd hp.symm (hname p)
    refine ⟨_, w.rebuild _ hframe (Site.addFn_fn_eq w f) rfl hsound, declareFunction_new hproto,
      rfl, fun e he => ?_, fun _ => ?_, fun name hne => ?_⟩
    · exact w.rebuild_grows hframe (Site.addFn_fn_eq w f) rfl hsound fun hq => absurd hq he
    · change (w.builder.addFn f).module.prototype? f.name = _
      rw [Builder.addFn_prototype?, hproto, none_or, if_pos rfl]
    · change (w.builder.addFn f).module.prototype? name = _
      rw [Builder.addFn_prototype?, if_neg hne, or_none]

theorem reaches_note {level : LogLevel} {message : String} : Reaches (modify (·.note level message)) w fun _ w' =>
      w'.fn = w.fn ∧ w'.block = w.block ∧ w ≤ w' := by
  have hframe : w.builder.Frame (w.builder.note level message) := { Builder.Frame.refl _ with }
  exact ⟨(), w.rebuild _ hframe w.fn_eq rfl w.sound, rfl, rfl, rfl,
    w.rebuild_grows hframe w.fn_eq rfl w.sound fun _ _ _ h => h⟩

theorem reaches_drop (hpending : w.Pending id s) (hunreached : w.Unreached id) :
    Reaches (eraseBlock id) w fun _ w' => w.Dropped id w' := by
  obtain ⟨⟨label, hmem⟩, _, hne, hzero⟩ := hpending
  have hdrop : w.Droppable id :=
    { ne_entry := hzero
      ne_block := hne
      isEmpty := by
        intro d hd hid
        rw [w.coherent.eq_of_id_eq hd hmem hid]
        exact ⟨rfl, rfl⟩
      unreached := hunreached }
  refine ⟨_, _, w.run_drop hdrop, rfl, rfl, fun _ => Function.mem_drop,
    fun b hb hdone => Function.mem_drop.mpr ⟨hb, ?_⟩,
    w.replace_frame .., fun _ => w.replace_prototype? ..,
    fun e w0 pending hgrows hnew hpending => hgrows.drop hdrop hnew hpending⟩
  rintro rfl
  rcases hdone with hterm | hcur
  · rw [w.coherent.eq_of_id_eq hb hmem rfl] at hterm
    cases hterm
  · exact hne hcur

end Build

end Aero.IR
