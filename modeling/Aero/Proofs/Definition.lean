import Aero.Lowering.Function
import Aero.Proofs.Layout
import Aero.Proofs.Statement

/-!
Definitions of functions. A body begins at an entry block where the parameters are all that is
written. Whether it is lowered or dropped, the other functions of the module stay as they are, and
every definition is sound.
-/

open List hiding get modify

namespace Aero

variable {f g : IR.Function} {name : String} {i : Nat} {sig : Lowering.FnSig} {values : List IR.Value}

namespace IR

def Function.entered (f : Function) : Function :=
  { f with nextReg := f.params.length, nextBlock := 1, blocks := [⟨0, "entry", [], none⟩] }

theorem Function.entered_coherent (f : Function) : Coherent (fun _ r => r < f.params.length) f.entered where
  ids_nodup := nodup_singleton _
  id_lt := fun _ hb => mem_singleton.mp hb ▸ Nat.one_pos
  entry := rfl
  entry_params := fun _ h => h
  params_le := le_refl _
  dsts_nodup := nodup_nil
  dst_range := fun _ hi => by cases hi
  dst_total := fun _ hle hlt => absurd hlt (Nat.not_lt_of_le hle)
  uses := fun b hb k i hi => by
    rw [mem_singleton.mp hb] at hi
    cases hi
  phis := fun b hb i hi => by
    rw [mem_singleton.mp hb] at hi
    cases hi
  ends := fun b hb t ht => by
    rw [mem_singleton.mp hb] at ht
    cases ht
  edges := fun b hb id hid => by
    rw [mem_singleton.mp hb] at hid
    cases hid

theorem Function.entered_labelled (f : Function) : Labelled f.entered where
  nodup := nodup_singleton _
  stem_or_marked := fun _ hb =>
    .inl (mem_singleton.mp hb ▸ isStem_of_getLast rfl rfl)

theorem Function.entered_merging (f : Function) : f.entered.Merging := by
  intro b hb
  rw [mem_singleton.mp hb]
  exact Block.PhiFree.merges (fun _ hi => by cases hi) _

theorem Function.entered_typed (m : Module) (f : Function) : f.entered.Typed m where
  instrs := fun _ hi => by cases hi
  ends := fun b hb t ht => by
    rw [mem_singleton.mp hb] at ht
    cases ht
  stores := fun _ _ hi => by cases hi

/-- Names that are taken keep their positions. -/
theorem findIdx?_of_names {l l' : List Function}
    (h : l.map Function.name <+: l'.map Function.name) (hfind : l.findIdx? (·.name = name) = some i) :
    l'.findIdx? (·.name = name) = some i := by
  obtain ⟨names, hnames⟩ := h
  have hmap : ∀ l : List Function, l.findIdx? (·.name = name) = (l.map Function.name).findIdx? (· = name) := fun l => by
    rw [findIdx?_map]
    rfl
  rw [hmap] at hfind ⊢
  rw [← hnames, findIdx?_append, hfind]
  rfl

theorem Builder.Frame.findIdx? {b b' : Builder} (h : b.Frame b')
    (hfind : b.module.functions.findIdx? (·.name = name) = some i) :
    b'.module.functions.findIdx? (·.name = name) = some i := findIdx?_of_names h.names hfind

/-- A name is declared at a position and has no body yet. -/
structure Builder.Declares (b : Builder) (name : String) (i : Nat) (f : Function) : Prop where
  findIdx : b.module.functions.findIdx? (·.name = name) = some i
  fn_eq : b.module.functions[i]? = some f
  blocks_eq : f.blocks = []
  nextBlock_eq : f.nextBlock = 0

def Builder.editing (b : Builder) (i : Nat) : Builder := { b with current := some i }

/-- A definition of a module meets every rule. The types and the ends of its blocks depend on
conditions on the source. -/
structure Function.WellFormed (H N : Prop) (m : Module) (f : Function) : Prop where
  coherent : ∃ c, Coherent c f
  labelled : Labelled f
  merging : f.Merging
  typed : H → f.Typed m
  closed : N → f.Closed

theorem Function.WellFormed.mono {m m' : Module} {H N : Prop}
    (h : f.WellFormed H N m) (hstructs : m'.structs = m.structs)
    (hproto : ∀ name s, m.prototype? name = some s → m'.prototype? name = some s) : f.WellFormed H N m' :=
  { h with typed := fun hH => (h.typed hH).mono hstructs hproto }

namespace Builder.Declares

open Site

variable {b : Builder} {f : Function} {H : Prop}

/-- A function that is declared under a name that is not taken. -/
theorem of_addFn (hnone : b.module.prototype? f.name = none) (hblocks : f.blocks = [])
    (hnext : f.nextBlock = 0) : (b.addFn f).Declares f.name b.module.functions.length f where
  findIdx := by
    have hold : b.module.functions.findIdx? (·.name = f.name) = none := by
      refine findIdx?_eq_none_iff.mpr fun g hg => ?_
      exact Bool.eq_false_iff.mpr (find?_eq_none.mp (Option.map_eq_none_iff.mp hnone) g hg)
    rw [addFn, findIdx?_append, hold]
    simp
  fn_eq := by rw [addFn, getElem?_concat_length]
  blocks_eq := hblocks
  nextBlock_eq := hnext

variable (h : b.Declares name i f)
include h

theorem function?_eq : b.module.function? name = some f :=
  Module.function?_eq_some_iff.mpr ⟨i, h.findIdx, h.fn_eq⟩

theorem name_eq : f.name = name := by
  simpa using find?_some h.function?_eq

theorem frame {b' : Builder} {j : Nat}
    (hframe : (b.editing j).Frame (b'.editing j)) (hne : j ≠ i) : b'.Declares name i f where
  findIdx := hframe.findIdx? h.findIdx
  fn_eq := hframe.others i f (fun heq => hne (Option.some.inj heq)) h.fn_eq
  blocks_eq := h.blocks_eq
  nextBlock_eq := h.nextBlock_eq

def site (log : Array LogLine) (hsound : H → b.module.Sound) : Site H where
  builder := { b.setFn i f.entered with current := some i, insert := some 0, log := log }
  index := i
  fn := f.entered
  block := ⟨0, "entry", [], none⟩
  cert := fun _ r => r < f.params.length
  current_eq := rfl
  fn_eq := List.getElem?_set_self (List.getElem?_eq_some_iff.mp h.fn_eq).1
  insert_eq := rfl
  block_mem := List.mem_singleton_self _
  coherent := f.entered_coherent
  labelled := f.entered_labelled
  merging := f.entered_merging
  sound := fun hH p s hs =>
    hsound hH p s ((setFn_prototype? (f := f.entered) h.fn_eq rfl rfl p.name).symm.trans hs)
  typed := fun _ => f.entered_typed _

section

variable (log : Array LogLine)

variable (hsound : H → b.module.Sound)
include hsound

theorem site_frame : (b.editing i).Frame (h.site log hsound).builder :=
  { setFn_frame (b := b.editing i) (f := f.entered) rfl h.fn_eq rfl rfl with }

theorem site_prototype? (other : String) :
    (h.site log hsound).builder.module.prototype? other = b.module.prototype? other :=
  setFn_prototype? (f := f.entered) h.fn_eq rfl rfl other

theorem site_vals :
    (h.site log hsound).Vals (f.params.zipIdx.map fun p => .ofReg p.2 p.1.ty) (f.params.map Param.ty) := by
  have hfrom : ∀ (params : List Param) n, n + params.length ≤ f.params.length →
      (h.site log hsound).Vals ((params.zipIdx n).map fun p => .ofReg p.2 p.1.ty) (params.map Param.ty) := by
    intro params
    induction params with
    | nil => exact fun _ _ => .nil
    | cons p params ih =>
      intro n hle
      rw [length_cons] at hle
      have hlt : n < f.params.length := by omega
      refine .cons ⟨?_, fun _ => rfl⟩ (ih (n + 1) (by omega))
      rintro r hr
      cases hr
      exact ⟨hlt, .inl hlt⟩
  exact hfrom f.params 0 (le_of_eq (zero_add _))

theorem site_untold (v : Value) : (h.site log hsound).Untold v :=
  fun _ _ _ _ hi => by cases hi

end

theorem wellFormed {w : Site H} {N : Prop} {log : Array LogLine} {hsound : H → b.module.Sound}
    (hgrows : Grows (.stmt N []) (h.site log hsound) w) (hclosed : w.block.isTerminated = true) :
    w.fn.WellFormed H N w.builder.module where
  coherent := ⟨w.cert, w.coherent⟩
  labelled := w.labelled
  merging := w.merging
  typed := w.typed
  closed := by
    intro hN b hb
    by_cases hcur : b.id = w.block.id
    · rwa [w.coherent.eq_of_id_eq hb w.block_mem hcur]
    · rw [← Bool.not_eq_false]
      intro hterm
      rcases hgrows.settled hN b hb hterm hcur with ⟨hold, hne⟩ | hnone
      · exact hne (congrArg Block.id (mem_singleton.mp hold))
      · exact hnone

theorem run (hsound : H → b.module.Sound) : ∃ log, Build.defineFunction name b =
      (some (f.params.zipIdx.map fun p => .ofReg p.2 p.1.ty), (h.site log hsound).builder) := by
  obtain ⟨log, hopened⟩ := openBody_eq h.fn_eq
  let reset : Function := { f with nextReg := f.params.length }
  have hentered : reset.append (freshLabel reset "entry") = f.entered := by
    simp only [reset, h.blocks_eq, h.nextBlock_eq]
    rfl
  refine ⟨log, ?_⟩
  rw [Build.defineFunction_found h.findIdx h.function?_eq, hopened, hentered, h.nextBlock_eq]
  rfl

end Builder.Declares

end IR

namespace Lowering

open IR IR.Build IR.Site

variable {H N : Prop} {env : Env} {s : State} {w w' : Site H} {C : Site H → Site H → Prop}
  {Q : ParamSig → Value → Site H → Slot → Site H → Prop} {R : State → Site H → State → Site H → Prop}

/-! ### Parameters -/

theorem Untold.mono {v : Value} {e : Site.Effect} (h : w.Untold v) (hv : w.Has v) (hgrows : Grows e w w') :
    w'.Untold v := by
  intro ty
  refine (h ty).mono hgrows.frame.structs_eq ?_
  exact fun r hr i hi hdst => hgrows.fresh i hi r hdst (hv r hr).1

/-- The number of lengths that come with a parameter. -/
def ParamSig.rank (p : ParamSig) : Nat := (p.array.map ArrayShape.rank).getD 0

theorem ParamSig.tys_eq {p : ParamSig} (h : p.Fits) : p.params.map Param.ty =
      (if p.ty.isStruct then .ptr else p.ty) :: List.replicate p.rank .i32 := by
  cases harray : p.array with
  | none =>
    rw [ParamSig.tys_of_value harray, ParamSig.rank, harray]
    rfl
  | some shape =>
    rw [ParamSig.tys_of_array h harray, ParamSig.rank, harray, (h shape harray).1]
    rfl

/-- A value for a parameter and those for the extents of its array. -/
structure ParamSig.Takes (param : ParamSig) (w : Site H) (value : Value) (extents : List Value) : Prop where
  val : w.Val value (if param.ty.isStruct then .ptr else param.ty)
  untold : w.Untold value
  vals : ∀ v ∈ extents, w.Val v .i32
  length_le : extents.length ≤ param.rank

theorem emits_paramSlot {value : Value} {param : ParamSig} {extents : List Value} (hfits : param.Fits)
    (htakes : param.Takes w value extents) : Emits (paramSlot param value extents) w fun slot w' => SlotOk w' slot := by
  obtain ⟨hvalue, huntold, hextents, hlen⟩ := htakes
  unfold paramSlot
  split
  · next hstruct =>
    rw [if_pos hstruct] at hvalue
    exact .pure (.plain (hvalue.addr huntold _) nofun rfl)
  · next hstruct =>
    rw [if_neg hstruct] at hvalue
    refine (emits_newSlot hvalue).bind ?_
    rintro slot w1 hle1 ⟨haddr, heq⟩
    rw [heq]
    refine .pure ⟨haddr, fun shape hshape => ?_, fun v hv => (hextents v hv).mono hle1⟩
    have hshape : param.array = some shape := hshape
    obtain ⟨hty, hparam⟩ := hfits shape hshape
    have hlen : extents.length ≤ shape.rank := by
      rwa [ParamSig.rank, hshape] at hlen
    rcases hparam with hparam | hparam <;> rw [hparam] at hlen ⊢
    · exact ⟨rfl, hty, hlen⟩
    · exact ⟨rfl, hty, hlen⟩

/-- The code that declares parameters, one after the other. What is known of the slot of each is up to
a condition. -/
inductive ParamsCode (Q : ParamSig → Value → Site H → Slot → Site H → Prop) :
    List ParamSig → List Value → Scopes → Site H → Scopes → Site H → Prop
  | nil {values : List Value} {scopes : Scopes} {w : Site H} :
      ParamsCode Q [] values scopes w scopes w
  | cons {param : ParamSig} {value : Value} {slot : Slot} {params : List ParamSig}
      {values : List Value} {scopes scopes1 scopes' : Scopes} {w w1 w' : Site H} :
      Q param value w slot w1 → w ≤ w1 → scopes.declare? param.name slot = some scopes1 → w1 ≤ w' →
      ParamsCode Q params (values.drop param.rank) scopes1 w1 scopes' w' →
      ParamsCode Q (param :: params) (value :: values) scopes w scopes' w'

theorem steps_declareParams (f : FnDef) (sig : FnSig) (i : Nat) {params : List ParamSig}
    (hQ : ∀ param ∈ params, ∀ value extents s w, param.Takes w value extents →
      Lowers env (liftM (paramSlot param value extents)) s w fun slot w' =>
        SlotOk w' slot ∧ Q param value w slot w') (hfits : ∀ p ∈ params, p.Fits) (hopen : w.Open)
    (hbody : Body s w) (hvalues : w.Vals values (paramTys params)) (huntold : ∀ v ∈ values, w.Untold v) :
    Steps env (declareParams f sig i params values) s w (Fails H False s) fun _ s' w' =>
      w ≤ w' ∧ w'.Open ∧ Body s' w' ∧ s.Extends s' ∧ ParamsCode Q params values s.scopes w s'.scopes w' := by
  induction params generalizing i values s w with
  | nil =>
    exact .pure ⟨le_refl w, hopen, hbody, (State.Agrees.refl s).extends, .nil⟩
  | cons param params ih =>
    have hparam := hfits param mem_cons_self
    rw [paramTys, flatMap_cons, map_append, ParamSig.tys_eq hparam] at hvalues
    cases hvalues with
    | cons hvalue hrest =>
      next value values =>
      have hextents := forall₂_take_append values _ _ hrest
      have hothers := forall₂_drop_append values _ _ hrest
      rw [length_replicate] at hextents hothers
      have hslot := hQ param mem_cons_self value _ s w
        ⟨hvalue, huntold value mem_cons_self, val_of_replicate hextents, length_take_le _ _⟩
      have hstart : Inside .plain s w s w := .start hbody
      refine ((Steps.of_lowers hslot hbody hstart hopen).mono (fun _ _ _ _ h => h) fun _ h => h.loud).bind ?_
      rintro slot s1 w1 hb1 ⟨hin1, hle1, hopen1, hslot, hcode⟩
      have hbody1 := hin1.body hbody
      have hframe : s.builder.Frame s1.builder := by
        rw [hbody.builder_eq, hb1]
        exact hle1.frame
      refine .state_bind ?_
      split
      · next scopes hscopes =>
        obtain ⟨hbody2, hext2⟩ := hbody1.declare param.name hslot
        rw [hscopes] at hbody2 hext2
        have hext := hin1.agrees.extends.trans hext2
        refine .update_bind hb1 ?_
        refine (ih (i + 1) (fun p hp => hQ p (mem_cons_of_mem _ hp))
          (fun p hp => hfits p (mem_cons_of_mem _ hp)) hopen1 hbody2
          (.mono hothers hle1) fun v hv => ?_).mono ?_ fun _ h => h.after hframe hext
        · have hmem := mem_cons_of_mem value (mem_of_mem_drop hv)
          exact Untold.mono (huntold v hmem) (Vals.has hrest v (mem_of_mem_drop hv)) hle1
        · rintro _ s3 w3 _ ⟨hle3, hopen3, hbody3, hext3, hcode3⟩
          rw [hin1.agrees.scopes_eq] at hscopes
          exact ⟨le_trans hle1 hle3, hopen3, hbody3, hext.trans hext3, .cons hcode hle1 hscopes hle3 hcode3⟩
      · exact .fail ((Fails.refl hbody1.tables).after hframe hin1.agrees.extends)

/-! ### Bodies -/

/-- The code at the end of a body that can be reached: the collector may be called, which is known of
by a condition, and zero is returned. -/
def EndCode (C : Site H → Site H → Prop) (ret : Ty) (w w' : Site H) : Prop :=
  ∃ w1 w2 v, w ≤ w1 ∧ C w w1 ∧ w1 ≤ w2 ∧ w2.fn = w1.fn ∧ w2.block = w1.block ∧
    Returned none ret (fun _ _ => False) w2 v w2 ∧ w2.Finished (.ret v) w'

theorem steps_returnZero {s0 : State} {w0 : Site H}
    (hin : Inside (.stmt N s0.loopExits) s0 w0 s w) (hbody : Body s0 w0) (hopen : w.Open)
    (hret : sig.ret = s0.returnTy) : Steps env (if sig.ret.isVoid then Build.retVoid
      else do
        note .trace ("@" ++ sig.symbol ++ " falls through, returning zero")
        Build.ret (Build.zero sig.ret)) s w (Fails H False s0) fun _ s' w' =>
      Inside (.stmt N s0.loopExits) s0 w0 s' w' ∧ ∃ w1 v, w ≤ w1 ∧ w1.fn = w.fn ∧ w1.block = w.block ∧
          Returned none sig.ret (fun _ _ => False) w1 v w1 ∧ w1.Finished (.ret v) w' := by
  have hret : w.fn.ret = sig.ret := by rw [hin.grows.ret_eq, hret, hbody.returnTy_eq]
  split
  · next hvoid =>
    have hvoid := isVoid_iff.mp hvoid
    refine (hin.finish (ends_retVoid hopen (hret.trans hvoid)) nofun).imp ?_
    exact fun _ s' w' _ h => ⟨h.1, w, none, le_refl w, rfl, rfl, ⟨hvoid, rfl⟩, h.2⟩
  · next hvoid =>
    have hvoid := fun h => hvoid (isVoid_iff.mpr h)
    refine (Steps.of_lowers lowers_note hbody hin hopen).bind ?_
    rintro _ s1 w1 _ ⟨hin1, hle1, hopen1, hfn, hblock⟩
    have hret1 : w1.fn.ret = sig.ret := hle1.ret_eq.trans hret
    refine (hin1.finish (ends_ret hopen1 (hret1 ▸ val_zero _)) nofun).imp ?_
    exact fun _ s' w' _ h => ⟨h.1, w1, some _, hle1, hfn, hblock, ⟨hvoid, rfl, rfl⟩, h.2⟩

theorem steps_fallThrough (hbody : Body s w) (hopen : w.Open) (hret : sig.ret = s.returnTy)
    (hcollect : Lowers env (liftM Build.gcCollect) s w fun _ w' => C w w') (hskip : C w w) :
    Steps env (fallThrough sig) s w (Fails H False s) fun _ s' w' =>
      Inside (.stmt N s.loopExits) s w s' w' ∧ EndCode C sig.ret w w' := by
  have hstart : Inside (.stmt N s.loopExits) s w s w := .start hbody
  refine .read_bind ?_
  dsimp only
  split
  · refine (Steps.of_lowers hcollect hbody hstart hopen).bind ?_
    rintro _ s1 w1 _ ⟨hin1, hle1, hopen1, hC⟩
    refine (steps_returnZero hin1 hbody hopen1 hret).imp ?_
    rintro _ s' w' _ ⟨hin, w2, v, hcode⟩
    exact ⟨hin, w1, w2, v, hle1, hC, hcode⟩
  · refine (steps_returnZero hstart hbody hopen hret).imp ?_
    rintro _ s' w' _ ⟨hin, w2, v, hcode⟩
    exact ⟨hin, w, w2, v, le_refl w, hskip, hcode⟩

theorem EndCode.terminated {ret : Ty} (h : EndCode C ret w w') : w'.block.isTerminated = true := by
  obtain ⟨_, _, _, _, _, _, _, _, _, hfinished⟩ := h
  exact hfinished.terminated

/-- The code of a body: its parameters, its statements and, if their end can be reached, a return. What
is known of each part is up to a condition. -/
def BodyCode (N : Prop) (Q : ParamSig → Value → Site H → Slot → Site H → Prop)
    (R : State → Site H → State → Site H → Prop) (C : Site H → Site H → Prop) (sig : FnSig)
    (values : List Value) (s : State) (w w' : Site H) : Prop :=
  ∃ s1 w1 s2 w2, w ≤ w1 ∧ w1.Open ∧ s.Extends s1 ∧
    ParamsCode Q sig.params values s.scopes w s1.scopes w1 ∧ R s1 w1 s2 w2 ∧
    Grows (.stmt N s.loopExits) w1 w2 ∧ Grows (.stmt N s.loopExits) w2 w' ∧
    (w2.block.isTerminated = true ∧ w' = w2 ∨ EndCode C sig.ret w2 w')

theorem BodyCode.grows (h : BodyCode N Q R C sig values s w w') : Grows (.stmt N s.loopExits) w w' := by
  obtain ⟨_, _, _, _, hle, _, _, _, _, hgrows, hgrows', _⟩ := h
  exact (Grows.trans (.of_le hle) hgrows).trans hgrows'

theorem BodyCode.terminated (h : BodyCode N Q R C sig values s w w') : w'.block.isTerminated = true := by
  obtain ⟨_, _, _, _, _, _, _, _, _, _, _, ⟨hclosed, rfl⟩ | hend⟩ := h
  · exact hclosed
  · exact hend.terminated

/-- The conditions on the parts of a body hold of whatever is lowered. -/
structure BodyLowers (N : Prop) (env : Env) (Q : ParamSig → Value → Site H → Slot → Site H → Prop)
    (R : State → Site H → State → Site H → Prop) (C : Site H → Site H → Prop) (f : FnDef)
    (sig : FnSig) : Prop where
  params : ∀ param ∈ sig.params, ∀ value extents (s : State) (w : Site H), param.Takes w value extents →
    Lowers env (liftM (paramSlot param value extents)) s w fun slot w' =>
      SlotOk w' slot ∧ Q param value w slot w'
  stmts : ∀ (s : State) (w : Site H), s.returnTy = sig.ret → Body s w →
    Steps env (lowerStmts f.body.node.stmts) s w (Fails H False s) fun _ s' w' =>
      Body s' w' ∧ Grows (.stmt N s.loopExits) w w' ∧ s.Extends s' ∧ R s w s' w'
  collect : ∀ (s : State) (w : Site H), Lowers env (liftM Build.gcCollect) s w fun _ w' => C w w'
  skip : ∀ w, C w w

/-- The code of a body, which ends with its last block closed. -/
theorem steps_lowerBody {f : FnDef} (hparts : BodyLowers N env Q R C f sig)
    (hfits : ∀ p ∈ sig.params, p.Fits) (hopen : w.Open) (hbody : Body s w)
    (hvalues : w.Vals values (paramTys sig.params)) (huntold : ∀ v ∈ values, w.Untold v) (hret : sig.ret = s.returnTy) :
    Steps env (lowerBody f sig values) s w (Fails H False s) fun _ s' w' =>
      Body s' w' ∧ BodyCode N Q R C sig values s w w' := by
  refine (steps_declareParams f sig 0 hparts.params hfits hopen hbody hvalues huntold).bind ?_
  rintro _ s1 w1 hb1 ⟨hle1, hopen1, hbody1, hext1, hparams⟩
  have hframe1 : s.builder.Frame s1.builder := by
    rw [hbody.builder_eq, hb1]
    exact hle1.frame
  refine ((hparts.stmts s1 w1 (hext1.returnTy_eq.trans hret.symm) hbody1).mono (fun _ _ _ _ h => h)
    fun _ h => h.after hframe1 hext1).bind ?_
  rintro _ s2 w2 hb2 ⟨hbody2, hgrows2, hext2, hstmts⟩
  have hext := hext1.trans hext2
  rw [hext1.loopExits_eq] at hgrows2
  have hframe2 : s.builder.Frame s2.builder := by
    rw [hbody.builder_eq, hb2]
    exact hle1.frame.trans hgrows2.frame
  refine steps_isTerminated.bind ?_
  rintro b s2 _ _ ⟨rfl, rfl, hb⟩
  cases b with
  | true =>
    exact .pure ⟨hbody2, s1, w1, s2, w2, hle1, hopen1, hext1, hparams, hstmts, hgrows2, .refl w2, .inl ⟨hb.symm, rfl⟩⟩
  | false =>
    have hopen2 : w2.Open := open_iff.mpr hb.symm
    refine (steps_fallThrough (N := N) hbody2 hopen2 (hret.trans hext.returnTy_eq.symm)
      (hparts.collect s2 w2) (hparts.skip w2)).mono ?_ fun _ h => h.after hframe2 hext
    rintro _ s3 w3 _ ⟨hin3, hend⟩
    exact ⟨hin3.body hbody2, s1, w1, s2, w2, hle1, hopen1, hext1, hparams, hstmts, hgrows2,
      hext.loopExits_eq ▸ hin3.grows, .inr hend⟩

/-! ### Definitions -/

/-- Between two functions: the tables agree with the module, and what is defined is well formed. -/
structure Ready (H N : Prop) (s : State) : Prop where
  tables : Tables H s
  layered : Module.Layered s.builder.module.structs
  wellFormed : ∀ f ∈ s.builder.module.functions, f.blocks ≠ [] → f.WellFormed H N s.builder.module

/-- A function is declared in the way of a signature and has no body yet. -/
structure State.Awaits (s : State) (sig : FnSig) : Prop where
  declared : ∃ i f, s.builder.Declares sig.symbol i f ∧ f.prototype = sig.prototype
  fits : ∀ p ∈ sig.params, p.Fits

/-- A state comes from another by the definition of some symbols. -/
structure Proceeds (H N : Prop) (symbols : String → Prop) (s s' : State) : Prop where
  ready : Ready H N s'
  awaits : ∀ sig, ¬ symbols sig.symbol → s.Awaits sig → s'.Awaits sig
  keeps : ∀ name g, ¬ symbols name → s.builder.module.function? name = some g →
    s'.builder.module.function? name = some g
  prototypes : ∀ name sig, s.builder.module.prototype? name = some sig → s'.builder.module.prototype? name = some sig

namespace Proceeds

variable {p q : String → Prop} {s' s'' : State}

theorem refl (h : Ready H N s) : Proceeds H N p s s :=
  ⟨h, fun _ _ h => h, fun _ _ _ h => h, fun _ _ h => h⟩

theorem trans (h : Proceeds H N p s s') (h' : Proceeds H N q s' s'') :
    Proceeds H N (fun name => p name ∨ q name) s s'' where
  ready := h'.ready
  awaits := fun sig hne hsig =>
    h'.awaits sig (fun hq => hne (.inr hq)) (h.awaits sig (fun hp => hne (.inl hp)) hsig)
  keeps := fun name g hne hg =>
    h'.keeps name g (fun hq => hne (.inr hq)) (h.keeps name g (fun hp => hne (.inl hp)) hg)
  prototypes := fun name sig hsig => h'.prototypes name sig (h.prototypes name sig hsig)

theorem mono (h : Proceeds H N p s s') (himp : ∀ name, p name → q name) : Proceeds H N q s s' :=
  { h with
    awaits := fun sig hne => h.awaits sig fun hp => hne (himp _ hp)
    keeps := fun name g hne => h.keeps name g fun hp => hne (himp _ hp) }

theorem of_frame {symbol : String} (h : Ready H N s) (hdecl : s.builder.Declares symbol i f) (htables : Tables H s')
    (hframe : (s.builder.editing i).Frame (s'.builder.editing i))
    (hfn : ∀ g, s'.builder.module.functions[i]? = some g → g.blocks ≠ [] →
      g.WellFormed H N s'.builder.module) : Proceeds H N (· = symbol) s s' where
  ready := by
    refine ⟨htables, hframe.structs_eq ▸ h.layered, fun g hg hblocks => ?_⟩
    obtain ⟨j, hj⟩ := mem_iff_getElem?.mp hg
    by_cases hji : j = i
    · exact hfn g (hji ▸ hj) hblocks
    · have hcur : (s.builder.editing i).current ≠ some j := fun h => hji (Option.some.inj h).symm
      by_cases hlt : j < s.builder.module.functions.length
      · have hold := getElem?_eq_getElem hlt
        have hsame := hframe.others j _ hcur hold
        rw [show (s'.builder.editing i).module.functions[j]? = some g from hj] at hsame
        rw [← Option.some.inj hsame] at hold
        exact (h.wellFormed g (mem_of_getElem? hold) hblocks).mono hframe.structs_eq hframe.prototypes
      · exact absurd (hframe.added j g hcur (Nat.le_of_not_lt hlt) hj) hblocks
  awaits := by
    rintro sig hne ⟨⟨j, g, hg, hproto⟩, hfits⟩
    refine ⟨⟨j, g, hg.frame hframe fun heq => hne ?_, hproto⟩, hfits⟩
    have hsame := hg.fn_eq
    rw [← heq, hdecl.fn_eq] at hsame
    rw [← hg.name_eq, ← hdecl.name_eq, Option.some.inj hsame]
  keeps := by
    intro name g hne hg
    have hname : g.name = name := by simpa using find?_some hg
    obtain ⟨j, hfind, hj⟩ := Module.function?_eq_some_iff.mp hg
    refine Module.function?_eq_some_iff.mpr ⟨j, hframe.findIdx? hfind, hframe.others j g ?_ hj⟩
    intro heq
    rw [← Option.some.inj heq, hdecl.fn_eq] at hj
    rw [← hname, ← hdecl.name_eq, Option.some.inj hj] at hne
    exact hne rfl
  prototypes := hframe.prototypes

end Proceeds

def State.leave (s : State) : State :=
  { s with
    scopes := s.scopes.reset
    builder := { s.builder with current := none, insert := none } }

/-- What is left of a body that was lowered: a body that failed is dropped. -/
def conclude : EStateM.Result Diagnostic State Unit → EStateM.Result Diagnostic State Unit
  | .ok a s => .ok a s.leave
  | .error d s => .error d ({ s with builder := (discardBody s.builder).2 }).leave

theorem defineFunction_run {f : FnDef} {b : Builder}
    (h : Build.defineFunction sig.symbol s.builder = (some values, b)) :
    defineFunction f sig env s = conclude (lowerBody f sig values env
      (({ s with builder := b.note .debug ("lowering @" ++ sig.symbol) }).enter sig.ret)) := by
  simp only [defineFunction, bind_run, liftM_run h, note, update, attempt]
  cases lowerBody f sig values env
    (({ s with builder := b.note .debug ("lowering @" ++ sig.symbol) }).enter sig.ret) <;> rfl

theorem Tables.leave (h : Tables H s) : Tables H s.leave :=
  h.transfer rfl rfl h.outermost (le_refl _) rfl rfl (fun _ _ h => h) h.sound fun _ _ h => h

theorem Tables.site (h : Tables H s) (hdecl : s.builder.Declares name i g) (log : Array LogLine) :
    Tables H { s with builder := (hdecl.site log h.sound).builder } := by
  have hproto := hdecl.site_prototype? log h.sound
  exact h.transfer rfl rfl h.outermost (le_refl _) rfl rfl
    (fun name _ h => (hproto name).trans h) (hdecl.site log h.sound).sound
    fun n _ h => (hproto _).trans h

theorem Body.enter (htables : Tables H s)
    (hdecl : s.builder.Declares sig.symbol i g) (hret : g.ret = sig.ret) (log : Array LogLine) :
    Body (({ s with builder := (hdecl.site log htables.sound).builder }).enter sig.ret)
      (hdecl.site log htables.sound) where
  tables := { htables.site hdecl log with }
  builder_eq := rfl
  returnTy_eq := hret.symm
  inner_ne := cons_ne_nil _ _
  slots := fun frame hframe p hp => by
    rw [mem_singleton.mp hframe] at hp
    cases hp
  exits := nofun

def dropped (f : Function) : Function :=
  { f with blocks := [], nextBlock := 0, nextReg := f.params.length }

theorem Tables.discard (h : Tables H s)
    (hcurrent : s.builder.current = some i) (hf : s.builder.module.functions[i]? = some f) :
    Tables H ({ s with builder := (discardBody s.builder).2 }).leave ∧ s.builder.Frame (discardBody s.builder).2 ∧
      (discardBody s.builder).2.module.functions[i]? = some (dropped f) := by
  have hrun : (discardBody s.builder).2 =
      { s.builder.setFn i (dropped f) with insert := none } := by
    change { s.builder.modifyFunction dropped with insert := none } = _
    rw [Builder.modifyFunction_eq hcurrent hf]
  have hproto := Builder.setFn_prototype? (f := dropped f) hf rfl rfl
  rw [hrun]
  refine ⟨.leave (h.transfer rfl rfl h.outermost (le_refl _) rfl rfl
    (fun name _ h => (hproto name).trans h) (fun hH p sig hsig => ?_) fun n _ h =>
      (hproto _).trans h), { Builder.setFn_frame (f := dropped f) hcurrent hf rfl rfl with },
    List.getElem?_set_self (List.getElem?_eq_some_iff.mp hf).1⟩
  exact h.sound hH p sig ((hproto _).symm.trans hsig)

/-- The code of a function begins at its entry, with the parameters in the first registers. -/
def FunctionCode (N : Prop) (Q : ParamSig → Value → Site H → Slot → Site H → Prop)
    (R : State → Site H → State → Site H → Prop) (C : Site H → Site H → Prop) (sig : FnSig) (m : Module)
    (f : Function) : Prop :=
  ∃ (s : State) (w w' : Site H) (params : List Param), m = w'.builder.module ∧ f = w'.fn ∧ s.scopes.inner = [[]] ∧
    s.loopExits = [] ∧ params.map Param.ty = paramTys sig.params ∧ w.fn.nextReg = params.length ∧
    w.block.id = 0 ∧ w.block.instrs = [] ∧
    BodyCode N Q R C sig (params.zipIdx.map fun p => .ofReg p.2 p.1.ty) s w w'

theorem defines_defineFunction {M : Prop} {f : FnDef} (hMN : M → N) (hready : Ready H M s)
    (hawaits : s.Awaits sig) (hparts : BodyLowers N env Q R C f sig) :
    Outcome (Proceeds H M (· = sig.symbol) s) (fun _ s' => Proceeds H M (· = sig.symbol) s s' ∧
      ∃ g, s'.builder.module.function? sig.symbol = some g ∧ FunctionCode N Q R C sig s'.builder.module g)
      (defineFunction f sig env s) := by
  obtain ⟨⟨i, g, hdecl, hproto⟩, hfits⟩ := hawaits
  obtain ⟨log, hrun⟩ := hdecl.run hready.tables.sound
  have hparams : g.params.map Param.ty = paramTys sig.params := congrArg Signature.params hproto
  have hret : g.ret = sig.ret := congrArg Signature.ret hproto
  rw [defineFunction_run hrun]
  let log' := log.push ⟨.debug, "lowering @" ++ sig.symbol⟩
  let w := hdecl.site log' hready.tables.sound
  let s1 : State := ({ s with builder := w.builder }).enter sig.ret
  have hbody : Body s1 w := .enter hready.tables hdecl hret log'
  have hframe : (s.builder.editing i).Frame w.builder := hdecl.site_frame log' hready.tables.sound
  have hlowers : Steps env (lowerBody f sig (g.params.zipIdx.map fun p => .ofReg p.2 p.1.ty)) s1 w
      (Fails H False s1) _ :=
    steps_lowerBody hparts hfits rfl hbody
      (hparams ▸ hdecl.site_vals log' hready.tables.sound) (fun v _ => hdecl.site_untold log' _ v)
      rfl
  have hlowers := hlowers.run rfl
  change Outcome _ _ (conclude (lowerBody f sig _ env s1))
  cases hres : lowerBody f sig (g.params.zipIdx.map fun p => .ofReg p.2 p.1.ty) env s1 with
  | ok a s2 =>
    rw [hres] at hlowers
    obtain ⟨w2, hbuilder, hbody2, hcode⟩ := hlowers
    have hframe2 : w.builder.Frame s2.builder := hbuilder ▸ hcode.grows.frame
    have hframe' : (s.builder.editing i).Frame (s2.leave.builder.editing i) :=
      hframe.trans { hframe2 with current_eq := rfl }
    have hfn : s2.builder.module.functions[i]? = some w2.fn := by
      rw [hbuilder, ← show w2.index = i from hcode.grows.index_eq]
      exact w2.fn_eq
    refine ⟨.of_frame hready hdecl hbody2.tables.leave hframe' fun g' hg' _ => ?_, w2.fn,
      Module.function?_eq_some_iff.mpr ⟨i, hframe'.findIdx? hdecl.findIdx, hfn⟩,
      s1, w, w2, g.params, (congrArg Builder.module hbuilder :), rfl, rfl, rfl, hparams, rfl, rfl, rfl, hcode⟩
    have hsame : g' = w2.fn := Option.some.inj (hg'.symm.trans hfn)
    change g'.WellFormed H M s2.builder.module
    rw [hsame, hbuilder]
    have hwell := hdecl.wellFormed hcode.grows hcode.terminated
    exact { hwell with closed := fun hM => hwell.closed (hMN hM) }
  | error d s2 =>
    rw [hres] at hlowers
    have hcurrent : s2.builder.current = some i := hlowers.frame.current_eq
    have hlt : i < s2.builder.module.functions.length := by
      have hle := hlowers.frame.names.length_le
      rw [length_map, length_map] at hle
      exact lt_of_lt_of_le (List.getElem?_eq_some_iff.mp w.fn_eq).1 hle
    obtain ⟨htables, hframe2, hfn⟩ :=
      hlowers.tables.discard hcurrent (getElem?_eq_getElem hlt)
    refine .of_frame hready hdecl htables
      (hframe.trans { hlowers.frame.trans hframe2 with current_eq := rfl }) fun g' hg' hne => ?_
    have hsame : g' = dropped _ := Option.some.inj (hg'.symm.trans hfn)
    rw [hsame] at hne
    exact absurd rfl hne

/-- Every body is lowered in parts. -/
theorem BodyLowers.of_branched {f : FnDef} (hN : N → stmtsBranched f.body.node.stmts = true)
    (hfits : ∀ p ∈ sig.params, p.Fits) :
    BodyLowers N env (fun _ _ _ _ _ => True) (fun _ (_ : Site H) _ _ => True) (fun _ _ => True) f sig where
  params := fun param hparam _ _ _ _ htakes =>
    (Lowers.lift (emits_paramSlot (hfits param hparam) htakes)).mono fun _ _ _ h => ⟨h, trivial⟩
  stmts := fun s w _ hbody => (steps_lowerStmts f.body.node.stmts hN s w hbody).mono
    (fun _ _ _ _ h => ⟨h.1, h.2.1, h.2.2.1, trivial⟩) fun _ h => h
  collect := fun _ _ => .lift emits_gcCollect
  skip := fun _ => trivial

theorem proceeds_defineFunction {f : FnDef} (hready : Ready H N s) (hawaits : s.Awaits sig)
    (hN : N → stmtsBranched f.body.node.stmts = true) :
    Outcome (Proceeds H N (· = sig.symbol) s) (fun _ => Proceeds H N (· = sig.symbol) s) (defineFunction f sig env s) :=
  (defines_defineFunction id hready hawaits (.of_branched hN hawaits.fits)).mono (fun _ h => h) fun _ _ h => h.1

end Lowering

end Aero
