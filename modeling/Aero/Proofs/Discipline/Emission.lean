import Aero.Proofs.Hygiene.Emission
import Aero.Proofs.Parallel.Body

/-!
Code and bodies under a policy. A builder at work under a mandate is paired with its twins, so that all that is known of
two builders side by side holds of it, and the code that it emits conforms. Buffers are allocated with a registration
right after the allocation, or without one when nothing is tracked or the program asks for the buffer by itself.
-/

open List hiding modify

namespace Aero.IR

variable {c : Mandate} {requested : Nat → Reg → Prop} {b : Builder} {p : Primitive} {f : Function}

theorem Mandate.allows (h : p.isOrdinary = true) : c.Allows p := by
  simp only [Primitive.isOrdinary, Bool.and_eq_true, decide_eq_true_eq, Bool.not_eq_true'] at h
  exact ⟨h.1, fun _ => h.2⟩

theorem Mandate.allows_of_tracked (hmalloc : p ≠ .malloc) (h : c.alloc = .tracked) : c.Allows p :=
  ⟨hmalloc, fun huntracked => by rw [h] at huntracked; cases huntracked⟩

namespace Build

/-- An instruction is added to the current block, or else only logged. -/
theorem exists_push_run (i : Instr) (b : Builder) : ∃ log, push i b = ((), { b.extend [i] with log := log }) := by
  cases hterm : b.isTerminated with
  | true =>
    rw [Builder.extend, hterm]
    unfold push
    dsimp only [Build.modify_run]
    split
    · exact ⟨_, rfl⟩
    · exact ⟨b.log, rfl⟩
    · next hblock =>
      rw [Builder.isTerminated, hblock] at hterm
      rw [if_pos hterm]
      exact ⟨_, rfl⟩
  | false =>
    obtain ⟨index, f, id, d, hopens⟩ := Builder.exists_opens hterm
    rw [Builder.extend, hterm]
    unfold push
    dsimp only [Build.modify_run]
    rw [hopens.block?]
    simp only [hopens.insert_eq, hopens.isOpen]
    exact ⟨_, rfl⟩

end Build

namespace Builder.Conforms

open Build

/-! ### Blocks -/

variable (h : b.Conforms c requested)
include h

theorem appendBlock (label : String) : (Build.appendBlock label b).2.Conforms c requested := by
  unfold Build.appendBlock
  split
  · exact { h with }
  · have hnoted : ∀ message, (b.note .trace message).Conforms c requested := fun _ => { h with }
    refine (hnoted _).modifyFunction (fun _ => rfl) ?_
    intro i f _ _ hcode d hd
    rcases mem_append.mp hd with hd | hd
    · exact hcode d hd
    · rw [mem_singleton.mp hd]
      exact .nil

theorem terminate (t : Terminator) : (Build.terminate t b).2.Conforms c requested := by
  refine h.modifyBlock fun i d _ hcode => ?_
  split
  · exact hcode
  · exact hcode

theorem moveBlockToEnd (id : BlockId) : (Build.moveBlockToEnd id b).2.Conforms c requested := by
  refine h.modifyFunction_of_subset (fun f => ?_) fun f d hd => ?_
  · split <;> rfl
  · split at hd
    · next hlast =>
      rcases mem_append.mp hd with hd | hd
      · exact ⟨d, mem_of_mem_eraseIdx hd, rfl⟩
      · rw [mem_singleton.mp hd]
        exact ⟨_, mem_of_find?_eq_some hlast, rfl⟩
    · exact ⟨d, hd, rfl⟩

theorem eraseBlock (id : BlockId) : (Build.eraseBlock id b).2.Conforms c requested := by
  have herased : (b.modifyFunction fun f => { f with blocks := f.blocks.filter (·.id ≠ id) }).Conforms c requested :=
    h.modifyFunction_of_subset (fun _ => rfl) fun f d hd =>
      ⟨d, (mem_filter.mp hd).1, rfl⟩
  unfold Build.eraseBlock
  dsimp only [Build.modify_run]
  split
  · exact { herased with }
  · exact herased

theorem discardBody : (Build.discardBody b).2.Conforms c requested := by
  have hdropped : (b.modifyFunction fun f =>
      { f with blocks := [], nextBlock := 0, nextReg := f.params.length }).Conforms c requested :=
    h.modifyFunction_of_subset (fun _ => rfl) nofun
  exact { hdropped with }

/-! ### Instructions -/

theorem push {i : Instr} (hi : c.Plain c.name i) : (Build.push i b).2.Conforms c requested := by
  obtain ⟨log, hrun⟩ := exists_push_run i b
  rw [hrun]
  exact { h.extend fun _ _ => .plain hi with }

theorem freshReg : (Build.freshReg b).2.Conforms c requested := by
  unfold Build.freshReg
  split
  · exact h.modifyFunction (fun _ => rfl) fun _ _ _ _ h => h
  · exact h

theorem constString (s : String) : (Build.constString s b).2.Conforms c requested := by
  unfold Build.constString
  split
  · exact h
  · exact { h with }

/-! ### Functions -/

theorem declareFunction (hblocks : f.blocks = [])
    (hhonest : c.apart → ∀ p : Primitive, f.name = p.name → f.ret = p.signature.ret)
    (hknown : c.own f.name ∨ (∃ p : Primitive, f = p.declaration) ∨ ∃ unit ∈ b.module.foreign, unit.symbol = f.name) :
    (Build.declareFunction f b).2.Conforms c requested := by
  cases hf : b.module.function? f.name with
  | none =>
    rw [declareFunction_new (Option.map_eq_none_iff.mpr hf)]
    exact h.addFn hf hblocks hhonest hknown
  | some g =>
    rw [declareFunction_old (by rw [Module.prototype?, hf]; rfl)]
    exact h

theorem declarePrimitive (p : Primitive) : (Build.declarePrimitive p b).2.Conforms c requested :=
  h.declareFunction rfl
    (fun _ q hq => by rw [Primitive.name_injective (show p.name = q.name from hq)]; rfl) (.inr (.inl ⟨p, rfl⟩))

theorem introduce {unit : ForeignUnit} (hblocks : f.blocks = [])
    (hname : f.name = unit.symbol) (hsymbol : ∀ p : Primitive, unit.symbol ≠ p.name) :
    (Build.introduce unit f b).2.Conforms c requested := by
  have hattached : (Lowering.attachForeign unit b).2.Conforms c requested :=
    { h with
      known := fun g hg => (h.known g hg).imp_right (.imp_right fun ⟨other, hother, hsame⟩ =>
        ⟨other, mem_append_left _ hother, hsame⟩) }
  refine hattached.declareFunction hblocks (fun _ p hp => absurd (hname.symm.trans hp) (hsymbol p)) ?_
  exact .inr (.inr ⟨unit, mem_append_right _ mem_cons_self, hname.symm⟩)

end Builder.Conforms

/-! ### Two builders under a mandate -/

def Requests.Asks (γ : Requests) (i : Nat) (r : Reg) : Prop := (some i, Value.ofReg r .ptr) ∈ γ

/-- A builder that conforms is compared with its twins. -/
def Mandate.pairing (c : Mandate) : Pairing where
  Like := fun γ b b' => b.Twin id b' ∧ b.Conforms c γ.Asks
  Advance := fun γ b b' d d' => Builder.TwinStep id b b' d d' ∧ d.Conforms c γ.Asks
  exact := True
  common := fun b _ => ⟨fun n n' => n' = n, fun name => ∀ p : Primitive, name = p.name → c.apart → c.Allows p, b.custom⟩
  strict := c.solid c.name
  Allows := fun p => c.apart → c.Allows p
  like := fun h => ⟨h.1.1, h.2⟩
  le := fun h => ⟨fun _ _ hn => hn, fun _ hn => hn, h.1.2⟩
  refl := fun h => ⟨⟨h.1, rfl⟩, h.2⟩
  trans := fun h h' => ⟨⟨h'.1.1, h'.1.2.trans h.1.2⟩, h'.2⟩
  level := fun h => h.1.level
  custom_eq := fun _ _ => rfl
  current_eq := fun _ _ _ _ h => (Builder.twin id).current_eq trivial (γ := []) h.1
  declared := fun _ _ _ _ hname p hp => absurd hp (hname p)
  ret_eq := fun h _ => (Builder.twin id).ret_eq (γ := []) h.1 trivial
  allows := fun h => h
  ordinary := fun h _ => Mandate.allows h
  tracker := fun h halloc _ hp _ => Mandate.allows_of_tracked hp (h.2.alloc_eq.symm.trans halloc)
  firm_ret := fun hsolid _ _ _ h p f hf =>
    h.2.honest (c.apart_of_solid hsolid) f (List.mem_of_find?_eq_some hf) p (by simpa using List.find?_some hf)
  firm_fields := fun _ _ _ _ h => h.2.fields
  note := fun h _ _ _ => ⟨⟨h.1, rfl⟩, { h.2 with }⟩
  position := fun block _ _ h =>
    ⟨rfl, ((Builder.twin id).position (γ := []) block _ _ h.1).2, { h.2 with }⟩
  appendBlock := fun label _ _ h =>
    ((Blind.appendBlock).follows _ _ h.1).imp_right fun hstep => ⟨hstep, h.2.appendBlock label⟩
  eraseBlock := fun block _ _ h => ⟨rfl, ((Blind.eraseBlock).follows _ _ h.1).2, h.2.eraseBlock block⟩
  moveBlockToEnd := fun block _ _ h =>
    ⟨rfl, ((Blind.moveBlockToEnd).follows _ _ h.1).2, h.2.moveBlockToEnd block⟩
  freshReg := fun _ _ h => (Blind.freshReg.follows _ _ h.1).imp_right fun hstep => ⟨hstep, h.2.freshReg⟩
  discardBody := fun _ _ h => ⟨rfl, (Blind.discardBody.follows _ _ h.1).2, h.2.discardBody⟩
  push := fun h hi hfirm hcalls => by
    rw [hi.eq_of_names fun _ _ hn => hn]
    exact ⟨((Blind.push).follows _ _ h.1).2, h.2.push ⟨fun hapart p hp => hcalls p hp hapart, hfirm⟩⟩
  terminate := fun {_ b _ t _} h ht => by
    rw [ht.eq_of_names fun _ _ hn => hn]
    exact ⟨⟨h.1.modifyBlock _, Builder.modifyBlock_custom b _⟩, h.2.terminate t⟩
  constString := fun h s => by
    obtain ⟨hstep, hvalue⟩ := (Builder.twin id).constString (γ := []) h.1 s
    rw [hvalue.eq_of_names fun _ _ hn => hn]
    exact ⟨⟨hstep, h.2.constString s⟩, .plain (.inl trivial)⟩
  declarePrimitive := fun h p => ⟨⟨((Builder.twin id).declarePrimitive (γ := []) h.1 p).1, h.2.declarePrimitive p⟩,
    fun hp q hq => Primitive.name_injective hq ▸ hp⟩
  introduce := fun _ _ _ _ hblocks hname hsymbol _ _ h =>
    ⟨((Builder.twin id).introduce trivial (γ := []) hblocks hname hsymbol _ _ h.1).1,
      ((Builder.twin id).introduce trivial (γ := []) hblocks hname hsymbol _ _ h.1).2,
      h.2.introduce hblocks hname hsymbol⟩

end Aero.IR

/-! ### Buffers -/

namespace Aero.IR

open List

variable {c : Mandate} {requested requested' : Nat → Reg → Prop} {b : Builder} {size : Value}

theorem Module.function?_eq_none_iff {m : Module} {name : String} :
    m.function? name = none ↔ name ∉ m.functions.map Function.name := by
  simp [Module.function?]

namespace Build

/-! ### The two calls -/

theorem declarePrimitive_run (p : Primitive) (b : Builder) : declarePrimitive p b = ((), b) ∨
      b.module.function? p.name = none ∧ declarePrimitive p b = ((), b.addFn p.declaration) := by
  cases hf : b.module.function? p.name with
  | none =>
    refine .inr ⟨rfl, ?_⟩
    change ((), (declareFunction p.declaration b).2) = _
    rw [declareFunction_new (Option.map_eq_none_iff.mpr hf)]
  | some g =>
    refine .inl ?_
    change ((), (declareFunction p.declaration b).2) = _
    rw [declareFunction_old (by rw [Module.prototype?]; exact congrArg _ hf)]

section

variable (hb : b.Conforms c requested)
include hb

theorem callPrimitive_run (hapart : c.apart) (p : Primitive) (args : List Value) :
    callPrimitive p args b = callOf p.name args p.signature.ret (declarePrimitive p b).2 := by
  obtain ⟨f, hf⟩ := declarePrimitive_function? p b
  rw [← (hb.declarePrimitive p).honest hapart f (mem_of_find?_eq_some hf) p (by simpa using find?_some hf)]
  exact call_known hf args

/-- The code of an allocation, before anything is said of a registration. -/
theorem callMalloc_run (hapart : c.apart) (size : Value) :
    ∃ (r : Reg) (b' : Builder) (log : Array LogLine), b'.Conforms c requested ∧
      callPrimitive .malloc [size] b = (.ofReg r .ptr, { b'.extend [.malloc r size] with log := log }) := by
  obtain ⟨log, hpush⟩ := exists_push_run (.malloc (freshReg (declarePrimitive .malloc b).2).1 size)
    (freshReg (declarePrimitive .malloc b).2).2
  refine ⟨(freshReg (declarePrimitive .malloc b).2).1, (freshReg (declarePrimitive .malloc b).2).2, log,
    (hb.declarePrimitive .malloc).freshReg, ?_⟩
  rw [callPrimitive_run hb hapart]
  exact congrArg (Value.ofReg (freshReg (declarePrimitive .malloc b).2).1 .ptr, ·) (congrArg Prod.snd hpush)

theorem conforms_callMalloc (hapart : c.apart) (hle : ∀ i r, requested i r → requested' i r)
    (hrequested : c.alloc = .untracked ∨ ∀ i r, (callPrimitive .malloc [size] b).2.current = some i →
      (callPrimitive .malloc [size] b).1 = .ofReg r .ptr → requested' i r) :
    (callPrimitive .malloc [size] b).2.Conforms c requested' ∧
      (callPrimitive .malloc [size] b).1.ty.isVoid = false := by
  obtain ⟨r, b', log, hb', hrun⟩ := callMalloc_run hb hapart size
  rw [hrun] at hrequested ⊢
  have hpiece : ∀ i, b'.current = some i → c.Piece c.name (requested' i) [.malloc r size] := fun i hi =>
    .unregistered (hrequested.imp_right fun h => h i r ((b'.extend_current _).trans hi) rfl)
  exact ⟨{ (hb'.mono hle).extend hpiece with }, rfl⟩

end

theorem registeredMalloc_run {ptr : Value} {b' : Builder} (hmalloc : callPrimitive .malloc [size] b = (ptr, b'))
    (htracked : b'.alloc = .tracked) (dims : Nat) : registeredMalloc size dims b =
      (ptr, (callPrimitive .gcRegister [ptr, size, int32 (Int64.ofNat (max dims 1))] b').2) := by
  obtain ⟨rfl, rfl⟩ := Prod.mk.inj hmalloc
  exact congrFun (if_pos (decide_eq_true htracked)) _

/-- What is left to do after the registration's own call is declared. -/
theorem declareRegister_run {r : Reg} {log : Array LogLine} (hb : b.Conforms c requested)
    (p : Primitive) : ∃ b' : Builder, b'.Conforms c requested ∧
      (declarePrimitive p { b.extend [.malloc r size] with log := log }).2 =
        { b'.extend [.malloc r size] with log := log } := by
  rcases declarePrimitive_run p { b.extend [.malloc r size] with log := log } with hrun | ⟨hnew, hrun⟩
  · exact ⟨b, hb, by rw [hrun]⟩
  · have hnew' : b.module.function? p.declaration.name = none := by
      rw [Module.function?_eq_none_iff] at hnew ⊢
      exact Builder.extend_names b [.malloc r size] ▸ hnew
    refine ⟨b.addFn p.declaration, hb.addFn hnew' rfl ?_ (.inr (.inl ⟨p, rfl⟩)), ?_⟩
    · intro _ q hq
      rw [Primitive.name_injective (show p.name = q.name from hq)]
      rfl
    · rw [hrun, ← hb.addFn_extend]
      rfl

theorem conforms_registeredMalloc (hb : b.Conforms c requested) (hapart : c.apart) (size : Value) (dims : Nat) :
    (registeredMalloc size dims b).2.Conforms c requested ∧ (registeredMalloc size dims b).1.ty.isVoid = false := by
  cases halloc : c.alloc with
  | untracked =>
    obtain ⟨hb', hty⟩ : (callPrimitive .malloc [size] b).2.Conforms c requested ∧ _ :=
      conforms_callMalloc hb hapart (fun _ _ h => h) (.inl halloc)
    have huntracked : ¬ decide ((callPrimitive .malloc [size] b).2.alloc = .tracked) = true := by
      rw [hb'.alloc_eq, halloc]
      decide
    have hrun : registeredMalloc size dims b = callPrimitive .malloc [size] b := congrFun (if_neg huntracked) _
    rw [hrun]
    exact ⟨hb', hty⟩
  | tracked =>
    obtain ⟨r, b1, log, hb1, hmalloc⟩ := callMalloc_run hb hapart size
    -- Between the two calls the builder conforms as if the program had asked for the buffer.
    have hbetween : ({ b1.extend [.malloc r size] with log := log } : Builder).Conforms c fun _ _ => True :=
      { (hb1.mono fun _ _ _ => trivial).extend fun _ _ => .unregistered (.inr trivial) with }
    obtain ⟨b2, hb2, hdeclare⟩ : ∃ b2 : Builder, b2.Conforms c requested ∧
        (declarePrimitive .gcRegister { b1.extend [.malloc r size] with log := log }).2 =
          { b2.extend [.malloc r size] with log := log } := declareRegister_run hb1 .gcRegister
    obtain ⟨log', hpush⟩ := exists_push_run (.register r size (int32 (Int64.ofNat (max dims 1))))
      { b2.extend [.malloc r size] with log := log }
    have hregister : (callPrimitive .gcRegister [.ofReg r .ptr, size, int32 (Int64.ofNat (max dims 1))]
        { b1.extend [.malloc r size] with log := log }).2 =
          { b2.extend [.malloc r size, .register r size (int32 (Int64.ofNat (max dims 1)))] with log := log' } := by
      rw [callPrimitive_run hbetween hapart, hdeclare]
      refine (congrArg Prod.snd hpush).trans ?_
      rw [Builder.extend_log, Builder.extend_extend]
      rfl
    have hrun : registeredMalloc size dims b = (.ofReg r .ptr, (callPrimitive .gcRegister
        [.ofReg r .ptr, size, int32 (Int64.ofNat (max dims 1))]
          { b1.extend [.malloc r size] with log := log }).2) :=
      registeredMalloc_run hmalloc (hbetween.alloc_eq.trans halloc) dims
    rw [hrun, hregister]
    exact ⟨{ hb2.extend fun _ _ => .registered halloc with }, rfl⟩

/-! ### Under a mandate -/

theorem registers_mandate (c : Mandate) : Registers c.pairing := by
  by_cases hapart : c.apart
  · refine ⟨fun {_ size} _ dims => ⟨fun b b' hlike _ => ?_⟩⟩
    have hsize : (Builder.twin id).Plain size := ⟨.inl trivial, False.elim⟩
    obtain ⟨htwin, heq, _⟩ := ((Registers.of_allows fun _ => trivial).registered
      hsize dims).run (γ := []) b b' hlike.1 (le_refl _)
    obtain ⟨hconforms, hty⟩ := conforms_registeredMalloc hlike.2 hapart size dims
    exact ⟨⟨htwin, hconforms⟩, heq, .inl trivial, fun _ => hty⟩
  · exact .of_allows fun _ h => absurd h hapart

theorem conforms_malloc {γ : Requests} (hb : b.Conforms c γ.Asks) (hsize : c.pairing.Plain size) :
    (malloc size b).2.Conforms c (Requests.Asks (γ ++ [((malloc size b).2.current, (malloc size b).1)])) ∧
      c.pairing.Firm (malloc size b).1.ty := by
  have hle (i : Nat) (r : Reg) (h : γ.Asks i r) :
      Requests.Asks (γ ++ [((malloc size b).2.current, (malloc size b).1)]) i r := mem_append_left _ h
  have hlike : c.pairing.Like γ b b := ⟨rfl, hb⟩
  by_cases hapart : c.apart
  · have hcast := ((mirrors_intCast hsize .i64 false).run b b hlike (le_refl _)).1.2
    refine (conforms_callMalloc hcast hapart hle (.inr fun i r hcurrent hvalue => ?_)).imp_right fun h _ => h
    refine mem_append_right _ (mem_singleton.mpr ?_)
    exact Prod.ext hcurrent.symm hvalue.symm
  · obtain ⟨_, hplain, hadv⟩ := malloc_of_allows (fun _ h => absurd h hapart) hlike hsize
    exact ⟨hadv.2.mono hle, hplain.firm⟩

end Build

end Aero.IR

/-! ### Lowering under a policy -/

namespace Aero.Lowering

open IR

/-! ### States -/

/-- Lowerings under a mandate are compared with all names as they are. -/
def Guise.under (c : Mandate) : Guise :=
  { c.pairing with
    names := Equiv.refl String
    mask := id
    registers := Build.registers_mandate c
    request := fun hlike hsize => by
      obtain ⟨heq, _, htwin⟩ := Build.malloc_of_allows (X := Builder.twin id) (γ := []) (fun _ => trivial) hlike.1
        ⟨.inl trivial, False.elim⟩
      obtain ⟨hconforms, hfirm⟩ := Build.conforms_malloc hlike.2 hsize
      exact ⟨heq, ⟨.inl trivial, hfirm⟩, htwin, hconforms⟩ }

/-- A state conforms to a policy while a function is defined. -/
structure State.Conforms (c : Mandate) (s : State) : Prop where
  builder : s.builder.Conforms c (Requests.Asks s.requested)
  functions : c.apart → ∀ entry ∈ s.functions, ∀ p : Primitive, entry.2.symbol ≠ p.name
  methods : c.apart → ∀ entry ∈ s.methods, ∀ p : Primitive, entry.1 ≠ p.name

variable {α : Type} {env : Env} {c : Mandate} {s s' t' : State} {sig : FnSig}

theorem State.Conforms.like (h : s.Conforms c) (hscopes : s.scopes.All (Slot.Plain c.pairing)) :
    s.Like (.under c) s where
  functions_eq := fun _ => rfl
  methods_eq := fun _ => rfl
  functions := fun _ _ hsig p hp hapart => absurd hp (h.functions hapart _ (mem_of_lookup hsig) p)
  methods := fun _ _ hsig p hp hapart => absurd hp (h.methods hapart _ (mem_of_lookup hsig) p)
  builder := ⟨.refl _, h.builder⟩
  scopes_eq := (Scopes.rename_refl _).symm
  plain := hscopes
  loopExits_eq := rfl
  returnTy_eq := rfl
  same := fun _ => ⟨rfl, rfl⟩

theorem State.Conforms.advance (h : s.Conforms c) (hadv : s.Advance (.under c) s s' t') : s'.Conforms c :=
  ⟨hadv.like.builder.2, hadv.left.functions_eq ▸ h.functions, hadv.left.methods_eq ▸ h.methods⟩

/-! ### Bodies -/

/-- How an action ends that keeps to a policy. -/
def Kept (c : Mandate) (s : State) : EStateM.Result Diagnostic State α → Prop
  | .ok _ s' => s'.Conforms c ∧ s'.errors = s.errors
  | .error d s' => s'.Conforms c ∧ s'.errors = s.errors ∧ d.isError = true

theorem kept_lowerBody (f : FnDef) {values : List Value} (h : s.Conforms c)
    (hscopes : s.scopes.All (Slot.Plain c.pairing)) (hparams : ∀ q ∈ sig.params, q.Firm (c.solid c.name))
    (hvalues : ∀ v ∈ values, c.pairing.Firm v.ty) : Kept c s (lowerBody f sig values env s) := by
  have hbody (P : Common True) : Steady (.under c) env P (lowerBody f sig values) Done .innermost :=
    steady_lowerBody rfl (.inr trivial) hparams fun v hv => ⟨.inl trivial, hvalues v hv⟩
  have hrun := (hbody _).run s s (h.like hscopes) (le_refl _)
  cases hres : lowerBody f sig values env s with
  | ok a s' =>
    rw [hres] at hrun
    exact ⟨h.advance hrun.1, hrun.1.errors_eq⟩
  | error d s' =>
    rw [hres] at hrun
    obtain ⟨⟨problem, span, rfl, _⟩, hadv, _⟩ := hrun
    exact ⟨h.advance hadv, hadv.errors_eq, rfl⟩

theorem kept_lowerEntry (userEntry : String) (h : s.Conforms c) : Kept c s (lowerEntry userEntry env s) := by
  obtain ⟨code, hcode, hmirrored⟩ := lowerEntry_code env userEntry (s.functions.lookup "main")
  have hdeclared (sig : FnSig) (hsig : s.functions.lookup "main" = some sig) (p : Primitive)
      (hp : sig.symbol = p.name) (hapart : c.apart) : c.Allows p :=
    absurd hp (h.functions hapart _ (mem_of_lookup hsig) p)
  rw [hcode s rfl]
  obtain ⟨⟨_, hb⟩, _⟩ := (hmirrored (c.pairing.common s.builder s.builder) hdeclared).run s.builder s.builder
    ⟨.refl _, h.builder⟩ (le_refl _)
  exact ⟨{ h with builder := hb }, rfl⟩

end Aero.Lowering
