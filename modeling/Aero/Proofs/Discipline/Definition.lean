import Aero.Proofs.Discipline.Emission

/-!
Structs and functions under a policy. What is declared does not have the names of primitives, and a body begins with
parameters that are firm. A body that fails is dropped, so nothing of it is left in the module.
-/

open List hiding get modify

namespace Aero

variable {sig : Lowering.FnSig} {q : Lowering.ParamSig} {p : Lowering.Routine} {i : Nat}

def Binding.isVoidArray (p : Binding) : Bool := p.ty.node.isArray && p.ty.node.name = "void"

def FnDef.takesVoidArray (f : FnDef) : Bool := f.params.any Binding.isVoidArray

namespace Lowering

open IR IR.Build

variable {env : Env} {c : Mandate} {requested : Nat → Reg → Prop} {b : Builder} {s : State}

/-! ### Declarations -/

theorem conforms_defineType (hb : b.Conforms c requested) (name : String) {fields : List (String × Ty)}
    (hfields : ∀ field ∈ fields, field.2.isVoid = false) : (defineType name fields b).2.Conforms c requested := by
  refine { hb with fields := fun t ht => ?_ }
  rcases mem_append.mp ht with ht | ht
  · exact hb.fields t (mem_filter.mp ht).1
  · rw [mem_singleton.mp ht]
    exact hfields

theorem ParamSig.Firm.imp {p p' : Prop} (h : q.Firm p) (hp : p' → p) : q.Firm p' :=
  ⟨fun h' => h.ty (hp h'), fun h' => h.elem (hp h')⟩

theorem ParamSig.IsOf.firm {p : Binding} (h : q.IsOf p) : q.Firm (p.isVoidArray = false) := by
  refine ⟨fun _ => (Ty.hasVoid_of_not_isArray h.isArray).trans h.isVoid, fun hvoid shape hshape => ?_⟩
  obtain ⟨harray, helem⟩ := h.elem shape hshape
  refine helem fun hname => ?_
  rw [Binding.isVoidArray, harray, hname] at hvoid
  cases hvoid

theorem SignedBy.firm (h : SignedBy env p sig) : ∀ q ∈ sig.params, q.Firm (p.2.takesVoidArray = false) := by
  obtain ⟨struct, params, heq, hparams⟩ := h.isOf.params
  have hsolid : ∀ b ∈ p.2.params, p.2.takesVoidArray = false → b.isVoidArray = false := fun b hb hvoid =>
    Bool.eq_false_iff.mpr (any_eq_false.mp hvoid b hb)
  have hfirm := ((forall₂_and_left _ _).mpr ⟨hsolid, hparams⟩).imp fun _ _ h => (h.2.firm.imp h.1)
  rw [heq]
  refine forall_mem_append.mpr ⟨fun q hq => ?_, ?_⟩
  · obtain ⟨_, _, rfl⟩ := mem_map.mp hq
    exact ⟨fun _ => rfl, nofun⟩
  · exact ((forall₂_and_left _ _).mp (hfirm.imp fun _ _ h => ⟨h, trivial⟩).flip).1

theorem State.Conforms.declare (h : s.Conforms c)
    (haccepts : Accepts env s p sig) (hentry : c.apart → ∀ p : Primitive, env.config.module.userEntry ≠ p.name)
    (hown : c.own (symbolIn env p)) : (s.declare p sig).Conforms c := by
  have hsymbol := (signedBy_of_signatureIn? haccepts.signature_eq).symbol_eq
  have hplain : c.apart → ∀ p : Primitive, sig.symbol ≠ p.name := fun hapart p =>
    hsymbol ▸ symbolOf_ne (hentry hapart) haccepts.named p
  have hfresh : s.builder.module.prototype? sig.symbol = none := hsymbol ▸ haccepts.fresh
  have hadded : (s.builder.addFn sig.declaration).Conforms c (Requests.Asks s.requested) :=
    h.builder.addFn (Option.map_eq_none_iff.mp hfresh) rfl (fun hapart p hp => absurd hp (hplain hapart p))
      (.inl (show c.own sig.symbol from hsymbol ▸ hown))
  have hrow {c : Prop} [Decidable c] {P : String × FnSig → Prop} {row : String × FnSig} (h : P row) :
      ∀ entry ∈ (if c then [row] else []), P entry := by
    split
    · exact forall_mem_singleton.mpr h
    · exact forall_mem_nil _
  refine { h with
    builder := { hadded with fields := fun t ht => ?_ }, functions := fun hapart => ?_, methods := fun hapart => ?_ }
  · obtain ⟨t, hmem, rfl⟩ := mem_map.mp ht
    rw [(methodAdded_eq p sig t).2]
    exact h.builder.fields t hmem
  · exact forall_mem_append.mpr ⟨h.functions hapart, hrow (hplain hapart)⟩
  · exact forall_mem_append.mpr ⟨h.methods hapart, hrow (hplain hapart)⟩

/-! ### Functions -/

/-- While no function is being defined, a state conforms whichever is next. -/
def State.Rests (c : Mandate) (s : State) : Prop := ∀ name, s.Conforms { c with name := name, index := none }

/-- Between two functions, a state is ready for any other. -/
structure State.Idle (c : Mandate) (s : State) : Prop where
  ready : Ready False False s
  rests : s.Rests c

theorem State.Conforms.idle {name : String} (h : s.Conforms { c with name := name, index := none })
    (hready : Ready False False s) : s.Idle c where
  ready := hready
  rests := fun other => { h with builder := h.builder.rename other }

theorem conforms_defineFunction {f : Function} (hb : b.Conforms { c with index := none } requested)
    (hdecl : b.Declares c.name i f) (hown : c.own c.name) :
    (Build.defineFunction c.name b).2.Conforms { c with index := some i } requested := by
  have hbegan : ({ b with current := some i } : Builder).Conforms { c with index := some i } requested :=
    { hb with
      current_eq := rfl
      seated := fun j hj => by
        obtain rfl : i = j := Option.some.inj hj
        exact ⟨f, hdecl.fn_eq, hdecl.name_eq, hown⟩ }
  have hclear : (({ b with current := some i } : Builder).modifyFunction fun f =>
      { f with nextReg := f.params.length }).Conforms { c with index := some i } requested :=
    hbegan.modifyFunction (fun _ => rfl) fun _ _ _ _ h => h
  have hopened := hclear.appendBlock "entry"
  rw [Build.defineFunction_found hdecl.findIdx hdecl.function?_eq]
  exact { hopened with }

theorem State.Idle.all (h : s.Idle c) (ret : Ty) (p : Slot → Prop) :
    (({ s with builder := b }).enter ret).scopes.All p := by
  intro frame hframe entry hentry
  have hframe : frame ∈ [[], s.scopes.outermost] := hframe
  rw [h.ready.tables.outermost] at hframe
  obtain rfl : frame = [] := by simpa using hframe
  cases hentry

theorem conforms_endFunction (h : b.Conforms c requested) :
    (endFunction b).2.Conforms { c with index := none } requested :=
  { h with
    current_eq := rfl
    seated := nofun }

theorem State.Conforms.leave (h : s.Conforms c) : s.leave.Conforms { c with index := none } :=
  { h with builder := conforms_endFunction h.builder }

theorem firm_paramTys (hparams : ∀ q ∈ sig.params, q.Firm (c.solid c.name)) {ty : Ty}
    (h : ty ∈ paramTys sig.params) : c.pairing.Firm ty := by
  obtain ⟨p, hp, rfl⟩ := mem_map.mp h
  obtain ⟨q, hq, hp⟩ := mem_flatMap.mp hp
  have hvalue : c.pairing.Firm (if q.ty.isStruct then .ptr else q.ty) := by
    split
    · exact fun _ => rfl
    · exact fun hsolid => Ty.isVoid_of_not_hasVoid ((hparams q hq).ty hsolid)
  unfold ParamSig.params at hp
  dsimp only at hp
  split at hp
  · rw [mem_singleton.mp hp]
    exact hvalue
  · rcases mem_cons.mp hp with rfl | hp
    · exact hvalue
    · rw [mem_singleton.mp hp]
      exact fun _ => rfl
  · rcases mem_cons.mp hp with rfl | hp
    · exact hvalue
    · rcases mem_cons.mp hp with rfl | hp
      · exact fun _ => rfl
      · rw [mem_singleton.mp hp]
        exact fun _ => rfl

/-- A function was defined, or its body was dropped. -/
structure Concluded (c : Mandate) (sig : FnSig) (done : Bool) (s s' : State) : Prop where
  idle : s'.Idle c
  proceeds : Proceeds False False (· = sig.symbol) s s'
  body : ∃ g, s'.builder.module.function? sig.symbol = some g ∧ (g.blocks ≠ [] ↔ done = true)

theorem State.Conforms.discard (h : s.Conforms c) (hindex : c.index = some i) :
    ({ s with builder := (discardBody s.builder).2 } : State).Conforms c ∧
      ∃ g, (discardBody s.builder).2.module.function? c.name = some g ∧ g.blocks = [] := by
  have hdropped := h.builder.discardBody
  have hcurrent : s.builder.current = some i := h.builder.current_eq.trans hindex
  obtain ⟨f, hf, hname, _⟩ := h.builder.seated i hcurrent
  have hmem : dropped f ∈ (discardBody s.builder).2.module.functions := by
    change dropped f ∈ (s.builder.modifyFunction dropped).module.functions
    rw [Builder.modifyFunction_eq hcurrent hf]
    exact List.mem_of_getElem? (List.getElem?_set_self (List.getElem?_eq_some_iff.mp hf).1)
  refine ⟨{ h with builder := hdropped }, dropped f, ?_, rfl⟩
  rw [← hname]
  exact hdropped.function?_eq hmem

theorem concluded_defineFunction (env : Env) (f : FnDef) (hidle : s.Idle c) (hawaits : s.Awaits sig)
    (hown : c.own sig.symbol) (hparams : ∀ q ∈ sig.params, q.Firm (c.solid sig.symbol)) :
    match defineFunction f sig env s with
    | .ok _ s' => Concluded c sig true s s' ∧ s'.errors = s.errors
    | .error d s' => Concluded c sig false s s' ∧ s'.errors = s.errors ∧ d.isError = true := by
  have hcode : Outcome (Proceeds False False (· = sig.symbol) s) (fun _ s' =>
      Proceeds False False (· = sig.symbol) s s' ∧ ∃ g, s'.builder.module.function? sig.symbol = some g ∧
        FunctionCode _ _ _ _ sig s'.builder.module g) (defineFunction f sig env s) :=
    defines_defineFunction id hidle.ready hawaits (.of_branched False.elim hawaits.fits)
  obtain ⟨⟨i, g, hdecl, hproto⟩, _⟩ := hawaits
  obtain ⟨log, hrun⟩ := hdecl.run hidle.ready.tables.sound
  let c' : Mandate := { c with name := sig.symbol, index := some i }
  have hparamTys : g.params.map Param.ty = paramTys sig.params := congrArg Signature.params hproto
  have hvalues : ∀ v ∈ g.params.zipIdx.map fun p => Value.ofReg p.2 p.1.ty, c'.pairing.Firm v.ty := by
    intro v hv
    obtain ⟨p, hp, rfl⟩ := mem_map.mp hv
    refine firm_paramTys hparams (hparamTys ▸ ?_)
    exact mem_map_of_mem (fst_mem_of_mem_zipIdx hp)
  have hbuilder : (Build.defineFunction sig.symbol s.builder).2.Conforms c' (Requests.Asks s.requested) :=
    conforms_defineFunction (c := { c with name := sig.symbol }) (hidle.rests sig.symbol).builder hdecl hown
  rw [hrun] at hbuilder
  let noted := (hdecl.site log hidle.ready.tables.sound).builder.note .debug ("lowering @" ++ sig.symbol)
  have hnoted : noted.Conforms c' (Requests.Asks s.requested) := { hbuilder with }
  let s1 : State := ({ s with builder := noted }).enter sig.ret
  have hbody : Kept c' s1 (lowerBody f sig _ env s1) :=
    kept_lowerBody f { hidle.rests sig.symbol with builder := hnoted } (hidle.all sig.ret _) hparams hvalues
  have hdefine : defineFunction f sig env s =
      conclude (lowerBody f sig (g.params.zipIdx.map fun p => .ofReg p.2 p.1.ty) env s1) :=
    defineFunction_run hrun
  rw [hdefine] at hcode ⊢
  cases hres : lowerBody f sig (g.params.zipIdx.map fun p => .ofReg p.2 p.1.ty) env s1 with
  | ok a s2 =>
    rw [hres] at hcode hbody
    obtain ⟨hproceeds, g', hg', _, _, w, _, _, rfl, _⟩ := hcode
    obtain ⟨hs2, herrors⟩ := hbody
    exact ⟨
      { idle := { hs2.leave.idle hproceeds.ready with }
        proceeds := hproceeds
        body := ⟨w.fn, hg', iff_of_true (ne_nil_of_mem w.block_mem) rfl⟩ }, herrors⟩
  | error d s2 =>
    rw [hres] at hcode hbody
    obtain ⟨hs2, herrors, hd⟩ := hbody
    obtain ⟨hdropped, g', hg', hblocks⟩ := hs2.discard rfl
    exact ⟨
      { idle := { hdropped.leave.idle hcode.ready with }
        proceeds := hcode
        body := ⟨g', hg', iff_of_false (fun h => h hblocks) Bool.false_ne_true⟩ }, herrors, hd⟩

end Lowering

end Aero
