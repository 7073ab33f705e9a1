import Aero.Lowering.State
import Aero.Proofs.Region

/-!
Lowering inside the body of a function. What the tables, scopes and loop exits promise of the code
so far is kept by every action; an action that fails keeps what they promise of the module.
-/

namespace Aero.Lowering

open IR List

variable {s s' s'' : State} {problem : Problem} {span : Span} {set : Reg → Prop} {id : BlockId} {slot : Slot}
  {e e' : Site.Effect} {α β : Type} {name message label : String} {env : Env} {c : Bool}

def inlineSymbol (n : Nat) : String := "__aero_inline" ++ "__" ++ toString n

def FnSig.prototype (sig : FnSig) : Signature :=
  ⟨(sig.params.flatMap ParamSig.params).map Param.ty, sig.ret, false⟩

/-- An array parameter is passed by its address and has one or two dimensions. -/
def ParamSig.Fits (p : ParamSig) : Prop :=
  ∀ shape, p.array = some shape → p.ty = .ptr ∧ (shape = .param shape.elem 1 ∨ shape = .param shape.elem 2)

def nestedTy (elem : Ty) (sizes : List Nat) : Ty := sizes.foldr (fun n ty => .array ty n) elem

/-- A slot holds an array in the way of its shape. -/
def Slot.Shaped (slot : Slot) (shape : ArrayShape) : Prop :=
  match shape.storage with
  | .stack => ∃ sizes, shape = .fixed shape.elem sizes ∧ slot.ty = nestedTy shape.elem sizes
  | .heap | .param => shape.rank = 1 ∧ slot.ty = .ptr ∧ slot.extents.length ≤ 1
  | .rows => shape.rank = 2 ∧ slot.ty = .ptr ∧ slot.extents.length ≤ 2

variable {H : Prop}

/-- A slot can be used at a site. -/
structure SlotOk (w : Site H) (slot : Slot) : Prop where
  addr : w.Addr slot.ptr slot.ty
  shaped : ∀ shape, slot.array = some shape → slot.Shaped shape
  extents : ∀ v ∈ slot.extents, w.Val v .i32

theorem SlotOk.mono {w w' : Site H} (h : SlotOk w slot) (hgrows : Site.Grows e w w') : SlotOk w' slot :=
  ⟨hgrows.addr h.addr, h.shaped, fun v hv => ⟨hgrows.has (h.extents v hv).1, (h.extents v hv).2⟩⟩

/-- The tables of a state agree with its module. -/
structure Tables (H : Prop) (s : State) : Prop where
  sound : H → s.builder.module.Sound
  registered : s.builder.Registered
  functions : ∀ name sig, s.functions.lookup name = some sig →
    s.builder.module.prototype? sig.symbol = some sig.prototype ∧ ∀ p ∈ sig.params, p.Fits
  methods : ∀ symbol sig, s.methods.lookup symbol = some sig →
    s.builder.module.prototype? symbol = some sig.prototype ∧ (∀ p ∈ sig.params, p.Fits) ∧
      ∃ struct params, sig.params = { name := "self", ty := .struct struct } :: params
  fresh : H → ∀ n, s.symbols < n → s.builder.module.prototype? (inlineSymbol n) = none
  outermost : s.scopes.outermost = []

/-- A state in the middle of a body. -/
structure Body (s : State) (w : Site H) : Prop where
  tables : Tables H s
  builder_eq : s.builder = w.builder
  returnTy_eq : s.returnTy = w.fn.ret
  inner_ne : s.scopes.inner ≠ []
  slots : ∀ frame ∈ s.scopes.inner, ∀ p ∈ frame, SlotOk w p.2
  exits : ∀ id ∈ s.loopExits, w.CanEnter id

/-- Two states agree in what statements are lowered with. -/
structure State.Agrees (s s' : State) : Prop where
  scopes_eq : s'.scopes = s.scopes
  functions_eq : s'.functions = s.functions
  methods_eq : s'.methods = s.methods
  loopExits_eq : s'.loopExits = s.loopExits
  returnTy_eq : s'.returnTy = s.returnTy

/-- Only the builder and the diagnostics differ. -/
structure State.Same (s s' : State) : Prop extends State.Agrees s s' where
  symbols_eq : s'.symbols = s.symbols

theorem State.Agrees.refl (s : State) : s.Agrees s := ⟨rfl, rfl, rfl, rfl, rfl⟩

theorem State.Agrees.trans (h : s.Agrees s') (h' : s'.Agrees s'') : s.Agrees s'' :=
  ⟨h'.scopes_eq.trans h.scopes_eq, h'.functions_eq.trans h.functions_eq,
    h'.methods_eq.trans h.methods_eq, h'.loopExits_eq.trans h.loopExits_eq,
    h'.returnTy_eq.trans h.returnTy_eq⟩

theorem State.Same.refl (s : State) : s.Same s := ⟨.refl s, rfl⟩

theorem State.Same.trans (h : s.Same s') (h' : s'.Same s'') : s.Same s'' :=
  ⟨h.toAgrees.trans h'.toAgrees, h'.symbols_eq.trans h.symbols_eq⟩

theorem State.Same.setBuilder (s : State) (b : Builder) : s.Same { s with builder := b } :=
  ⟨⟨rfl, rfl, rfl, rfl, rfl⟩, rfl⟩

theorem head?_inlineSymbol (n : Nat) : (inlineSymbol n).toList.head? = some '_' := by
  have hstem : "__aero_inline".toList.head? = some '_' := by decide
  unfold inlineSymbol
  rw [String.toList_append, String.toList_append, append_assoc, head?_append, hstem]
  rfl

theorem inlineSymbol_ne (n : Nat) (p : Primitive) : p.name ≠ inlineSymbol n := by
  have hother : p.name.toList.head? ≠ some '_' := by cases p <;> decide
  intro h
  exact hother (h ▸ head?_inlineSymbol n)

/-- Tables keep agreeing when the prototypes and types stay and no names are declared that inline
blocks may get later. -/
theorem Tables.transfer (h : Tables H s) (hfunctions : s'.functions = s.functions)
    (hmethods : s'.methods = s.methods) (houter : s'.scopes.outermost = [])
    (hsymbols : s.symbols ≤ s'.symbols) (hcustom : s'.builder.custom = s.builder.custom)
    (hstructs : s'.builder.module.structs = s.builder.module.structs)
    (hproto : ∀ name sig, s.builder.module.prototype? name = some sig → s'.builder.module.prototype? name = some sig)
    (hsound : H → s'.builder.module.Sound)
    (hfresh : ∀ n, s'.symbols < n → s.builder.module.prototype? (inlineSymbol n) = none →
      s'.builder.module.prototype? (inlineSymbol n) = none) : Tables H s' where
  sound := hsound
  registered := by
    intro name t ht
    rw [Builder.custom?, hcustom] at ht
    rw [Module.struct?, hstructs]
    exact h.registered name t ht
  functions := by
    intro name sig hsig
    rw [hfunctions] at hsig
    exact ⟨hproto _ _ (h.functions name sig hsig).1, (h.functions name sig hsig).2⟩
  methods := by
    intro symbol sig hsig
    rw [hmethods] at hsig
    exact ⟨hproto _ _ (h.methods symbol sig hsig).1, (h.methods symbol sig hsig).2⟩
  fresh := fun hH n hn => hfresh n hn (h.fresh hH n (Nat.lt_of_le_of_lt hsymbols hn))
  outermost := houter

theorem Tables.agrees (h : Tables H s) (hagrees : s.Agrees s')
    (hsymbols : s.symbols ≤ s'.symbols) (hframe : s.builder.Frame s'.builder) (hsound : H → s'.builder.module.Sound)
    (hfresh : ∀ n, s'.symbols < n → s.builder.module.prototype? (inlineSymbol n) = none →
      s'.builder.module.prototype? (inlineSymbol n) = none) : Tables H s' :=
  h.transfer hagrees.functions_eq hagrees.methods_eq (hagrees.scopes_eq ▸ h.outermost) hsymbols
    hframe.custom_eq hframe.structs_eq hframe.prototypes hsound hfresh

/-- Tables keep agreeing when only primitives are declared. -/
theorem Tables.same (h : Tables H s) (hsame : s.Same s')
    (hframe : s.builder.Frame s'.builder) (hsound : H → s'.builder.module.Sound)
    (hquiet : ∀ name, (∀ p : Primitive, p.name ≠ name) →
      s.builder.module.prototype? name = none → s'.builder.module.prototype? name = none) : Tables H s' :=
  h.agrees hsame.toAgrees (Nat.le_of_eq hsame.symbols_eq.symm) hframe hsound fun n _ => hquiet _ (inlineSymbol_ne n)

theorem Body.grow {w w' : Site H} (h : Body s w)
    (hgrows : Site.Grows e w w') (hagrees : s.Agrees s') (hbuilder : s'.builder = w'.builder)
    (htables : Tables H s') : Body s' w' where
  tables := htables
  builder_eq := hbuilder
  returnTy_eq := by rw [hagrees.returnTy_eq, h.returnTy_eq, hgrows.ret_eq]
  inner_ne := hagrees.scopes_eq ▸ h.inner_ne
  slots := by
    rw [hagrees.scopes_eq]
    exact fun frame hframe p hp => (h.slots frame hframe p hp).mono hgrows
  exits := by
    rw [hagrees.loopExits_eq]
    exact fun id hid => hgrows.canEnter (h.exits id hid)

theorem Body.quiet {w w' : Site H} (h : Body s w) (hgrows : Site.Grows e w w') (hquiet : e.quiet) (hsame : s.Same s')
    (hbuilder : s'.builder = w'.builder) : Body s' w' := by
  refine h.grow hgrows hsame.toAgrees hbuilder (h.tables.same hsame ?_ ?_ ?_)
  · rw [h.builder_eq, hbuilder]
    exact hgrows.frame
  · rw [hbuilder]
    exact w'.sound
  · rw [h.builder_eq, hbuilder]
    exact hgrows.quiet hquiet

theorem Body.same {w w' : Site H} (h : Body s w) (hle : w ≤ w') (hsame : s.Same s')
    (hbuilder : s'.builder = w'.builder) : Body s' w' :=
  h.quiet hle trivial hsame hbuilder

/-! ### Actions -/

theorem bind_run (act : Lower α) (next : α → Lower β) (env : Env) (s : State) :
    (act >>= next) env s = match act env s with
      | .ok a s' => next a env s'
      | .error d s' => .error d s' := by
  change EStateM.bind (act env) (fun a => next a env) s = _
  unfold EStateM.bind
  cases act env s <;> rfl

theorem liftM_bind (act : Build α) (next : α → Build β) :
    (liftM (act >>= next) : Lower β) = liftM act >>= fun a => liftM (next a) := rfl

theorem liftM_pure (a : α) : (liftM (pure a : Build α) : Lower α) = pure a := rfl

theorem liftM_run {b : Builder} {act : Build α} {a : α}
    (h : act s.builder = (a, b)) : (liftM act : Lower α) env s = .ok a { s with builder := b } := by
  change EStateM.Result.ok (act s.builder).1 { s with builder := (act s.builder).2 } = _
  rw [h]

/-- What is left of a state when an action has failed. If the action declares nothing but primitives,
only the builder and the diagnostics differ. -/
structure Fails (H quiet : Prop) (s s' : State) : Prop where
  frame : s.builder.Frame s'.builder
  tables : Tables H s'
  functions_eq : s'.functions = s.functions
  methods_eq : s'.methods = s.methods
  same : quiet → s.Same s'
  undeclared : quiet → ∀ name, (∀ p : Primitive, p.name ≠ name) →
    s.builder.module.prototype? name = none → s'.builder.module.prototype? name = none

/-- What holds of the end of an action, by whether it has failed. -/
def Outcome {α : Type} (E : State → Prop) (R : α → State → Prop) : EStateM.Result Diagnostic State α → Prop
  | .ok a s' => R a s'
  | .error _ s' => E s'

theorem Outcome.bind {act : Lower α} {next : α → Lower β}
    {E : State → Prop} {Q : α → State → Prop} {R : β → State → Prop}
    (hact : Outcome E Q (act env s)) (hnext : ∀ a s', Q a s' → Outcome E R (next a env s')) :
    Outcome E R ((act >>= next) env s) := by
  rw [bind_run]
  cases hres : act env s with
  | error d s' =>
    rw [hres] at hact
    exact hact
  | ok a s' =>
    rw [hres] at hact
    exact hnext a s' hact

theorem Outcome.mono {r : EStateM.Result Diagnostic State α} {E E' : State → Prop}
    {Q R : α → State → Prop} (h : Outcome E Q r) (hE : ∀ s, E s → E' s)
    (hQR : ∀ a s, Q a s → R a s) : Outcome E' R r := by
  cases r with
  | error d s' => exact hE s' h
  | ok a s' => exact hQR a s' h

/-- In a body, an action only adds code and leaves the block open, and a condition holds of its
result; or it fails. -/
structure Lowers {α : Type} (env : Env) (act : Lower α) (s : State) (w : Site H)
    (Q : α → Site H → Prop) : Prop where
  run : w.Open → Body s w →
    Outcome (Fails H True s) (fun a s' => ∃ w', w ≤ w' ∧ w'.Open ∧ s.Same s' ∧ s'.builder = w'.builder ∧ Q a w')
      (act env s)

theorem Fails.refl {quiet : Prop} (h : Tables H s) : Fails H quiet s s :=
  ⟨.refl _, h, rfl, rfl, fun _ => .refl s, fun _ _ _ h => h⟩

/-- A state comes from another by code added at a site. -/
structure Inside (e : Site.Effect) (s0 : State) (w0 : Site H) (s : State) (w : Site H) : Prop where
  builder_eq : s.builder = w.builder
  agrees : s0.Agrees s
  tables : Tables H s
  symbols_eq : e.quiet → s.symbols = s0.symbols
  grows : Site.Grows e w0 w

namespace Inside

variable {s0 : State} {w0 w w' : Site H}

theorem start (h : Body s w) : Inside e s w s w :=
  ⟨h.builder_eq, .refl s, h.tables, fun _ => rfl, .refl w⟩

theorem body (h : Inside e s0 w0 s w) (h0 : Body s0 w0) : Body s w :=
  h0.grow h.grows h.agrees h.builder_eq h.tables

theorem trans (h : Inside e s0 w0 s w) (h' : Inside e s w s' w') : Inside e s0 w0 s' w' :=
  ⟨h'.builder_eq, h.agrees.trans h'.agrees, h'.tables,
    fun hq => (h'.symbols_eq hq).trans (h.symbols_eq hq), h.grows.trans h'.grows⟩

theorem fails {quiet : Prop} (h : Inside e s0 w0 s w) (h0 : Body s0 w0) (hquiet : quiet → e.quiet)
    (hfails : Fails H quiet s s') : Fails H quiet s0 s' where
  frame := by
    have hframe := h.grows.frame
    rw [← h0.builder_eq, ← h.builder_eq] at hframe
    exact hframe.trans hfails.frame
  tables := hfails.tables
  functions_eq := hfails.functions_eq.trans h.agrees.functions_eq
  methods_eq := hfails.methods_eq.trans h.agrees.methods_eq
  same := fun hq => .trans ⟨h.agrees, h.symbols_eq (hquiet hq)⟩ (hfails.same hq)
  undeclared := by
    intro hq name hname hnone
    refine hfails.undeclared hq name hname ?_
    rw [h0.builder_eq] at hnone
    rw [h.builder_eq]
    exact h.grows.quiet (hquiet hq) name hname hnone

theorem of_le (h : Body s w) (hle : w ≤ w') (hsame : s.Same s')
    (hbuilder : s'.builder = w'.builder) : Inside e s w s' w' :=
  ⟨hbuilder, hsame.toAgrees, (h.same hle hsame hbuilder).tables, fun _ => hsame.symbols_eq, .of_le hle⟩

end Inside

namespace Lowers

variable {w : Site H} {Q : α → Site H → Prop} {act : Lower α}

theorem pure {a : α} (h : Q a w) : Lowers env (Pure.pure a) s w Q :=
  ⟨fun hopen hbody => ⟨w, le_refl w, hopen, .refl s, hbody.builder_eq, h⟩⟩

theorem fail : Lowers env (fail problem span) s w Q :=
  ⟨fun _ hbody => .refl hbody.tables⟩

theorem bind {next : α → Lower β} {R : β → Site H → Prop} (hact : Lowers env act s w Q)
    (hnext : ∀ a s' w', w ≤ w' → s.Same s' → Q a w' → Lowers env (next a) s' w' R) :
    Lowers env (act >>= next) s w R := by
  refine ⟨fun hopen hbody => .bind (hact.run hopen hbody) ?_⟩
  rintro a s' ⟨w', hle, hopen', hsame, hbuilder, hQ⟩
  refine ((hnext a s' w' hle hsame hQ).run hopen' (hbody.same hle hsame hbuilder)).mono ?_ ?_
  · exact fun _ => (Inside.of_le (e := .plain) hbody hle hsame hbuilder).fails hbody fun h => h
  · rintro b s'' ⟨w'', hle', hopen'', hsame', hbuilder', hR⟩
    exact ⟨w'', le_trans hle hle', hopen'', hsame.trans hsame', hbuilder', hR⟩

theorem mono {R : α → Site H → Prop} (h : Lowers env act s w Q)
    (hQR : ∀ a w', w ≤ w' → Q a w' → R a w') : Lowers env act s w R := by
  refine ⟨fun hopen hbody => (h.run hopen hbody).mono (fun _ h => h) ?_⟩
  rintro a s' ⟨w', hle, hopen', hsame, hbuilder, hQ⟩
  exact ⟨w', hle, hopen', hsame, hbuilder, hQR a w' hle hQ⟩

theorem discard (h : Lowers env act s w Q) : Lowers env (Functor.discard act) s w fun _ _ => True := by
  exact h.bind fun _ _ _ _ _ _ => .pure trivial

theorem lift {act : Build α} (h : Emits act w Q) : Lowers env (liftM act) s w Q := by
  refine ⟨fun hopen hbody => ?_⟩
  obtain ⟨a, w', hrun, hle, hopen', hQ⟩ := h hopen
  rw [liftM_run (hbody.builder_eq.symm ▸ hrun)]
  exact ⟨w', hle, hopen', .setBuilder s _, rfl, hQ⟩

theorem lift_run {act : Build α} (h : Emits act w Q) : Lowers env (liftM act) s w fun a w' =>
    Q a w' ∧ w.Open ∧ act w.builder = (a, w'.builder) :=
  lift h.with_run

theorem state_bind {next : State → Lower α} (h : Body s w → Lowers env (next s) s w Q) :
    Lowers env (state >>= next) s w Q :=
  ⟨fun hopen hbody => (h hbody).run hopen hbody⟩

theorem of_body (h : Body s w → Lowers env act s w Q) : Lowers env act s w Q :=
  ⟨fun hopen hbody => (h hbody).run hopen hbody⟩

theorem read_bind {next : Env → Lower α} (h : Lowers env (next env) s w Q) : Lowers env (read >>= next) s w Q := ⟨h.run⟩

theorem ite {act' : Lower α} (h : c = true → Lowers env act s w Q)
    (h' : c = false → Lowers env act' s w Q) : Lowers env (if c then act else act') s w Q := by
  cases c with
  | true => exact h rfl
  | false => exact h' rfl

theorem otherwise (h : c = false → Lowers env act s w Q) :
    Lowers env (if c then Lowering.fail problem span else act) s w Q :=
  ite (fun _ => .fail) h

end Lowers

/-- In a body, an action only adds code; if it matters, it does not fail. -/
structure Sure {α : Type} (A : Prop) (env : Env) (act : Lower α) (s : State) (w : Site H)
    (Q : α → Site H → Prop) : Prop extends Lowers env act s w Q where
  succeeds : A → w.Open → Body s w → ∃ a s', act env s = .ok a s'

namespace Sure

variable {A : Prop} {w : Site H} {Q : α → Site H → Prop} {act : Lower α}

theorem pure {a : α} (h : Q a w) : Sure A env (Pure.pure a) s w Q := ⟨.pure h, fun _ _ _ => ⟨a, s, rfl⟩⟩

theorem lift_run {act : Build α} (h : Emits act w Q) : Sure A env (liftM act) s w fun a w' =>
    Q a w' ∧ w.Open ∧ act w.builder = (a, w'.builder) :=
  ⟨.lift_run h, fun _ _ _ => ⟨_, _, liftM_run rfl⟩⟩

theorem ok (h : Sure A env act s w Q) (hA : A) (hopen : w.Open) (hbody : Body s w) :
    ∃ a s' w', act env s = .ok a s' ∧ w ≤ w' ∧ w'.Open ∧ s.Same s' ∧ Body s' w' ∧ Q a w' := by
  obtain ⟨a, s', hrun⟩ := h.succeeds hA hopen hbody
  have hend := h.run hopen hbody
  rw [hrun] at hend
  obtain ⟨w', hle, hopen', hsame, hbuilder, hQ⟩ := hend
  exact ⟨a, s', w', hrun, hle, hopen', hsame, hbody.same hle hsame hbuilder, hQ⟩

theorem bind {next : α → Lower β} {R : β → Site H → Prop} (hact : Sure A env act s w Q)
    (hnext : ∀ a s' w', w ≤ w' → s.Same s' → Q a w' → Sure A env (next a) s' w' R) :
    Sure A env (act >>= next) s w R where
  toLowers := hact.toLowers.bind fun a s' w' hle hsame hQ => (hnext a s' w' hle hsame hQ).toLowers
  succeeds := by
    intro hA hopen hbody
    obtain ⟨a, s', w', hrun, hle, hopen', hsame, hbody', hQ⟩ := hact.ok hA hopen hbody
    rw [bind_run, hrun]
    exact (hnext a s' w' hle hsame hQ).succeeds hA hopen' hbody'

theorem mono {R : α → Site H → Prop} (h : Sure A env act s w Q)
    (hQR : ∀ a w', w ≤ w' → Q a w' → R a w') : Sure A env act s w R :=
  ⟨h.toLowers.mono hQR, h.succeeds⟩

theorem congr {act' : Lower α} (hact : act env s = act' env s) (h : Sure A env act' s w Q) : Sure A env act s w Q :=
  ⟨⟨fun hopen hbody => hact ▸ h.run hopen hbody⟩, fun hA hopen hbody => hact ▸ h.succeeds hA hopen hbody⟩

end Sure

/-- From a site of a state, an action leads to another, or it fails. -/
structure Steps {α : Type} (env : Env) (act : Lower α) (s : State) (w : Site H) (E : State → Prop)
    (R : α → State → Site H → Prop) : Prop where
  run : s.builder = w.builder → Outcome E (fun a s' => ∃ w', s'.builder = w'.builder ∧ R a s' w') (act env s)

namespace Steps

variable {w : Site H} {E : State → Prop} {R Q : α → State → Site H → Prop} {act : Lower α}

theorem bind {next : α → Lower β} {R : β → State → Site H → Prop} (hact : Steps env act s w E Q)
    (hnext : ∀ a s' w', s'.builder = w'.builder → Q a s' w' → Steps env (next a) s' w' E R) :
    Steps env (act >>= next) s w E R := by
  refine ⟨fun hbuilder => (hact.run hbuilder).bind ?_⟩
  rintro a s' ⟨w', hbuilder', hQ⟩
  exact (hnext a s' w' hbuilder' hQ).run hbuilder'

theorem read_bind {next : Env → Lower α} (h : Steps env (next env) s w E R) :
    Steps env (read >>= next) s w E R := ⟨h.run⟩

theorem state_bind {next : State → Lower α} (h : Steps env (next s) s w E R) :
    Steps env (state >>= next) s w E R := ⟨h.run⟩

theorem update_bind {change : State → State} {next : Lower α}
    (hbuilder : (change s).builder = w.builder) (h : Steps env next (change s) w E R) :
    Steps env (update change >>= fun _ => next) s w E R := ⟨fun _ => h.run hbuilder⟩

theorem fail (h : E s) : Steps env (fail problem span) s w E R := ⟨fun _ => h⟩

theorem pure {a : α} (h : R a s w) : Steps env (Pure.pure a) s w E R :=
  ⟨fun hbuilder => ⟨w, hbuilder, h⟩⟩

theorem mono {E' : State → Prop} (h : Steps env act s w E Q)
    (hQR : ∀ a s' w', s'.builder = w'.builder → Q a s' w' → R a s' w') (hE : ∀ s', E s' → E' s') :
    Steps env act s w E' R := by
  refine ⟨fun hbuilder => (h.run hbuilder).mono hE ?_⟩
  rintro a s' ⟨w', hbuilder', hQ⟩
  exact ⟨w', hbuilder', hQR a s' w' hbuilder' hQ⟩

theorem imp (h : Steps env act s w E Q)
    (hQR : ∀ a s' w', s'.builder = w'.builder → Q a s' w' → R a s' w') : Steps env act s w E R :=
  h.mono hQR fun _ h => h

/-- An action that adds code at a site of its own. -/
theorem of_lowers {s0 : State} {w0 : Site H} {Q : α → Site H → Prop}
    (h : Lowers env act s w Q) (hbody : Body s0 w0) (hinside : Inside e s0 w0 s w) (hopen : w.Open) :
    Steps env act s w (Fails H e.quiet s0) fun a s' w' => Inside e s0 w0 s' w' ∧ w ≤ w' ∧ w'.Open ∧ Q a w' := by
  have hbody' := hinside.body hbody
  refine ⟨fun _ => (h.run hopen hbody').mono ?_ ?_⟩
  · intro s' hfails
    refine hinside.fails hbody (fun h => h) ?_
    exact { hfails with same := fun _ => hfails.same trivial, undeclared := fun _ => hfails.undeclared trivial }
  · rintro a s' ⟨w', hle, hopen', hsame, hbuilder, hQ⟩
    exact ⟨w', hbuilder, hinside.trans (.of_le hbody' hle hsame hbuilder), hle, hopen', hQ⟩

/-- An action that leaves nothing behind in the end. -/
theorem lowers {Q : α → Site H → Prop} (h : w.Open → Body s w → Steps env act s w (Fails H True s) fun a s' w' =>
      Inside .plain s w s' w' ∧ w'.Open ∧ Q a w') : Lowers env act s w Q := by
  refine ⟨fun hopen hbody => ((h hopen hbody).run hbody.builder_eq).mono (fun _ h => h) ?_⟩
  rintro a s' ⟨w', hbuilder, hinside, hopen', hQ⟩
  exact ⟨w', hinside.grows, hopen', ⟨hinside.agrees, hinside.symbols_eq trivial⟩, hbuilder, hQ⟩

theorem lift {act : Build α} {R : α → Site H → Prop} (h : Reaches act w R) :
    Steps env (liftM act) s w E fun a s' w' => s.Same s' ∧ R a w' := by
  refine ⟨fun hbuilder => ?_⟩
  obtain ⟨a, w', hrun, hR⟩ := h
  rw [liftM_run (hbuilder.symm ▸ hrun)]
  exact ⟨w', rfl, .setBuilder s _, hR⟩

end Steps

namespace Inside

variable {s0 : State} {w0 w : Site H} {E : State → Prop}

section

variable (h : Inside e s0 w0 s w)
include h

theorem step {w' : Site H}
    (hsame : s.Same s') (hbuilder : s'.builder = w'.builder) (hframe : w.builder.Frame w'.builder)
    (hquiet : ∀ name, (∀ p : Primitive, p.name ≠ name) →
      w.builder.module.prototype? name = none → w'.builder.module.prototype? name = none)
    (heq : e'.quiet → e.quiet) (hgrows : Site.Grows e' w0 w') : Inside e' s0 w0 s' w' where
  builder_eq := hbuilder
  agrees := h.agrees.trans hsame.toAgrees
  tables := by
    refine h.tables.same hsame ?_ ?_ ?_
    · rwa [h.builder_eq, hbuilder]
    · rw [hbuilder]
      exact w'.sound
    · rwa [h.builder_eq, hbuilder]
  symbols_eq := fun hq => hsame.symbols_eq.trans (h.symbols_eq (heq hq))
  grows := hgrows

theorem append (hlabel : IsStem label) (set : Reg → Prop)
    (hpending : e.pending w.fn.nextBlock) : Steps env (liftM (Build.appendBlock label)) s w E fun id s' w' =>
      Inside e s0 w0 s' w' ∧ w.Appended id set w' := by
  refine (Steps.lift (Build.reaches_append hlabel set)).imp ?_
  rintro id s' w' hbuilder ⟨hsame, happ⟩
  have hquiet := happ.grows { e with quiet := True } (happ.id_eq ▸ hpending)
  exact ⟨h.step hsame hbuilder hquiet.frame (hquiet.quiet trivial) (fun h => h)
    (h.grows.trans (happ.grows e (happ.id_eq ▸ hpending))), happ⟩

theorem finish {t : Terminator} (hends : w.Ends t) (hexits : ∀ id ∈ t.successors, e.exits id) :
    Steps env (liftM (Build.terminate t)) s w E fun _ s' w' => Inside e s0 w0 s' w' ∧ w.Finished t w' := by
  refine (Steps.lift (Build.reaches_finish hends)).imp ?_
  rintro _ s' w' hbuilder ⟨hsame, hfin⟩
  have hquiet := hfin.grows { e with quiet := True } fun id hid _ => hexits id hid
  exact ⟨h.step hsame hbuilder hquiet.frame (hquiet.quiet trivial) (fun h => h)
    (h.grows.trans (hfin.grows e fun id hid _ => hexits id hid)), hfin⟩

theorem position (hid : w.Pending id set) (hnew : w0.fn.nextBlock ≤ id) (hout : ∀ r, w0.Out r → set r)
    (hclosed : e.settles → w.block.isTerminated = true) {pending : BlockId → Prop}
    (hpending : ∀ x, e.pending x → x = id ∨ pending x) : Steps env (liftM (Build.position id)) s w E fun _ s' w' =>
      Inside { e with pending := pending } s0 w0 s' w' ∧ w.MovedTo id set w' := by
  refine (Steps.lift (Build.reaches_position hid)).imp ?_
  rintro _ s' w' hbuilder ⟨hsame, hmoved⟩
  exact ⟨h.step hsame hbuilder hmoved.frame (fun name _ hnone => (hmoved.prototype?_eq name).trans hnone)
    (fun h => h) (hmoved.grows e w0 pending h.grows hnew hout hclosed hpending), hmoved⟩

theorem moveBlockToEnd (hid : w.Pending id set) : Steps env (liftM (Build.moveBlockToEnd id)) s w E fun _ s' w' =>
      Inside e s0 w0 s' w' ∧ w'.block = w.block ∧ ∀ e, Site.Grows e w w' := by
  refine (Steps.lift (Build.reaches_moveBlockToEnd hid)).imp ?_
  rintro _ s' w' hbuilder ⟨hsame, hblock, hgrows⟩
  exact ⟨h.step hsame hbuilder (hgrows .plain).frame ((hgrows .plain).quiet trivial) (fun h => h)
    (h.grows.trans (hgrows e)), hblock, hgrows⟩

end

/-- At the end of a region nothing is pending. -/
theorem leave (h : Inside (e.inside w0.fn.nextBlock fun _ => False) s0 w0 s w) : Inside e s0 w0 s w :=
  { h with grows := h.grows.leave }

end Inside

variable {w : Site H}

theorem lowers_note {level : LogLevel} :
    Lowers env (note level message) s w fun _ w' => w'.fn = w.fn ∧ w'.block = w.block :=
  .lift (Build.emits_note)

theorem lowers_warn : Lowers env (warn problem span) s w fun _ w' => w'.fn = w.fn ∧ w'.block = w.block := by
  refine lowers_note.bind ?_
  intro _ s' w' _ _ h
  exact ⟨fun hopen hbody => ⟨w', le_refl w', hopen, ⟨⟨rfl, rfl, rfl, rfl, rfl⟩, rfl⟩, hbody.builder_eq, h⟩⟩

theorem Body.slotOk (h : Body s w) (hslot : s.scopes.resolve? name = some slot) : SlotOk w slot := by
  obtain ⟨frame, hframe, hfound⟩ := exists_of_findSome?_eq_some hslot
  obtain ⟨⟨key, slot'⟩, hentry, rfl⟩ := Option.map_eq_some_iff.mp hfound
  have hmem := mem_of_find?_eq_some hentry
  rw [h.tables.outermost] at hframe
  rcases mem_append.mp hframe with hin | hout
  · exact h.slots frame hin _ hmem
  · rw [mem_singleton.mp hout] at hmem
    cases hmem

theorem lowers_lookup : Lowers env (lookup name span) s w fun slot w' => SlotOk w' slot := by
  refine .state_bind fun hbody => ?_
  split
  · next slot hslot => exact .pure (hbody.slotOk hslot)
  · exact .fail

end Aero.Lowering
