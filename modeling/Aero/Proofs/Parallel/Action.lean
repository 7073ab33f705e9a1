import Aero.Proofs.Soundness
import Aero.Proofs.Names
import Aero.Proofs.Parallel.Emission

/-!
Two bodies being lowered side by side. A guise says how the builders are compared, how the variables of one side are
called on the other, and what is compared of signatures. Two actions are parallel if both succeed, or both fail with
one problem up to the names of variables, and the bodies stay alike either way.
-/

namespace Aero.Lowering

open IR List

variable {span : Span} {name message : String} {level : LogLevel}

/-! ### Names in scope -/

def renameFrame (σ : String → String) (frame : Frame) : Frame := frame.map fun entry => (σ entry.1, entry.2)

def Scopes.rename (σ : String → String) (s : Scopes) : Scopes :=
  ⟨s.inner.map (renameFrame σ), renameFrame σ s.outermost⟩

namespace Scopes

variable (π : Equiv.Perm String) (s : Scopes) (name : String) (slot : Slot)

theorem push_rename : (s.rename π).push = s.push.rename π := rfl

theorem pop_rename : (s.rename π).pop = s.pop.rename π := by
  simp only [rename, pop, map_tail]

theorem any_renameFrame (frame : Frame) : (renameFrame π frame).any (·.1 = π name) = frame.any (·.1 = name) := by
  simp [renameFrame, Function.comp_def]

theorem isDeclaredHere_rename : (s.rename π).isDeclaredHere (π name) = s.isDeclaredHere name := by
  have htop : (s.rename π).top = renameFrame π s.top := by
    simp only [rename, top, head?_map]
    cases s.inner.head? <;> rfl
  rw [isDeclaredHere, htop, any_renameFrame, isDeclaredHere]

theorem declare?_rename : (s.rename π).declare? (π name) slot = (s.declare? name slot).map (Scopes.rename π) := by
  unfold declare?
  rw [isDeclaredHere_rename]
  split
  · rfl
  · obtain ⟨inner, outermost⟩ := s
    cases inner <;> rfl

theorem find?_renameFrame (frame : Frame) :
    ((renameFrame π frame).find? (·.1 = π name)).map (·.2) = (frame.find? (·.1 = name)).map (·.2) := by
  have htest : ((fun entry => decide (entry.1 = π name)) ∘
      fun entry : String × Slot => (π entry.1, entry.2)) = fun entry => decide (entry.1 = name) := by
    funext entry
    simp
  rw [renameFrame, find?_map, htest, Option.map_map]
  rfl

theorem resolve?_rename : (s.rename π).resolve? (π name) = s.resolve? name := by
  have hframes : (s.rename π).inner ++ [(s.rename π).outermost] = (s.inner ++ [s.outermost]).map (renameFrame π) := by
    rw [map_append]
    rfl
  rw [resolve?, hframes, findSome?_map]
  exact congrArg (List.findSome? · _) (funext fun frame => find?_renameFrame π name frame)

theorem rename_refl : s.rename (Equiv.refl String) = s := by
  have hframe : renameFrame (Equiv.refl String) = id := funext fun frame => map_id frame
  rw [rename, hframe, map_id]
  rfl

end Scopes

/-! ### Problems -/

def Coercion.rename (σ : String → String) : Coercion → Coercion
  | initial name => initial (σ name)
  | context => context

/-- A problem with other names for the variables that it is about. -/
def Problem.rename (σ : String → String) : Problem → Problem
  | mismatch context reason => mismatch (context.rename σ) reason
  | voidParam name => voidParam (σ name)
  | duplicateParam name => duplicateParam (σ name)
  | variableDeclared name => variableDeclared (σ name)
  | autoWithoutInit name => autoWithoutInit (σ name)
  | notInferable name found => notInferable (σ name) found
  | voidVariable name => voidVariable (σ name)
  | structWithInit name => structWithInit (σ name)
  | arrayWithoutLiteral name => arrayWithoutLiteral (σ name)
  | literalForScalar name => literalForScalar (σ name)
  | arrayAssigned name => arrayAssigned (σ name)
  | undefinedVariable name => undefinedVariable (σ name)
  | structAsValue name ty => structAsValue (σ name) ty
  | structAssigned name => structAssigned (σ name)
  | notStruct name => notStruct (σ name)
  | lengthOfStruct name => lengthOfStruct (σ name)
  | heapArgument function name described => heapArgument function (σ name) described
  | notArray name => notArray (σ name)
  | indexCount name rank count => indexCount (σ name) rank count
  | unknownLength name => unknownLength (σ name)
  | inlineVariable name => inlineVariable (σ name)
  | problem => problem

theorem Problem.rename_id (p : Problem) : p.rename id = p := by
  cases p with
  | mismatch context reason => cases context <;> rfl
  | _ => rfl

/-! ### Signatures -/

def ParamSig.masked (mask : String → String) (p : ParamSig) : ParamSig := { p with name := mask p.name }

def FnSig.masked (mask : String → String) (sig : FnSig) : FnSig :=
  { sig with params := sig.params.map (ParamSig.masked mask) }

theorem FnSig.masked_id (sig : FnSig) : sig.masked id = sig := by
  have hparam : ParamSig.masked id = id := rfl
  rw [FnSig.masked, hparam, map_id]

/-! ### States -/

def State.errors (s : State) : List Diagnostic := s.diagnostics.filter Diagnostic.isError

/-- The addresses and lengths of a slot are the same on both sides, and it does not hold a void value. -/
structure Slot.Plain (X : Pairing) (slot : Slot) : Prop where
  ptr : X.Plain slot.ptr
  ty : X.strict → slot.ty.hasVoid = false
  elem : ∀ shape, slot.array = some shape → X.Firm shape.elem
  extents : ∀ v ∈ slot.extents, X.Plain v

theorem Slot.Plain.firm {X : Pairing} {slot : Slot} (h : slot.Plain X) : X.Firm slot.ty := fun hstrict =>
  Ty.isVoid_of_not_hasVoid (h.ty hstrict)

/-- A way to compare two lowerings. -/
structure Guise extends Pairing where
  /-- How the variables of one side are called on the other. -/
  names : Equiv.Perm String
  /-- What is compared of the names of parameters in signatures. -/
  mask : String → String
  registers : Build.Registers toPairing
  /-- A buffer that the program asks for by itself. -/
  request : ∀ {γ b b' size}, Like γ b b' → toPairing.Plain size →
    (Build.malloc size b').1 = (Build.malloc size b).1 ∧ toPairing.Plain (Build.malloc size b).1 ∧
      Advance (γ ++ [((Build.malloc size b).2.current, (Build.malloc size b).1)]) b b' (Build.malloc size b).2
        (Build.malloc size b').2

instance (g : Guise) : Build.Registers g.toPairing := g.registers

abbrev Guise.world (g : Guise) (s t : State) : Common g.exact := g.common s.builder t.builder

/-- Callers find the same functions and methods in two states, and both modules have declared them. -/
structure State.SameCallees (g : Guise) (s t : State) : Prop where
  functions_eq : ∀ name, (t.functions.lookup name).map (FnSig.masked g.mask) =
    (s.functions.lookup name).map (FnSig.masked g.mask)
  methods_eq : ∀ symbol, (t.methods.lookup symbol).map (FnSig.masked g.mask) =
    (s.methods.lookup symbol).map (FnSig.masked g.mask)
  functions : ∀ name sig, s.functions.lookup name = some sig → (g.world s t).declared sig.symbol
  methods : ∀ symbol sig, s.methods.lookup symbol = some sig → (g.world s t).declared symbol

/-- Two states are in the middle of bodies that are alike, with the same slots in scope. -/
structure State.Like (g : Guise) (s t : State) : Prop extends State.SameCallees g s t where
  builder : g.Like s.requested s.builder t.builder
  scopes_eq : t.scopes = s.scopes.rename g.names
  plain : s.scopes.All (Slot.Plain g.toPairing)
  loopExits_eq : t.loopExits = s.loopExits
  returnTy_eq : t.returnTy = s.returnTy
  same : g.exact → t.symbols = s.symbols ∧ t.requested = s.requested

/-- Work on a body leaves the tables of functions as they are. -/
structure State.Keeps (s s' : State) : Prop where
  functions_eq : s'.functions = s.functions
  methods_eq : s'.methods = s.methods

variable {g : Guise} {s t s' t' s'' t'' : State} {c : Prop} {problem : Problem}

/-- The tables stay, and the modules come to have more in common. -/
theorem State.SameCallees.keep (h : s.SameCallees g t) (hleft : s.Keeps s') (hright : t.Keeps t')
    (hle : g.world s t ≤ g.world s' t') : s'.SameCallees g t' where
  functions_eq := fun name => by rw [hright.functions_eq, hleft.functions_eq, h.functions_eq]
  methods_eq := fun symbol => by rw [hright.methods_eq, hleft.methods_eq, h.methods_eq]
  functions := fun name sig hsig => hle.declared _ (h.functions name sig (hleft.functions_eq ▸ hsig))
  methods := fun symbol sig hsig => hle.declared _ (h.methods symbol sig (hleft.methods_eq ▸ hsig))

/-- Two states went on alike. What is reported is the same on both sides, and no error. -/
structure State.Advance (g : Guise) (s t s' t' : State) : Prop where
  like : s'.Like g t'
  builder : g.Advance s'.requested s.builder t.builder s'.builder t'.builder
  reports : ∃ ds, s'.diagnostics = s.diagnostics ++ ds ∧ t'.diagnostics = t.diagnostics ++ ds
  errors_eq : s'.errors = s.errors
  left : s.Keeps s'
  right : t.Keeps t'

namespace State

theorem Keeps.refl (s : State) : s.Keeps s := ⟨rfl, rfl⟩

theorem Keeps.trans (h : s.Keeps s') (h' : s'.Keeps s'') : s.Keeps s'' :=
  ⟨h'.functions_eq.trans h.functions_eq, h'.methods_eq.trans h.methods_eq⟩

section

variable (h : s.Like g t)
include h

theorem Like.setBuilder {b b' : Builder} (hbuilder : g.Advance s.requested s.builder t.builder b b') :
    s.Advance g t { s with builder := b } { t with builder := b' } where
  like := { h with
    toSameCallees := h.toSameCallees.keep ⟨rfl, rfl⟩ ⟨rfl, rfl⟩ (g.le hbuilder)
    builder := g.like hbuilder }
  builder := hbuilder
  reports := ⟨[], by simp⟩
  errors_eq := rfl
  left := ⟨rfl, rfl⟩
  right := ⟨rfl, rfl⟩

theorem Like.refl_advance : s.Advance g t s t := h.setBuilder (g.refl h.builder)

theorem Like.setScopes {scopes scopes' : Scopes} (hscopes : scopes' = scopes.rename g.names)
    (hplain : scopes.All (Slot.Plain g.toPairing)) :
    s.Advance g t { s with scopes := scopes } { t with scopes := scopes' } :=
  ⟨{ h with scopes_eq := hscopes, plain := hplain }, g.refl h.builder, ⟨[], by simp⟩, rfl, ⟨rfl, rfl⟩, ⟨rfl, rfl⟩⟩

theorem Like.setExits (exits : List BlockId) :
    s.Advance g t { s with loopExits := exits } { t with loopExits := exits } :=
  ⟨{ h with loopExits_eq := rfl }, g.refl h.builder, ⟨[], by simp⟩, rfl, ⟨rfl, rfl⟩, ⟨rfl, rfl⟩⟩

theorem Like.report {d : Diagnostic} (hd : d.isError = false) : s.Advance g t (s.report d)
      { t with diagnostics := t.diagnostics ++ [d] } :=
  ⟨{ h with }, g.refl h.builder, ⟨[d], rfl, rfl⟩, by simp [errors, hd], ⟨rfl, rfl⟩, ⟨rfl, rfl⟩⟩

end

theorem Advance.le (h : s.Advance g t s' t') : g.world s t ≤ g.world s' t' := g.le h.builder

theorem Advance.trans (h : s.Advance g t s' t') (h' : s'.Advance g t' s'' t'') : s.Advance g t s'' t'' where
  like := h'.like
  builder := g.trans h.builder h'.builder
  reports := by
    obtain ⟨ds, hds, hds'⟩ := h.reports
    obtain ⟨es, hes, hes'⟩ := h'.reports
    exact ⟨ds ++ es, by rw [hes, hds, append_assoc], by rw [hes', hds', append_assoc]⟩
  errors_eq := h'.errors_eq.trans h.errors_eq
  left := h.left.trans h'.left
  right := h.right.trans h'.right

end State

/-! ### Actions -/

variable {α β : Type}

/-- Two diagnostics report one problem at one place, each with the names of its side. -/
def Guise.Matches (g : Guise) (d d' : Diagnostic) : Prop :=
  ∃ (problem : Problem) (span : Span), d = problem.diagnostic span ∧ d' = (problem.rename g.names).diagnostic span

theorem Guise.Matches.eq {d d' : Diagnostic} (h : g.Matches d d') (hnames : ⇑g.names = id) : d' = d := by
  obtain ⟨problem, span, rfl, rfl⟩ := h
  rw [hnames, problem.rename_id]

def Scopes.outer (s : Scopes) : List Frame := (s.inner ++ [s.outermost]).tail

theorem Scopes.pop_eq_of_outer_eq {s s' : Scopes} (h : s'.outer = s.push.outer) : s'.pop = s := by
  obtain ⟨inner', outermost'⟩ := s'
  cases inner' with
  | nil => simp [outer, push] at h
  | cons frame inner' =>
    obtain ⟨rfl, hlast⟩ := append_inj' h rfl
    cases hlast
    rfl

theorem Scopes.outer_declare? (s : Scopes) (name : String) (slot : Slot) :
    ((s.declare? name slot).getD s).outer = s.outer := by
  obtain ⟨inner, outermost⟩ := s
  unfold declare?
  split
  · rfl
  · cases inner <;> rfl

/-- How far an action reaches into the scopes. -/
inductive Reach where
  | nothing
  /-- A name is declared, unless the action fails. -/
  | declares (name : String)
  | innermost

def Reach.Keeps (done : Bool) (s s' : Scopes) : Reach → Prop
  | nothing => s' = s
  | declares name => if done then ∃ slot, s' = (s.declare? name slot).getD s else s' = s
  | innermost => s'.outer = s.outer

/-- What an action of some reach leaves as it was. -/
structure Reach.Leaves (k : Reach) (done : Bool) (s s' : State) : Prop where
  scopes : k.Keeps done s.scopes s'.scopes
  loopExits_eq : s'.loopExits = s.loopExits

def Reach.Before (k k' : Reach) : Prop := k = .nothing ∨ k = .innermost ∧ k' = .innermost

namespace Reach

variable {k k' : Reach} {done : Bool}

theorem Leaves.refl (h : k = .nothing ∨ done = false) (s : State) : k.Leaves done s s := by
  refine ⟨?_, rfl⟩
  cases k with
  | declares name => rcases h with h | rfl <;> [cases h; rfl]
  | _ => rfl

theorem Leaves.after (hk : k.Before k') (h : k.Leaves true s s') (h' : k'.Leaves done s' s'') :
    k'.Leaves done s s'' := by
  refine ⟨?_, h'.loopExits_eq.trans h.loopExits_eq⟩
  rcases hk with rfl | ⟨rfl, rfl⟩
  · exact h.scopes ▸ h'.scopes
  · exact h'.scopes.trans h.scopes

theorem Leaves.widen (h : k.Leaves done s s') : innermost.Leaves done s s' := by
  refine ⟨?_, h.loopExits_eq⟩
  cases k with
  | nothing => exact congrArg Scopes.outer h.scopes
  | innermost => exact h.scopes
  | declares name =>
    cases done with
    | false => exact congrArg Scopes.outer h.scopes
    | true =>
      obtain ⟨slot, hslot⟩ := h.scopes
      rw [hslot]
      exact s.scopes.outer_declare? name slot

/-- An action that fails has not reached farther than the one it is a part of. -/
theorem Leaves.failed (hk : k.Before k') (h : k.Leaves false s s') : k'.Leaves false s s' := by
  rcases hk with rfl | ⟨rfl, rfl⟩
  · have hs : s'.scopes = s.scopes := h.scopes
    exact ⟨hs ▸ (Leaves.refl (.inr rfl) s).scopes, h.loopExits_eq⟩
  · exact h

end Reach

/-- Two actions ended alike: both have a result, or both have failed with one problem. -/
def Ended (g : Guise) (s t : State) (Q : Common g.exact → α → α → Prop) (k : Reach) :
    EStateM.Result Diagnostic State α → EStateM.Result Diagnostic State α → Prop
  | .ok a s', .ok a' t' => s.Advance g t s' t' ∧ k.Leaves true s s' ∧ Q (g.world s' t') a a'
  | .error d s', .error d' t' => g.Matches d d' ∧ s.Advance g t s' t' ∧ k.Leaves false s s'
  | _, _ => False

def leave (change : State → State) : EStateM.Result Diagnostic State α → EStateM.Result Diagnostic State α
  | .ok a s => .ok a (change s)
  | .error d s => .error d (change s)

namespace Ended

variable {r r' : EStateM.Result Diagnostic State α} {Q : Common g.exact → α → α → Prop} {k k' : Reach}

theorem after (hk : k.Before k') (hadv : s.Advance g t s' t') (hleaves : k.Leaves true s s')
    (h : Ended g s' t' Q k' r r') : Ended g s t Q k' r r' := by
  cases r <;> cases r'
  · exact ⟨hadv.trans h.1, hleaves.after hk h.2.1, h.2.2⟩
  · exact h.elim
  · exact h.elim
  · exact ⟨h.1, hadv.trans h.2.1, hleaves.after hk h.2.2⟩

/-- Actions in changed states, which are changed back however the actions end. -/
theorem leave (change : State → State) (h : Ended g s' t' Done k r r') (hadv : s.Advance g t s' t')
    (hchange : ∀ s t : State, s.Like g t → s.Advance g t (change s) (change t))
    (hleaves : ∀ done s'', k.Leaves done s' s'' → Reach.nothing.Leaves done s (change s'')) :
    Ended g s t Done .nothing (Lowering.leave change r) (Lowering.leave change r') := by
  cases r <;> cases r'
  · exact ⟨hadv.trans (h.1.trans (hchange _ _ h.1.like)), hleaves _ _ h.2.1, trivial⟩
  · exact h.elim
  · exact h.elim
  · exact ⟨h.1, hadv.trans (h.2.1.trans (hchange _ _ h.2.1.like)), hleaves _ _ h.2.2⟩

end Ended

/-- From states that are alike and have some things in common, two actions end alike. -/
structure Parallel (g : Guise) (env : Env) (P : Common g.exact) (act act' : Lower α)
    (Q : Common g.exact → α → α → Prop) (k : Reach := .nothing) : Prop where
  run : ∀ s t : State, s.Like g t → P ≤ g.world s t → Ended g s t Q k (act env s) (act' env t)

def Steady (g : Guise) (env : Env) (P : Common g.exact) (act : Lower α) (Q : Common g.exact → α → α → Prop)
    (k : Reach := .nothing) : Prop := Parallel g env P act act Q k

variable {env : Env} {P : Common g.exact} {k k' : Reach}

namespace Parallel

variable {act act' : Lower α} {Q : Common g.exact → α → α → Prop} {R : Common g.exact → β → β → Prop}
  {next next' : α → Lower β} {p : α → Prop}

theorem pure {a a' : α} (h : ∀ P', P ≤ P' → Q P' a a') : Parallel g env P (Pure.pure a : Lower α) (Pure.pure a') Q :=
  ⟨fun s _ hlike hP => ⟨hlike.refl_advance, .refl (.inl rfl) s, h _ hP⟩⟩

theorem fail : Parallel g env P (Lowering.fail problem span : Lower α)
    (Lowering.fail (problem.rename g.names) span) Q k :=
  ⟨fun s _ hlike _ => ⟨⟨problem, span, rfl, rfl⟩, hlike.refl_advance, .refl (.inr rfl) s⟩⟩

theorem fail_fixed (hfixed : problem.rename g.names = problem) :
    Parallel g env P (Lowering.fail problem span : Lower α) (Lowering.fail problem span) Q k := by
  nth_rewrite 2 [← hfixed]
  exact .fail

theorem bind_before (hk : k.Before k') (hact : Parallel g env P act act' Q k)
    (hnext : ∀ P' a a', P ≤ P' → Q P' a a' → Parallel g env P' (next a) (next' a') R k') :
    Parallel g env P (act >>= next) (act' >>= next') R k' := by
  refine ⟨fun s t hlike hP => ?_⟩
  have hrun := hact.run s t hlike hP
  rw [bind_run, bind_run]
  cases hres : act env s with
  | error d s' =>
    cases hres' : act' env t with
    | error d' t' =>
      rw [hres, hres'] at hrun
      exact ⟨hrun.1, hrun.2.1, hrun.2.2.failed hk⟩
    | ok a' t' =>
      rw [hres, hres'] at hrun
      exact hrun.elim
  | ok a s' =>
    cases hres' : act' env t with
    | error d' t' =>
      rw [hres, hres'] at hrun
      exact hrun.elim
    | ok a' t' =>
      rw [hres, hres'] at hrun
      obtain ⟨hadv, hleaves, hQ⟩ := hrun
      exact ((hnext _ a a' (le_trans hP hadv.le) hQ).run s' t' hadv.like (le_refl _)).after hk hadv hleaves

theorem bind (hact : Parallel g env P act act' Q)
    (hnext : ∀ P' a a', P ≤ P' → Q P' a a' → Parallel g env P' (next a) (next' a') R k') :
    Parallel g env P (act >>= next) (act' >>= next') R k' := bind_before (.inl rfl) hact hnext

theorem mono {R : Common g.exact → α → α → Prop} (h : Parallel g env P act act' Q k)
    (hQR : ∀ P' a a', P ≤ P' → Q P' a a' → R P' a a') : Parallel g env P act act' R k := by
  refine ⟨fun s t hlike hP => ?_⟩
  have hrun := h.run s t hlike hP
  cases hres : act env s <;> cases hres' : act' env t <;> rw [hres, hres'] at hrun
  · exact ⟨hrun.1, hrun.2.1, hQR _ _ _ (le_trans hP hrun.1.le) hrun.2.2⟩
  · exact hrun.elim
  · exact hrun.elim
  · exact hrun

/-- What reaches less far reaches into the innermost frame at most. -/
theorem widen (h : Parallel g env P act act' Q k) : Parallel g env P act act' Q .innermost := by
  refine ⟨fun s t hlike hP => ?_⟩
  have hrun := h.run s t hlike hP
  cases hres : act env s <;> cases hres' : act' env t <;> rw [hres, hres'] at hrun
  · exact ⟨hrun.1, hrun.2.1.widen, hrun.2.2⟩
  · exact hrun.elim
  · exact hrun.elim
  · exact ⟨hrun.1, hrun.2.1, hrun.2.2.widen⟩

theorem bind_same (hact : Parallel g env P act act' (Same p))
    (hnext : ∀ P' a, P ≤ P' → p a → Parallel g env P' (next a) (next' a) R k') :
    Parallel g env P (act >>= next) (act' >>= next') R k' :=
  hact.bind fun P' a a' hle h => by
    obtain ⟨rfl, ha⟩ := h
    exact hnext P' a' hle ha

theorem seq {next next' : Lower β} (hact : Parallel g env P act act' Q)
    (hnext : ∀ P', P ≤ P' → Parallel g env P' next next' R k') :
    Parallel g env P (act >>= fun _ => next) (act' >>= fun _ => next') R k' :=
  hact.bind fun P' _ _ hle _ => hnext P' hle

theorem seq_innermost {next next' : Lower β} (hact : Parallel g env P act act' Q .innermost)
    (hnext : ∀ P', P ≤ P' → Parallel g env P' next next' R .innermost) :
    Parallel g env P (act >>= fun _ => next) (act' >>= fun _ => next') R .innermost :=
  bind_before (.inr ⟨rfl, rfl⟩) hact fun P' _ _ hle _ => hnext P' hle

theorem discard (h : Parallel g env P act act' Q) :
    Parallel g env P (Functor.discard act) (Functor.discard act') Done := by
  exact h.seq fun _ _ => .pure fun _ _ => trivial

theorem lift {act act' : Build α} (h : Mirrors g.toPairing P act act' Q) :
    Parallel g env P (liftM act) (liftM act') Q := by
  refine ⟨fun s t hlike hP => ?_⟩
  obtain ⟨hadv, hQ⟩ := h.run s.builder t.builder hlike.builder hP
  exact ⟨hlike.setBuilder hadv, ⟨rfl, rfl⟩, hQ⟩

theorem state_bind {next next' : State → Lower α}
    (h : ∀ s t, s.Like g t → P ≤ g.world s t → Parallel g env (g.world s t) (next s) (next' t) Q k) :
    Parallel g env P (state >>= next) (state >>= next') Q k :=
  ⟨fun s t hlike hP => (h s t hlike hP).run s t hlike (le_refl _)⟩

theorem ite [Decidable c] {other other' : Lower α} (h : c → Parallel g env P act act' Q k)
    (h' : ¬ c → Parallel g env P other other' Q k) :
    Parallel g env P (if c then act else other) (if c then act' else other') Q k := by
  split
  · next hc => exact h hc
  · next hc => exact h' hc

theorem otherwise [Decidable c] {other other' : Lower α} (h : ¬ c → Parallel g env P other other' Q k) :
    Parallel g env P (if c then Lowering.fail problem span else other)
      (if c then Lowering.fail (problem.rename g.names) span else other') Q k :=
  ite (fun _ => .fail) h

theorem read_bind {next next' : Env → Lower α} (h : Parallel g env P (next env) (next' env) Q k) :
    Parallel g env P (read >>= next) (read >>= next') Q k := ⟨h.run⟩

theorem mapM {ι : Type} {f f' : ι → Lower α} (h : ∀ P i, Parallel g env P (f i) (f' i) (Same p))
    {l : List ι} : Parallel g env P (l.mapM f) (l.mapM f') (Same fun as => ∀ a ∈ as, p a) := by
  induction l generalizing P with
  | nil => exact .pure fun _ _ => ⟨rfl, forall_mem_nil _⟩
  | cons i l ih =>
    rw [mapM_cons, mapM_cons]
    refine (h P i).bind_same fun P1 a _ ha => ?_
    refine ih.bind_same fun P2 as _ has => ?_
    exact .pure fun _ _ => ⟨rfl, forall_mem_cons.mpr ⟨ha, has⟩⟩

theorem forM_map {ι κ : Type} {f : ι → Lower Unit} {f' : κ → Lower Unit} (change : ι → κ) {l : List ι}
    (h : ∀ P, ∀ i ∈ l, Parallel g env P (f i) (f' (change i)) Done) :
    Parallel g env P (l.forM f) ((l.map change).forM f') Done := by
  induction l generalizing P with
  | nil => exact .pure fun _ _ => trivial
  | cons i l ih =>
    exact (h P i mem_cons_self).seq fun _ _ => ih fun P' j hj => h P' j (mem_cons_of_mem _ hj)

theorem like_bare {act act' : Lower Value} (h : Parallel g env P act act' (Same g.Bare)) :
    Parallel g env P act act' Value.Like :=
  h.mono fun _ _ _ _ h => by
    obtain ⟨rfl, hv⟩ := h
    exact .plain hv

theorem like {act act' : Lower Value} (h : Parallel g env P act act' (Same g.Plain)) :
    Parallel g env P act act' Value.Like :=
  like_bare (h.mono fun _ _ _ _ h => h.imp_right Pairing.Plain.bare)

end Parallel

namespace Steady

variable {act : Lower α} {Q : Common g.exact → α → α → Prop} {R : Common g.exact → β → β → Prop} {p : α → Prop}

theorem pure {a : α} (ha : p a) : Steady g env P (Pure.pure a : Lower α) (Same p) :=
  Parallel.pure fun _ _ => ⟨rfl, ha⟩

theorem done : Steady g env P (Pure.pure () : Lower Unit) Done := Parallel.pure fun _ _ => trivial

theorem bind_same {next : α → Lower β} (hact : Steady g env P act (Same p))
    (hnext : ∀ P' a, P ≤ P' → p a → Steady g env P' (next a) R) : Steady g env P (act >>= next) R :=
  Parallel.bind_same hact hnext

theorem seq {next : Lower β} (hact : Steady g env P act Q)
    (hnext : ∀ P', P ≤ P' → Steady g env P' next R) : Steady g env P (act >>= fun _ => next) R :=
  Parallel.seq hact hnext

theorem discard (h : Steady g env P act Q) : Steady g env P (Functor.discard act) Done :=
  Parallel.discard h

theorem lift {act : Build α} (h : Mirrored g.toPairing P act Q) : Steady g env P (liftM act) Q := Parallel.lift h

theorem read_bind {next : Env → Lower α} (h : Steady g env P (next env) Q) : Steady g env P (read >>= next) Q := ⟨h.run⟩

theorem ite [Decidable c] {other : Lower α} (h : c → Steady g env P act Q)
    (h' : ¬ c → Steady g env P other Q) : Steady g env P (if c then act else other) Q :=
  Parallel.ite h h'

end Steady

theorem parallel_note {message' : String} : Parallel g env P (note level message) (note level message') Done :=
  .lift (Build.mirrors_note)

theorem steady_note : Steady g env P (note level message) Done :=
  parallel_note

theorem steady_warn : Steady g env P (warn problem span) Done :=
  steady_note.seq fun _ _ => ⟨fun _ _ hlike _ => ⟨hlike.report rfl, ⟨rfl, rfl⟩, trivial⟩⟩

theorem steady_isTerminated : Steady g env P isTerminated (Same fun _ => True) := by
  refine .state_bind fun s t hlike _ => ?_
  rw [(g.level hlike.builder).isTerminated_eq]
  exact Steady.pure trivial

theorem parallel_lookup :
    Parallel g env P (lookup name span) (lookup (g.names name) span) (Same (Slot.Plain g.toPairing)) := by
  refine .state_bind fun s t hlike _ => ?_
  rw [hlike.scopes_eq, Scopes.resolve?_rename]
  cases hslot : s.scopes.resolve? name with
  | some slot => exact Steady.pure (hlike.plain.resolve? hslot)
  | none => exact .fail

theorem ScalarOf.hasVoid {ty : Ty} (h : ScalarOf name ty) (hvoid : ¬ ty.isVoid = true) : ty.hasVoid = false :=
  (Ty.hasVoid_of_not_isArray h.isArray).trans (Bool.eq_false_iff.mpr hvoid)

theorem steady_resolveScalar : Steady g env P (resolveScalar name span) (Same (ScalarOf name)) := by
  unfold resolveScalar
  split
  · next ty hty => exact .pure (scalarOf_scalarType? hty)
  · refine .state_bind fun s t hlike _ => ?_
    rw [Builder.custom?, Builder.custom?, (g.level hlike.builder).custom_eq]
    split
    · exact Steady.pure ⟨rfl, fun _ => rfl⟩
    · exact .fail

theorem withScope_eq_leave (act : Lower Unit) (env : Env) (s : State) : withScope act env s =
    leave (fun s => { s with scopes := s.scopes.pop }) (act env { s with scopes := s.scopes.push }) := by
  rw [withScope_run]
  cases act env { s with scopes := s.scopes.push } <;> rfl

theorem withLoopExit_eq_leave (exit : BlockId) (act : Lower Unit) (env : Env) (s : State) :
    withLoopExit exit act env s = leave (fun s => { s with loopExits := s.loopExits.tail })
      (act env { s with loopExits := exit :: s.loopExits }) := by
  rw [withLoopExit_run]
  cases act env { s with loopExits := exit :: s.loopExits } <;> rfl

theorem parallel_withScope {act act' : Lower Unit} (h : Parallel g env P act act' Done .innermost) :
    Parallel g env P (withScope act) (withScope act') Done := by
  refine ⟨fun s t hlike hP => ?_⟩
  have hpush := hlike.setScopes (Scopes.push_rename g.names s.scopes) hlike.plain.push
  rw [withScope_eq_leave, withScope_eq_leave, hlike.scopes_eq]
  refine (h.run _ _ hpush.like (le_trans hP hpush.le)).leave _ hpush (fun s t hlike => ?_) fun done s' hleaves => ?_
  · rw [hlike.scopes_eq]
    exact hlike.setScopes (Scopes.pop_rename _ _) hlike.plain.pop
  · exact ⟨Scopes.pop_eq_of_outer_eq hleaves.scopes, hleaves.loopExits_eq⟩

theorem parallel_withLoopExit {exit : BlockId} {act act' : Lower Unit} (h : Parallel g env P act act' Done) :
    Parallel g env P (withLoopExit exit act) (withLoopExit exit act') Done := by
  refine ⟨fun s t hlike hP => ?_⟩
  have hpush := hlike.setExits (exit :: s.loopExits)
  rw [withLoopExit_eq_leave, withLoopExit_eq_leave, hlike.loopExits_eq]
  refine (h.run _ _ hpush.like (le_trans hP hpush.le)).leave _ hpush (fun s t hlike => ?_) fun done s' hleaves => ?_
  · rw [hlike.loopExits_eq]
    exact hlike.setExits _
  · exact ⟨hleaves.scopes, congrArg List.tail hleaves.loopExits_eq⟩

end Aero.Lowering
