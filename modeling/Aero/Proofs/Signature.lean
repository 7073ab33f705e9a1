import Aero.Lowering.Function
import Aero.Proofs.Body
import Mathlib.Data.List.Forall2

/-!
What types and signatures of a file stand for. They depend on the types of a state and on nothing else.
-/

namespace Aero.Lowering

open IR List

variable {α β : Type} {env : Env} {s : State} {Q : α → Prop} {R : β → Prop} {name : String} {ty : Ty}
  {act : Lower α} {span : Span}
  {problem : Problem}

/-! ### Actions that look at types -/

def SameTypes (s t : State) : Prop :=
  ∀ name, (t.builder.custom? name).map CustomType.ty = (s.builder.custom? name).map CustomType.ty

/-- An action only looks at the types of a state: it has one result, of which a condition holds, or fails with one
problem. -/
def Reads (env : Env) (act : Lower α) (s : State) (Q : α → Prop) : Prop :=
  (∃ a, Q a ∧ ∀ t, SameTypes s t → act env t = .ok a t) ∨
    ∃ (problem : Problem) (span : Span), ∀ t, SameTypes s t → act env t = .error (problem.diagnostic span) t

namespace Reads

theorem pure {a : α} (h : Q a) : Reads env (Pure.pure a) s Q := .inl ⟨a, h, fun _ _ => rfl⟩

theorem fail : Reads env (fail problem span) s Q :=
  .inr ⟨problem, span, fun _ _ => rfl⟩

theorem bind {next : α → Lower β} (hact : Reads env act s Q)
    (hnext : ∀ a, Q a → Reads env (next a) s R) : Reads env (act >>= next) s R := by
  rcases hact with ⟨a, ha, hrun⟩ | ⟨problem, span, hrun⟩
  · refine (hnext a ha).imp (fun ⟨b, hb, hrest⟩ => ⟨b, hb, fun t ht => ?_⟩)
      fun ⟨problem, span, hrest⟩ => ⟨problem, span, fun t ht => ?_⟩
    · rw [bind_run, hrun t ht]
      exact hrest t ht
    · rw [bind_run, hrun t ht]
      exact hrest t ht
  · exact .inr ⟨problem, span, fun t ht => by rw [bind_run, hrun t ht]⟩

/-- A test that refuses to go on. -/
theorem refuse {p : Prop} [Decidable p]
    (h : ¬ p → Reads env act s Q) : Reads env (if p then Lowering.fail problem span else act) s Q := by
  split
  · exact .fail
  · next hp => exact h hp

end Reads

theorem reads_mapM {act : α → Lower β} {Q : α → β → Prop} {l : List α}
    (h : ∀ a, Reads env (act a) s (Q a)) : Reads env (l.mapM act) s (List.Forall₂ Q l) := by
  induction l with
  | nil => exact .pure .nil
  | cons a l ih =>
    rw [mapM_cons]
    refine (h a).bind fun b hb => ?_
    exact ih.bind fun bs hbs => .pure (.cons hb hbs)

/-! ### Types -/

/-- What a type name without dimensions stands for: no array, and only one of them for void. -/
structure ScalarOf (name : String) (ty : Ty) : Prop where
  isArray : ty.isArray = false
  isVoid : name ≠ "void" → ty.isVoid = false

theorem scalarOf_scalarType? (h : scalarType? name = some ty) : ScalarOf name ty := by
  by_cases hname : name = "void"
  · subst hname
    cases h
    exact ⟨rfl, fun hne => absurd rfl hne⟩
  · unfold scalarType? at h
    split at h
    case h_9 => exact absurd rfl hname
    case h_10 =>
      split at h
      · cases h
        exact ⟨rfl, fun _ => rfl⟩
      · cases h
    all_goals
      cases h
      exact ⟨rfl, fun _ => rfl⟩

/-- A type name stands for a scalar, or for a struct that is known. -/
inductive Denotes (s : State) (name : String) : Ty → Prop where
  | scalar {ty : Ty} (h : scalarType? name = some ty) : Denotes s name ty
  | struct {t : CustomType} (hnone : scalarType? name = none) (h : s.builder.custom? name = some t) :
      Denotes s name t.ty

theorem Denotes.scalarOf (h : Denotes s name ty) : ScalarOf name ty := by
  cases h with
  | scalar h => exact scalarOf_scalarType? h
  | struct => exact ⟨rfl, fun _ => rfl⟩

theorem Denotes.eq (h : Denotes s name ty) {scalar : Ty} (hscalar : scalarType? name = some scalar) : ty = scalar := by
  cases h with
  | scalar h => exact Option.some.inj (h.symm.trans hscalar)
  | struct hnone =>
    rw [hnone] at hscalar
    cases hscalar

theorem resolveScalar_run (h : scalarType? name = none) (span : Span) (s : State) :
    resolveScalar name span env s = ((s.builder.custom? name).map CustomType.ty).elim
      (.error ((Problem.unknownType name).diagnostic span) s) fun ty => .ok ty s := by
  simp only [resolveScalar, h, bind_run, state]
  cases s.builder.custom? name <;> rfl

theorem reads_resolveScalar : Reads env (resolveScalar name span) s (Denotes s name) := by
  cases hscalar : scalarType? name with
  | some ty =>
    rw [resolveScalar, hscalar]
    exact .pure (.scalar hscalar)
  | none =>
    cases hcustom : s.builder.custom? name with
    | some t =>
      refine .inl ⟨t.ty, .struct hscalar hcustom, fun t ht => ?_⟩
      rw [resolveScalar_run hscalar, ht, hcustom]
      rfl
    | none =>
      refine .inr ⟨.unknownType name, span, fun t ht => ?_⟩
      rw [resolveScalar_run hscalar, ht, hcustom]
      rfl

/-- The type of a field. A struct in it is known. -/
structure FieldTy (s : State) (ty : Ty) : Prop where
  isVoid : ty.isVoid = false
  isArray : ty.isArray = false
  known : ∀ name, ty = .struct name → (s.builder.custom? name).isSome = true

theorem Denotes.fieldTy (h : Denotes s name ty) (hvoid : ¬ ty.isVoid = true) : FieldTy s ty := by
  refine ⟨Bool.eq_false_iff.mpr hvoid, h.scalarOf.isArray, fun struct hstruct => ?_⟩
  cases h with
  | scalar h =>
    unfold scalarType? at h
    rw [hstruct] at h
    split at h
    case h_10 => split at h <;> cases h
    all_goals cases h
  | @struct t _ ht =>
    have hname : t.name = name := by simpa using find?_some ht
    rw [← Ty.struct.inj hstruct, hname, ht]
    rfl

theorem reads_fieldTypes {struct : String} {earlier : List (String × Ty)}
    (hearlier : ∀ field ∈ earlier, FieldTy s field.2) {fields : List Binding} :
    Reads env (fieldTypes struct earlier fields) s fun types => ∀ field ∈ types, FieldTy s field.2 := by
  induction fields generalizing earlier with
  | nil => exact .pure hearlier
  | cons field fields ih =>
    have hfield : Reads env (fieldType struct earlier field) s (FieldTy s) :=
      .refuse fun _ => .refuse fun _ => .refuse fun _ =>
        reads_resolveScalar.bind fun _ hty => .refuse fun hvoid => .pure (hty.fieldTy hvoid)
    refine hfield.bind fun ty hty => ih ?_
    exact forall_mem_append.mpr ⟨hearlier, forall_mem_singleton.mpr hty⟩

/-! ### Signatures -/

/-- A parameter is passed in the way it is written. -/
structure ParamSig.IsOf (q : ParamSig) (p : Binding) : Prop where
  name_eq : q.name = p.name.node
  scalar : p.ty.node.dims.isEmpty = true → ∀ ty, scalarType? p.ty.node.name = some ty → q.ty = ty ∧ q.array = none
  isArray : q.ty.isArray = false
  isVoid : q.ty.isVoid = false
  elem : ∀ shape, q.array = some shape → p.ty.node.isArray = true ∧
    (p.ty.node.name ≠ "void" → shape.elem.isVoid = false)

/-- An array parameter that is accepted has one or two dimensions. -/
theorem reads_paramShape {t : TypeName} :
    Reads env (paramShape t span) s fun shape? => (t.dims.isEmpty = true → shape? = none) ∧
      ∀ shape, shape? = some shape → (shape = .param shape.elem 1 ∨ shape = .param shape.elem 2) ∧
        t.isArray = true ∧ (t.name ≠ "void" → shape.elem.isVoid = false) := by
  unfold paramShape
  split
  · exact .pure ⟨fun _ => rfl, nofun⟩
  · next hne =>
    refine .refuse fun hle => reads_resolveScalar.bind fun elem helem => .pure ⟨fun h => absurd h hne, ?_⟩
    rintro _ ⟨rfl⟩
    have harray : t.isArray = true := by rw [TypeName.isArray, Bool.eq_false_iff.mpr hne]; rfl
    have hlen : t.dims.length = 1 ∨ t.dims.length = 2 := by
      rw [List.isEmpty_iff, ← List.length_eq_zero_iff] at hne
      have hle : t.dims.length ≤ 2 := Nat.le_of_not_lt hle
      omega
    rcases hlen with hlen | hlen <;> rw [hlen]
    · exact ⟨.inl rfl, harray, helem.scalarOf.isVoid⟩
    · exact ⟨.inr rfl, harray, helem.scalarOf.isVoid⟩

theorem reads_paramSig (p : Binding) : Reads env (paramSig p) s fun q => q.Fits ∧ q.IsOf p := by
  refine reads_paramShape.bind fun shape? hshape? => ?_
  split
  · next shape =>
    obtain ⟨hscalar, hshape⟩ := hshape?
    obtain ⟨hparam, helem⟩ := hshape shape rfl
    refine .pure ⟨?_, rfl, fun h => (by cases hscalar h), rfl, rfl, ?_⟩
    · rintro _ ⟨rfl⟩
      exact ⟨rfl, hparam⟩
    · rintro _ ⟨rfl⟩
      exact helem
  · refine reads_resolveScalar.bind fun ty hty => .refuse fun hvoid => ?_
    exact .pure ⟨nofun, rfl, fun _ scalar h => ⟨hty.eq h, rfl⟩, hty.scalarOf.isArray,
      Bool.eq_false_iff.mpr hvoid, nofun⟩

theorem reads_returnType {t : Option (Spanned TypeName)} :
    Reads env (returnType name t) s fun ret => (t = none → ret = .void) ∧
      ∀ written scalar, t = some written → scalarType? written.node.name = some scalar → ret = scalar := by
  unfold returnType
  split
  · exact .pure ⟨fun _ => rfl, nofun⟩
  · refine .refuse fun _ => reads_resolveScalar.bind fun ty hty => .refuse fun _ => ?_
    refine .pure ⟨nofun, ?_⟩
    rintro _ scalar ⟨rfl⟩ hscalar
    exact hty.eq hscalar

/-- A function, or a method with the struct it belongs to. -/
abbrev Routine := Option String × FnDef

def symbolIn (env : Env) (p : Routine) : String :=
  symbolOf env.config.module p.1 p.2.name.node

/-- A signature is that of a function, or of a method, which takes its object first. -/
structure FnSig.IsOf (sig : FnSig) (f : FnDef) : Prop where
  params : ∃ (struct : Option String) (params : List ParamSig),
    sig.params = (struct.toList.map fun struct => { name := "self", ty := .struct struct }) ++ params ∧
      List.Forall₂ (fun p q => ParamSig.IsOf q p) f.params params
  void : f.returnTy = none → sig.ret = .void
  scalar : ∀ t ty, f.returnTy = some t → scalarType? t.node.name = some ty → sig.ret = ty

/-- What is known of a signature by the function that it was made for. -/
structure SignedBy (env : Env) (p : Routine) (sig : FnSig) : Prop where
  symbol_eq : sig.symbol = symbolIn env p
  fits : ∀ q ∈ sig.params, q.Fits
  isOf : sig.IsOf p.2
  self : ∀ struct, p.1 = some struct → ∃ params, sig.params = { name := "self", ty := .struct struct } :: params

theorem reads_signature {p : Routine} : Reads env (signature p.1 p.2 (symbolIn env p)) s (SignedBy env p) := by
  refine (reads_mapM reads_paramSig).bind fun params hparams => ?_
  refine reads_returnType.bind fun ret hret => .pure ⟨rfl, ?_, ?_, ?_⟩
  · refine forall_mem_append.mpr ⟨fun q hq => ?_, ?_⟩
    · obtain ⟨name, _, rfl⟩ := mem_map.mp hq
      exact nofun
    · exact ((forall₂_and_left _ _).mp hparams.flip).1
  · exact ⟨⟨p.1, params, rfl, hparams.imp fun _ _ h => h.2⟩, hret.1, hret.2⟩
  · intro struct hstruct
    exact ⟨params, by rw [hstruct]; rfl⟩

/-- The signature of a function of a file, if its types are known. -/
def signatureIn? (env : Env) (s : State) (p : Routine) : Option FnSig :=
  match signature p.1 p.2 (symbolIn env p) env s with
  | .ok sig _ => some sig
  | .error _ _ => none

/-- Signatures depend on nothing but the types. -/
theorem signature_cases (env : Env) (s : State) (p : Routine) :
    (∃ sig, SignedBy env p sig ∧ ∀ t, SameTypes s t → signatureIn? env t p = some sig ∧
      signature p.1 p.2 (symbolIn env p) env t = .ok sig t) ∨
    ∃ (problem : Problem) (span : Span), ∀ t, SameTypes s t → signatureIn? env t p = none ∧
      signature p.1 p.2 (symbolIn env p) env t = .error (problem.diagnostic span) t := by
  refine reads_signature.imp (fun ⟨sig, hsig, hrun⟩ => ⟨sig, hsig, fun t ht => ⟨?_, hrun t ht⟩⟩)
    fun ⟨problem, span, hrun⟩ => ⟨problem, span, fun t ht => ⟨?_, hrun t ht⟩⟩
  · rw [signatureIn?, hrun t ht]
  · rw [signatureIn?, hrun t ht]

theorem signatureIn?_eq {t : State} (h : SameTypes s t) (p : Routine) :
    signatureIn? env t p = signatureIn? env s p := by
  rcases signature_cases env s p with ⟨sig, _, hrun⟩ | ⟨_, _, hrun⟩
  · rw [(hrun t h).1, (hrun s fun _ => rfl).1]
  · rw [(hrun t h).1, (hrun s fun _ => rfl).1]

theorem signedBy_of_signatureIn? {p : Routine} {sig : FnSig} (h : signatureIn? env s p = some sig) :
    SignedBy env p sig := by
  rcases signature_cases env s p with ⟨found, hfound, hrun⟩ | ⟨_, _, hrun⟩
  · rw [(hrun s fun _ => rfl).1] at h
    exact Option.some.inj h ▸ hfound
  · rw [(hrun s fun _ => rfl).1] at h
    cases h

end Aero.Lowering
