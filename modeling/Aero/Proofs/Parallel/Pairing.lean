import Aero.Lowering.Conversion
import Aero.Lowering.InlineBlock
import Aero.Proofs.Discipline.Policy
import Aero.Proofs.Parallel.Likeness

/-!
Two builders at work side by side. What makes them alike and what is asked of their code is left open: a pairing says
it, and that each operation of the builder keeps it. An action mirrors another if, wherever two builders are alike, both
actions go on alike and a condition holds of their results.
-/

namespace Aero.IR

variable {ty : Ty} {α β : Type} {n : Int64} {block target : BlockId} {v' v c' : Value} {x : Float} {c : Prop}
  {next next' : α → Build β} {other act : Build α}

/-- What the operations of two builders look at is the same. -/
structure Builder.Level (b b' : Builder) : Prop where
  insert_eq : b'.insert = b.insert
  custom_eq : b'.custom = b.custom
  structs_eq : b'.module.structs = b.module.structs
  alloc_eq : b'.alloc = b.alloc
  isTerminated_eq : b'.isTerminated = b.isTerminated

/-- From builders that are alike an action goes on alike, with the same result. -/
def Follows (Like : Builder → Builder → Prop) (Advance : Builder → Builder → Builder → Builder → Prop)
    (act : Build α) : Prop :=
  ∀ b b', Like b b' → (act b').1 = (act b).1 ∧ Advance b b' (act b).2 (act b').2

/-- The buffers that a program has asked for by itself, each with the function that did. -/
abbrev Requests : Type := List (Option Nat × Value)

def Build.introduce (unit : ForeignUnit) (f : Function) : Build Unit := do
  Lowering.attachForeign unit
  discard (declareFunction f)

/-- A way to compare two builders at work, and to ask something of their code. -/
structure Pairing where
  Like : Requests → Builder → Builder → Prop
  /-- Two builders went on alike. -/
  Advance : Requests → Builder → Builder → Builder → Builder → Prop
  /-- Whether there is no difference between the modules that code could show. -/
  exact : Prop
  common : Builder → Builder → Common exact
  /-- Whether code may not handle void values. -/
  strict : Prop
  /-- A primitive can be called anywhere. -/
  Allows : Primitive → Prop
  like : ∀ {γ b b' c c'}, Advance γ b b' c c' → Like γ c c'
  le : ∀ {γ b b' c c'}, Advance γ b b' c c' → common b b' ≤ common c c'
  refl : ∀ {γ b b'}, Like γ b b' → Advance γ b b' b b'
  trans : ∀ {γ γ' b b' c c' d d'}, Advance γ b b' c c' → Advance γ' c c' d d' → Advance γ' b b' d d'
  level : ∀ {γ b b'}, Like γ b b' → b.Level b'
  custom_eq : ∀ b b', (common b b').custom = b.custom
  current_eq : exact → ∀ {γ b b'}, Like γ b b' → b'.current = b.current
  declared : exact → ∀ b b' name, (∀ p : Primitive, name ≠ p.name) → (common b b').declared name
  ret_eq : ∀ {γ b b' name}, Like γ b b' → (common b b').declared name →
    (b'.module.function? name).map Function.ret = (b.module.function? name).map Function.ret
  allows : ∀ {b b' name}, (common b b').declared name → ∀ p : Primitive, name = p.name → Allows p
  ordinary : ∀ {p : Primitive}, p.isOrdinary = true → Allows p
  tracker : ∀ {γ b b'}, Like γ b b' → b.alloc = .tracked → ∀ p : Primitive, p ≠ .malloc → Allows p
  firm_ret : strict → ∀ {γ b b'}, Like γ b b' → ∀ (p : Primitive) (f : Function),
    b.module.function? p.name = some f → f.ret = p.signature.ret
  firm_fields : strict → ∀ {γ b b'}, Like γ b b' → ∀ t ∈ b.custom, ∀ field ∈ t.fields, field.2.isVoid = false
  note : ∀ {γ b b'}, Like γ b b' → ∀ level message message',
    Advance γ b b' (b.note level message) (b'.note level message')
  position : ∀ {γ} block, Follows (Like γ) (Advance γ) (Build.position block)
  appendBlock : ∀ {γ} label, Follows (Like γ) (Advance γ) (Build.appendBlock label)
  eraseBlock : ∀ {γ} block, Follows (Like γ) (Advance γ) (Build.eraseBlock block)
  moveBlockToEnd : ∀ {γ} block, Follows (Like γ) (Advance γ) (Build.moveBlockToEnd block)
  freshReg : ∀ {γ}, Follows (Like γ) (Advance γ) Build.freshReg
  discardBody : ∀ {γ}, Follows (Like γ) (Advance γ) Build.discardBody
  push : ∀ {γ b b' i i'}, Like γ b b' → i.Like (common b b') i' → (strict → i.handlesVoid = false) →
    (∀ p : Primitive, i.callee? = some p.name → Allows p) → Advance γ b b' (Build.push i b).2 (Build.push i' b').2
  terminate : ∀ {γ b b' t t'}, Like γ b b' → t.Like (common b b') t' →
    Advance γ b b' (Build.terminate t b).2 (Build.terminate t' b').2
  constString : ∀ {γ b b'}, Like γ b b' → ∀ s, Advance γ b b' (Build.constString s b).2 (Build.constString s b').2 ∧
    (Build.constString s b).1.Like (common (Build.constString s b).2 (Build.constString s b').2)
      (Build.constString s b').1
  declarePrimitive : ∀ {γ b b'}, Like γ b b' → ∀ p : Primitive,
    Advance γ b b' (Build.declarePrimitive p b).2 (Build.declarePrimitive p b').2 ∧
      (Allows p → (common (Build.declarePrimitive p b).2 (Build.declarePrimitive p b').2).declared p.name)
  introduce : exact → ∀ {γ unit f}, f.blocks = [] → f.name = unit.symbol → (∀ p : Primitive, unit.symbol ≠ p.name) →
    Follows (Like γ) (Advance γ) (Build.introduce unit f)

variable {X : Pairing} {P : Common X.exact} {R : Common X.exact → β → β → Prop} {p : α → Prop}

/-! ### Operands -/

namespace Pairing

variable {ty' : Ty} {i : Instr}

def Firm (X : Pairing) (ty : Ty) : Prop := X.strict → ty.isVoid = false

/-- A type that passes a test is not void if void does not pass it. -/
theorem firm_of_test (test : Ty → Bool) (h : test ty = true) (hvoid : test .void = false) : X.Firm ty := by
  intro _
  cases ty with
  | void =>
    rw [hvoid] at h
    cases h
  | _ => rfl

theorem firm_or (h : X.Firm ty) (h' : X.Firm ty') (hstrict : X.strict) : (ty.isVoid || ty'.isVoid) = false := by
  rw [h hstrict, h' hstrict]
  rfl

/-- An operand is the same on both sides. -/
abbrev Bare (X : Pairing) (v : Value) : Prop := v.Plain X.exact

/-- An operand is the same on both sides and can stand in every instruction. -/
structure Plain (X : Pairing) (v : Value) : Prop where
  bare : X.Bare v
  firm : X.Firm v.ty

/-- Operands match and can stand in every instruction. -/
structure Alike (X : Pairing) (P : Common X.exact) (v v' : Value) : Prop where
  like : v.Like P v'
  firm : X.Firm v.ty

theorem Plain.like (h : X.Plain v) : v.Like P v := .plain h.bare

theorem Plain.alike (h : X.Plain v) : X.Alike P v v := ⟨h.like, h.firm⟩

theorem Alike.mono {P' : Common X.exact} (h : X.Alike P v v') (hle : P ≤ P') : X.Alike P' v v' :=
  ⟨h.like.mono hle, h.firm⟩

/-- An instruction can stand anywhere. -/
structure Proper (X : Pairing) (i : Instr) : Prop where
  firm : X.strict → i.handlesVoid = false
  calls : ∀ p : Primitive, i.callee? = some p.name → X.Allows p

theorem Proper.of_firm (h : X.strict → i.handlesVoid = false) (hcallee : i.callee? = none) : X.Proper i :=
  ⟨h, fun _ hp => by cases hcallee.symm.trans hp⟩

end Pairing

theorem Value.Likes.of_plain {vs : List Value} (h : ∀ v ∈ vs, X.Plain v) : Value.Likes P vs vs :=
  List.forall₂_same.mpr fun v hv => (h v hv).like

theorem Value.Like.plain_of_ty (h : v.Like P v') (test : Ty → Bool) (hty : test v.ty = true)
    (hptr : test .ptr = false) (hvoid : test .void = false) : v' = v ∧ X.Plain v :=
  (h.of_ty hptr hty).imp_right fun hv => ⟨hv, X.firm_of_test test hty hvoid⟩

namespace Value

theorem bare_undef (ty : Ty) : X.Bare (undef ty) := .inr nofun

theorem plain_ofReg {r : Reg} (hty : X.Firm ty) : X.Plain (ofReg r ty) := ⟨.inr nofun, hty⟩

theorem plain_ofInt (hty : X.Firm ty) : X.Plain (ofInt ty n) :=
  ⟨.inr nofun, hty⟩

@[simp] theorem plain_ofBool {b : Bool} : X.Plain (ofBool b) := ⟨.inr nofun, fun _ => rfl⟩

@[simp] theorem plain_ofSingle : X.Plain (ofSingle x) := ⟨.inr nofun, fun _ => rfl⟩

@[simp] theorem plain_ofDouble : X.Plain (ofDouble x) := ⟨.inr nofun, fun _ => rfl⟩

theorem plain_ofFloat : X.Plain (ofFloat ty x) := by
  unfold ofFloat
  split
  · exact plain_ofSingle
  · exact plain_ofDouble

@[simp] theorem plain_null : X.Plain null := ⟨.inr nofun, fun _ => rfl⟩

@[simp] theorem plain_int32 : X.Plain (Build.int32 n) := plain_ofInt fun _ => rfl

@[simp] theorem plain_int64 : X.Plain (Build.int64 n) := plain_ofInt fun _ => rfl

@[simp] theorem plain_int8 : X.Plain (Build.int8 n) := plain_ofInt fun _ => rfl

theorem bare_zero (ty : Ty) : X.Bare (Build.zero ty) := by
  refine .inr fun name h => ?_
  cases ty <;> cases h

theorem plain_zero (hty : X.Firm ty) : X.Plain (Build.zero ty) :=
  ⟨bare_zero ty, by rwa [show (Build.zero ty).ty = ty by cases ty <;> rfl]⟩

end Value

/-! ### Actions -/

/-- From builders that are alike and have some things in common, two actions go on alike, and a condition
holds of their results. -/
structure Mirrors (X : Pairing) (P : Common X.exact) (act act' : Build α) (Q : Common X.exact → α → α → Prop) :
    Prop where
  run : ∀ {γ} (b b' : Builder), X.Like γ b b' → P ≤ X.common b b' →
    X.Advance γ b b' (act b).2 (act' b').2 ∧ Q (X.common (act b).2 (act' b').2) (act b).1 (act' b').1

/-- Both results are the same, and a condition holds of it. -/
def Same {exact : Prop} (p : α → Prop) : Common exact → α → α → Prop := fun _ a a' => a' = a ∧ p a

def Done {exact : Prop} : Common exact → α → α → Prop := fun _ _ _ => True

/-- One action of two builders. -/
def Mirrored (X : Pairing) (P : Common X.exact) (act : Build α) (Q : Common X.exact → α → α → Prop) : Prop :=
  Mirrors X P act act Q

namespace Mirrors

variable {act' : Build α} {Q : Common X.exact → α → α → Prop}

theorem pure {a a' : α} (h : ∀ P', P ≤ P' → Q P' a a') : Mirrors X P (Pure.pure a : Build α) (Pure.pure a') Q :=
  ⟨fun _ _ hlike hP => ⟨X.refl hlike, h _ hP⟩⟩

theorem bind (hact : Mirrors X P act act' Q)
    (hnext : ∀ P' a a', P ≤ P' → Q P' a a' → Mirrors X P' (next a) (next' a') R) :
    Mirrors X P (act >>= next) (act' >>= next') R := by
  refine ⟨fun b b' hlike hP => ?_⟩
  obtain ⟨hadv, hQ⟩ := hact.run b b' hlike hP
  obtain ⟨hadv', hR⟩ := (hnext _ _ _ (le_trans hP (X.le hadv)) hQ).run _ _ (X.like hadv) (le_refl _)
  exact ⟨X.trans hadv hadv', hR⟩

theorem mono {R : Common X.exact → α → α → Prop} (h : Mirrors X P act act' Q)
    (hQR : ∀ P' a a', P ≤ P' → Q P' a a' → R P' a a') : Mirrors X P act act' R := by
  refine ⟨fun b b' hlike hP => ?_⟩
  obtain ⟨hadv, hQ⟩ := h.run b b' hlike hP
  exact ⟨hadv, hQR _ _ _ (le_trans hP (X.le hadv)) hQ⟩

theorem discard (h : Mirrors X P act act' Q) : Mirrors X P (Functor.discard act) (Functor.discard act') Done := by
  exact h.bind fun _ _ _ _ _ => .pure fun _ _ => trivial

theorem get_bind {next next' : Builder → Build α}
    (h : ∀ γ b b', X.Like γ b b' → P ≤ X.common b b' → Mirrors X (X.common b b') (next b) (next' b') Q) :
    Mirrors X P (get >>= next) (get >>= next') Q :=
  ⟨fun {γ} b b' hlike hP => (h γ b b' hlike hP).run b b' hlike (le_refl _)⟩

/-- What the builders have in common where the actions begin may be used. -/
theorem here (h : ∀ b b', Mirrors X (X.common b b') act act' Q) : Mirrors X P act act' Q :=
  ⟨fun b b' hlike _ => (h b b').run b b' hlike (le_refl _)⟩

theorem ite [Decidable c] {other' : Build α} (h : c → Mirrors X P act act' Q) (h' : ¬ c → Mirrors X P other other' Q) :
    Mirrors X P (if c then act else other) (if c then act' else other') Q := by
  split
  · next hc => exact h hc
  · next hc => exact h' hc

/-- What holds of both results holds of matching values. -/
theorem alike {act act' : Build Value} (h : Mirrors X P act act' (Same X.Plain)) : Mirrors X P act act' X.Alike :=
  h.mono fun _ _ _ _ h => by
    obtain ⟨rfl, hv⟩ := h
    exact hv.alike

theorem imp {q : α → Prop} (h : Mirrors X P act act' (Same p)) (hpq : ∀ a, p a → q a) :
    Mirrors X P act act' (Same q) := h.mono fun _ _ _ _ h => ⟨h.1, hpq _ h.2⟩

theorem bind_same (hact : Mirrors X P act act' (Same p))
    (hnext : ∀ P' a, P ≤ P' → p a → Mirrors X P' (next a) (next' a) R) :
    Mirrors X P (act >>= next) (act' >>= next') R :=
  hact.bind fun P' a a' hle h => by
    obtain ⟨rfl, ha⟩ := h
    exact hnext P' a' hle ha

theorem seq {next next' : Build β} (hact : Mirrors X P act act' Q) (hnext : ∀ P', P ≤ P' → Mirrors X P' next next' R) :
    Mirrors X P (act >>= fun _ => next) (act' >>= fun _ => next') R :=
  hact.bind fun P' _ _ hle _ => hnext P' hle

end Mirrors

namespace Mirrored

variable {Q : Common X.exact → α → α → Prop}

theorem bind_same (hact : Mirrored X P act (Same p))
    (hnext : ∀ P' a, P ≤ P' → p a → Mirrored X P' (next a) R) : Mirrored X P (act >>= next) R :=
  Mirrors.bind_same hact hnext

theorem seq {next : Build β} (hact : Mirrored X P act Q) (hnext : ∀ P', P ≤ P' → Mirrored X P' next R) :
    Mirrored X P (act >>= fun _ => next) R :=
  Mirrors.seq hact hnext

theorem pure {a : α} (ha : p a) : Mirrored X P (Pure.pure a : Build α) (Same p) :=
  Mirrors.pure fun _ _ => ⟨rfl, ha⟩

theorem done : Mirrored X P (Pure.pure () : Build Unit) Done := Mirrors.pure fun _ _ => trivial

theorem ite [Decidable c] (h : c → Mirrored X P act Q)
    (h' : ¬ c → Mirrored X P other Q) : Mirrored X P (if c then act else other) Q :=
  Mirrors.ite h h'

end Mirrored

namespace Build

/-! ### Blocks and instructions -/

theorem push_run (i : Instr) (b : Builder) : push i b = ((), b.insert.elim
    (b.note .warn ("dropping instruction without insertion point: " ++ i.text b.blockLabel)) fun _ =>
      b.block?.elim b fun block =>
        if block.isTerminated then b.note .trace ("dropping instruction after terminator in " ++ block.label)
        else b.modifyBlock fun block => { block with instrs := block.instrs ++ [i] }) := by
  refine congrArg (Prod.mk ()) ?_
  dsimp only
  cases b.insert <;> cases b.block? <;> rfl

theorem mirrors_follows (h : ∀ {γ}, Follows (X.Like γ) (X.Advance γ) act) : Mirrored X P act (Same fun _ => True) :=
  ⟨fun b b' hlike _ => ⟨(h b b' hlike).2, (h b b' hlike).1, trivial⟩⟩

theorem mirrors_unit {act : Build Unit} (h : ∀ {γ}, Follows (X.Like γ) (X.Advance γ) act) : Mirrored X P act Done :=
  (mirrors_follows h).mono fun _ _ _ _ _ => trivial

theorem mirrors_note {level : LogLevel} {message message' : String} :
    Mirrors X P (modify (·.note level message)) (modify (·.note level message')) Done :=
  ⟨fun _ _ hlike _ => ⟨X.note hlike level message message', trivial⟩⟩

theorem mirrors_position : Mirrored X P (position block) Done := mirrors_unit (X.position block)

theorem mirrors_appendBlock (label : String) : Mirrored X P (appendBlock label) (Same fun _ => True) :=
  mirrors_follows (X.appendBlock label)

theorem mirrors_eraseBlock : Mirrored X P (eraseBlock block) Done := mirrors_unit (X.eraseBlock block)

theorem mirrors_moveBlockToEnd : Mirrored X P (moveBlockToEnd block) Done :=
  mirrors_unit (X.moveBlockToEnd block)

theorem mirrors_push {i i' : Instr} (hi : i.Like P i') (hproper : X.Proper i) : Mirrors X P (push i) (push i') Done :=
  ⟨fun _ _ hlike hP => ⟨X.push hlike (hi.mono hP) hproper.firm hproper.calls, trivial⟩⟩

theorem mirrors_emit {make make' : Reg → Instr} (h : ∀ r, (make r).Like P (make' r))
    (hproper : ∀ r, X.Proper (make r)) (hty : X.Firm ty) :
    Mirrors X P (emit ty make) (emit ty make') (Same X.Plain) := by
  refine .bind_same (mirrors_follows X.freshReg) fun P1 r hle1 _ => ?_
  refine (mirrors_push ((h r).mono hle1) (hproper r)).seq fun P2 _ => ?_
  exact Mirrored.pure (Value.plain_ofReg hty)

theorem mirrors_terminate {t t' : Terminator} (ht : t.Like P t') : Mirrors X P (terminate t) (terminate t') Done :=
  ⟨fun _ _ hlike hP => ⟨X.terminate hlike (ht.mono hP), trivial⟩⟩

theorem mirrors_br : Mirrored X P (br target) Done := mirrors_terminate (.br target)

theorem mirrors_condBr {c : Value} (hc : c.Like P c') {thenBlock elseBlock : BlockId} :
    Mirrors X P (condBr c thenBlock elseBlock) (condBr c' thenBlock elseBlock) Done :=
  mirrors_terminate (.condBr thenBlock elseBlock hc)

theorem mirrors_ret (hv : v.Like P v') : Mirrors X P (ret v) (ret v') Done :=
  mirrors_terminate (.ret hv)

theorem mirrors_retVoid : Mirrored X P retVoid Done := mirrors_terminate .retVoid

theorem mirrors_unreachable : Mirrored X P unreachable Done := mirrors_terminate .unreachable

end Build

end Aero.IR
