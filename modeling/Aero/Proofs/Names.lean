import Aero.Syntax.Tree
import Mathlib.Logic.Equiv.Basic

/-!
Other names for the variables of a function. A renaming gives each variable a new name wherever it is declared or
referred to, also in the sizes of array types; the names of functions, fields, types and methods stay. What a
renaming makes of a function depends only on the new names of its own variables, and if these are different from
each other, a permutation of all names does the same.
-/

namespace Aero

open List

/-- The thing that a function makes of another, at the same place in the source. -/
def Spanned.map {α β : Type} (f : α → β) (s : Spanned α) : Spanned β := ⟨f s.node, s.span⟩

/-! ### Renaming -/

mutual

def Expr.rename (σ : String → String) : Expr → Expr
  | .literal value => .literal value
  | .var name => .var (σ name)
  | .paren ⟨inner, span⟩ => .paren ⟨inner.rename σ, span⟩
  | .binary op ⟨l, lspan⟩ ⟨r, rspan⟩ => .binary op ⟨l.rename σ, lspan⟩ ⟨r.rename σ, rspan⟩
  | .unary op ⟨e, span⟩ => .unary op ⟨e.rename σ, span⟩
  | .step op ⟨place, span⟩ => .step op ⟨place.rename σ, span⟩
  | .cast target ⟨e, span⟩ => .cast target ⟨e.rename σ, span⟩
  | .call name args => .call name (renameAll σ args)
  | .methodCall ⟨receiver, span⟩ method args => .methodCall ⟨receiver.rename σ, span⟩ method (renameAll σ args)
  | .field ⟨object, span⟩ name => .field ⟨object.rename σ, span⟩ name
  | .array elems => .array (renameAll σ elems)
  | .index ⟨base, span⟩ indices => .index ⟨base.rename σ, span⟩ (renameAll σ indices)

def Place.rename (σ : String → String) : Place → Place
  | .var name => .var (σ name)
  | .field ⟨object, span⟩ name => .field ⟨object.rename σ, span⟩ name
  | .index ⟨base, span⟩ indices => .index ⟨base.rename σ, span⟩ (renameAll σ indices)

def renameAll (σ : String → String) : List (Spanned Expr) → List (Spanned Expr)
  | [] => []
  | ⟨e, span⟩ :: es => ⟨e.rename σ, span⟩ :: renameAll σ es

end

def ArrayDim.rename (σ : String → String) : ArrayDim → ArrayDim
  | .unsized => .unsized
  | .sized size => .sized (size.map (Expr.rename σ))

def TypeName.rename (σ : String → String) (t : TypeName) : TypeName :=
  { t with dims := t.dims.map (ArrayDim.rename σ) }

mutual

def Stmt.rename (σ : String → String) : Stmt → Stmt
  | .declare name ty init =>
    .declare (name.map σ) (ty.map (Spanned.map (TypeName.rename σ))) (init.map (Spanned.map (Expr.rename σ)))
  | .assign place value => .assign (place.map (Place.rename σ)) (value.map (Expr.rename σ))
  | .compoundAssign op place value =>
    .compoundAssign op (place.map (Place.rename σ)) (value.map (Expr.rename σ))
  | .expr e => .expr (e.map (Expr.rename σ))
  | .ifElse branches none => .ifElse (renameBranches σ branches) none
  | .ifElse branches (some ⟨other, span⟩) => .ifElse (renameBranches σ branches) (some ⟨other.rename σ, span⟩)
  | .whileLoop cond ⟨body, span⟩ => .whileLoop (cond.map (Expr.rename σ)) ⟨body.rename σ, span⟩
  | .forLoop none cond step ⟨body, span⟩ =>
    .forLoop none (cond.map (Spanned.map (Expr.rename σ))) (step.map (Spanned.map (Expr.rename σ)))
      ⟨body.rename σ, span⟩
  | .forLoop (some ⟨init, ispan⟩) cond step ⟨body, span⟩ =>
    .forLoop (some ⟨init.rename σ, ispan⟩) (cond.map (Spanned.map (Expr.rename σ)))
      (step.map (Spanned.map (Expr.rename σ))) ⟨body.rename σ, span⟩
  | .breakLoop => .breakLoop
  | .ret value => .ret (value.map (Spanned.map (Expr.rename σ)))
  | .block ⟨body, span⟩ => .block ⟨body.rename σ, span⟩
  | .inline lang code volatile => .inline lang code volatile

def StmtBlock.rename (σ : String → String) : StmtBlock → StmtBlock
  | ⟨stmts⟩ => ⟨renameStmts σ stmts⟩

def renameStmts (σ : String → String) : List (Spanned Stmt) → List (Spanned Stmt)
  | [] => []
  | ⟨stmt, span⟩ :: rest => ⟨stmt.rename σ, span⟩ :: renameStmts σ rest

def renameBranches (σ : String → String) : List Branch → List Branch
  | [] => []
  | ⟨cond, ⟨body, span⟩⟩ :: rest => ⟨cond.map (Expr.rename σ), ⟨body.rename σ, span⟩⟩ :: renameBranches σ rest

end

def Binding.rename (σ : String → String) (p : Binding) : Binding :=
  ⟨p.name.map σ, p.ty.map (TypeName.rename σ)⟩

/-- A function with other names for its parameters and variables. -/
def FnDef.rename (σ : String → String) (f : FnDef) : FnDef :=
  { f with
    params := f.params.map (Binding.rename σ)
    returnTy := f.returnTy.map (Spanned.map (TypeName.rename σ))
    body := f.body.map (StmtBlock.rename σ) }

/-! ### Inline code -/

mutual

/-- Whether a statement has no inline code, which refers to variables by its own rules. -/
def Stmt.isPure : Stmt → Bool
  | .ifElse branches none => branchesPure branches
  | .ifElse branches (some ⟨other, _⟩) => branchesPure branches && other.isPure
  | .whileLoop _ ⟨body, _⟩ => body.isPure
  | .forLoop none _ _ ⟨body, _⟩ => body.isPure
  | .forLoop (some ⟨init, _⟩) _ _ ⟨body, _⟩ => init.isPure && body.isPure
  | .block ⟨body, _⟩ => body.isPure
  | .inline _ _ _ => false
  | .declare _ _ _ | .assign _ _ | .compoundAssign _ _ _ | .expr _ | .breakLoop | .ret _ => true

def StmtBlock.isPure : StmtBlock → Bool
  | ⟨stmts⟩ => stmtsPure stmts

def stmtsPure : List (Spanned Stmt) → Bool
  | [] => true
  | ⟨stmt, _⟩ :: rest => stmt.isPure && stmtsPure rest

def branchesPure : List Branch → Bool
  | [] => true
  | ⟨_, ⟨body, _⟩⟩ :: rest => body.isPure && branchesPure rest

end

def FnDef.isPure (f : FnDef) : Bool := f.body.node.isPure

/-! ### Names -/

mutual

def Expr.names : Expr → List String
  | .literal _ => []
  | .var name => [name]
  | .paren ⟨e, _⟩ | .unary _ ⟨e, _⟩ | .cast _ ⟨e, _⟩ | .field ⟨e, _⟩ _ => e.names
  | .binary _ ⟨l, _⟩ ⟨r, _⟩ => l.names ++ r.names
  | .step _ ⟨place, _⟩ => place.names
  | .call _ es | .array es => namesOf es
  | .methodCall ⟨e, _⟩ _ es | .index ⟨e, _⟩ es => e.names ++ namesOf es

def Place.names : Place → List String
  | .var name => [name]
  | .field ⟨object, _⟩ _ => object.names
  | .index ⟨base, _⟩ indices => base.names ++ namesOf indices

def namesOf : List (Spanned Expr) → List String
  | [] => []
  | ⟨e, _⟩ :: es => e.names ++ namesOf es

end

def ArrayDim.names : ArrayDim → List String
  | .unsized => []
  | .sized size => size.node.names

def TypeName.names (t : TypeName) : List String := t.dims.flatMap ArrayDim.names

def optionalNames (e : Option (Spanned Expr)) : List String := e.elim [] (·.node.names)

mutual

def Stmt.names : Stmt → List String
  | .declare name ty init => name.node :: (ty.elim [] (·.node.names) ++ optionalNames init)
  | .assign place value | .compoundAssign _ place value => place.node.names ++ value.node.names
  | .expr e => e.node.names
  | .ifElse branches none => branchNames branches
  | .ifElse branches (some ⟨other, _⟩) => branchNames branches ++ other.names
  | .whileLoop cond ⟨body, _⟩ => cond.node.names ++ body.names
  | .forLoop none cond step ⟨body, _⟩ => optionalNames cond ++ optionalNames step ++ body.names
  | .forLoop (some ⟨init, _⟩) cond step ⟨body, _⟩ =>
    init.names ++ (optionalNames cond ++ optionalNames step ++ body.names)
  | .breakLoop => []
  | .ret value => optionalNames value
  | .block ⟨body, _⟩ => body.names
  | .inline _ _ _ => []

def StmtBlock.names : StmtBlock → List String
  | ⟨stmts⟩ => stmtNames stmts

def stmtNames : List (Spanned Stmt) → List String
  | [] => []
  | ⟨stmt, _⟩ :: rest => stmt.names ++ stmtNames rest

def branchNames : List Branch → List String
  | [] => []
  | ⟨cond, ⟨body, _⟩⟩ :: rest => cond.node.names ++ body.names ++ branchNames rest

end

/-- The local names of a function: its parameters, the variables it declares and those it refers to. The object of
a method is `self`. -/
def FnDef.localNames (struct : Option String) (f : FnDef) : List String :=
  (struct.toList.map fun _ => "self") ++ (f.params.flatMap fun p => p.name.node :: p.ty.node.names) ++
    f.returnTy.elim [] (·.node.names) ++ f.body.node.names

attribute [local simp] Expr.rename Place.rename renameAll Stmt.rename StmtBlock.rename renameStmts renameBranches

/-! ### What a renaming depends on -/

section Congruence

variable {σ τ : String → String}

def Agree (σ τ : String → String) (names : List String) : Prop := ∀ n ∈ names, σ n = τ n

theorem Agree.append {l r : List String} (h : Agree σ τ (l ++ r)) : Agree σ τ l ∧ Agree σ τ r :=
  forall_mem_append.mp h

theorem Agree.cons {n : String} {l : List String} (h : Agree σ τ (n :: l)) : σ n = τ n ∧ Agree σ τ l :=
  forall_mem_cons.mp h

mutual

theorem Expr.rename_congr : ∀ e : Expr, Agree σ τ e.names → e.rename σ = e.rename τ
  | .literal _, _ => by simp
  | .var name, h => by simp [h.cons.1]
  | .paren ⟨e, _⟩, h | .unary _ ⟨e, _⟩, h | .cast _ ⟨e, _⟩, h | .field ⟨e, _⟩ _, h => by
      simp [Expr.rename_congr e h]
  | .binary _ ⟨l, _⟩ ⟨r, _⟩, h => by simp [Expr.rename_congr l h.append.1, Expr.rename_congr r h.append.2]
  | .step _ ⟨place, _⟩, h => by simp [Place.rename_congr place h]
  | .call _ es, h | .array es, h => by simp [renameAll_congr es h]
  | .methodCall ⟨e, _⟩ _ es, h | .index ⟨e, _⟩ es, h => by
      simp [Expr.rename_congr e h.append.1, renameAll_congr es h.append.2]

theorem Place.rename_congr : ∀ p : Place, Agree σ τ p.names → p.rename σ = p.rename τ
  | .var name, h => by simp [h.cons.1]
  | .field ⟨object, _⟩ _, h => by simp [Place.rename_congr object h]
  | .index ⟨base, _⟩ indices, h => by simp [Place.rename_congr base h.append.1, renameAll_congr indices h.append.2]

theorem renameAll_congr : ∀ es : List (Spanned Expr), Agree σ τ (namesOf es) → renameAll σ es = renameAll τ es
  | [], _ => by simp
  | ⟨e, _⟩ :: es, h => by simp [Expr.rename_congr e h.append.1, renameAll_congr es h.append.2]

end

theorem Spanned.rename_congr (e : Spanned Expr) (h : Agree σ τ e.node.names) :
    e.map (Expr.rename σ) = e.map (Expr.rename τ) := by
  simp only [Spanned.map, Expr.rename_congr e.node h]

theorem optional_rename_congr (e : Option (Spanned Expr)) (h : Agree σ τ (optionalNames e)) :
    e.map (Spanned.map (Expr.rename σ)) = e.map (Spanned.map (Expr.rename τ)) := by
  cases e with
  | none => rfl
  | some e => simp only [Option.map_some, Spanned.rename_congr e h]

theorem TypeName.rename_congr (t : TypeName) (h : Agree σ τ t.names) : t.rename σ = t.rename τ := by
  have hdims : t.dims.map (.rename σ) = t.dims.map (ArrayDim.rename τ) := by
    refine map_congr_left fun dim hdim => ?_
    cases dim with
    | unsized => rfl
    | sized size =>
      simp only [ArrayDim.rename]
      rw [Spanned.rename_congr size fun n hn => h n (mem_flatMap.mpr ⟨_, hdim, hn⟩)]
  rw [TypeName.rename, TypeName.rename, hdims]

theorem optional_type_rename_congr (t : Option (Spanned TypeName)) (h : Agree σ τ (t.elim [] (·.node.names))) :
    t.map (Spanned.map (TypeName.rename σ)) = t.map (Spanned.map (TypeName.rename τ)) := by
  cases t with
  | none => rfl
  | some t => simp only [Option.map_some, Spanned.map, TypeName.rename_congr t.node h]

mutual

theorem Stmt.rename_congr : ∀ stmt : Stmt, Agree σ τ stmt.names → stmt.rename σ = stmt.rename τ
  | .declare name ty init, h => by
      obtain ⟨hname, hrest⟩ := h.cons
      simp [Spanned.map, hname, ← optional_rename_congr init hrest.append.2]
      rw [← optional_type_rename_congr ty hrest.append.1]
  | .assign place value, h | .compoundAssign _ place value, h => by
      simp [Spanned.map, Place.rename_congr _ h.append.1, Expr.rename_congr _ h.append.2]
  | .expr e, h => by simp [Spanned.rename_congr e h]
  | .ifElse branches none, h => by simp [renameBranches_congr branches h]
  | .ifElse branches (some ⟨other, _⟩), h => by
      simp [renameBranches_congr branches h.append.1, StmtBlock.rename_congr other h.append.2]
  | .whileLoop cond ⟨body, _⟩, h => by
      simp [Spanned.rename_congr cond h.append.1, StmtBlock.rename_congr body h.append.2]
  | .forLoop none cond step ⟨body, _⟩, h => by
      obtain ⟨hguard, hbody⟩ := h.append
      simp [StmtBlock.rename_congr body hbody, optional_rename_congr cond hguard.append.1,
        optional_rename_congr step hguard.append.2]
  | .forLoop (some ⟨init, _⟩) cond step ⟨body, _⟩, h => by
      obtain ⟨hinit, hloop⟩ := h.append
      obtain ⟨hguard, hbody⟩ := hloop.append
      simp [Stmt.rename_congr init hinit, StmtBlock.rename_congr body hbody,
        optional_rename_congr cond hguard.append.1, optional_rename_congr step hguard.append.2]
  | .breakLoop, _ => by simp
  | .ret value, h => by simp [optional_rename_congr value h]
  | .block ⟨body, _⟩, h => by simp [StmtBlock.rename_congr body h]
  | .inline _ _ _, _ => by simp

theorem StmtBlock.rename_congr : ∀ b : StmtBlock, Agree σ τ b.names → b.rename σ = b.rename τ
  | ⟨stmts⟩, h => by simp [renameStmts_congr stmts h]

theorem renameStmts_congr : ∀ stmts : List (Spanned Stmt), Agree σ τ (stmtNames stmts) →
    renameStmts σ stmts = renameStmts τ stmts
  | [], _ => by simp
  | ⟨stmt, _⟩ :: rest, h => by simp [Stmt.rename_congr stmt h.append.1, renameStmts_congr rest h.append.2]

theorem renameBranches_congr : ∀ branches : List Branch, Agree σ τ (branchNames branches) →
    renameBranches σ branches = renameBranches τ branches
  | [], _ => by simp
  | ⟨cond, ⟨body, _⟩⟩ :: rest, h => by
      obtain ⟨hfirst, hrest⟩ := h.append
      simp [Spanned.rename_congr cond hfirst.append.1, StmtBlock.rename_congr body hfirst.append.2,
        renameBranches_congr rest hrest]

end

/-- What a function is renamed to depends only on the new names of its local names. -/
theorem FnDef.rename_congr {struct : Option String} (f : FnDef) (h : Agree σ τ (f.localNames struct)) :
    f.rename σ = f.rename τ := by
  obtain ⟨hsignature, hbody⟩ := h.append
  obtain ⟨hparams, hret⟩ := hsignature.append
  have hbindings : f.params.map (.rename σ) = f.params.map (Binding.rename τ) := by
    refine map_congr_left fun p hp => ?_
    obtain ⟨hname, hty⟩ : σ p.name.node = τ p.name.node ∧ Agree σ τ p.ty.node.names :=
      Agree.cons fun n hn => hparams.append.2 n (mem_flatMap.mpr ⟨p, hp, hn⟩)
    simp only [Binding.rename, Spanned.map, hname, TypeName.rename_congr p.ty.node hty]
  simp only [FnDef.rename, hbindings, optional_type_rename_congr f.returnTy hret, Spanned.map,
    StmtBlock.rename_congr f.body.node hbody]

end Congruence

/-! ### The renaming that changes nothing -/

section Identity

mutual

theorem Expr.rename_id : ∀ e : Expr, e.rename id = e
  | .literal _ | .var _ => by simp
  | .paren ⟨e, _⟩ | .unary _ ⟨e, _⟩ | .cast _ ⟨e, _⟩ | .field ⟨e, _⟩ _ => by simp [Expr.rename_id e]
  | .binary _ ⟨l, _⟩ ⟨r, _⟩ => by simp [Expr.rename_id l, Expr.rename_id r]
  | .step _ ⟨place, _⟩ => by simp [Place.rename_id place]
  | .call _ es | .array es => by simp [renameAll_id es]
  | .methodCall ⟨e, _⟩ _ es | .index ⟨e, _⟩ es => by simp [Expr.rename_id e, renameAll_id es]

theorem Place.rename_id : ∀ p : Place, p.rename id = p
  | .var _ => by simp
  | .field ⟨object, _⟩ _ => by simp [Place.rename_id object]
  | .index ⟨base, _⟩ indices => by simp [Place.rename_id base, renameAll_id indices]

theorem renameAll_id : ∀ es : List (Spanned Expr), renameAll id es = es
  | [] => by simp
  | ⟨e, _⟩ :: es => by simp [Expr.rename_id e, renameAll_id es]

end

theorem Spanned.map_eq_self {α : Type} {f : α → α} (h : ∀ a, f a = a) : Spanned.map f = id := by
  funext s
  simp only [Spanned.map, h, id]

attribute [local simp] Spanned.map_eq_self Expr.rename_id Place.rename_id

@[local simp]
theorem TypeName.rename_id (t : TypeName) : t.rename id = t := by
  have hdim : ArrayDim.rename id = id := by
    funext dim
    cases dim with
    | unsized => rfl
    | sized size => simp [ArrayDim.rename]
  simp [TypeName.rename, hdim]

mutual

theorem Stmt.rename_id : ∀ stmt : Stmt, stmt.rename id = stmt
  | .declare _ _ _ | .assign _ _ | .compoundAssign _ _ _ | .expr _ | .breakLoop | .ret _ | .inline _ _ _ => by simp
  | .ifElse branches none => by simp [renameBranches_id branches]
  | .ifElse branches (some ⟨other, _⟩) => by simp [renameBranches_id branches, StmtBlock.rename_id other]
  | .whileLoop _ ⟨body, _⟩ => by simp [StmtBlock.rename_id body]
  | .forLoop none _ _ ⟨body, _⟩ => by simp [StmtBlock.rename_id body]
  | .forLoop (some ⟨init, _⟩) _ _ ⟨body, _⟩ => by simp [Stmt.rename_id init, StmtBlock.rename_id body]
  | .block ⟨body, _⟩ => by simp [StmtBlock.rename_id body]

theorem StmtBlock.rename_id : ∀ b : StmtBlock, b.rename id = b
  | ⟨stmts⟩ => by simp [renameStmts_id stmts]

theorem renameStmts_id : ∀ stmts : List (Spanned Stmt), renameStmts id stmts = stmts
  | [] => by simp
  | ⟨stmt, _⟩ :: rest => by simp [Stmt.rename_id stmt, renameStmts_id rest]

theorem renameBranches_id : ∀ branches : List Branch, renameBranches id branches = branches
  | [] => by simp
  | ⟨cond, ⟨body, _⟩⟩ :: rest => by simp [StmtBlock.rename_id body, renameBranches_id rest]

end

theorem FnDef.rename_id (f : FnDef) : f.rename id = f := by
  have hbinding : Binding.rename id = id := by
    funext p
    simp [Binding.rename]
  simp [FnDef.rename, hbinding, StmtBlock.rename_id]

end Identity

/-! ### Permutations -/

def InjectiveOn (σ : String → String) (names : List String) : Prop :=
  ∀ m ∈ names, ∀ n ∈ names, σ m = σ n → m = n

/-- What a renaming does to finitely many names without making two of them the same, a permutation of all names
does. -/
theorem exists_perm_agree {σ : String → String} {names : List String} (h : InjectiveOn σ names) :
    ∃ π : Equiv.Perm String, Agree σ π names := by
  induction names with
  | nil => exact ⟨Equiv.refl _, nofun⟩
  | cons n names ih =>
    obtain ⟨π, hπ⟩ := ih fun a ha b hb => h a (mem_cons_of_mem _ ha) b (mem_cons_of_mem _ hb)
    -- The new permutation first does what the old one does, and then brings the first name to its place.
    refine ⟨π.trans (Equiv.swap (π n) (σ n)), forall_mem_cons.mpr ⟨?_, fun m hm => ?_⟩⟩
    · rw [Equiv.trans_apply, Equiv.swap_apply_left]
    · rw [Equiv.trans_apply, ← hπ m hm]
      by_cases hmn : m = n
      · rw [← hπ n (hmn ▸ hm), Equiv.swap_self]
        rfl
      · refine (Equiv.swap_apply_of_ne_of_ne (fun heq => hmn ?_) fun heq => hmn ?_).symm
        · exact π.injective ((hπ m hm).symm.trans heq)
        · exact h m (mem_cons_of_mem _ hm) n mem_cons_self heq

end Aero
