import Aero.Proofs.Rejection

/-!
Statements leave the scopes and the exits of loops as they found them, whether they are lowered or fail at any depth.
Only a declaration that succeeds is seen afterwards: its name is new in the innermost frame.
-/

namespace Aero

def Stmt.declares? : Stmt → Option String
  | .declare name _ _ => some name.node
  | _ => none

namespace Lowering

open IR

/-- A frame with the name that is declared in it, if there is one. The name was not declared in it before. -/
def Frame.Declares (frame frame' : Frame) : Option String → Prop
  | none => frame' = frame
  | some name => (∀ entry ∈ frame, entry.1 ≠ name) ∧ ∃ slot, frame' = (name, slot) :: frame

/-- The state after a statement has the scopes and the loop exits of the state before it, and a name at most has been
declared in the innermost frame. -/
structure State.Restored (declared : Option String) (s s' : State) : Prop where
  loopExits_eq : s'.loopExits = s.loopExits
  depth_eq : s'.scopes.depth = s.scopes.depth
  outer_eq : s'.scopes.outer = s.scopes.outer
  top : s.scopes.top.Declares s'.scopes.top declared

variable {env : Env} {s s' t : State}

/-- Of two actions that end alike, the one has left what it does not reach. -/
theorem Ended.leaves {α : Type} {g : Guise} {Q : Common g.exact → α → α → Prop} {k : Reach}
    {r r' : EStateM.Result Diagnostic State α} (h : Ended g s t Q k r r') :
    Outcome (k.Leaves false s) (fun _ => k.Leaves true s) r := by
  cases r <;> cases r'
  · exact h.2.1
  · exact h.elim
  · exact h.elim
  · exact h.2.2

theorem State.Restored.of_scopes_eq (hscopes : s'.scopes = s.scopes) (hexits : s'.loopExits = s.loopExits) :
    s.Restored none s' :=
  ⟨hexits, congrArg Scopes.depth hscopes, congrArg Scopes.outer hscopes, congrArg Scopes.top hscopes⟩

/-- A name that is new in the innermost frame is added to it, and all other frames stay. -/
theorem Scopes.declare?_new {scopes : Scopes} {name : String} (h : scopes.isDeclaredHere name = false) (slot : Slot) :
    ∃ scopes', scopes.declare? name slot = some scopes' ∧ scopes'.depth = scopes.depth ∧
      scopes'.outer = scopes.outer ∧ scopes'.top = (name, slot) :: scopes.top := by
  obtain ⟨inner, outermost⟩ := scopes
  unfold declare?
  rw [h]
  cases inner with
  | nil | cons frame inner => exact ⟨_, rfl, rfl, rfl, rfl⟩

/-- Only a name that is new in the innermost frame can be declared. -/
theorem isDeclaredHere_of_declareVariable {name : Spanned String} {ty : Option (Spanned TypeName)}
    {init : Option (Spanned Expr)} {span : Span} (h : declareVariable name ty init span env s = .ok () s') :
    s.scopes.isDeclaredHere name.node = false := by
  cases hhere : s.scopes.isDeclaredHere name.node with
  | false => rfl
  | true =>
    have hfails : declareVariable name ty init span env s =
        .error ((Problem.variableDeclared name.node).diagnostic name.span) s := by
      unfold declareVariable
      change (if s.scopes.isDeclaredHere name.node = true then _ else _ : Lower Unit) env s = _
      rw [if_pos hhere]
      rfl
    rw [hfails] at h
    cases h

/-- Scopes and loop exits are restored on every path. After a statement, lowered or not and from any state, the exits
of the loops around it are the same, there are as many frames as before and all but the innermost are the same. So is
the innermost, except that a declaration that was lowered has added its own name to it. -/
theorem lowerStmt_restores (env : Env) (span : Span) (stmt : Stmt) (s : State) :
    Outcome (s.Restored none) (fun _ => s.Restored stmt.declares?) (lowerStmt span stmt env s) := by
  have hparallel (P : Common True) : Parallel .same env P (lowerStmt span stmt)
      (lowerStmt span (stmt.rename (Equiv.refl String))) Done (stmtReach stmt) :=
    parallel_lowerStmt (g := .same) span stmt (.inr ⟨rfl, .inr trivial⟩) P
  have hleaves := ((hparallel _).run s s (s.like_reports s.diagnostics s.diagnostics) (le_refl _)).leaves
  cases hres : lowerStmt span stmt env s with
  | error d s' =>
    rw [hres] at hleaves
    cases stmt <;> exact .of_scopes_eq hleaves.scopes hleaves.loopExits_eq
  | ok a s' =>
    rw [hres] at hleaves
    cases stmt with
    | declare name ty init =>
      obtain ⟨slot, hslot⟩ := hleaves.scopes
      rw [lowerStmt] at hres
      have hnew := isDeclaredHere_of_declareVariable hres
      obtain ⟨scopes, hscopes, hdepth, houter, htop⟩ := Scopes.declare?_new hnew slot
      rw [hscopes] at hslot
      have hlast : s'.scopes = scopes := hslot
      refine ⟨hleaves.loopExits_eq, hlast ▸ hdepth, hlast ▸ houter, fun entry hentry heq => ?_, slot, hlast ▸ htop⟩
      exact List.any_eq_false.mp hnew entry hentry (decide_eq_true heq)
    | _ => exact .of_scopes_eq hleaves.scopes hleaves.loopExits_eq

end Lowering

end Aero
