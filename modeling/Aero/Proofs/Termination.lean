import Aero.Proofs.Eager
import Aero.Proofs.Hygiene

/-!
Code that can not be reached. Whether control goes on after a statement can be told from the statement alone, and
statements after one that does not let it go on change nothing but the log.
-/

namespace Aero.Lowering

open IR IR.Site List

def State.unlogged (s : State) : State := { s with builder := { s.builder with log := #[] } }

/-- Two actions end alike: with the same result or the same failure, in states that differ in the log only. -/
inductive EndsAlike {α : Type} : EStateM.Result Diagnostic State α → EStateM.Result Diagnostic State α → Prop where
  | ok {a : α} {s s' : State} (h : s.unlogged = s'.unlogged) : EndsAlike (.ok a s) (.ok a s')
  | error {d : Diagnostic} {s s' : State} (h : s.unlogged = s'.unlogged) : EndsAlike (.error d s) (.error d s')

theorem EndsAlike.refl {α : Type} {r : EStateM.Result Diagnostic State α} : EndsAlike r r := by
  cases r with
  | ok a s => exact .ok rfl
  | error d s => exact .error rfl

variable {H : Prop} {env : Env} {s s' : State} {w : Site H} {rest : List (Spanned Stmt)} {first : Spanned Stmt}

theorem Body.isTerminated_eq (h : Body s w) : s.builder.isTerminated = w.block.isTerminated := by
  rw [h.builder_eq]
  exact w.at_block.isTerminated

/-- After a statement no more can be emitted if and only if it is terminating. Otherwise lowering goes on in the
body. -/
theorem isTerminated_of_lowerStmt {span : Span} {stmt : Stmt} (hbody : Body s w)
    (hopen : s.builder.isTerminated = false) (hrun : lowerStmt span stmt env s = .ok () s') :
    (∃ w' : Site H, Body s' w') ∧ s'.builder.isTerminated = stmt.isTerminating := by
  rw [hbody.isTerminated_eq] at hopen
  have hdoes : Outcome _ _ (lowerStmt span stmt env s) :=
    (does_lowerStmt span stmt False.elim s w).run (open_iff.mpr hopen) hbody
  rw [hrun] at hdoes
  obtain ⟨w', hbody', _, _, hends⟩ := hdoes
  exact ⟨⟨w', hbody'⟩, hbody'.isTerminated_eq.trans hends⟩

theorem lowerStmts_cons_closed (h : s.builder.isTerminated = true) : lowerStmts (first :: rest) env s = .ok () { s with
    builder := s.builder.note .trace ("skipping " ++ toString (rest.length + 1) ++ " unreachable statement(s)") } := by
  change (if s.builder.isTerminated = true then _ else _ : Lower Unit) env s = _
  rw [if_pos h]
  rfl

theorem lowerStmts_cons_open (h : s.builder.isTerminated = false) :
    lowerStmts (first :: rest) env s = (do lowerStmt first.span first.node; lowerStmts rest : Lower Unit) env s := by
  change (if s.builder.isTerminated = true then _ else _ : Lower Unit) env s = _
  rw [if_neg (Bool.eq_false_iff.mp h)]

theorem endsAlike_skipped {stmts : List (Spanned Stmt)} (h : s.builder.isTerminated = true) :
    EndsAlike (lowerStmts stmts env s) (.ok () s) := by
  cases stmts with
  | nil =>
    exact .ok rfl
  | cons first rest =>
    rw [lowerStmts_cons_closed h]
    exact .ok rfl

theorem endsAlike_lowerStmts {last : Spanned Stmt} (hlast : last.node.isTerminating = true)
    {before after : List (Spanned Stmt)} (hbody : Body s w) :
    EndsAlike (lowerStmts (before ++ last :: after) env s) (lowerStmts (before ++ [last]) env s) := by
  induction before generalizing s w with
  | nil =>
    cases hclosed : s.builder.isTerminated with
    | true =>
      rw [nil_append, nil_append, lowerStmts_cons_closed hclosed, lowerStmts_cons_closed hclosed]
      exact .ok rfl
    | false =>
      rw [nil_append, nil_append, lowerStmts_cons_open hclosed, lowerStmts_cons_open hclosed, bind_run, bind_run]
      cases hrun : lowerStmt last.span last.node env s with
      | error d s' => exact .refl
      | ok _ s' =>
        have hclosed' := (isTerminated_of_lowerStmt hbody hclosed hrun).2.trans hlast
        exact endsAlike_skipped hclosed'
  | cons first before ih =>
    cases hclosed : s.builder.isTerminated with
    | true =>
      rw [cons_append, cons_append, lowerStmts_cons_closed hclosed, lowerStmts_cons_closed hclosed]
      exact .ok rfl
    | false =>
      rw [cons_append, cons_append, lowerStmts_cons_open hclosed, lowerStmts_cons_open hclosed, bind_run, bind_run]
      cases hrun : lowerStmt first.span first.node env s with
      | error d s' => exact .refl
      | ok _ s' =>
        obtain ⟨⟨w', hbody'⟩, _⟩ := isTerminated_of_lowerStmt hbody hclosed hrun
        exact ih hbody'

/-- Exactly what can not be reached is left out. Where a body is open, a statement that is lowered closes it if and
only if it is terminating; and whatever statements follow a terminating one, the result, the module, the diagnostics
and all else but the log are as without them. -/
theorem lowerStmts_exact {H : Prop} {env : Env} {s : State} {w : Site H} (hbody : Body s w) :
    (s.builder.isTerminated = false → ∀ span stmt s', lowerStmt span stmt env s = .ok () s' →
      (∃ w' : Site H, Body s' w') ∧ (s'.builder.isTerminated = true ↔ stmt.isTerminating = true)) ∧
    ∀ (before : List (Spanned Stmt)) (last : Spanned Stmt) (after : List (Spanned Stmt)),
      last.node.isTerminating = true →
      EndsAlike (lowerStmts (before ++ [last] ++ after) env s) (lowerStmts (before ++ [last]) env s) := by
  refine ⟨fun hopen span stmt s' hrun => ?_, fun before last after hlast => ?_⟩
  · obtain ⟨hbody', hends⟩ := isTerminated_of_lowerStmt hbody hopen hrun
    exact ⟨hbody', by rw [hends]⟩
  · rw [List.append_assoc]
    exact endsAlike_lowerStmts hlast hbody

/-- The statement `if (true) { return; } else { return; }`. -/
def returnsEitherWay : Spanned Stmt :=
  let done : Spanned StmtBlock := ⟨⟨[⟨.ret none, {}⟩]⟩, {}⟩
  ⟨.ifElse [⟨⟨.literal (.bool true), {}⟩, done⟩] (some done), {}⟩

/-- After it, a `break` outside of all loops is no error. -/
theorem lowerStmts_exact_returns : Body bareStart bareSite ∧
      (∃ s', lowerStmt {} returnsEitherWay.node bareEnv bareStart = .ok () s' ∧ s'.builder.isTerminated = true) ∧
      EndsAlike (lowerStmts [returnsEitherWay, ⟨.breakLoop, {}⟩] bareEnv bareStart)
        (lowerStmts [returnsEitherWay] bareEnv bareStart) := by
  obtain ⟨hstmt, hstmts⟩ := @lowerStmts_exact False bareEnv bareStart bareSite bareStart_body
  have hstmts := hstmts [] returnsEitherWay [⟨.breakLoop, {}⟩] rfl
  rw [List.nil_append, List.singleton_append] at hstmts
  refine ⟨bareStart_body, ?_, hstmts⟩
  have hok : (yield (lowerStmt {} returnsEitherWay.node) bareEnv bareStart).1 = true := by decide +kernel
  unfold yield at hok
  cases hrun : lowerStmt {} returnsEitherWay.node bareEnv bareStart with
  | error d s' =>
    rw [hrun] at hok
    cases hok
  | ok _ s' => exact ⟨s', rfl, (hstmt rfl {} _ s' hrun).2.mpr rfl⟩

end Aero.Lowering
