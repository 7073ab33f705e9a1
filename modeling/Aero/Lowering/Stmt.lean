import Aero.Lowering.Control
import Aero.Lowering.InlineBlock
import Aero.Lowering.Variable

/-!
Statements. Those after a jump can not be reached and are skipped.
-/

namespace Aero.Lowering

open IR

/-- Returns from the function. Without a value, a function that has a result returns zero. -/
def returnFrom (value : Option (Spanned Expr)) (span : Span) : Lower Unit := do
  let ret := (← state).returnTy
  match value with
  | none => if ret.isVoid then Build.retVoid else Build.ret (Build.zero ret)
  | some e =>
      if ret.isVoid then fail .valueFromVoid e.span
      else
        let v ← lower e
        let v ← coerceReturn v ret span
        Build.ret v

def lowerStep (step : Option (Spanned Expr)) : Lower Unit :=
  match step with
  | some e => discard (lower e)
  | none => pure ()

mutual

def lowerStmt (span : Span) : Stmt → Lower Unit
  | .declare name ty init => declareVariable name ty init span
  | .assign place value => assign place value
  | .compoundAssign op place value => compoundAssign op place value span
  | .expr e => discard (lower e)
  | .ifElse branches none => ifElse (lowerBranches branches) none
  | .ifElse branches (some ⟨other, _⟩) => ifElse (lowerBranches branches) (some (lowerBlock other))
  | .whileLoop cond ⟨body, _⟩ => whileLoop (guard cond) (lowerBlock body)
  | .forLoop none cond step ⟨body, _⟩ =>
      forLoop (pure ()) (cond.map guard) (lowerStep step) (lowerBlock body)
  | .forLoop (some ⟨init, ispan⟩) cond step ⟨body, _⟩ =>
      forLoop (lowerStmt ispan init) (cond.map guard) (lowerStep step) (lowerBlock body)
  | .breakLoop => breakLoop span
  | .ret value => returnFrom value span
  | .block ⟨body, _⟩ => lowerBlock body
  | .inline lang code volatile => inlineBlock lang code volatile span

def lowerBlock : StmtBlock → Lower Unit
  | ⟨stmts⟩ => withScope (lowerStmts stmts)

/-- The code of statements up to the first that can not be reached. -/
def lowerStmts : List (Spanned Stmt) → Lower Unit
  | [] => pure ()
  | ⟨stmt, span⟩ :: rest => do
      if ← isTerminated then
        note .trace ("skipping " ++ toString (rest.length + 1) ++ " unreachable statement(s)")
      else
        lowerStmt span stmt
        lowerStmts rest

def lowerBranches : List Branch → List Arm
  | [] => []
  | ⟨cond, ⟨body, _⟩⟩ :: rest => ⟨guard cond, lowerBlock body⟩ :: lowerBranches rest

end

end Aero.Lowering
