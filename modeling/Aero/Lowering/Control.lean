import Aero.Lowering.State

/-!
Branches and loops, put together from the code of their parts.
-/

namespace Aero.Lowering

open IR

structure Arm where
  guard : Lower Value
  body : Lower Unit

structure ArmBlocks where
  guard : BlockId
  body : BlockId
deriving DecidableEq

/-- Goes on at a block, unless nothing can be emitted; tells whether it does. -/
def joinAt (merge : BlockId) : Lower Bool := do
  if ← isTerminated then return false
  else
    Build.br merge
    return true

/-- The code of one branch: the body if the guard holds, and the next block if not. -/
def lowerArm (arm : Arm) (blocks : ArmBlocks) (next merge : BlockId) : Lower Bool := do
  Build.position blocks.guard
  let c ← arm.guard
  Build.condBr c blocks.body next
  Build.position blocks.body
  arm.body
  joinAt merge

/-- The code of the branches, of which the last goes on at `other` if no guard holds; tells whether
some branch joins the merge block. -/
def lowerArms (other merge : BlockId) : List (Arm × ArmBlocks) → Lower Bool
  | [] => pure false
  | (arm, blocks) :: rest => do
      let next := (rest.head?.map (·.2.guard)).getD other
      let joins ← lowerArm arm blocks next merge
      let othersJoin ← lowerArms other merge rest
      return joins || othersJoin

def armBlocks (i : Nat) : Build ArmBlocks := do
  let guard ← Build.appendBlock ("cond" ++ toString i)
  let body ← Build.appendBlock ("body" ++ toString i)
  return ⟨guard, body⟩

def armsBlocks : Nat → List Arm → Build (List (Arm × ArmBlocks))
  | _, [] => pure []
  | i, arm :: arms => do
      let blocks ← armBlocks i
      return (arm, blocks) :: (← armsBlocks (i + 1) arms)

def elseBlock? (present : Bool) : Build (Option BlockId) :=
  if present then some <$> Build.appendBlock "else" else pure none

def enterArms : List (Arm × ArmBlocks) → Build Unit
  | (_, first) :: _ => Build.br first.guard
  | [] => pure ()

/-- The code of the last part of a conditional; tells whether control can come to the merge block
when no guard holds. -/
def lowerElse (otherwise : Option (Lower Unit)) (block : Option BlockId) (merge : BlockId) : Lower Bool :=
  match otherwise, block with
  | some body, some block => do
      Build.position block
      body
      joinAt merge
  | _, _ => pure true

/-- Goes on at the merge block, which is dropped if no way leads there. -/
def mergeAt (merge : BlockId) (joins : Bool) : Lower Unit := do
  if joins then
    Build.moveBlockToEnd merge
    Build.position merge
  else
    note .trace "every branch terminates, dropping merge block"
    Build.eraseBlock merge

/-- A conditional. The first branch whose guard holds is taken, or else the last part. -/
def ifElse (arms : List Arm) (otherwise : Option (Lower Unit)) : Lower Unit := do
  let arms ← armsBlocks 0 arms
  let elseBlock ← elseBlock? otherwise.isSome
  let merge ← Build.appendBlock "ifcont"
  enterArms arms
  let armsJoin ← lowerArms (elseBlock.getD merge) merge arms
  let elseJoins ← lowerElse otherwise elseBlock merge
  mergeAt merge (armsJoin || elseJoins)

def whileLoop (guard : Lower Value) (body : Lower Unit) : Lower Unit := do
  let header ← Build.appendBlock "while.header"
  let bodyBlock ← Build.appendBlock "while.body"
  let exit ← Build.appendBlock "while.exit"
  Build.br header
  Build.position header
  let c ← guard
  Build.condBr c bodyBlock exit
  Build.position bodyBlock
  withLoopExit exit body
  Build.br header
  Build.moveBlockToEnd exit
  Build.position exit

/-- Goes to the body of a loop if the guard holds, and leaves the loop if not. Without a guard the
loop goes on. -/
def enterBody (guard : Option (Lower Value)) (body exit : BlockId) : Lower Unit :=
  match guard with
  | some guard => do
      let c ← guard
      Build.condBr c body exit
  | none => Build.br body

def stepLoop (guard : Option (Lower Value)) (step body : Lower Unit) : Lower Unit := do
  let header ← Build.appendBlock "for.header"
  let bodyBlock ← Build.appendBlock "for.body"
  let increment ← Build.appendBlock "for.increment"
  let exit ← Build.appendBlock "for.exit"
  Build.br header
  Build.position header
  enterBody guard bodyBlock exit
  Build.position bodyBlock
  withLoopExit exit body
  Build.br increment
  Build.moveBlockToEnd increment
  Build.position increment
  step
  Build.br header
  Build.moveBlockToEnd exit
  Build.position exit

/-- A loop with a start and a step; its parts share a scope. -/
def forLoop (init : Lower Unit) (guard : Option (Lower Value)) (step body : Lower Unit) : Lower Unit :=
  withScope do
    init
    stepLoop guard step body

def breakLoop (span : Span) : Lower Unit := do
  match (← state).loopExits with
  | exit :: _ => Build.br exit
  | [] => fail .breakOutsideLoop span

end Aero.Lowering
