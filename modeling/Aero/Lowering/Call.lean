import Aero.Lowering.Array

/-!
Struct objects, and calls of functions and methods. An object is handled by its address: the slot of a struct variable
is the object, and a struct parameter is the address that was passed.
-/

namespace Aero.Lowering

open IR

structure Object where
  ptr : Value
  struct : String
deriving DecidableEq

def variableObject (name : String) (span : Span) : Lower Object := do
  let slot ← lookup name span
  match slot.ty with
  | .struct struct => return ⟨slot.ptr, struct⟩
  | _ => fail (.notStruct name) span

def fieldPlace (object : Object) (field : Spanned String) : Lower PlaceRef := do
  match ← Build.fieldPtr object.struct object.ptr field.node with
  | some (ptr, ty) => return { ptr := ptr, ty := ty }
  | none => fail (.unknownField object.struct field.node) field.span

def exprObject (span : Span) : Expr → Lower Object
  | .paren ⟨inner, span⟩ => exprObject span inner
  | .var name => variableObject name span
  | .field ⟨outer, span⟩ name => do
      let outer ← exprObject span outer
      let place ← fieldPlace outer name
      match place.ty with
      | .struct struct => return ⟨place.ptr, struct⟩
      | found => fail (.fieldNotStruct outer.struct name.node (some found)) name.span
  | _ => fail .notObject span

def placeObject (span : Span) : Place → Lower Object
  | .var name => variableObject name span
  | .field ⟨outer, span⟩ name => do
      let outer ← placeObject span outer
      let place ← fieldPlace outer name
      match place.ty with
      | .struct struct => return ⟨place.ptr, struct⟩
      | _ => fail (.fieldNotStruct outer.struct name.node none) name.span
  | .index _ _ => fail .elementObject span

def loadField (object : Spanned Expr) (field : Spanned String) : Lower Value := do
  let object ← exprObject object.span object.node
  let place ← fieldPlace object field
  if place.ty.isStruct then fail (.structFieldAsValue object.struct field.node) field.span
  else Build.load place.ty place.ptr

def callArg (function : String) (position : Nat) (param : ParamSig) (arg : Operand) : Lower (List Value) := do
  let context := Coercion.argument position function
  match param.array, param.ty with
  | some shape, _ => arrayArgument arg shape context
  | none, .struct expected =>
      let object ← exprObject arg.span arg.expr
      if object.struct = expected then return [object.ptr]
      else fail (.mismatch context (.structs expected object.struct)) arg.span
  | none, ty =>
      let v ← arg.value
      return [← coerce v ty context arg.span]

def callArgs (function : String) : Nat → List ParamSig → List Operand → Lower (List Value)
  | i, param :: params, arg :: args => do
      let values ← callArg function i param arg
      return values ++ (← callArgs function (i + 1) params args)
  | _, _, _ => pure []

def callFunction (name : Spanned String) (args : List Operand) (span : Span) : Lower Value := do
  match (← state).functions.lookup name.node with
  | none => fail (.functionNotFound name.node) name.span
  | some sig =>
      if args.length ≠ sig.params.length then
        fail (.functionArity name.node (toString sig.params.length) args.length) span
      else
        let values ← callArgs name.node 0 sig.params args
        Build.call sig.symbol values

/-- A call of a method; the object's address is the first argument. -/
def callMethod (receiver : Spanned Expr) (method : Spanned String) (args : List Operand)
    (span : Span) : Lower Value := do
  let object ← exprObject receiver.span receiver.node
  match ((← state).builder.custom? object.struct).bind (·.method? method.node) with
  | none => fail (.unknownMethod object.struct method.node) method.span
  | some symbol =>
      match (← state).methods.lookup symbol with
      | none => fail (.functionNotFound symbol) method.span
      | some sig =>
          let params := sig.params.tail
          if args.length ≠ params.length then
            fail (.methodArity object.struct method.node params.length args.length) span
          else
            let values ← callArgs method.node 0 params args
            match ← Build.methodCall object.struct method.node object.ptr values with
            | some result => return result
            | none => fail (.functionNotFound symbol) span

end Aero.Lowering
