import Aero.Decimal
import Aero.Syntax.Tree
import Aero.Text

/-!
The text of type names: a name followed by its dimensions in brackets.
-/

namespace Aero.TypeName

def isAuto (t : TypeName) : Bool := t.name = "auto"

def isArray (t : TypeName) : Bool := !t.dims.isEmpty

/-- Sizes are written without an exponent. -/
def sizeLayout : Decimal.Layout :=
  { positional := none, keepPoint := false, plusSign := false, tie := .up }

/-- A dimension in brackets; a size that is neither a number nor a variable is left out. -/
def dimText : ArrayDim → String
  | .unsized => "[]"
  | .sized ⟨.literal (.number x), _⟩ => "[" ++ sizeLayout.render x ++ "]"
  | .sized ⟨.var name, _⟩ => "[" ++ name ++ "]"
  | .sized _ => "[..]"

def text (t : TypeName) : String := t.name ++ String.join (t.dims.map dimText)

def dimOf (inner : String) : ArrayDim :=
  let inner := Text.trim inner
  if inner.isEmpty then .unsized
  else
    match Decimal.readFloat? inner with
    | some x => .sized ⟨.literal (.number x), {}⟩
    | none => .sized ⟨.var inner, {}⟩

/-- The dimensions at the start of a text. Within brackets, `inner` has the characters since the
opening one, last first; what follows the last closing bracket is skipped. -/
def dimsOf : (text : List Char) → (inner : Option (List Char)) → List ArrayDim
  | [], _ => []
  | c :: rest, none => if c = '[' then dimsOf rest (some []) else []
  | c :: rest, some inner =>
      if c = ']' then dimOf (String.ofList inner.reverse) :: dimsOf rest none
      else dimsOf rest (some (c :: inner))

def parse (text : String) : TypeName :=
  let cs := (Text.trim text).toList
  { name := Text.trim (String.ofList (cs.takeWhile (· ≠ '[')))
    dims := dimsOf (cs.dropWhile (· ≠ '[')) none }

end Aero.TypeName
