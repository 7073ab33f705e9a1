import Aero.IR.Module
import Aero.Text

/-!
The text of functions and modules: structs, globals, declarations, definitions and foreign units,
in this order.
-/

namespace Aero.IR

namespace Function

/-- Return type, name and parameters; a definition names its parameter registers. -/
def signature (f : Function) : String :=
  let params :=
    if f.isDeclaration then f.params.map (·.ty.text)
    else f.params.zipIdx.map fun (p, i) => p.ty.text ++ " " ++ Reg.text i
  let params := if f.variadic then params ++ ["..."] else params
  f.ret.text ++ " @" ++ f.name ++ "(" ++ ", ".intercalate params ++ ")"

def blockLines (f : Function) (b : Block) : List String :=
  (b.label ++ ":") :: (b.instrs.map fun i => "  " ++ i.text f.labelOf) ++
    (b.term.elim [] fun t => ["  " ++ t.text f.labelOf])

def lines (f : Function) : List String :=
  if f.isDeclaration then ["declare " ++ f.signature]
  else
    ("define " ++ f.signature ++ " \x7b") :: [""].intercalate (f.blocks.map f.blockLines) ++ ["\x7d"]

def text (f : Function) : String := String.join (f.lines.map (· ++ "\n"))

end Function

def StructType.line (st : StructType) : String :=
  "%" ++ st.name ++ " = type \x7b " ++ ", ".intercalate (st.fields.map Ty.text) ++ " \x7d"

def Global.line (g : Global) : String :=
  let kind := if g.constant then "constant" else "global"
  match g.init with
  | .str s =>
      let bytes := utf8Bytes s ++ [0]
      "@" ++ g.name ++ " = private " ++ kind ++ " [" ++ toString bytes.length ++ " x i8] c\"" ++
        escapeBytes bytes ++ "\""
  | .zero => "@" ++ g.name ++ " = internal " ++ kind ++ " " ++ g.ty.text ++ " zeroinitializer"

/-- A foreign unit under a heading, without the white space at its end. -/
def ForeignUnit.lines (u : ForeignUnit) : List String :=
  ["; foreign " ++ u.lang ++ " unit for @" ++ u.symbol, Text.trimEnd u.code]

namespace Module

def sectionLines (lines : List String) : List String :=
  if lines.isEmpty then [] else "" :: lines

def lines (m : Module) : List String :=
  ["; ModuleID = '" ++ m.name ++ "'", "; opt-level = " ++ m.optLevel.text] ++
    sectionLines (m.structs.map StructType.line) ++
    sectionLines (m.globals.map Global.line) ++
    sectionLines ((m.functions.filter (·.isDeclaration)).flatMap Function.lines) ++
    ((m.functions.filter (!·.isDeclaration)).flatMap fun f => "" :: f.lines) ++
    (m.foreign.flatMap fun u => "" :: u.lines)

def text (m : Module) : String := String.join (m.lines.map (· ++ "\n"))

end Module

end Aero.IR
