import Aero.IR.Value
import Aero.Text

/-!
Inline C and C++ code is made the body of a function, which takes the variables it refers to as parameters. A dollar
sign followed by an identifier refers to a variable. The return type is guessed from the first `return`.
-/

namespace Aero.Inline

def isIdentStart (c : Char) : Bool := c.isAlpha || c = '_'

def isIdentChar (c : Char) : Bool := c.isAlphanum || c = '_'

/-- A piece of inline code: text, or the name that a dollar sign refers to. -/
inductive Piece where
  | text (cs : List Char)
  | ref (name : List Char)
deriving DecidableEq, Repr

/-- How far a piece has been read; characters are held last first. -/
inductive Reading where
  | text (seen : List Char)
  | dollar (seen : List Char)
  | name (seen : List Char)

def textPiece (seen : List Char) : List Piece :=
  if seen.isEmpty then [] else [.text seen.reverse]

def scan : Reading → List Char → List Piece
  | .text seen, [] => textPiece seen
  | .dollar seen, [] => textPiece ('$' :: seen)
  | .name seen, [] => [.ref seen.reverse]
  | .text seen, c :: cs => if c = '$' then scan (.dollar seen) cs else scan (.text (c :: seen)) cs
  | .dollar seen, c :: cs =>
      if isIdentStart c then textPiece seen ++ scan (.name [c]) cs
      else if c = '$' then scan (.dollar ('$' :: seen)) cs
      else scan (.text (c :: '$' :: seen)) cs
  | .name seen, c :: cs =>
      if isIdentChar c then scan (.name (c :: seen)) cs
      else if c = '$' then .ref seen.reverse :: scan (.dollar []) cs
      else .ref seen.reverse :: scan (.text [c]) cs

def pieces (code : String) : List Piece := scan (.text []) code.toList

def Piece.name? : Piece → Option String
  | text _ => none
  | ref name => some (String.ofList name)

/-- The names that are referred to, each once, in the order of their first use. -/
def references (code : String) : List String :=
  ((pieces code).filterMap Piece.name?).foldl
    (fun names name => if names.contains name then names else names ++ [name]) []

/-- A piece where a reference to the name at a position is replaced; unknown names stay. -/
def Piece.subst (names : List String) (operand : Nat → String) : Piece → String
  | text cs => String.ofList cs
  | ref name =>
      match names.findIdx? (· = String.ofList name) with
      | some i => operand i
      | none => "$" ++ String.ofList name

/-- Inline code where each reference to a name is replaced by what stands for its position. -/
def substitute (code : String) (names : List String) (operand : Nat → String) : String :=
  String.join ((pieces code).map (Piece.subst names operand))

/-! ### Wrappers -/

open IR

inductive ReturnKind where
  | void | int | char | bool | float | double | str
deriving DecidableEq, Repr

namespace ReturnKind

def spelling : ReturnKind → String
  | void => "void"
  | int => "int32_t"
  | char => "char"
  | bool => "bool"
  | float => "float"
  | double => "double"
  | str => "const char*"

def ty : ReturnKind → Ty
  | void => .void
  | int => .i32
  | char => .i8
  | bool => .i1
  | float => .float
  | double => .double
  | str => .ptr

def ofExpr (expr : List Char) : ReturnKind :=
  let digits := expr.dropWhile fun c => c = '+' || c = '-'
  let numeric := digits.head?.any fun c => c.isDigit || c = '.'
  if expr.isEmpty then void
  else if expr.contains '"' then str
  else if expr.contains '\'' then char
  else if expr = "true".toList || expr = "false".toList then bool
  else if numeric && (expr.getLast? = some 'f' || expr.getLast? = some 'F') then float
  else if numeric && expr.any (fun c => c = '.' || c = 'e' || c = 'E') then double
  else int

end ReturnKind

/-- What follows the first `return` that stands as a word. After a `return` that is part of a longer
word the search goes on behind it, as if the text began there; `skip` characters are still to be
passed over, and `before` is the character before the current one. -/
def afterReturn (skip : Nat) (before : Option Char) : List Char → Option (List Char)
  | [] => none
  | c :: cs =>
      match skip with
      | skip + 1 => afterReturn skip none cs
      | 0 =>
          if "return".toList.isPrefixOf (c :: cs) then
            let after := (c :: cs).drop 6
            if !before.any isIdentChar && after.head?.any (fun d => !isIdentChar d) then some after
            else afterReturn 5 none cs
          else afterReturn 0 (some c) cs

/-- The return type of inline code: that of the first returned expression. -/
def returnKind (code : String) : ReturnKind :=
  match afterReturn 0 none code.toList with
  | some after =>
      .ofExpr (Text.trim (String.ofList (after.takeWhile (· ≠ ';')))).toList
  | none => .void

def paramSpelling : Ty → String
  | .int 1 => "bool"
  | .int 8 => "char"
  | .int 16 => "int16_t"
  | .int 64 => "int64_t"
  | .int _ => "int32_t"
  | .float => "float"
  | .double => "double"
  | _ => "char*"

/-- Whether inline code of a language is C; otherwise it is C++. -/
def isC (lang : String) : Bool := lang = "c"

def fileName (lang : String) : String := if isC lang then "inline.c" else "inline.cpp"

def paramName (i : Nat) : String := "arg" ++ toString i

def source (lang symbol : String) (params : List Ty) (ret : ReturnKind) (body : String) : String :=
  let args := params.zipIdx.map fun (ty, i) => paramSpelling ty ++ " " ++ paramName i
  let head :=
    if isC lang then
      "#include <stdint.h>\n#include <stdio.h>\n#include <stdlib.h>\n#include <stdbool.h>\n"
    else "#include <cstdint>\n#include <cstdio>\n#include <cstdlib>\nextern \"C\" \x7b\n"
  head ++ ret.spelling ++ " " ++ symbol ++ "(" ++ ", ".intercalate args ++ ") \x7b\n" ++ body ++
    "\n\x7d\n" ++ (if isC lang then "" else "\x7d\n")

inductive CompilerRun where
  | notStarted (reason : String)
  | failed (output : String)
  /-- The compiler reports success, but its result cannot be read. -/
  | unreadable (reason : String)
  | compiled (code : String)
deriving DecidableEq, Repr

/-- How to run a compiler, given its name and the name and text of a source file. -/
abbrev Compiler := (name file source : String) → CompilerRun

end Aero.Inline
