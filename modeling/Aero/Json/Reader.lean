import Aero.Json.Value

/-!
Reading JSON text. The grammar is the strict one: no raw control characters in strings, no leading
zeros, no trailing commas, and nothing but white space around the value.
-/

namespace Aero.Json

namespace Reader

def skipBlank (cs : List Char) : List Char :=
  cs.dropWhile fun c => c = ' ' || c = '\t' || c = '\n' || c = '\r'

def hexDigit? (c : Char) : Option Nat :=
  if '0' ≤ c && c ≤ '9' then some (c.toNat - '0'.toNat)
  else if 'a' ≤ c && c ≤ 'f' then some (c.toNat - 'a'.toNat + 10)
  else if 'A' ≤ c && c ≤ 'F' then some (c.toNat - 'A'.toNat + 10)
  else none

def hexUnit? (a b c d : Char) : Option Nat := do
  let a ← hexDigit? a
  let b ← hexDigit? b
  let c ← hexDigit? c
  let d ← hexDigit? d
  return ((a * 16 + b) * 16 + c) * 16 + d

/-- The character of an escape other than `\u`. -/
def shortEscape? (c : Char) : Option Char :=
  match c with
  | '"' => some '"'
  | '\\' => some '\\'
  | '/' => some '/'
  | 'b' => some '\x08'
  | 'f' => some '\x0c'
  | 'n' => some '\n'
  | 'r' => some '\r'
  | 't' => some '\t'
  | _ => none

/-- The units of a string up to its closing quote, last first, and the text behind it. A unit is a
character or a surrogate of an escape. -/
def units : List Char → List Nat → Option (List Nat × List Char)
  | [], _ => none
  | '"' :: rest, acc => some (acc, rest)
  | '\\' :: 'u' :: a :: b :: c :: d :: rest, acc =>
      match hexUnit? a b c d with
      | some unit => units rest (unit :: acc)
      | none => none
  | '\\' :: c :: rest, acc =>
      match shortEscape? c with
      | some e => units rest (e.toNat :: acc)
      | none => none
  | c :: rest, acc => if c.toNat < 0x20 || c = '\\' then none else units rest (c.toNat :: acc)

/-- The characters that units stand for, a leading and a trailing surrogate being one character.
`acc` has the characters so far, last first. -/
def joinUnits : List Nat → List Char → Option (List Char)
  | [], acc => some acc.reverse
  | unit :: rest, acc =>
      if 0xD800 ≤ unit && unit < 0xDC00 then
        match rest with
        | low :: rest =>
            if 0xDC00 ≤ low && low < 0xE000 then
              let code := 0x10000 + (unit - 0xD800) * 0x400 + (low - 0xDC00)
              joinUnits rest (Char.ofNat code :: acc)
            else none
        | [] => none
      else if 0xDC00 ≤ unit && unit < 0xE000 then none
      else joinUnits rest (Char.ofNat unit :: acc)

def string? (cs : List Char) : Option (Option String × List Char) := do
  let (reversed, rest) ← units cs []
  return ((joinUnits reversed.reverse []).map String.ofList, rest)

def digits (cs : List Char) : List Nat × List Char :=
  (Number.digitsOf (cs.takeWhile Char.isDigit), cs.dropWhile Char.isDigit)

def digits? (cs : List Char) : Option (List Nat × List Char) :=
  match digits cs with
  | ([], _) => none
  | found => some found

def exponent? (cs : List Char) : Option (Option Int × List Char) :=
  match cs with
  | c :: rest =>
      if c = 'e' || c = 'E' then do
        let (negative, rest) :=
          match rest with
          | '-' :: rest => (true, rest)
          | '+' :: rest => (false, rest)
          | _ => (false, rest)
        let (ds, rest) ← digits? rest
        let e : Int := Number.ofDigits ds
        return (some (if negative then -e else e), rest)
      else some (none, cs)
  | [] => some (none, cs)

def number? (cs : List Char) : Option (Number × List Char) := do
  let (negative, cs) :=
    match cs with
    | '-' :: rest => (true, rest)
    | _ => (false, cs)
  let (whole, cs) ← digits? cs
  if whole.head? = some 0 && 1 < whole.length then none
  let (fraction, cs) ←
    match cs with
    | '.' :: rest => digits? rest
    | _ => some ([], cs)
  let (exponent, cs) ← exponent? cs
  return (⟨negative, whole, fraction, exponent⟩, cs)

mutual

/-- A value and the text behind it; `fuel` bounds the values and separators read. -/
def value? : (fuel : Nat) → List Char → Option (Json × List Char)
  | 0, _ => none
  | fuel + 1, cs =>
      match skipBlank cs with
      | 'n' :: 'u' :: 'l' :: 'l' :: rest => some (.null, rest)
      | 't' :: 'r' :: 'u' :: 'e' :: rest => some (.bool true, rest)
      | 'f' :: 'a' :: 'l' :: 's' :: 'e' :: rest => some (.bool false, rest)
      | '"' :: rest => (string? rest).map fun (s, rest) => (.str s, rest)
      | '[' :: rest =>
          match skipBlank rest with
          | ']' :: rest => some (.array [], rest)
          | rest => elements? fuel [] rest
      | '{' :: rest =>
          match skipBlank rest with
          | '}' :: rest => some (.object [], rest)
          | rest => members? fuel [] rest
      | cs => (number? cs).map fun (n, rest) => (.number n, rest)

/-- The rest of a non-empty array; `acc` has the elements so far, last first. -/
def elements? : (fuel : Nat) → List Json → List Char → Option (Json × List Char)
  | 0, _, _ => none
  | fuel + 1, acc, cs =>
      match value? fuel cs with
      | none => none
      | some (j, rest) =>
          match skipBlank rest with
          | ',' :: rest => elements? fuel (j :: acc) rest
          | ']' :: rest => some (.array (j :: acc).reverse, rest)
          | _ => none

/-- The rest of a non-empty object; `acc` has the members so far, last first. -/
def members? : (fuel : Nat) → List (Option String × Json) → List Char → Option (Json × List Char)
  | 0, _, _ => none
  | fuel + 1, acc, cs =>
      match skipBlank cs with
      | '"' :: rest =>
          match string? rest with
          | none => none
          | some (key, rest) =>
              match skipBlank rest with
              | ':' :: rest =>
                  match value? fuel rest with
                  | none => none
                  | some (j, rest) =>
                      match skipBlank rest with
                      | ',' :: rest => members? fuel ((key, j) :: acc) rest
                      | '}' :: rest => some (.object ((key, j) :: acc).reverse, rest)
                      | _ => none
              | _ => none
      | _ => none

end

end Reader

def parse? (text : String) : Option Json :=
  let cs := text.toList
  match Reader.value? (2 * cs.length + 2) cs with
  | some (j, rest) => if (Reader.skipBlank rest).isEmpty then some j else none
  | none => none

end Aero.Json
