import Aero.Decimal

/-!
JSON values and their compact text. A number keeps the digits it is written with, and objects keep the order and the
repetitions of their keys. A record is an object with its fields as members, or an array of its fields in order; an
alternative is an object with one member, or a bare string if there is nothing to say beyond its name.
-/

namespace Aero.Json

/-- A written number: its sign, the digits before and after the point with the most significant
first, and its exponent. There is a point if there are digits after it. -/
structure Number where
  negative : Bool
  whole : List Nat
  fraction : List Nat := []
  exponent : Option Int := none
deriving DecidableEq, Repr

namespace Number

def ofDigits (digits : List Nat) : Nat := digits.foldl (fun n d => n * 10 + d) 0

def ofInt (n : Int) : Number :=
  { negative := n < 0
    whole := (Nat.toDigits 10 n.natAbs).map fun c => c.toNat - '0'.toNat }

/-- The integer a number is written as: one with a point, an exponent or a signed zero is none. -/
def int? (n : Number) : Option Int :=
  if n.fraction.isEmpty && n.exponent.isNone then
    let magnitude := ofDigits n.whole
    if n.negative then (if magnitude = 0 then none else some (-magnitude)) else some magnitude
  else none

/-- The largest coefficient that reading a double keeps. -/
def coefficientLimit : Nat := UInt64.size - 1

/-- The leading digits before the point that fit the limit, and how many digits are dropped. -/
def keepWhole (digits : List Nat) : Nat × Nat :=
  digits.foldl (fun (c, dropped) d =>
      if 0 < dropped || coefficientLimit < c * 10 + d then (c, dropped + 1) else (c * 10 + d, 0))
    (0, 0)

/-- The coefficient extended by the digits after the point that fit the limit, and their number. -/
def keepFraction (c : Nat) (digits : List Nat) : Nat × Nat :=
  let (c, places, _) := digits.foldl (fun (c, places, full) d =>
      if full || coefficientLimit < c * 10 + d then (c, places, true)
      else (c * 10 + d, places + 1, false))
    (c, 0, false)
  (c, places)

/-- The power of ten with an exponent up to 308, rounded to a double. -/
def powerOfTen (n : Nat) : Float := Float.ofScientific 1 false n

/-- A double times a power of ten, rounded; there is none beyond the range of doubles. Exponents
that no double has are approached in steps of 308, of which `fuel` bounds the number. -/
def scale? : (fuel : Nat) → Float → Int → Option Float
  | 0, _, _ => some 0.0
  | fuel + 1, x, e =>
      if e.natAbs ≤ 308 then
        if 0 ≤ e then
          let scaled := x * powerOfTen e.toNat
          if scaled.isInf then none else some scaled
        else some (x / powerOfTen e.natAbs)
      else if x == 0.0 then some x
      else if 0 ≤ e then none
      else scale? fuel (x / powerOfTen 308) (e + 308)

/-- The double a number is read as: its leading digits, as many as fit in a word, are rounded to a
double and then scaled by a rounded power of ten. A number beyond the range of doubles is none. -/
def float? (n : Number) : Option Float :=
  let (c, dropped) := keepWhole n.whole
  let (c, places) := keepFraction c n.fraction
  let e := (dropped : Int) - places + n.exponent.getD 0
  (scale? 8 (Float.ofNat c) e).map fun x => if n.negative then -x else x

/-- Doubles stay positional from a hundred-thousandth up to before ten to the sixteenth, show a
point there, and have a signed exponent beyond. -/
def layout : Decimal.Layout :=
  { positional := some (-5, 16), keepPoint := true, plusSign := true, tie := .even }

def digitsOf (cs : List Char) : List Nat := cs.map fun c => c.toNat - '0'.toNat

def ofFloat (x : Float) : Number :=
  let text := (layout.magnitude x).toList
  let mantissa := text.takeWhile (· ≠ 'e')
  { negative := Decimal.isNegative x
    whole := digitsOf (mantissa.takeWhile (· ≠ '.'))
    fraction := digitsOf ((mantissa.dropWhile (· ≠ '.')).drop 1)
    exponent :=
      if text.contains 'e' then some (Decimal.shortest layout.tie x).leading else none }

def text (n : Number) : String :=
  let digits (ds : List Nat) : String := String.join (ds.map toString)
  (if n.negative then "-" else "") ++ digits n.whole ++ (if n.fraction.isEmpty then "" else "." ++ digits n.fraction) ++
    match n.exponent with
    | none => ""
    | some e => "e" ++ (if 0 ≤ e then "+" else "") ++ toString e

end Number

end Aero.Json

/-! ### Values -/

namespace Aero

/-- A JSON value. A string whose escapes pair no surrogates properly stands for no text, which is
why the text of a string is optional. -/
inductive Json where
  | null
  | bool (b : Bool)
  | number (n : Json.Number)
  | str (s : Option String)
  | array (elems : List Json)
  | object (fields : List (Option String × Json))
deriving Inhabited

namespace Json

def ofString (s : String) : Json := .str (some s)

def ofInt (n : Int) : Json := .number (.ofInt n)

def ofNat (n : Nat) : Json := .number (.ofInt n)

/-- A double; there is no number for NaN and the infinities. -/
def ofFloat (x : Float) : Json :=
  if x.isNaN || x.isInf then .null else .number (.ofFloat x)

def ofMembers (members : List (String × Json)) : Json :=
  .object (members.map fun (key, value) => (some key, value))

def ofOption {α : Type} (f : α → Json) : Option α → Json
  | some a => f a
  | none => .null

def escapeChar (c : Char) : List Char :=
  if c = '"' then ['\\', '"']
  else if c = '\\' then ['\\', '\\']
  else if c = '\x08' then ['\\', 'b']
  else if c = '\x09' then ['\\', 't']
  else if c = '\x0a' then ['\\', 'n']
  else if c = '\x0c' then ['\\', 'f']
  else if c = '\x0d' then ['\\', 'r']
  else if c.toNat < 0x20 then
    ['\\', 'u', '0', '0', Nat.digitChar (c.toNat / 16), Nat.digitChar (c.toNat % 16)]
  else [c]

def quote (s : String) : String := "\"" ++ String.ofList (s.toList.flatMap escapeChar) ++ "\""

mutual

def text : Json → String
  | null => "null"
  | bool b => if b then "true" else "false"
  | number n => n.text
  | str s => quote (s.getD "")
  | array elems => "[" ++ ",".intercalate (texts elems) ++ "]"
  | object fields => "\x7b" ++ ",".intercalate (memberTexts fields) ++ "\x7d"

def texts : List Json → List String
  | [] => []
  | j :: rest => j.text :: texts rest

def memberTexts : List (Option String × Json) → List String
  | [] => []
  | (key, j) :: rest => (quote (key.getD "") ++ ":" ++ j.text) :: memberTexts rest

end

end Json

end Aero

/-! ### Records and alternatives -/

namespace Aero.Json

/-- The member of an object with a key: absent, or there once. Two of them are an error. -/
def member? (fields : List (Option String × Json)) (key : String) : Option (Option Json) :=
  match fields.filter (·.1 = some key) with
  | [] => some none
  | [(_, value)] => some (some value)
  | _ => none

/-- The fields of a record with these names, each as far as it is given. Unknown members are
skipped, but not unknown elements. -/
def fields? (names : List String) : Json → Option (List (Option Json))
  | .object fields =>
      if fields.all (·.1.isSome) then names.mapM (member? fields) else none
  | .array elems =>
      if elems.length ≤ names.length then
        some (elems.map some ++ List.replicate (names.length - elems.length) none)
      else none
  | _ => none

/-- The name and the content of an alternative, and whether it is an object. -/
def variant? : Json → Option (String × Option Json)
  | .str (some name) => some (name, none)
  | .object [(some name, content)] => some (name, some content)
  | _ => none

/-- Whether nothing, or only null, is said beyond the name of an alternative. -/
def isBare : Option Json → Bool
  | none | some .null => true
  | _ => false

def string? : Json → Option String
  | .str s => s
  | _ => none

def bool? : Json → Option Bool
  | .bool b => some b
  | _ => none

def float? : Json → Option Float
  | .number n => n.float?
  | _ => none

def intIn? (low high : Int) : Json → Option Int
  | .number n => n.int?.filter fun i => low ≤ i && i ≤ high
  | _ => none

def unsigned? (size : Nat) (j : Json) : Option Nat :=
  (j.intIn? 0 ((size : Int) - 1)).map Int.toNat

def orElse {α : Type} (default : α) (read : Json → Option α) : Option Json → Option α
  | none => some default
  | some j => read j

def orNull {α : Type} (read : Json → Option α) : Option Json → Option (Option α)
  | none | some .null => some none
  | some j => (read j).map some

end Aero.Json
