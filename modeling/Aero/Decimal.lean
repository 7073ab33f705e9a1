/-!
Decimal texts of doubles. A positive double stands for every real number that rounds to it, and its shortest decimal is
the decimal with the fewest digits in that interval, the nearest one to the double if there are several. The search
works on exact natural-number fractions.
-/

namespace Aero

/-- The number `coefficient * 10 ^ exponent`. -/
structure Decimal where
  coefficient : Nat
  exponent : Int
deriving DecidableEq, Repr

namespace Decimal

/-- Which of two equally near neighbours a rounding takes. -/
inductive Tie where
  | up
  | even
deriving DecidableEq, Repr

/-- The number of decimal digits of `n`; zero has one digit. -/
def digitCount (n : Nat) : Nat := (Nat.toDigits 10 n).length

/-- The same number with no trailing zero in its coefficient; `fuel` bounds the zeros removed. -/
def stripZeros : Nat → Decimal → Decimal
  | 0, d => d
  | fuel + 1, d =>
      if d.coefficient % 10 = 0 ∧ d.coefficient ≠ 0 then
        stripZeros fuel ⟨d.coefficient / 10, d.exponent + 1⟩
      else d

def leading (d : Decimal) : Int := d.exponent + digitCount d.coefficient - 1

/-- The interval of reals that round to a positive double, over one denominator: the double is
`mid / den`, and the interval goes from `low / den` to `high / den`, ends included if `closed`. -/
structure Interval where
  low : Nat
  mid : Nat
  high : Nat
  den : Nat
  closed : Bool
deriving DecidableEq, Repr

/-- The interval of the double with significand `m` and unit `2 ^ q`. The gap below a power of two
is half the gap above it, which `narrow` tells. -/
def Interval.ofParts (m : Nat) (q : Int) (narrow : Bool) : Interval :=
  let scale := Nat.pow 2 (q - 2).toNat
  { low := (4 * m - (if narrow then 1 else 2)) * scale
    mid := 4 * m * scale
    high := (4 * m + 2) * scale
    den := Nat.pow 2 (2 - q).toNat
    closed := m % 2 = 0 }

/-- The decimal exponent `e` with `10 ^ e ≤ mid / den < 10 ^ (e + 1)`. -/
def Interval.leading (i : Interval) : Int :=
  if i.den ≤ i.mid then (digitCount (i.mid / i.den) : Int) - 1
  else -(digitCount ((i.den + i.mid - 1) / i.mid - 1) : Int)

def Interval.contains (i : Interval) (c : Nat) (k : Int) : Bool :=
  let x := c * Nat.pow 10 k.toNat * i.den
  let low := i.low * Nat.pow 10 (-k).toNat
  let high := i.high * Nat.pow 10 (-k).toNat
  if i.closed then low ≤ x && x ≤ high else low < x && x < high

/-- The best multiple of `10 ^ k` in the interval, if one of the two next to its middle is. -/
def Interval.nearest? (i : Interval) (tie : Tie) (k : Int) : Option Decimal :=
  let num := i.mid * Nat.pow 10 (-k).toNat
  let den := i.den * Nat.pow 10 k.toNat
  let below := num / den
  let rest := 2 * (num % den)
  let takeAbove := den < rest || (rest = den && (tie = .up || below % 2 = 1))
  match i.contains below k, i.contains (below + 1) k with
  | true, true => some ⟨if takeAbove then below + 1 else below, k⟩
  | true, false => some ⟨below, k⟩
  | false, true => some ⟨below + 1, k⟩
  | false, false => none

/-- The first hit on grids of growing precision; seventeen digits always suffice. -/
def Interval.shortest (i : Interval) (tie : Tie) : Decimal :=
  let lead := i.leading
  let hit := (List.range 17).findSome? fun n : Nat => i.nearest? tie (lead - n)
  (hit.getD ⟨0, 0⟩).stripZeros 20

/-- Whether the sign bit of a double is set; the one NaN has none. -/
def isNegative (x : Float) : Bool := Nat.pow 2 63 ≤ x.toBits.toNat && !x.isNaN

/-- The leading bit of a double's significand, which is not stored. -/
def hiddenBit : Nat := Nat.pow 2 52

/-- The significand and the exponent of its unit, `m * 2 ^ q`, of a finite double's magnitude. -/
def parts (x : Float) : Nat × Int :=
  let bits := x.toBits.toNat
  let fraction : Nat := bits % hiddenBit
  let biased : Nat := bits / hiddenBit % 2048
  if biased = 0 then (fraction, -1074) else (fraction + hiddenBit, (biased : Int) - 1075)

def shortest (tie : Tie) (x : Float) : Decimal :=
  let (m, q) := parts x
  if m = 0 then ⟨0, 0⟩
  else (Interval.ofParts m q (m = hiddenBit ∧ -1074 < q)).shortest tie

end Decimal

end Aero

/-! ### Layouts -/

namespace Aero.Decimal

structure Layout where
  /-- The leading exponents written positionally, from the first up to before the second; every
  exponent if absent. -/
  positional : Option (Int × Int)
  /-- Whether an integer is followed by `.0`. -/
  keepPoint : Bool
  plusSign : Bool
  tie : Tie
deriving DecidableEq, Repr

/-- Zeros before and after the digits of a decimal, with a point where its units end. -/
def positionalText (layout : Layout) (d : Decimal) : String :=
  let digits := toString d.coefficient
  if 0 ≤ d.exponent then
    digits ++ String.ofList (List.replicate d.exponent.toNat '0') ++ (if layout.keepPoint then ".0" else "")
  else
    let places := (-d.exponent).toNat
    let padded := List.replicate (places + 1 - digits.length) '0' ++ digits.toList
    let whole := padded.length - places
    String.ofList (padded.take whole) ++ "." ++ String.ofList (padded.drop whole)

/-- One digit, the rest after a point, and the exponent of the first digit. -/
def scientificText (layout : Layout) (d : Decimal) : String :=
  let digits := (toString d.coefficient).toList
  let fraction := digits.drop 1
  let lead := d.leading
  String.ofList (digits.take 1) ++ (if fraction.isEmpty then "" else "." ++ String.ofList fraction) ++
    "e" ++ (if layout.plusSign && 0 ≤ lead then "+" else "") ++ toString lead

def Layout.magnitude (layout : Layout) (x : Float) : String :=
  let d := shortest layout.tie x
  let here :=
    match layout.positional with
    | none => true
    | some (first, stop) => d.coefficient = 0 || (first ≤ d.leading && d.leading < stop)
  if here then positionalText layout d else scientificText layout d

/-- The text of a double. NaN has no sign, and infinities are spelled `inf`. -/
def Layout.render (layout : Layout) (x : Float) : String :=
  if x.isNaN then "NaN"
  else
    (if isNegative x then "-" else "") ++ (if x.isInf then "inf" else layout.magnitude x)

end Aero.Decimal

/-! ### Reading -/

namespace Aero.Decimal

/-- The double nearest to `coefficient * 10 ^ exponent`; infinity if it is too large. -/
def toFloat (d : Decimal) : Float :=
  if d.coefficient = 0 || d.leading < -400 then 0.0
  else if 400 < d.leading then 1.0 / 0.0
  else Float.ofScientific d.coefficient (d.exponent < 0) d.exponent.natAbs

def takeSign : List Char → Bool × List Char
  | '-' :: rest => (true, rest)
  | '+' :: rest => (false, rest)
  | cs => (false, cs)

def digitsValue (cs : List Char) : Nat := cs.foldl (fun n c => n * 10 + (c.toNat - '0'.toNat)) 0

def exponentOf? : List Char → Option Int
  | [] => some 0
  | c :: rest =>
      if c = 'e' || c = 'E' then
        let (negative, ds) := takeSign rest
        if ds.isEmpty || !ds.all Char.isDigit then none
        else some (if negative then -(digitsValue ds : Int) else digitsValue ds)
      else none

/-- An unsigned decimal, with a digit before or after its point. -/
def unsignedDecimal? (cs : List Char) : Option Decimal :=
  let whole := cs.takeWhile Char.isDigit
  let rest := cs.dropWhile Char.isDigit
  let (fraction, rest) :=
    match rest with
    | '.' :: rest => (rest.takeWhile Char.isDigit, rest.dropWhile Char.isDigit)
    | _ => ([], rest)
  if whole.isEmpty && fraction.isEmpty then none
  else (exponentOf? rest).map fun e => ⟨digitsValue (whole ++ fraction), e - fraction.length⟩

def readFloat? (text : String) : Option Float :=
  let (negative, cs) := takeSign text.toList
  let word := cs.map Char.toLower
  let magnitude :=
    if word = "inf".toList || word = "infinity".toList then some (1.0 / 0.0)
    else if word = "nan".toList then some (0.0 / 0.0)
    else (unsignedDecimal? cs).map Decimal.toFloat
  magnitude.map fun x => if negative then -x else x

end Aero.Decimal
