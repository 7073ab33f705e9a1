import Aero.Decimal

/-!
TOML documents. A table can be opened by a header, by the header of a table within it, or by a dotted key, and which of
these it was decides what may still be added to it. Each reader takes what it can from the start of a text and yields
the rest.
-/

namespace Aero.Toml

/-- A finished value. Of dates and times only their presence matters. -/
inductive Value where
  | str (s : String)
  | int (n : Int)
  | float (x : Float)
  | bool (b : Bool)
  | datetime
  | array (elems : List Value)
  | table (entries : List (String × Value))

mutual

inductive Item where
  | value (v : Value)
  | table (t : Table)
  /-- An array of tables, each with a header of its own. -/
  | tables (ts : List Table)

inductive Table where
  /-- Entries of a table. It is `implied` if it has no header of its own, and then `dotted` if a
  dotted key made it. -/
  | mk (implied dotted : Bool) (entries : List (String × Item))

end

namespace Table

def implied : Table → Bool
  | mk implied _ _ => implied

def dotted : Table → Bool
  | mk _ dotted _ => dotted

def entries : Table → List (String × Item)
  | mk _ _ entries => entries

def empty : Table := mk false false []

def withHeader (t : Table) : Table := mk false false t.entries

def get? (t : Table) (key : String) : Option Item := t.entries.lookup key

def erase (t : Table) (key : String) : Table :=
  mk t.implied t.dotted (t.entries.filter (·.1 ≠ key))

/-- The table with an entry, in place of an earlier one of its key. -/
def set (t : Table) (key : String) (item : Item) : Table :=
  mk t.implied t.dotted ((t.erase key).entries ++ [(key, item)])

/-- Changes the table at a path, and makes the tables on the way that are missing. A dotted key does
not lead into tables that have a header, and nothing leads into values. -/
def modifyAt {α : Type} (dotted : Bool) (change : Table → Option (α × Table)) : List String → Table → Option (α × Table)
  | [], t => change t
  | key :: path, t =>
      match t.get? key with
      | none => do
          let (a, child) ← modifyAt dotted change path (mk true dotted [])
          return (a, t.set key (.table child))
      | some (.table child) => do
          if dotted && !child.implied then none
          else
            let (a, child) ← modifyAt dotted change path child
            return (a, t.set key (.table child))
      | some (.tables ts) => do
          let (a, last) ← modifyAt dotted change path (← ts.getLast?)
          return (a, t.set key (.tables (ts.dropLast ++ [last])))
      | some (.value _) => none

def insert? (t : Table) (path : List String) (key : String) (v : Value) : Option Table := do
  let add (t : Table) : Option (Unit × Table) :=
    if t.dotted = path.isEmpty || (t.get? key).isSome then none
    else some ((), t.set key (.value v))
  return (← t.modifyAt true add path).2

/-- Takes out the table at a path that a header opens, which may only be implied so far. -/
def open? (t : Table) (path : List String) (key : String) : Option (Table × Table) :=
  let take (t : Table) : Option (Table × Table) :=
    match t.get? key with
    | none => some (empty, t)
    | some (.table child) =>
        if child.implied && !child.dotted then some (child.withHeader, t.erase key) else none
    | some _ => none
  t.modifyAt false take path

def close? (t : Table) (path : List String) (key : String) (child : Table) : Option Table := do
  let put (t : Table) : Option (Unit × Table) := some ((), t.set key (.table child))
  return (← t.modifyAt false put path).2

def openArray? (t : Table) (path : List String) (key : String) : Option Table := do
  let check (t : Table) : Option (Unit × Table) :=
    match t.get? key with
    | none => some ((), t.set key (.tables []))
    | some (.tables _) => some ((), t)
    | some _ => none
  return (← t.modifyAt false check path).2

def closeArray? (t : Table) (path : List String) (key : String) (child : Table) : Option Table := do
  let push (t : Table) : Option (Unit × Table) :=
    match t.get? key with
    | some (.tables ts) => some ((), t.set key (.tables (ts ++ [child])))
    | _ => none
  return (← t.modifyAt false push path).2

mutual

def finish : Table → Value
  | mk _ _ entries => .table (finishEntries entries)

def finishItem : Item → Value
  | .value v => v
  | .table t => finish t
  | .tables ts => .array (finishTables ts)

def finishEntries : List (String × Item) → List (String × Value)
  | [] => []
  | (key, item) :: rest => (key, finishItem item) :: finishEntries rest

def finishTables : List Table → List Value
  | [] => []
  | t :: rest => finish t :: finishTables rest

end

end Table

/-! ### Strings, numbers, dates and times -/

/-- A reader of something at the start of a text. -/
abbrev Reader (α : Type) := List Char → Option (α × List Char)

/-- Whether a character can stand in a line: no control character but a tab. -/
def isLineChar (c : Char) : Bool := c = '\t' || (' ' ≤ c && c ≤ '~') || 0x80 ≤ c.toNat

/-- Whether a character stands for itself between double quotes. -/
def isBasicChar (c : Char) : Bool := isLineChar c && c ≠ '"' && c ≠ '\\'

def isLiteralChar (c : Char) : Bool := isLineChar c && c ≠ '\''

def skipBlanks (cs : List Char) : List Char := cs.dropWhile fun c => c = ' ' || c = '\t'

def newline? : List Char → Option (List Char)
  | '\n' :: cs => some cs
  | '\r' :: '\n' :: cs => some cs
  | _ => none

def skipNewline (cs : List Char) : List Char := (newline? cs).getD cs

def skipBlankLines : List Char → List Char
  | '\n' :: cs => skipBlankLines cs
  | '\r' :: '\n' :: cs => skipBlankLines cs
  | ' ' :: cs => skipBlankLines cs
  | '\t' :: cs => skipBlankLines cs
  | cs => cs

def skipComments : (inComment : Bool) → List Char → List Char
  | _, '\n' :: cs => skipComments false cs
  | _, '\r' :: '\n' :: cs => skipComments false cs
  | true, c :: cs => if isLineChar c then skipComments true cs else c :: cs
  | false, c :: cs =>
      if c = ' ' || c = '\t' then skipComments false cs
      else if c = '#' then skipComments true cs
      else c :: cs
  | _, [] => []

/-! ### Strings -/

def hexDigit? (c : Char) : Option Nat :=
  if c.isDigit then some (c.toNat - '0'.toNat)
  else if 'a' ≤ c && c ≤ 'f' then some (c.toNat - 'a'.toNat + 10)
  else if 'A' ≤ c && c ≤ 'F' then some (c.toNat - 'A'.toNat + 10)
  else none

/-- The character whose code point is written with a number of hexadecimal digits. -/
def codePoint? (count : Nat) (cs : List Char) : Option Char := do
  let digits ← (cs.take count).mapM hexDigit?
  let n := digits.foldl (fun n d => n * 16 + d) 0
  if digits.length = count && n.isValidChar then some (Char.ofNat n) else none

/-- The character of an escape, and how many characters follow the backslash. -/
def escape? : List Char → Option (Char × Nat)
  | 'b' :: _ => some ('\x08', 1)
  | 't' :: _ => some ('\t', 1)
  | 'n' :: _ => some ('\n', 1)
  | 'f' :: _ => some ('\x0c', 1)
  | 'r' :: _ => some ('\r', 1)
  | '"' :: _ => some ('"', 1)
  | '\\' :: _ => some ('\\', 1)
  | 'u' :: cs => (codePoint? 4 cs).map (·, 5)
  | 'U' :: cs => (codePoint? 8 cs).map (·, 9)
  | _ => none

/-- The rest of a string in double quotes, where `skip` characters belong to an escape and `seen`
are those read, last first. -/
def basicString : (skip : Nat) → (seen : List Char) → Reader String
  | _, _, [] => none
  | skip + 1, seen, _ :: cs => basicString skip seen cs
  | 0, seen, c :: cs =>
      if c = '"' then some (String.ofList seen.reverse, cs)
      else if c = '\\' then
        match escape? cs with
        | some (e, count) => basicString count (e :: seen) cs
        | none => none
      else if isBasicChar c then basicString 0 (c :: seen) cs
      else none

def literalString (cs : List Char) : Option (String × List Char) :=
  match cs.dropWhile isLiteralChar with
  | '\'' :: rest => some (String.ofList (cs.takeWhile isLiteralChar), rest)
  | _ => none

/-- The length of a line break after a backslash, with the blanks around it and the blank lines that
follow. -/
def foldedBreak? (cs : List Char) : Option Nat :=
  (newline? (skipBlanks cs)).map fun rest => cs.length - (skipBlankLines rest).length

/-- The number of quotes at the start of a text that are the end of a string: three, with up to two
more that belong to the string. -/
def closingQuotes (quote : Char) (cs : List Char) : Option Nat :=
  let count := min 5 (cs.takeWhile (· = quote)).length
  if 3 ≤ count then some count else none

def basicLines : (skip : Nat) → (seen : List Char) → Reader String
  | _, _, [] => none
  | skip + 1, seen, _ :: cs => basicLines skip seen cs
  | 0, seen, c :: cs =>
      match closingQuotes '"' (c :: cs) with
      | some count =>
          let quotes := List.replicate (count - 3) '"'
          some (String.ofList (seen.reverse ++ quotes), (c :: cs).drop count)
      | none =>
          if c = '\\' then
            match foldedBreak? cs, escape? cs with
            | some count, _ => basicLines count seen cs
            | none, some (e, count) => basicLines count (e :: seen) cs
            | none, none => none
          else if c = '\n' then basicLines 0 ('\n' :: seen) cs
          else if c = '\r' && cs.head? = some '\n' then basicLines 1 ('\n' :: seen) cs
          else if c = '"' || isBasicChar c then basicLines 0 (c :: seen) cs
          else none

def literalLines : (skip : Nat) → (seen : List Char) → Reader String
  | _, _, [] => none
  | skip + 1, seen, _ :: cs => literalLines skip seen cs
  | 0, seen, c :: cs =>
      match closingQuotes '\'' (c :: cs) with
      | some count =>
          let quotes := List.replicate (count - 3) '\''
          some (String.ofList (seen.reverse ++ quotes), (c :: cs).drop count)
      | none =>
          if c = '\n' then literalLines 0 ('\n' :: seen) cs
          else if c = '\r' && cs.head? = some '\n' then literalLines 1 ('\n' :: seen) cs
          else if isLineChar c then literalLines 0 (c :: seen) cs
          else none

/-- A string of any kind. A line break right after three opening quotes does not count. -/
def string : Reader String
  | '"' :: '"' :: '"' :: cs => basicLines 0 [] (skipNewline cs)
  | '"' :: cs => basicString 0 [] cs
  | '\'' :: '\'' :: '\'' :: cs => literalLines 0 [] (skipNewline cs)
  | '\'' :: cs => literalString cs
  | _ => none

/-! ### Numbers -/

/-- The digits from a point within a number on; an underscore stands between two digits. -/
def moreDigits (isDigit : Char → Bool) : List Char → List Char × List Char
  | [] => ([], [])
  | '_' :: c :: cs =>
      if isDigit c then
        let (ds, rest) := moreDigits isDigit cs
        (c :: ds, rest)
      else ([], '_' :: c :: cs)
  | c :: cs =>
      if isDigit c then
        let (ds, rest) := moreDigits isDigit cs
        (c :: ds, rest)
      else ([], c :: cs)

def digits (isDigit : Char → Bool) : Reader (List Char)
  | c :: cs =>
      if isDigit c then
        let (ds, rest) := moreDigits isDigit cs
        some (c :: ds, rest)
      else none
  | [] => none

def sign : List Char → List Char × List Char
  | '+' :: cs => (['+'], cs)
  | '-' :: cs => (['-'], cs)
  | cs => ([], cs)

/-- The sign and the digits of a whole number in decimal, which has no leading zeros. -/
def decimalDigits (cs : List Char) : Option ((List Char × List Char) × List Char) :=
  match sign cs with
  | (s, '0' :: rest) => some ((s, ['0']), rest)
  | (s, cs) => (digits Char.isDigit cs).map fun (ds, rest) => ((s, ds), rest)

def ofDigits (base : Nat) (ds : List Char) : Nat :=
  ds.foldl (fun n c => n * base + (hexDigit? c).getD 0) 0

def int64? (n : Int) : Option Int :=
  if Int64.minValue.toInt ≤ n && n ≤ Int64.maxValue.toInt then some n else none

def isDigitOf (base : Nat) (c : Char) : Bool := (hexDigit? c).any (· < base)

/-- The rest of a number behind the mark of its base. -/
def based (base : Nat) (cs : List Char) : Option (Int × List Char) := do
  let (ds, rest) ← digits (isDigitOf base) cs
  return (← int64? (ofDigits base ds), rest)

def integer : Reader Int
  | '0' :: 'x' :: cs => based 16 cs
  | '0' :: 'o' :: cs => based 8 cs
  | '0' :: 'b' :: cs => based 2 cs
  | cs => do
      let ((s, ds), rest) ← decimalDigits cs
      let n : Int := ofDigits 10 ds
      return (← int64? (if s = ['-'] then -n else n), rest)

def exponent (cs : List Char) : Option (List Char × List Char) :=
  match cs with
  | c :: cs =>
      if c = 'e' || c = 'E' then do
        let (s, cs) := sign cs
        let (ds, rest) ← digits Char.isDigit cs
        return ('e' :: s ++ ds, rest)
      else none
  | [] => none

def fraction (cs : List Char) : Option (List Char × List Char) :=
  match cs with
  | '.' :: cs => do
      let (ds, rest) ← digits Char.isDigit cs
      match exponent rest with
      | some (e, rest) => return ('.' :: ds ++ e, rest)
      | none => return ('.' :: ds, rest)
  | _ => none

def specialFloat (cs : List Char) : Option (Float × List Char) :=
  let (s, cs) := sign cs
  let infinity : Float := 1.0 / 0.0
  match cs with
  | 'i' :: 'n' :: 'f' :: rest => some (if s = ['-'] then -infinity else infinity, rest)
  | 'n' :: 'a' :: 'n' :: rest => some (0.0 / 0.0, rest)
  | _ => none

/-- A number with a fraction or an exponent, which must not be too large. -/
def plainFloat (cs : List Char) : Option (Float × List Char) := do
  let ((s, ds), rest) ← decimalDigits cs
  let (tail, rest) ← (exponent rest).or (fraction rest)
  let x ← Decimal.readFloat? (String.ofList (s ++ ds ++ tail))
  if x.isInf && 0.0 < x then none else return (x, rest)

def float (cs : List Char) : Option (Float × List Char) := (plainFloat cs).or (specialFloat cs)

/-! ### Dates and times -/

def fixedDigits (count low high : Nat) (cs : List Char) : Option (Nat × List Char) :=
  let ds := cs.take count
  let n := ofDigits 10 ds
  if ds.length = count && ds.all Char.isDigit && low ≤ n && n ≤ high then some (n, cs.drop count)
  else none

def expect (c : Char) : List Char → Option (List Char)
  | d :: cs => if d = c then some cs else none
  | [] => none

def daysOf (year month : Nat) : Nat :=
  if month = 2 then
    if year % 4 = 0 && (year % 100 ≠ 0 || year % 400 = 0) then 29 else 28
  else if month = 4 || month = 6 || month = 9 || month = 11 then 30
  else 31

def date? (cs : List Char) : Option (List Char) := do
  let (year, cs) ← fixedDigits 4 0 9999 cs
  let cs ← expect '-' cs
  let (month, cs) ← fixedDigits 2 1 12 cs
  let cs ← expect '-' cs
  let (_, cs) ← fixedDigits 2 1 (daysOf year month) cs
  return cs

def skipSecondFraction : List Char → List Char
  | '.' :: c :: cs => if c.isDigit then cs.dropWhile Char.isDigit else '.' :: c :: cs
  | cs => cs

def time? (cs : List Char) : Option (List Char) := do
  let (_, cs) ← fixedDigits 2 0 23 cs
  let cs ← expect ':' cs
  let (_, cs) ← fixedDigits 2 0 59 cs
  let cs ← expect ':' cs
  let (_, cs) ← fixedDigits 2 0 60 cs
  return skipSecondFraction cs

def skipOffset (cs : List Char) : List Char :=
  match cs with
  | 'Z' :: rest | 'z' :: rest => rest
  | c :: rest =>
      if c = '+' || c = '-' then
        let offset := do
          let (_, rest) ← fixedDigits 2 0 23 rest
          let rest ← expect ':' rest
          let (_, rest) ← fixedDigits 2 0 59 rest
          return rest
        offset.getD cs
      else cs
  | [] => cs

def skipTime (cs : List Char) : List Char :=
  match cs with
  | c :: rest =>
      if c = 'T' || c = 't' || c = ' ' then ((time? rest).map skipOffset).getD cs else cs
  | [] => cs

def datetime (cs : List Char) : Option (Unit × List Char) :=
  (((date? cs).map skipTime).or (time? cs)).map ((), ·)

def number (cs : List Char) : Option (Value × List Char) :=
  ((datetime cs).map fun (_, rest) => (Value.datetime, rest)).or (((float cs).map fun (x, rest) => (.float x, rest)).or
      ((integer cs).map fun (n, rest) => (.int n, rest)))

/-! ### Documents -/

/-- How deep arrays and inline tables nest, and how long dotted keys are, at most. -/
def nestingLimit : Nat := 79

def isKeyChar (c : Char) : Bool := c.isAlphanum || c = '-' || c = '_'

def simpleKey (cs : List Char) : Option (String × List Char) :=
  match cs with
  | '"' :: rest => basicString 0 [] rest
  | '\'' :: rest => literalString rest
  | _ =>
      match cs.takeWhile isKeyChar with
      | [] => none
      | name => some (String.ofList name, cs.dropWhile isKeyChar)

/-- Things between separators, at least one; a separator that nothing follows is left. `fuel` bounds
their number. -/
def separated {α : Type} (separator : Char) (elem : Reader α) : (fuel : Nat) → Reader (List α)
  | 0, _ => none
  | fuel + 1, cs => do
      let (first, rest) ← elem cs
      match rest with
      | c :: behind =>
          if c = separator then
            match separated separator elem fuel behind with
            | some (others, rest) => return (first :: others, rest)
            | none => return ([first], rest)
          else return ([first], rest)
      | [] => return ([first], rest)

/-- A key, which may be dotted: the keys on the way, and the last one. -/
def key (cs : List Char) : Option ((List String × String) × List Char) := do
  let part (cs : List Char) : Option (String × List Char) := do
    let (name, rest) ← simpleKey (skipBlanks cs)
    return (name, skipBlanks rest)
  let (parts, rest) ← separated '.' part cs.length cs
  let last ← parts.getLast?
  if parts.length ≤ nestingLimit then return ((parts.dropLast, last), rest) else none

def keyValue (value : Reader Value) (cs : List Char) : Option (((List String × String) × Value) × List Char) := do
  let (k, rest) ← key cs
  let rest ← expect '=' rest
  let (v, rest) ← value (skipBlanks rest)
  return ((k, v), skipBlanks rest)

/-- The rest of an array, whose elements may be on several lines. A last comma does not count. -/
def arrayRest (value : Reader Value) (cs : List Char) : Option (Value × List Char) := do
  let elem (cs : List Char) : Option (Value × List Char) := do
    let (v, rest) ← value (skipComments false cs)
    return (v, skipComments false rest)
  let (elems, rest) :=
    match separated ',' elem cs.length cs with
    | some (elems, ',' :: rest) => (elems, rest)
    | some (elems, rest) => (elems, rest)
    | none => ([], cs)
  let rest ← expect ']' (skipComments false rest)
  return (.array elems, rest)

/-- The rest of an inline table, which is on one line. -/
def inlineTableRest (value : Reader Value) (cs : List Char) : Option (Value × List Char) := do
  let (pairs, rest) :=
    match separated ',' (keyValue value) cs.length cs with
    | some found => found
    | none => ([], cs)
  let rest ← expect '}' (skipBlanks rest)
  let t ← pairs.foldlM (fun t ((path, k), v) => Table.insert? t path k v) Table.empty
  return (t.finish, rest)

/-- A value, in which arrays and inline tables nest to a number of levels. -/
def value : (levels : Nat) → Reader Value
  | levels, cs =>
      match cs with
      | '[' :: rest =>
          match levels with
          | levels + 1 => arrayRest (value levels) rest
          | 0 => none
      | '{' :: rest =>
          match levels with
          | levels + 1 => inlineTableRest (value levels) rest
          | 0 => none
      | 't' :: 'r' :: 'u' :: 'e' :: rest => some (.bool true, rest)
      | 'f' :: 'a' :: 'l' :: 's' :: 'e' :: rest => some (.bool false, rest)
      | c :: _ =>
          if c = '"' || c = '\'' then (string cs).map fun (s, rest) => (.str s, rest)
          else if c.isDigit || c = '+' || c = '-' || c = 'i' || c = 'n' then number cs
          else none
      | [] => none

/-- The text behind the end of a line, before which there may be a comment. -/
def lineEnd? (cs : List Char) : Option (List Char) :=
  let cs :=
    match skipBlanks cs with
    | '#' :: rest => rest.dropWhile isLineChar
    | cs => cs
  if cs.isEmpty then some [] else newline? cs

/-- What the lines so far say: the finished tables, and the table of the last header. -/
structure Draft where
  root : Table
  current : Table
  /-- The place of the current table, if there has been a header, and whether it is an element of an
  array of tables. -/
  header : Option ((List String × String) × Bool)

namespace Draft

def empty : Draft := ⟨.empty, .empty, none⟩

/-- The finished tables, with the current one among them. -/
def close? (d : Draft) : Option Table :=
  match d.header with
  | none => some d.current
  | some ((path, k), false) => d.root.close? path k d.current
  | some ((path, k), true) => d.root.closeArray? path k d.current

def open? (d : Draft) (place : List String × String) (isArray : Bool) : Option Draft := do
  let root ← d.close?
  if isArray then
    let root ← root.openArray? place.1 place.2
    return ⟨root, .empty, some (place, true)⟩
  else
    let (current, root) ← root.open? place.1 place.2
    return ⟨root, current, some (place, false)⟩

end Draft

def header (d : Draft) (isArray : Bool) (cs : List Char) : Option (Draft × List Char) := do
  let (place, rest) ← key cs
  let rest ← expect ']' rest
  let rest ← if isArray then expect ']' rest else some rest
  let d ← d.open? place isArray
  return (d, ← lineEnd? rest)

def keyLine (d : Draft) (cs : List Char) : Option (Draft × List Char) := do
  let (((path, k), v), rest) ← keyValue (value nestingLimit) cs
  let rest ← lineEnd? rest
  let current ← d.current.insert? path k v
  return ({ d with current := current }, rest)

def line (d : Draft) (cs : List Char) : Option (Draft × List Char) :=
  match cs with
  | '#' :: rest => (lineEnd? ('#' :: rest)).map (d, ·)
  | '\n' :: _ | '\r' :: _ => (newline? cs).map (d, ·)
  | '[' :: '[' :: rest => header d true rest
  | '[' :: rest => header d false rest
  | _ => keyLine d cs

/-- Reads the remaining lines; `fuel` bounds their number. -/
def lines : (fuel : Nat) → Draft → List Char → Option Draft
  | 0, d, cs => if cs.isEmpty then some d else none
  | fuel + 1, d, cs =>
      match skipBlanks cs with
      | [] => some d
      | cs => do
          let (d, rest) ← line d cs
          lines fuel d rest

/-- The table that a document describes. A byte order mark at its start does not count. -/
def parse? (text : String) : Option Value := do
  let cs :=
    match text.toList with
    | '\ufeff' :: cs => cs
    | cs => cs
  let d ← lines cs.length Draft.empty cs
  return (← d.close?).finish

end Aero.Toml
