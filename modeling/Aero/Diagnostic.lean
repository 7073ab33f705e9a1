/-!
Source positions, errors and warnings about a program, and the progress messages of a translation. A span is a file, a
range of bytes in it, and the line and column where the range begins; line zero means that the position is not known.
-/

namespace Aero

structure Span where
  file : Nat := 0
  start : Nat := 0
  stop : Nat := 0
  line : Nat := 0
  column : Nat := 0
deriving DecidableEq, Repr, Inhabited

def Span.none : Span := {}

def Span.location (s : Span) : String :=
  "line " ++ toString s.line ++ ", column " ++ toString s.column

/-- A thing with the place where it is written. -/
structure Spanned (α : Type) where
  node : α
  span : Span := {}
deriving DecidableEq, Repr

inductive Severity where
  | error
  | warning
deriving DecidableEq, Repr

def Severity.name : Severity → String
  | error => "error"
  | warning => "warning"

structure Diagnostic where
  severity : Severity
  message : String
  span : Span := {}
  notes : List String := []
  help : Option String := none
deriving DecidableEq, Repr

namespace Diagnostic

def isError (d : Diagnostic) : Bool := d.severity = .error

/-- The diagnostic in words: the message, its place if it is known, and a line for each remark. -/
def text (d : Diagnostic) : String :=
  d.severity.name ++ ": " ++ d.message ++ (if 0 < d.span.line then " at " ++ d.span.location else "") ++
    String.join (d.notes.map ("\n  note: " ++ ·)) ++
    d.help.elim "" ("\n  help: " ++ ·)

def hasErrors (ds : List Diagnostic) : Bool := ds.any isError

def summary (ds : List Diagnostic) : String :=
  match ds.filter isError with
  | [] => "translation failed"
  | [first] => first.text
  | first :: more => first.text ++ " (and " ++ toString more.length ++ " more errors)"

end Diagnostic

/-- How detailed a message is, from the rarest to the most frequent kind. -/
inductive LogLevel where
  | warn
  | debug
  | trace
deriving DecidableEq, Repr

namespace LogLevel

def name : LogLevel → String
  | warn => "warn"
  | debug => "debug"
  | trace => "trace"

/-- The detail of a level; a reader of some detail sees every line that is not more detailed. -/
def detail : LogLevel → Nat
  | warn => 0
  | debug => 1
  | trace => 2

end LogLevel

structure LogLine where
  level : LogLevel
  message : String
deriving DecidableEq, Repr

def LogLine.text (l : LogLine) : String := l.level.name ++ ": " ++ l.message

end Aero
