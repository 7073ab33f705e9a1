import Aero.File

/-!
Command lines. Options may stand anywhere among the other arguments, up to a `--`; the value of an
option follows it or is joined to it, and short options may be joined to each other.
-/

namespace Aero.Command

inductive Switch where
  | verbose | version | help | output | config | optLevel | full
deriving DecidableEq, Repr

namespace Switch

def longName : Switch → String
  | verbose => "verbose"
  | version => "version"
  | help => "help"
  | output => "output"
  | config => "config"
  | optLevel => "opt-level"
  | full => "full"

def shortName? : Switch → Option Char
  | verbose => some 'v'
  | version => some 'V'
  | help => some 'h'
  | output => some 'o'
  | _ => none

def takesValue : Switch → Bool
  | output | config | optLevel => true
  | _ => false

end Switch

def int? (s : String) : Option Int :=
  let (negative, digits) :=
    match s.toList with
    | '-' :: ds => (true, ds)
    | '+' :: ds => (false, ds)
    | ds => (false, ds)
  if digits.isEmpty || !digits.all Char.isDigit then none
  else
    let n : Int := digits.foldl (fun n c => n * 10 + (c.toNat - '0'.toNat)) 0
    some (if negative then -n else n)

def level? (s : String) : Option Nat :=
  ((int? s).filter fun n => 0 ≤ n && n ≤ 255).map Int.toNat

def path? (s : String) : Option Path := if s.isEmpty then none else some (.ofString s)

def Switch.accepts (s : Switch) (value : String) : Bool :=
  if s = .optLevel then (level? value).isSome else (path? value).isSome

/-- What a command line asks for, apart from the work itself. -/
inductive Notice where
  | version
  | help
deriving DecidableEq, Repr

structure Given where
  /-- How often each option without a value was given, one entry for each time. -/
  switches : List Switch := []
  values : List (Switch × String) := []
  positionals : List String := []
deriving DecidableEq, Repr

namespace Given

def has (g : Given) (s : Switch) : Bool := g.switches.contains s

def value? (g : Given) (s : Switch) : Option String := g.values.lookup s

def count (g : Given) (s : Switch) : Nat := g.switches.count s

/-- Adds an option without a value; only `verbose` may be repeated. -/
def addSwitch? (g : Given) (s : Switch) : Option Given :=
  if s ≠ .verbose && g.has s then none else some { g with switches := s :: g.switches }

/-- Adds an option with a value, which is not repeated. -/
def addValue? (g : Given) (s : Switch) (value : String) : Option Given :=
  if (g.value? s).isSome || !s.accepts value then none
  else some { g with values := (s, value) :: g.values }

/-- Adds an argument that is no option, of which there may be only some. -/
def addPositional? (most : Option Nat) (g : Given) (arg : String) : Option Given :=
  if most.any (· ≤ g.positionals.length) then none
  else (path? arg).map fun _ => { g with positionals := g.positionals ++ [arg] }

end Given

/-- The outcome of reading arguments: a notice that was asked for, or what was given. -/
abbrev Outcome (α : Type) := Except Notice α

/-- What a command takes: its options, and the largest number of other arguments if there is one. -/
structure Form where
  switches : List Switch
  most : Option Nat
deriving DecidableEq, Repr

/-- Reads joined short options. The last may have a value, which is joined to it, perhaps with an
equals sign, or still to follow. -/
def cluster (allowed : List Switch) : Given → List Char → Option (Outcome (Given × Option Switch))
  | g, [] => some (.ok (g, none))
  | g, c :: rest =>
      match allowed.find? (·.shortName? = some c) with
      | none => none
      | some .version => some (.error .version)
      | some .help => some (.error .help)
      | some s =>
          if s.takesValue then
            match rest with
            | [] => some (.ok (g, some s))
            | '=' :: value => (g.addValue? s (String.ofList value)).map fun g => .ok (g, none)
            | value => (g.addValue? s (String.ofList value)).map fun g => .ok (g, none)
          else (g.addSwitch? s).bind fun g => cluster allowed g rest

/-- Reads a long option, whose value may be joined to it with an equals sign. -/
def long (allowed : List Switch) (g : Given) (arg : List Char) : Option (Outcome (Given × Option Switch)) :=
  let name := String.ofList (arg.takeWhile (· ≠ '='))
  match allowed.find? (·.longName = name), arg.dropWhile (· ≠ '=') with
  | some .version, [] => some (.error .version)
  | some .help, [] => some (.error .help)
  | some s, [] =>
      if s.takesValue then some (.ok (g, some s))
      else (g.addSwitch? s).map fun g => .ok (g, none)
  | some s, _ :: value =>
      if s.takesValue then (g.addValue? s (String.ofList value)).map fun g => .ok (g, none)
      else none
  | none, _ => none

def isOption (arg : String) : Bool :=
  match arg.toList with
  | '-' :: _ :: _ => true
  | _ => false

def option (allowed : List Switch) (g : Given) (arg : String) : Option (Outcome (Given × Option Switch)) :=
  match arg.toList with
  | '-' :: '-' :: name => long allowed g name
  | '-' :: names => cluster allowed g names
  | _ => none

/-- Reads arguments, of which the first may be the value of an option. The first fault counts. -/
def arguments (form : Form) : Given → Option Switch → List String → Option (Outcome Given)
  | g, none, [] => some (.ok g)
  | _, some _, [] => none
  | g, some s, arg :: rest =>
      if isOption arg then none
      else (g.addValue? s arg).bind fun g => arguments form g none rest
  | g, none, arg :: rest =>
      if arg = "--" then (rest.foldlM (Given.addPositional? form.most) g).map .ok
      else if isOption arg then
        match option form.switches g arg with
        | some (.ok (g, pending)) => arguments form g pending rest
        | some (.error notice) => some (.error notice)
        | none => none
      else (g.addPositional? form.most arg).bind fun g => arguments form g none rest

/-- Reads the options before the command, and yields the command and what follows it. -/
def leading (allowed : List Switch) : Given → List String → Option (Outcome (Given × String × List String))
  | _, [] => none
  | g, arg :: rest =>
      if isOption arg then
        match option allowed g arg with
        | some (.ok (g, none)) => leading allowed g rest
        | some (.ok (_, some _)) => none
        | some (.error notice) => some (.error notice)
        | none => none
      else some (.ok (g, arg, rest))

inductive Task where
  | build (inputs : List Path) (output config : Option Path) (optLevel : Option Nat)
  | check (input : Path) (config : Option Path)
  | hash (input : Path) (full : Bool) (config : Option Path)
deriving DecidableEq, Repr

structure Invocation where
  task : Task
  verbosity : Nat := 0
deriving DecidableEq, Repr

def pathOption? (g : Given) (s : Switch) : Option (Option Path) :=
  match g.value? s with
  | none => some none
  | some text => (path? text).map some

def levelOption? (g : Given) : Option (Option Nat) :=
  match g.value? .optLevel with
  | none => some none
  | some text => (level? text).map some

def formOf? (command : String) : Option Form :=
  match command with
  | "build" => some ⟨[.verbose, .help, .output, .config, .optLevel], none⟩
  | "check" => some ⟨[.verbose, .help, .config], some 1⟩
  | "hash" => some ⟨[.verbose, .help, .full, .config], some 1⟩
  | _ => none

/-- Whether help can be asked for on some topics: none, or one command. -/
def isHelpTopic : List String → Bool
  | [] => true
  | [topic] => (formOf? topic).isSome || topic = "help"
  | _ => false

def task? (command : String) (g : Given) : Option Task := do
  let inputs ← g.positionals.mapM path?
  let config ← pathOption? g .config
  match command, inputs with
  | "build", _ :: _ => return .build inputs (← pathOption? g .output) config (← levelOption? g)
  | "check", [input] => return .check input config
  | "hash", [input] => return .hash input (g.has .full) config
  | _, _ => none

/-- What a command line asks for. How much is told is counted after the command, or before it if
nothing is said after it. -/
def parse? (args : List String) : Option (Outcome Invocation) := do
  match ← leading [.verbose, .version, .help] {} args with
  | .error notice => return .error notice
  | .ok (_, "help", topics) => if isHelpTopic topics then return .error .help else none
  | .ok (before, command, rest) =>
      match ← arguments (← formOf? command) {} none rest with
      | .error notice => return .error notice
      | .ok g =>
          let task ← task? command g
          let count := g.count .verbose
          return .ok ⟨task, if count = 0 then before.count .verbose else count⟩

end Aero.Command
