/-!
Paths and trees of files: what a working directory holds, and how paths lead to files in it. Of what is outside the
working directory nothing is known.
-/

namespace Aero

structure Path where
  absolute : Bool
  pieces : List String
deriving DecidableEq, Repr

namespace Path

/-- The texts between slashes, where `piece` is the one being read, last character first. -/
def split (piece : List Char) : List Char → List String
  | [] => [String.ofList piece.reverse]
  | c :: cs =>
      if c = '/' then String.ofList piece.reverse :: split [] cs else split (c :: piece) cs

def ofString (s : String) : Path :=
  match s.toList with
  | '/' :: cs => ⟨true, split [] cs⟩
  | cs => ⟨false, split [] cs⟩

def text (p : Path) : String := (if p.absolute then "/" else "") ++ "/".intercalate p.pieces

/-- Whether the piece after some others names nothing of its own. -/
def isIdle (p : Path) (before : List String) (piece : String) : Bool :=
  piece = "" || (piece = "." && (p.absolute || !before.isEmpty))

/-- Pieces, last first, from the last one on that names something. -/
def dropIdle (p : Path) : List String → List String
  | [] => []
  | piece :: before => if p.isIdle before piece then p.dropIdle before else piece :: before

def lastPiece? (p : Path) : Option String := (p.dropIdle p.pieces.reverse).head?

def fileName? (p : Path) : Option String := p.lastPiece?.filter fun s => s ≠ "." && s ≠ ".."

/-- A name without what follows its last dot. A dot at the start of a name does not count. -/
def stemOf (name : String) : String :=
  let before := (name.toList.reverse.dropWhile (· ≠ '.')).tail.reverse
  if before.isEmpty then name else String.ofList before

def stem? (p : Path) : Option String := p.fileName?.map stemOf

def parent? (p : Path) : Option Path :=
  match p.dropIdle p.pieces.reverse with
  | [] => none
  | _ :: before =>
      match p.dropIdle before with
      | [] => some { p with pieces := [""] }
      | rest => some { p with pieces := rest.reverse }

/-- The path of the parent, its parent and so on, up to a number of them. -/
def parentsUpTo : Nat → Path → List Path
  | 0, _ => []
  | n + 1, p =>
      match p.parent? with
      | some outer => outer :: parentsUpTo n outer
      | none => []

def parents (p : Path) : List Path := parentsUpTo p.pieces.length p

def join (p : Path) (name : String) : Path :=
  match p.pieces.reverse with
  | "" :: before => { p with pieces := before.reverse ++ [name] }
  | _ => { p with pieces := p.pieces ++ [name] }

def withFileName (p : Path) (name : String) : Path :=
  match p.fileName? with
  | some _ => (p.parent?.getD p).join name
  | none => p.join name

end Path

inductive FileError where
  | missing
  | exists
  | notDirectory
  | isDirectory
deriving DecidableEq, Repr

def FileError.message : FileError → String
  | missing => "No such file or directory (os error 2)"
  | «exists» => "File exists (os error 17)"
  | notDirectory => "Not a directory (os error 20)"
  | isDirectory => "Is a directory (os error 21)"

/-- The files of a working directory by the names on the way to them, and its directories. -/
structure FileTree where
  files : List (List String × String) := []
  directories : List (List String) := []

inductive Location where
  | inside (names : List String)
  | outside
  | elsewhere
deriving DecidableEq, Repr

inductive Entry where
  | file (text : String)
  | directory
  | nothing
deriving DecidableEq, Repr

namespace FileTree

def ancestors (names : List String) : List (List String) :=
  (List.range names.length).map names.take

def insert (t : FileTree) (names : List String) (text : String) : FileTree :=
  { files := t.files.filter (·.1 ≠ names) ++ [(names, text)]
    directories := t.directories ++ ancestors names }

def insertDirectory (t : FileTree) (names : List String) : FileTree :=
  { t with directories := t.directories ++ ancestors names ++ [names] }

def entry (t : FileTree) : Location → Entry
  | .inside names =>
      match t.files.lookup names with
      | some text => .file text
      | none => if names.isEmpty || t.directories.contains names then .directory else .nothing
  | .outside => .directory
  | .elsewhere => .nothing

def outer : Location → Location
  | .inside [] => .outside
  | .inside names => .inside names.dropLast
  | _ => .outside

def inner (location : Location) (name : String) : Location :=
  match location with
  | .inside names => .inside (names ++ [name])
  | _ => .elsewhere

/-- Follows pieces of a path; each must start from a directory. -/
def walk (t : FileTree) : Location → List String → Except FileError Location
  | location, [] => .ok location
  | location, piece :: rest =>
      match t.entry location with
      | .nothing => .error .missing
      | .file _ => .error .notDirectory
      | .directory =>
          if piece = "" || piece = "." then t.walk location rest
          else if piece = ".." then t.walk (outer location) rest
          else t.walk (inner location piece) rest

/-- Where a path leads; the empty path leads nowhere. -/
def locate (t : FileTree) (p : Path) : Except FileError Location :=
  if p.text = "" then .error .missing
  else t.walk (if p.absolute then .outside else .inside []) p.pieces

def read (t : FileTree) (p : Path) : Except FileError String := do
  match t.entry (← t.locate p) with
  | .file text => return text
  | .directory => throw .isDirectory
  | .nothing => throw .missing

def has (t : FileTree) (p : Path) : Bool :=
  match t.locate p with
  | .ok location => t.entry location ≠ .nothing
  | .error _ => false

def hasDirectory (t : FileTree) (p : Path) : Bool :=
  match t.locate p with
  | .ok location => t.entry location = .directory
  | .error _ => false

def write (t : FileTree) (p : Path) (text : String) : Except FileError FileTree := do
  let location ← t.locate p
  match t.entry location, location with
  | .directory, _ => throw .isDirectory
  | _, .inside names => return t.insert names text
  | _, _ => return t

/-- Makes one directory, within one that is there. A slash behind its name does not count. -/
def makeDirectory (t : FileTree) (p : Path) : Except FileError FileTree := do
  let named := { p with pieces := (p.pieces.reverse.dropWhile (· = "")).reverse }
  let location ← t.locate named
  match t.entry location, location with
  | .nothing, .inside names => return t.insertDirectory names
  | .nothing, _ => return t
  | _, _ => throw .exists

/-- Makes a directory, given the paths of those around it, innermost first. -/
def makeWithin (p : Path) : List Path → FileTree → Except FileError FileTree
  | around, t =>
      if p.text = "" then .ok t
      else
        match t.makeDirectory p with
        | .ok t => .ok t
        | .error .missing =>
            match around with
            | [] => .error .missing
            | outer :: around => do
                let t ← makeWithin outer around t
                match t.makeDirectory p with
                | .ok t => return t
                | .error e => if t.hasDirectory p then return t else throw e
        | .error e => if t.hasDirectory p then .ok t else .error e

def makeDirectories (t : FileTree) (p : Path) : Except FileError FileTree :=
  makeWithin p p.parents t

def changes (before after : FileTree) : List (List String × String) :=
  after.files.filter fun (names, text) => before.files.lookup names ≠ some text

end FileTree

end Aero
