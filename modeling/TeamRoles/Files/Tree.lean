import TeamRoles.Files.Path

/-!
A tree of files: what a command reads from and writes to.
-/

namespace TeamRoles

/-- A place in the tree, name by name from the working directory. Leading double dots lead out of it,
a leading slash stands for the root. -/
abbrev Place := List String

namespace Place

/-- The root, the working directory and the directories around it are always there. -/
def isGiven (p : Place) : Bool := p == ["/"] || p.all (· == "..")

def up (p : Place) : Place :=
  if p == ["/"] then p else if p.isGiven then p ++ [".."] else p.dropLast

def next (p : Place) (name : String) : Place :=
  if name == "." then p else if name == ".." then p.up else p ++ [name]

def start (path : String) : Place := if Path.isAbsolute path then ["/"] else []

/-- The place of a path whose directories are all there. -/
def ofPath (path : String) : Place := (Path.names path).foldl next (start path)

end Place

structure FileTree where
  files : List (Place × List UInt8) := []
  directories : List Place := []

namespace FileTree

inductive Entry where
  | file (content : List UInt8)
  | directory
  deriving DecidableEq

/-- A directory is there as soon as something lies in it. -/
def entry? (t : FileTree) (p : Place) : Option Entry :=
  match t.files.lookup p with
  | some content => some (.file content)
  | none =>
    if p.isGiven || t.directories.any p.isPrefixOf || t.files.any (p.isPrefixOf ·.1) then
      some .directory
    else none

def maxName : Nat := 255

def maxPath : Nat := 4095

/-- Refuses a path that is none, whatever there is. -/
def checkPath (path : String) : Except FileError Unit :=
  if path.toList.contains '\x00' then .error .holdsZero
  else if path == "" then .error .notFound
  else if maxPath < path.utf8ByteSize then .error .nameTooLong
  else .ok ()

def step (dir : Place) (name : String) : Except FileError Place :=
  if maxName < name.utf8ByteSize then .error .nameTooLong else .ok (dir.next name)

def follow (t : FileTree) (dir : Place) : List String → Except FileError Place
  | [] => .ok dir
  | name :: rest => do
    let p ← step dir name
    match t.entry? p with
    | some .directory => t.follow p rest
    | some (.file _) => .error .notDirectory
    | none => .error .notFound

/-- The directory in which the last name of a path lies. -/
def around (t : FileTree) (path : String) : Except FileError Place := do
  checkPath path
  t.follow (Place.start path) (Path.names path).dropLast

/-- What a path leads to. Only a directory may have a slash behind it. -/
def find (t : FileTree) (path : String) : Except FileError Entry := do
  let dir ← t.around path
  match (Path.names path).getLast? with
  | none => return .directory
  | some name => match t.entry? (← step dir name) with
    | some .directory => return .directory
    | some (.file content) =>
      if Path.endsWithSlash path then throw .notDirectory else return .file content
    | none => throw .notFound

def isDirectory (t : FileTree) (path : String) : Bool :=
  match t.find path with
  | .ok .directory => true
  | _ => false

def isFile (t : FileTree) (path : String) : Bool :=
  match t.find path with
  | .ok (.file _) => true
  | _ => false

def read (t : FileTree) (path : String) : Except FileError (List UInt8) := do
  match ← t.find path with
  | .file content => return content
  | .directory => throw .isDirectory

def put (t : FileTree) (p : Place) (content : List UInt8) : FileTree :=
  { t with files := (p, content) :: t.files.filter (·.1 != p) }

/-- Writes a file into a directory that is there. A path with a slash at its end names no file. -/
def write (t : FileTree) (path : String) (content : List UInt8) : Except FileError FileTree := do
  let dir ← t.around path
  match (Path.names path).getLast? with
  | none => throw .isDirectory
  | some name =>
    if Path.isDots name || Path.endsWithSlash path then throw .isDirectory
    let p ← step dir name
    match t.entry? p with
    | some .directory => throw .isDirectory
    | _ => return t.put p content

/-- Makes a directory in one that is there. -/
def makeDirectory (t : FileTree) (path : String) : Except FileError FileTree := do
  let dir ← t.around path
  match (Path.names path).getLast? with
  | none => throw .alreadyThere
  | some name =>
    if Path.isDots name then throw .alreadyThere
    let p ← step dir name
    if (t.entry? p).isSome then throw .alreadyThere
    return { t with directories := p :: t.directories }

def ensureDirectory (t : FileTree) (path : String) : Except FileError FileTree :=
  match t.makeDirectory path with
  | .ok made => .ok made
  | .error cause => if t.isDirectory path then .ok t else .error cause

/-- Makes the first of some directories, each of which lies in the next. Those around it are made only
if it cannot be made without them. -/
def ensureWithin (t : FileTree) : List String → Except FileError FileTree
  | [] => .ok t
  | path :: outer => match t.ensureDirectory path with
    | .error .notFound => do (← t.ensureWithin outer).ensureDirectory path
    | outcome => outcome

def makeDirectories (t : FileTree) (path : String) : Except FileError FileTree :=
  t.ensureWithin (Path.chain path)

def ofFiles (files : List (String × List UInt8)) : FileTree :=
  files.foldl (fun t (path, content) => t.put (Place.ofPath path) content) {}

end FileTree

end TeamRoles
