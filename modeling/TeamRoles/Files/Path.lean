/-!
Paths of files as they are written: names divided by slashes. An empty name and a single dot stand for
the directory itself, two dots for the one around it.
-/

namespace TeamRoles

inductive FileError where
  | notFound
  | alreadyThere
  | notDirectory
  | isDirectory
  | nameTooLong
  /-- The path holds a zero, which ends a path before it is over. -/
  | holdsZero
  deriving DecidableEq

def FileError.message : FileError → String
  | .notFound => "No such file or directory (os error 2)"
  | .alreadyThere => "File exists (os error 17)"
  | .notDirectory => "Not a directory (os error 20)"
  | .isDirectory => "Is a directory (os error 21)"
  | .nameTooLong => "File name too long (os error 36)"
  | .holdsZero => "file name contained an unexpected NUL byte"

namespace Path

def isAbsolute (path : String) : Bool := path.toList.head? == some '/'

def endsWithSlash (path : String) : Bool := path.toList.getLast? == some '/'

def names (path : String) : List String := (path.splitOn "/").filter (· != "")

/-- Does a name lead to a directory that is there already? -/
def isDots (name : String) : Bool := name == "." || name == ".."

/-- A name below a directory; an absolute path stays what it is. -/
def join (dir name : String) : String :=
  if isAbsolute name then name
  else if dir == "" || endsWithSlash dir then dir ++ name
  else dir ++ "/" ++ name

/-- A reversed path without the slashes and dots at its end that name no new place. -/
def trimEnd : List Char → List Char
  | ['/'] => ['/']
  | '/' :: rest => trimEnd rest
  | '.' :: '/' :: rest => trimEnd ('/' :: rest)
  | cs => cs
termination_by cs => cs.length

/-- The directory of a path as written; the empty text if the path is a single name. -/
def parent (path : String) : String :=
  String.ofList (trimEnd ((trimEnd path.toList.reverse).dropWhile (· != '/'))).reverse

/-- A path and the directories around it as written, from the inside out. -/
def outwards (fuel : Nat) (path : String) : List String :=
  match fuel with
  | 0 => []
  | fuel + 1 =>
    if path == "" then []
    else if parent path == path then [path]
    else path :: outwards fuel (parent path)

/-- Every directory is written with fewer characters than what lies in it. -/
def chain (path : String) : List String := outwards path.length path

end Path

end TeamRoles
