import TeamRoles.Files.Tree
import TeamRoles.Provider

/-!
A directory of compiled types: every package is a directory, and every type a file in it.
-/

namespace TeamRoles.FileTree

def descriptorSuffix : String := ".rwtd"

def descriptorPath (root name : String) : String :=
  let words := name.splitOn "."
  Path.join (words.dropLast.foldl Path.join root) (words.getLastD "" ++ descriptorSuffix)

def packagePath (root package : String) : String := (package.splitOn ".").foldl Path.join root

/-- A type without a file is not there; a file that cannot be read is an error. -/
def descriptors (t : FileTree) (root : String) : Provider where
  find name := match t.read (descriptorPath root name) with
    | .ok bytes => (Descriptor.decode bytes).map some
    | .error .notFound => .ok none
    | .error cause => .error (.unreadable cause)
  packageExists package := package != "" && t.isDirectory (packagePath root package)

end TeamRoles.FileTree
