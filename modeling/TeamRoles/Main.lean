import TeamRoles.Command.Basic

/-!
The command line: reads what a task needs into a tree of files, runs the task on it and writes what
the task leaves behind.
-/

namespace TeamRoles.Command

/-- Reads a file, or a directory with all that it holds if `deep`. -/
partial def load (deep : Bool) (files : FileTree) (place : Place) (path : String) : IO FileTree := do
  match ← (IO.FS.realPath path).toBaseIO with
  | .error _ => return files
  | .ok real =>
    if ← real.isDir then
      let files := { files with directories := place :: files.directories }
      if deep then
        (← real.readDir).foldlM (fun files entry =>
          load deep files (place ++ [entry.fileName]) (Path.join path entry.fileName)) files
      else return files
    else if ← real.pathExists then
      return files.put place (← IO.FS.readBinFile path).toList
    else return files

/-- Reads a path and learns what stands on the way to it. -/
def survey (deep : Bool) (files : FileTree) (path : String) : IO FileTree := do
  let around := (Path.chain path).drop 1
  let files ← around.foldlM (fun files dir => load false files (Place.ofPath dir) dir) files
  if path == "" then return files else load deep files (Place.ofPath path) path

def Task.inputs : Task → IO FileTree
  | .check units descriptors config _ => do
    let files ← survey false {} units
    let files ← survey false files (config.getD defaultConfig)
    match descriptors with
    | some dir => survey true files dir
    | none => return files
  | .describe file => survey false {} file
  | .encode file output => do survey false (← survey false {} file) output

def Task.finish (o : Outcome) : Task → IO Unit
  | .encode _ output => do
    if let .ok content := o.files.read output then
      let dir := Path.parent output
      if dir != "" then IO.FS.createDirAll dir
      IO.FS.writeBinFile output ⟨content.toArray⟩
  | _ => return ()

end TeamRoles.Command

open TeamRoles.Command

def main (words : List String) : IO UInt32 := do
  let noColor := (← IO.getEnv "NO_COLOR").isSome
  let dumb := (← IO.getEnv "TERM").getD "dumb" == "dumb"
  let task? := match Request.parse? words with
    | some (.run _ task) => some task
    | _ => none
  let files ← match task? with
    | some task => task.inputs
    | none => pure {}
  match execute { noColor, dumb } files words with
  | .ok o =>
    if let some task := task? then task.finish o
    IO.print o.stdout
    IO.eprint o.stderr
    return o.code.toUInt32
  | .error .usage =>
    IO.eprint (Topic.helpText .program false)
    return 2
  | .error e =>
    IO.eprintln ("Error: " ++ e.message)
    return 2
