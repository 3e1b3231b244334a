import TeamRoles.Command.Help
import TeamRoles.Decl.Json
import TeamRoles.Descriptor.Json
import TeamRoles.Files.Descriptors
import TeamRoles.Json.Printer
import TeamRoles.Problem.Snippet
import TeamRoles.Session
import TeamRoles.Toml.Parser

/-!
The command over a tree of files: it checks units, shows descriptors and encodes them.
-/

namespace TeamRoles.Command

inductive ReadError where
  | file (cause : FileError)
  | notText

def ReadError.message : ReadError → String
  | .file cause => cause.message
  | .notText => "stream did not contain valid UTF-8"

inductive Failure where
  | usage
  | configUnread (path : String) (cause : ReadError)
  | configInvalid (path : String)
  | severitiesInvalid (path : String) (cause : ConfigError)
  | unitsUnread (path : String) (cause : ReadError)
  | unitsInvalid (path : String)
  | noDescriptors (path : String)
  | aborted (cause : Abort)
  | unread (path : String) (cause : ReadError)
  | undecoded (path : String) (cause : Descriptor.Error)
  | descriptorInvalid (path : String)
  | uncreated (path : String) (cause : FileError)
  | unwritten (path : String) (cause : FileError)

/-- The error with the one below it, if there is one. -/
def chain : Descriptor.Error → String
  | e@(.decode cause) => e.message ++ ": " ++ cause.message
  | e@(.unreadable cause) => e.message ++ ": " ++ cause.message
  | e => e.message

def quoted (path : String) : String := "'" ++ path ++ "'"

def Failure.message : Failure → String
  | .usage => "usage"
  | .configUnread path cause => "failed to read config " ++ quoted path ++ ": " ++ cause.message
  | .configInvalid path => "invalid config " ++ quoted path
  | .severitiesInvalid path cause => "invalid severities in " ++ quoted path ++ ": " ++ cause.message
  | .unitsUnread path cause => "failed to read units " ++ quoted path ++ ": " ++ cause.message
  | .unitsInvalid path => "invalid units " ++ quoted path
  | .noDescriptors path => "descriptor directory " ++ quoted path ++ " does not exist"
  | .aborted cause => cause.message
  | .unread path cause => "failed to read " ++ quoted path ++ ": " ++ cause.message
  | .undecoded path cause => "failed to decode " ++ quoted path ++ ": " ++ chain cause
  | .descriptorInvalid path => "invalid descriptor " ++ quoted path
  | .uncreated path cause => "failed to create " ++ quoted path ++ ": " ++ cause.message
  | .unwritten path cause => "failed to write " ++ quoted path ++ ": " ++ cause.message

structure Terminal where
  noColor : Bool
  dumb : Bool := false

def Terminal.colored (t : Terminal) (choice : Option String) : Bool :=
  !t.noColor && match choice with
    | some "always" => true
    | some "never" => false
    | _ => !t.dumb

structure Outcome where
  code : Nat := 0
  stdout : String := ""
  stderr : String := ""
  files : FileTree

abbrev Run := Except Failure

def orFail {ε α : Type} (failure : ε → Failure) : Except ε α → Run α
  | .ok a => .ok a
  | .error cause => .error (failure cause)

def readText (files : FileTree) (path : String) : Except ReadError String :=
  match files.read path with
  | .ok bytes => match String.fromUTF8? ⟨bytes.toArray⟩ with
    | some text => .ok text
    | none => .error .notText
  | .error cause => .error (.file cause)

/-- The configuration that is read if it is there and no other is named. -/
def defaultConfig : String := "roleweave.toml"

def loadConfig (files : FileTree) (path : String) : Run Options := do
  let text ← orFail (.configUnread path) (readText files path)
  match (Toml.parse? text).bind (fromJson? ·.json) with
  | none => throw (.configInvalid path)
  | some (options : Options) =>
    discard (orFail (.severitiesInvalid path) options.severityConfig)
    return options

def loadOptions (files : FileTree) (config : Option String) : Run Options :=
  match config with
  | some path => loadConfig files path
  | none => if files.isFile defaultConfig then loadConfig files defaultConfig else .ok {}

def loadUnits (files : FileTree) (path : String) : Run (List UnitDecl) := do
  let text ← orFail (.unitsUnread path) (readText files path)
  match (Json.read? text).bind fromJson? with
  | some units => return units
  | none => throw (.unitsInvalid path)

/-- The core types, behind those of a directory. -/
def providerOf (files : FileTree) (options : Options) : Option String → Run Provider
  | none => .ok (Library.core options.wellKnown).provider
  | some dir =>
    if files.isDirectory dir then
      .ok ((files.descriptors dir).layered (Library.core options.wellKnown).provider)
    else .error (.noDescriptors dir)

def problemsOf (provider : Provider) (options : Options) (units : List UnitDecl) :
    Except Abort (List Problem) := do
  let start ← Env.new provider options
  let (outcome, e) := Resolve.run (do
    discard (Resolve.addUnits units)
    Resolve.resolve) start
  outcome
  return e.diagnostics.problems.toList

def counted (n : Nat) (word : String) : String :=
  n.repr ++ " " ++ word ++ if n = 1 then "" else "s"

/-- How many problems of a severity there are, if any. -/
def tally (problems : List Problem) (s : Severity) (style : Option Style) : Styled :=
  let n := problems.countP (·.severity == s)
  if n = 0 then [] else [(none, ", "), (style, counted n s.noticeWord)]

def summary (units : Nat) (problems : List Problem) : Styled :=
  let verdict := if problems.any Problem.isError then
      Styled.styled { color := some .red, bold := true } "failed"
    else Styled.styled { color := some .green, bold := true } "ok"
  verdict ++ Styled.plain (": " ++ counted units "unit" ++ " checked") ++
    tally problems .error (some { color := some .red }) ++
    tally problems .warning (some { color := some .yellow }) ++
    tally problems .info none ++ Styled.plain "\n"

def sourcesOf (units : List UnitDecl) : Sources :=
  units.foldl (fun s u => match u.source with
    | some text => s.add u.fileName text
    | none => s) {}

def report (colored : Bool) (units : List UnitDecl) (problems : List Problem) : String :=
  let sources := sourcesOf units
  String.join (problems.map fun p => ((p.notice sources).render sources).render colored) ++
    (summary units.length problems).render colored

def check (colored : Bool) (files : FileTree) (units : String) (descriptors config : Option String)
    (format : Format) : Run Outcome := do
  let options ← loadOptions files config
  let units ← loadUnits files units
  let provider ← providerOf files options descriptors
  let problems ← orFail .aborted (problemsOf provider options units)
  let code := if problems.any Problem.isError then 1 else 0
  match format with
  | .json => return { code, files, stdout := (toJson problems).pretty ++ "\n" }
  | .pretty => return { code, files, stderr := report colored units problems }

def describe (files : FileTree) (path : String) : Run Outcome := do
  let bytes ← orFail (fun cause => .unread path (.file cause)) (files.read path)
  let d ← orFail (.undecoded path) (Descriptor.decode bytes)
  return { files, stdout := (toJson d).pretty ++ "\n" }

def encode (files : FileTree) (path output : String) : Run Outcome := do
  let text ← orFail (.unread path) (readText files path)
  match (Json.read? text).bind fromJson? with
  | none => throw (.descriptorInvalid path)
  | some (d : Descriptor) =>
    let dir := Path.parent output
    let files ← if dir == "" then pure files
      else orFail (.uncreated dir) (files.makeDirectories dir)
    let files ← orFail (.unwritten output) (files.write output d.encode)
    return { files }

def Task.run (colored : Bool) (files : FileTree) : Task → Run Outcome
  | .check units descriptors config format => Command.check colored files units descriptors config format
  | .describe file => Command.describe files file
  | .encode file output => Command.encode files file output

def Request.outcome (terminal : Terminal) (files : FileTree) : Request → Run Outcome
  | .run color task => task.run (terminal.colored color) files
  | .help topic long => .ok { files, stdout := topic.helpText long }
  | .version => .ok { files, stdout := versionText }

def execute (terminal : Terminal) (files : FileTree) (words : List String) : Run Outcome :=
  match Request.parse? words with
  | some request => request.outcome terminal files
  | none => .error .usage

end TeamRoles.Command
