import TeamRoles.Command.Request

/-!
The help texts of the command.
-/

namespace TeamRoles.Command

def programName : String := "roleweave"

def versionText : String := programName ++ " 0.2.0\n"

namespace Topic

def about : Topic → String
  | .program => "Binding resolution for team/role programs"
  | .check => "Resolve the bindings of a set of units and report problems"
  | .describe => "Print a compiled descriptor as JSON"
  | .encode => "Encode a JSON descriptor into its binary form"
  | .help => "Print this message or the help of the given subcommand(s)"

def usage : Topic → String
  | .program => "[OPTIONS] <COMMAND>"
  | .check => "check [OPTIONS] --units <UNITS>"
  | .describe => "describe [OPTIONS] <FILE>"
  | .encode => "encode [OPTIONS] --output <OUTPUT> <FILE>"
  | .help => "help [COMMAND]..."

def checkSummary : List String :=
  ["Options:",
   "      --color <COLOR>              Colored output: auto, always or never",
   "  -u, --units <UNITS>              JSON file holding an array of compilation units",
   "  -d, --descriptors <DESCRIPTORS>  Directory of compiled descriptors (`p/q/T.rwtd`)",
   "  -c, --config <CONFIG>            Binder configuration (defaults to ./roleweave.toml when present)",
   "  -f, --format <FORMAT>            Output format [default: pretty] [possible values: pretty, json]",
   "  -h, --help                       Print help (see more with '--help')"]

def checkDetails : List String :=
  ["Options:",
   "      --color <COLOR>",
   "          Colored output: auto, always or never",
   "",
   "  -u, --units <UNITS>",
   "          JSON file holding an array of compilation units",
   "",
   "  -d, --descriptors <DESCRIPTORS>",
   "          Directory of compiled descriptors (`p/q/T.rwtd`)",
   "",
   "  -c, --config <CONFIG>",
   "          Binder configuration (defaults to ./roleweave.toml when present)",
   "",
   "  -f, --format <FORMAT>",
   "          Output format",
   "",
   "          Possible values:",
   "          - pretty: Annotated terminal output",
   "          - json:   A JSON array on stdout",
   "          ",
   "          [default: pretty]",
   "",
   "  -h, --help",
   "          Print help (see a summary with '-h')"]

/-- The parts of a help text; only that of `check` is longer where more is asked for. -/
def details (long : Bool) : Topic → List String
  | .program =>
    ["Commands:",
     "  check     " ++ about .check,
     "  describe  " ++ about .describe,
     "  encode    " ++ about .encode,
     "  help      " ++ about .help,
     "",
     "Options:",
     "      --color <COLOR>  Colored output: auto, always or never",
     "  -h, --help           Print help",
     "  -V, --version        Print version"]
  | .check => if long then checkDetails else checkSummary
  | .describe =>
    ["Arguments:",
     "  <FILE>  Descriptor file",
     "",
     "Options:",
     "      --color <COLOR>  Colored output: auto, always or never",
     "  -h, --help           Print help"]
  | .encode =>
    ["Arguments:",
     "  <FILE>  JSON descriptor",
     "",
     "Options:",
     "      --color <COLOR>    Colored output: auto, always or never",
     "  -o, --output <OUTPUT>  Output file",
     "  -h, --help             Print help"]
  | .help =>
    ["Arguments:",
     "  [COMMAND]...  Print help for the subcommand(s)"]

def helpText (t : Topic) (long : Bool) : String :=
  let usage := "Usage: " ++ programName ++ " " ++ t.usage
  String.join (([t.about, "", usage, ""] ++ t.details long).map (· ++ "\n"))

end Topic

end TeamRoles.Command
