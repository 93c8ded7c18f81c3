import FetchQuery.Command.Arguments
import FetchQuery.Command.File
import FetchQuery.Document.Json
import FetchQuery.Settings.Toml

namespace FetchQuery.Command

/-- What a run finds outside of itself. How a text is refused that is no document, or holds no settings, is
for its reader to say. -/
structure Surroundings where
  file : String → Content
  stdin : Content
  env : String → Option String
  documentComplaint : String → String
  settingsComplaint : String → String

inductive SettingsFault where
  | unreadable (failure : ReadFailure)
  | malformed (complaint : String)

def SettingsFault.message : SettingsFault → String
  | unreadable failure => "IO error: " ++ failure.message
  | malformed complaint => "Configuration error: " ++ complaint

def settingsOf (complaint : String → String) (content : Content) : Except SettingsFault Settings :=
  match content with
  | .error failure => .error (.unreadable failure)
  | .ok text => match Settings.parse text with
    | some settings => .ok settings
    | none => .error (.malformed (complaint text))

def settingsFile : String := "fetchxml.toml"

/-- The places where settings are looked for: the current folder, then the user's. A relative
directory for the user's configuration does not count. -/
def settingsPaths (env : String → Option String) : List String :=
  let userDirectory := ((env "XDG_CONFIG_HOME").filter (·.toList.head? = some '/')).or
    (((env "HOME").filter (· != "")).map (· ++ "/.config"))
  settingsFile :: userDirectory.toList.map (· ++ "/fetchxml/" ++ settingsFile)

/-- The settings of the named file, or of the first file found in the usual places, or the defaults. -/
def loadSettings (s : Surroundings) (config : Option String) : Except SettingsFault Settings :=
  match config with
  | some path => settingsOf s.settingsComplaint (s.file path)
  | none =>
    match (settingsPaths s.env).find? fun path => (s.file path).isFile with
    | some path => settingsOf s.settingsComplaint (s.file path)
    | none => .ok {}

def Given.apply (g : Given) (s : Settings) : Settings where
  dialect := g.dialect.getD s.dialect
  statement := {
    aliasRoot := s.statement.aliasRoot || g.aliasRoot
    normalizeJoins := s.statement.normalizeJoins || g.normalizeJoins }
  layout := { s.layout with
    pretty := s.layout.pretty && !g.compact
    tabLength := g.tabLength.getD s.layout.tabLength }

inductive Abort where
  | settings (fault : SettingsFault)
  | unreadable (file : String) (failure : ReadFailure)
  | malformed (file complaint : String)

/-- Each cause in the chain is named; a file failure is its own last cause. -/
def Abort.message : Abort → String
  | settings (.unreadable failure) =>
    "loading configuration: " ++ (SettingsFault.unreadable failure).message ++ ": " ++ failure.message
  | settings fault => "loading configuration: " ++ fault.message
  | unreadable file failure => "reading " ++ file ++ ": " ++ failure.message
  | malformed file complaint => "reading " ++ file ++ ": Invalid query document: " ++ complaint

inductive Event where
  | statement (sql : String)
  | failed (file entity : String) (fault : Fault)
  | abort (cause : Abort)

def documentEvents (settings : Settings) (file : String) (d : Document) : List Event :=
  d.entities.map fun e =>
    match d.sql settings e with
    | .ok sql => .statement sql
    | .error fault => .failed file e.name fault

structure Input where
  name : String
  content : Content

def Input.source (i : Input) : String := if i.name = "-" then "stdin" else i.name

def inputEvents (complaint : String → String) (settings : Settings) : List Input → List Event
  | [] => []
  | input :: inputs =>
    match input.content with
    | .error failure => [.abort (.unreadable input.source failure)]
    | .ok text =>
      match Document.parse text with
      | none => [.abort (.malformed input.name (complaint text))]
      | some d => documentEvents settings input.name d ++ inputEvents complaint settings inputs

/-- The inputs of the given names. A hyphen names the standard input, which is empty once read. -/
def inputsOf (file : String → Content) (stdin : Content) : List String → List Input
  | [] => []
  | name :: names =>
    if name = "-" then ⟨name, stdin⟩ :: inputsOf file (.ok "") names
    else ⟨name, file name⟩ :: inputsOf file stdin names

def convertEvents (s : Surroundings) (config : Option String) (given : Given) : List Event :=
  match loadSettings s config with
  | .error fault => [.abort (.settings fault)]
  | .ok settings =>
    inputEvents s.documentComplaint (given.apply settings) (inputsOf s.file s.stdin given.files)

/-- The style given again after each code that ends all styles. -/
def restyled (style : List Char) : List Char → List Char
  | '\x1b' :: '[' :: '0' :: 'm' :: cs => '\x1b' :: '[' :: '0' :: 'm' :: (style ++ restyled style cs)
  | c :: cs => c :: restyled style cs
  | [] => []

/-- Text in a style, by the codes of a terminal. The style holds to the end of the text, also where the
text itself ends all styles. -/
def paint (colour : Bool) (codes : String) (s : String) : String :=
  if colour then
    let style := "\x1b[" ++ codes ++ "m"
    style ++ String.ofList (restyled style.toList s.toList) ++ "\x1b[0m"
  else s

namespace Event

def stdout : Event → String
  | statement sql => sql ++ "\n"
  | _ => ""

def stderr (colour : Bool) : Event → String
  | statement _ => ""
  | failed file entity fault =>
    paint colour "1;31" "Failed:" ++ " " ++ paint colour "33" file ++ " (" ++ entity ++ "): " ++
      fault.message ++ "\n"
  | abort cause => paint colour "1;31" "Error:" ++ " " ++ cause.message ++ "\n"

def isStatement : Event → Bool
  | statement _ => true
  | _ => false

end Event

structure Outcome where
  exitCode : UInt32
  stdout : String := ""
  stderr : String := ""

def Outcome.ofEvents (colour : Bool) (events : List Event) : Outcome where
  exitCode := if events.all Event.isStatement then 0 else 1
  stdout := Text.join "" (events.map Event.stdout)
  stderr := Text.join "" (events.map (Event.stderr colour))

def operatorTable (colour : Bool) : String :=
  let row (id family operands : String × String) : String :=
    paint colour id.1 (Text.padEnd 24 id.2) ++ " " ++
      paint colour family.1 (Text.padEnd 22 family.2) ++ " " ++
      paint colour operands.1 operands.2 ++ "\n"
  let rule := String.ofList (List.replicate 60 '─')
  paint colour "1;36" "FetchXML condition operators" ++ "\n\n" ++
    row ("1;37", "Operator") ("1;37", "Family") ("1;37", "Operands") ++
    paint colour "2" rule ++ "\n" ++
    Text.join "" (Operator.all.map fun op =>
      row ("36", op.id) ("33", op.family.title) ("2", op.arity.phrase))

def usage : String :=
  "Usage: fetchxml [-c <config>] [-v] <command>\n" ++
  "Commands: convert [-d <dialect>] [--compact] [--tab-length <n>] [--use-alias-on-root] " ++
  "[--normalize-joins] <files>..., operators\n"

/-- Colours are off unless the environment asks for them. -/
def wantsColour (env : String → Option String) : Bool :=
  (env "CLICOLOR_FORCE").any (· != "0")

def run (s : Surroundings) (args : List String) : Outcome :=
  let colour := wantsColour s.env
  match Request.ofArguments (s.env "FETCHXML_CONFIG") args with
  | .error .usage => { exitCode := 2, stderr := usage }
  | .error .help => { exitCode := 0, stdout := usage }
  | .error .version => { exitCode := 0, stdout := "fetchxml 0.1.0\n" }
  | .ok .operators => { exitCode := 0, stdout := operatorTable colour }
  | .ok (.convert config given) => Outcome.ofEvents colour (convertEvents s config given)

def neededFiles (env : String → Option String) (args : List String) : List String :=
  match Request.ofArguments (env "FETCHXML_CONFIG") args with
  | .ok (.convert (some path) given) => path :: given.files
  | .ok (.convert none given) => settingsPaths env ++ given.files
  | _ => []

end FetchQuery.Command
