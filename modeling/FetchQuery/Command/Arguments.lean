import FetchQuery.Sql.Dialect
import FetchQuery.Text.Integer
import FetchQuery.Text.Split

namespace FetchQuery.Command

inductive Flag where
  | config | verbose | dialect | compact | tabLength | aliasRoot | normalizeJoins | version | help
  deriving Repr, DecidableEq

namespace Flag

def longName : Flag → String
  | config => "config"
  | verbose => "verbose"
  | dialect => "dialect"
  | compact => "compact"
  | tabLength => "tab-length"
  | aliasRoot => "use-alias-on-root"
  | normalizeJoins => "normalize-joins"
  | version => "version"
  | help => "help"

def shortName? : Flag → Option Char
  | config => some 'c'
  | verbose => some 'v'
  | dialect => some 'd'
  | version => some 'V'
  | help => some 'h'
  | _ => none

def takesValue : Flag → Bool
  | config | dialect | tabLength => true
  | _ => false

end Flag

/-- Where in the arguments an option stands. -/
inductive Level where
  | root | convert | operators
  deriving Repr, DecidableEq

def Level.flags : Level → List Flag
  | root => [.config, .verbose, .version, .help]
  | convert =>
    [.config, .verbose, .dialect, .compact, .tabLength, .aliasRoot, .normalizeJoins, .help]
  | operators => [.config, .verbose, .help]

def Level.takesFiles : Level → Bool
  | convert => true
  | root | operators => false

inductive Stop where
  | usage | version | help
  deriving Repr, DecidableEq

structure Given where
  config : Option String := none
  verbose : Bool := false
  dialect : Option Sql.Dialect := none
  compact : Bool := false
  tabLength : Option Nat := none
  aliasRoot : Bool := false
  normalizeJoins : Bool := false
  files : List String := []

namespace Given

def isSet (g : Given) : Flag → Bool
  | .config => g.config.isSome
  | .verbose => g.verbose
  | .dialect => g.dialect.isSome
  | .compact => g.compact
  | .tabLength => g.tabLength.isSome
  | .aliasRoot => g.aliasRoot
  | .normalizeJoins => g.normalizeJoins
  | .version | .help => false

def orUsage {α : Type} : Option α → Except Stop α
  | some a => .ok a
  | none => .error .usage

def setValue (g : Given) (flag : Flag) (value : String) : Except Stop Given :=
  if g.isSet flag then .error .usage
  else match flag with
    | .config => if value = "" then .error .usage else .ok { g with config := some value }
    | .dialect => (orUsage (Sql.Dialect.ofName? value)).map fun d => { g with dialect := some d }
    | .tabLength =>
      (orUsage ((Text.readUnsigned? value.toList).filter (· < UInt64.size))).map
        fun n => { g with tabLength := some n }
    | _ => .error .usage

def setPlain (g : Given) (flag : Flag) : Except Stop Given :=
  if g.isSet flag then .error .usage
  else match flag with
    | .verbose => .ok { g with verbose := true }
    | .compact => .ok { g with compact := true }
    | .aliasRoot => .ok { g with aliasRoot := true }
    | .normalizeJoins => .ok { g with normalizeJoins := true }
    | .version => .error .version
    | .help => .error .help
    | _ => .error .usage

end Given

/-- What has been read at a level, with the option that still waits for its value. -/
structure Reading where
  given : Given := {}
  waiting : Option Flag := none

namespace Reading

/-- A long option without its hyphens; a value may follow an equals sign. -/
def long (r : Reading) (level : Level) (option : String) : Except Stop Reading :=
  let name := String.ofList (option.toList.takeWhile (· != '='))
  match level.flags.find? (·.longName == name) with
  | none => .error .usage
  | some flag =>
    match option.toList.dropWhile (· != '=') with
    | _ :: value => do return { given := ← r.given.setValue flag (String.ofList value) }
    | [] =>
      if flag.takesValue then
        if r.given.isSet flag then .error .usage else .ok { r with waiting := some flag }
      else do return { given := ← r.given.setPlain flag }

/-- A cluster of short options. The rest of it is the value of the first option that takes one. -/
def cluster (level : Level) : Reading → List Char → Except Stop Reading
  | r, [] => .ok r
  | r, c :: cs =>
    match level.flags.find? (·.shortName? == some c) with
    | none => .error .usage
    | some flag =>
      if flag.takesValue then
        match cs with
        | [] => if r.given.isSet flag then .error .usage else .ok { r with waiting := some flag }
        | '=' :: value => do return { given := ← r.given.setValue flag (String.ofList value) }
        | value => do return { given := ← r.given.setValue flag (String.ofList value) }
      else do cluster level { given := ← r.given.setPlain flag } cs

end Reading

/-- Reads the arguments of one level. At the root it stops before the subcommand and returns what is
left; after the subcommand all that is no option is a file, where the subcommand takes files. -/
def readLevel (level : Level) : Reading → List String → Except Stop (Given × List String)
  | r, [] => if r.waiting.isSome then .error .usage else .ok (r.given, [])
  | r, arg :: args =>
    match arg.toList with
    | '-' :: c :: cs =>
      if r.waiting.isSome then .error .usage
      else if c = '-' then
        if cs.isEmpty then
          if !level.takesFiles && (level = .root || !args.isEmpty) then .error .usage
          else .ok ({ r.given with files := r.given.files ++ args }, [])
        else do readLevel level (← r.long level (String.ofList cs)) args
      else do readLevel level (← Reading.cluster level r (c :: cs)) args
    | _ =>
      match r.waiting with
      | some flag => do readLevel level { given := ← r.given.setValue flag arg } args
      | none =>
        if level = .root then .ok (r.given, arg :: args)
        else if !level.takesFiles then .error .usage
        else readLevel level { given := { r.given with files := r.given.files ++ [arg] } } args

inductive Request where
  | operators
  | convert (config : Option String) (given : Given)

/-- The configuration file: named after the subcommand, before it, or by the environment. The
environment must name one wherever the arguments do not. -/
def configPath (env : Option String) (root sub : Given) : Except Stop (Option String) :=
  if env = some "" && (root.config.isNone || sub.config.isNone) then .error .usage
  else .ok (sub.config.or (root.config.or env))

def commandNames : List String := ["convert", "operators", "help"]

def Request.ofArguments (env : Option String) (args : List String) : Except Stop Request := do
  let (root, rest) ← readLevel .root {} args
  match rest with
  | "convert" :: args =>
    let (sub, _) ← readLevel .convert {} args
    let config ← configPath env root sub
    if sub.files.isEmpty then .error .usage else .ok (.convert config sub)
  | "operators" :: args =>
    let (sub, _) ← readLevel .operators {} args
    let _ ← configPath env root sub
    .ok .operators
  | ["help"] => .error .help
  | ["help", name] => .error (if commandNames.contains name then .help else .usage)
  | _ => .error .usage

end FetchQuery.Command
