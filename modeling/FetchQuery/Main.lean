import FetchQuery.Command.Run

namespace FetchQuery.Command

/-- The number of a system error, which may come as its negative. -/
def errorNumber (code : UInt32) : Nat := (if code < 0 - code then code else 0 - code).toNat

def failureOf : IO.Error → ReadFailure
  | .noFileOrDirectory .. => .missing
  | .inappropriateType _ code _ => if errorNumber code = 20 then .notInDirectory else .directory
  | .permissionDenied .. => .other "Permission denied" 13
  | .invalidArgument _ code name =>
    if errorNumber code = 36 then .nameTooLong else .other name (errorNumber code)
  | e => .other (toString e) 5

def contentOf (read : IO ByteArray) : IO Content := do
  try
    return Content.ofBytes (← read)
  catch e => return .error (failureOf e)

def environmentNames : List String := ["FETCHXML_CONFIG", "CLICOLOR_FORCE", "XDG_CONFIG_HOME", "HOME"]

end FetchQuery.Command

open FetchQuery.Command in
def main (args : List String) : IO UInt32 := do
  let environment ← environmentNames.mapM fun name => return (name, ← IO.getEnv name)
  let env (name : String) : Option String := (environment.lookup name).join
  let needed := neededFiles env args
  let contents ← needed.mapM fun (path : String) => return (path, ← contentOf (IO.FS.readBinFile path))
  let stdin ← if needed.contains "-" then contentOf (← IO.getStdin).readBinToEnd else pure (.ok "")
  let file (path : String) : Content := (contents.lookup path).getD (.error .missing)
  let outcome := run {
    file, stdin, env
    documentComplaint := fun _ => "not a query in JSON"
    settingsComplaint := fun _ => "not a table of settings" } args
  IO.print outcome.stdout
  IO.eprint outcome.stderr
  return outcome.exitCode
