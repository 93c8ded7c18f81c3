namespace FetchQuery.Command

inductive ReadFailure where
  | missing | directory | notInDirectory | nameTooLong | notText
  /-- Any other failure, with what the system calls it and its number. -/
  | other (name : String) (code : Nat)
  deriving Repr, DecidableEq

namespace ReadFailure

def systemMessage (name : String) (code : Nat) : String :=
  name ++ " (os error " ++ toString code ++ ")"

def message : ReadFailure → String
  | missing => systemMessage "No such file or directory" 2
  | notInDirectory => systemMessage "Not a directory" 20
  | directory => systemMessage "Is a directory" 21
  | nameTooLong => systemMessage "File name too long" 36
  | notText => "stream did not contain valid UTF-8"
  | other name code => systemMessage name code

end ReadFailure

abbrev Content := Except ReadFailure String

namespace Content

/-- Whether the path leads to a file, be it readable as text or not. -/
def isFile : Content → Bool
  | .ok _ => true
  | .error failure => failure == .notText

def ofBytes (bytes : ByteArray) : Content :=
  match String.fromUTF8? bytes with
  | some s => .ok s
  | none => .error .notText

end Content

end FetchQuery.Command
