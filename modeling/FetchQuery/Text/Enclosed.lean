namespace FetchQuery.Text

def doubled (close : Char) : List Char → List Char
  | [] => []
  | c :: cs => if c = close then c :: c :: doubled close cs else c :: doubled close cs

def enclose (start close : Char) (s : String) : String :=
  String.ofList (start :: doubled close s.toList ++ [close])

/-- The text up to the first `close` that stands alone, and what follows it. -/
def undoubled? (close : Char) : List Char → Option (List Char × List Char)
  | [] => none
  | c :: cs =>
    if c = close then
      match cs with
      | [] => some ([], [])
      | d :: ds =>
        if d = close then (undoubled? close ds).map fun r => (c :: r.1, r.2)
        else some ([], d :: ds)
    else (undoubled? close cs).map fun r => (c :: r.1, r.2)

end FetchQuery.Text
