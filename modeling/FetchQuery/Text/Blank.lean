namespace FetchQuery.Text

def isBlank (c : Char) : Bool :=
  let n := c.toNat
  (0x9 ≤ n && n ≤ 0xD) || n == 0x20 || n == 0x85 || n == 0xA0 || n == 0x1680 ||
    (0x2000 ≤ n && n ≤ 0x200A) || n == 0x2028 || n == 0x2029 || n == 0x202F || n == 0x205F ||
    n == 0x3000

def dropBlanksEnd (cs : List Char) : List Char :=
  (cs.reverse.dropWhile isBlank).reverse

def dropBlanks (cs : List Char) : List Char :=
  dropBlanksEnd (cs.dropWhile isBlank)

def trimEnd (s : String) : String :=
  String.ofList (dropBlanksEnd s.toList)

def trim (s : String) : String :=
  String.ofList (dropBlanks s.toList)

end FetchQuery.Text
