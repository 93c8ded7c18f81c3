import FetchQuery.Json.Basic

namespace FetchQuery.Json

def hexDigit (n : Nat) : Char :=
  Char.ofNat (if n < 10 then n + '0'.toNat else n - 10 + 'a'.toNat)

def escape (c : Char) : List Char :=
  if c = '"' then ['\\', '"']
  else if c = '\\' then ['\\', '\\']
  else if c = '\x08' then ['\\', 'b']
  else if c = '\x0c' then ['\\', 'f']
  else if c = '\n' then ['\\', 'n']
  else if c = '\r' then ['\\', 'r']
  else if c = '\t' then ['\\', 't']
  else if c < ' ' then ['\\', 'u', '0', '0', hexDigit (c.toNat / 16), hexDigit (c.toNat % 16)]
  else [c]

def stringChars (s : String) : List Char := '"' :: s.toList.flatMap escape ++ ['"']

def Number.chars : Number → List Char
  | integer n => (toString n).toList
  | real literal => literal.toList

mutual

def chars : Json → List Char
  | null => "null".toList
  | bool true => "true".toList
  | bool false => "false".toList
  | number n => n.chars
  | string s => stringChars s
  | array [] => ['[', ']']
  | array (j :: js) => '[' :: chars j ++ charsOfRest js ++ [']']
  | object [] => ['{', '}']
  | object (m :: ms) => '{' :: charsOfMember m ++ charsOfRestMembers ms ++ ['}']

def charsOfRest : List Json → List Char
  | [] => []
  | j :: js => ',' :: chars j ++ charsOfRest js

def charsOfMember : String × Json → List Char
  | (key, j) => stringChars key ++ ':' :: chars j

def charsOfRestMembers : List (String × Json) → List Char
  | [] => []
  | m :: ms => ',' :: charsOfMember m ++ charsOfRestMembers ms

end

def text (j : Json) : String := String.ofList j.chars

end FetchQuery.Json
