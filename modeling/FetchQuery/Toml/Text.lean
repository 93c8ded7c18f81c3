import FetchQuery.Text.Integer
import FetchQuery.Toml.Basic

namespace FetchQuery.Toml

/-- The character with the given hexadecimal digits; surrogates are no characters. -/
def unicode? (digits : List Char) : Option Char := do
  let values ← digits.mapM Text.hexValue?
  let n := values.foldl (fun n d => 16 * n + d) 0
  if n.isValidChar then some (Char.ofNat n) else none

def escaped? : Char → Option Char
  | 'b' => some '\x08'
  | 't' => some '\t'
  | 'n' => some '\n'
  | 'f' => some '\x0c'
  | 'r' => some '\r'
  | '"' => some '"'
  | '\\' => some '\\'
  | _ => none

def consText (c : Char) (r : List Char × List Char) : List Char × List Char := (c :: r.1, r.2)

def basic? : List Char → Option (List Char × List Char)
  | [] => none
  | '"' :: cs => some ([], cs)
  | '\\' :: 'u' :: a :: b :: c :: d :: cs => do
    let ch ← unicode? [a, b, c, d]
    return consText ch (← basic? cs)
  | '\\' :: 'U' :: a :: b :: c :: d :: e :: f :: g :: h :: cs => do
    let ch ← unicode? [a, b, c, d, e, f, g, h]
    return consText ch (← basic? cs)
  | '\\' :: e :: cs => do
    let ch ← escaped? e
    return consText ch (← basic? cs)
  | c :: cs => if isPrintable c && c != '\\' then (basic? cs).map (consText c) else none

def literal? : List Char → Option (List Char × List Char)
  | [] => none
  | '\x27' :: cs => some ([], cs)
  | c :: cs => if isPrintable c then (literal? cs).map (consText c) else none

/-- The rest of a basic string on several lines. Up to two quotes may stand before the closing three.
A backslash at the end of a line also drops the blanks and line ends after it: `trim` says that some
are being dropped. -/
def basicLines? (trim : Bool) : List Char → Option (List Char × List Char)
  | [] => none
  | '"' :: '"' :: '"' :: '"' :: '"' :: cs => some (['"', '"'], cs)
  | '"' :: '"' :: '"' :: '"' :: cs => some (['"'], cs)
  | '"' :: '"' :: '"' :: cs => some ([], cs)
  | '\n' :: cs => if trim then basicLines? true cs else (basicLines? false cs).map (consText '\n')
  | '\r' :: '\n' :: cs =>
    if trim then basicLines? true cs else (basicLines? false cs).map (consText '\n')
  | '\\' :: 'u' :: a :: b :: c :: d :: cs => do
    let ch ← unicode? [a, b, c, d]
    return consText ch (← basicLines? false cs)
  | '\\' :: 'U' :: a :: b :: c :: d :: e :: f :: g :: h :: cs => do
    let ch ← unicode? [a, b, c, d, e, f, g, h]
    return consText ch (← basicLines? false cs)
  | '\\' :: c :: cs =>
    if (afterLineEnd? (skipSpaces (c :: cs))).isSome then basicLines? true (c :: cs)
    else do
      let ch ← escaped? c
      return consText ch (← basicLines? false cs)
  | c :: cs =>
    if trim && isSpace c then basicLines? true cs
    else if isPrintable c && c != '\\' then (basicLines? false cs).map (consText c)
    else none

def literalLines? : List Char → Option (List Char × List Char)
  | [] => none
  | '\x27' :: '\x27' :: '\x27' :: '\x27' :: '\x27' :: cs => some (['\x27', '\x27'], cs)
  | '\x27' :: '\x27' :: '\x27' :: '\x27' :: cs => some (['\x27'], cs)
  | '\x27' :: '\x27' :: '\x27' :: cs => some ([], cs)
  | '\n' :: cs => (literalLines? cs).map (consText '\n')
  | '\r' :: '\n' :: cs => (literalLines? cs).map (consText '\n')
  | c :: cs => if isPrintable c then (literalLines? cs).map (consText c) else none

/-- A line end right after the opening quotes is no part of the string. -/
def withoutFirstLineEnd (cs : List Char) : List Char := (afterLineEnd? cs).getD cs

def text? : List Char → Option (List Char × List Char)
  | '"' :: '"' :: '"' :: cs => basicLines? false (withoutFirstLineEnd cs)
  | '"' :: cs => basic? cs
  | '\x27' :: '\x27' :: '\x27' :: cs => literalLines? (withoutFirstLineEnd cs)
  | '\x27' :: cs => literal? cs
  | _ => none

end FetchQuery.Toml
