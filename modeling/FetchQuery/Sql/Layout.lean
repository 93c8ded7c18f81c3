import FetchQuery.Text.Blank

namespace FetchQuery.Sql

structure LayoutOptions where
  /-- Whether the body of each clause stands on lines of its own. -/
  pretty : Bool := true
  /-- Fill characters for each level of indentation. -/
  tabLength : Nat := 3
  spaceChar : Char := ' '
  comma : String := ", "
  deriving Repr, DecidableEq

def LayoutOptions.compact : LayoutOptions := { pretty := false }

inductive Piece where
  | text (s : String)
  | space
  | lineBreak (level : Nat)
  | columnSeparator
  | comma
  deriving Repr, DecidableEq

abbrev Layout := List Piece

namespace Piece

def breakChars (o : LayoutOptions) (level : Nat) : List Char :=
  if o.pretty then '\n' :: List.replicate (level * o.tabLength) o.spaceChar else [o.spaceChar]

def columnSeparatorChars (o : LayoutOptions) : List Char :=
  if o.pretty then Text.dropBlanksEnd o.comma.toList ++ breakChars o 1 else o.comma.toList

def chars (o : LayoutOptions) : Piece → List Char
  | text s => s.toList
  | space => [o.spaceChar]
  | lineBreak level => breakChars o level
  | columnSeparator => columnSeparatorChars o
  | comma => o.comma.toList

end Piece

namespace Layout

def ofText (s : String) : Layout := [.text s]

def join (glue : Layout) (parts : List Layout) : Layout := List.intercalate glue parts

def render (o : LayoutOptions) (l : Layout) : String := String.ofList (l.flatMap (Piece.chars o))

end Layout

end FetchQuery.Sql
