import FetchQuery.Fault
import FetchQuery.Sql.Layout

namespace FetchQuery.Sql

/-- Writing under layout options, at a level of indentation that outlasts a fault. -/
abbrev Formatter := ReaderT LayoutOptions (ExceptT Fault (StateM Nat))

namespace Formatter

def run {α : Type} (x : Formatter α) (o : LayoutOptions) (level : Nat) : Except Fault α × Nat :=
  Id.run (StateT.run (ExceptT.run (ReaderT.run x o)) level)

/-- Writes one level deeper, and comes back from there even with a fault. -/
def nested {α : Type} (x : Formatter α) : Formatter α := do
  modify (· + 1)
  try x finally modify (· - 1)

def space : Formatter String := return String.singleton (← read).spaceChar

def lineBreak : Formatter String := do
  let o ← read
  if o.pretty then
    return String.ofList ('\n' :: List.replicate ((← get) * o.tabLength) o.spaceChar)
  else space

/-- Columns on lines of their own lose the blanks after the comma. -/
def columnSeparator : Formatter String := do
  let o ← read
  if o.pretty then return Text.trimEnd o.comma ++ (← lineBreak) else return o.comma

end Formatter

end FetchQuery.Sql
