import FetchQuery.Document.Statement
import FetchQuery.Sql.Select

namespace FetchQuery

structure Settings where
  dialect : Sql.Dialect := .sqlServer
  statement : Document.StatementOptions := {}
  layout : Sql.LayoutOptions := {}
  deriving Repr, DecidableEq

namespace Document

def sql (d : Document) (s : Settings) (e : Entity) : Except Fault String := do
  Sql.selectText s.dialect s.layout (← d.select s.statement e)

def sqls (d : Document) (s : Settings) : List (Except Fault String) := d.entities.map (d.sql s)

end Document

end FetchQuery
