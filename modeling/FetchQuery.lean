import FetchQuery.Command.Arguments
import FetchQuery.Command.File
import FetchQuery.Command.Run
import FetchQuery.Document.Basic
import FetchQuery.Document.Json
import FetchQuery.Document.Statement
import FetchQuery.Fault
import FetchQuery.Json.Basic
import FetchQuery.Json.Number
import FetchQuery.Json.Reader
import FetchQuery.Json.Record
import FetchQuery.Json.Token
import FetchQuery.Json.Writer
import FetchQuery.Main
import FetchQuery.Operator.Basic
import FetchQuery.Operator.Lexicon
import FetchQuery.Proofs.ColumnText
import FetchQuery.Proofs.ConditionText
import FetchQuery.Proofs.Contents
import FetchQuery.Proofs.Draft
import FetchQuery.Proofs.Fallible
import FetchQuery.Proofs.FilterText
import FetchQuery.Proofs.FilterTree
import FetchQuery.Proofs.FilterTruth
import FetchQuery.Proofs.Phrase
import FetchQuery.Proofs.Place
import FetchQuery.Proofs.Scan
import FetchQuery.Proofs.StatementLayout
import FetchQuery.Proofs.StatementText
import FetchQuery.Proofs.TopLevel
import FetchQuery.Settings.Basic
import FetchQuery.Settings.Toml
import FetchQuery.Sql.Condition
import FetchQuery.Sql.Dialect
import FetchQuery.Sql.Formatter
import FetchQuery.Sql.Layout
import FetchQuery.Sql.Literal
import FetchQuery.Sql.Select
import FetchQuery.Statement.Basic
import FetchQuery.Statement.Draft
import FetchQuery.Statement.Json
import FetchQuery.Text.Blank
import FetchQuery.Text.Digit
import FetchQuery.Text.Double
import FetchQuery.Text.Enclosed
import FetchQuery.Text.Integer
import FetchQuery.Text.Split
import FetchQuery.Toml.Basic
import FetchQuery.Toml.DateTime
import FetchQuery.Toml.Number
import FetchQuery.Toml.Reader
import FetchQuery.Toml.Text
import FetchQuery.Toml.Value
import FetchQuery.Proofs.JoinOrder
import FetchQuery.Proofs.LiteralText
import FetchQuery.Proofs.ConditionFrame
import FetchQuery.Proofs.Readable
import FetchQuery.Proofs.Calendar
import FetchQuery.Proofs.StatementReading
import FetchQuery.Proofs.DateTest
import FetchQuery.Proofs.DateAgreement
import FetchQuery.Proofs.Lexicon
import FetchQuery.Proofs.LayoutOutcome
import FetchQuery.Proofs.DocumentFault
import FetchQuery.Proofs.Template
import FetchQuery.Proofs.StatementFault
import FetchQuery.Proofs.Qualification
import FetchQuery.Proofs.JoinNormalization
import FetchQuery.Proofs.TableNames
import FetchQuery.Proofs.ConditionColumn
import FetchQuery.Proofs.ColumnOwner
import FetchQuery.Proofs.DialectAgreement
import FetchQuery.Proofs.LiteralValue
import FetchQuery.Proofs.Batch
import FetchQuery.Proofs.JsonNumber
import FetchQuery.Proofs.JsonTokens
import FetchQuery.Proofs.JsonReading
import FetchQuery.Proofs.DocumentReading
import FetchQuery.Proofs.QuotedName
import FetchQuery.Proofs.ResultName
import FetchQuery.Proofs.CountBounds
import FetchQuery.Proofs.PatternMatch
import FetchQuery.Proofs.ClauseOrder
import FetchQuery.Proofs.StatementJson
import FetchQuery.Proofs.KeyColumns
import FetchQuery.Proofs.JsonOutcome
import FetchQuery.Proofs.MemberOrder
